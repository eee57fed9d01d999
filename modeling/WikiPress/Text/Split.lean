/-!
# Cutting texts

Cutting a text at the first occurrence of a character or of two characters in a row, at every
occurrence of a character, and behind a fixed beginning or before a fixed end. Each cut keeps
the parts as they stand, so the parts and what was cut out make up the text again.
-/

namespace WikiPress.Text

/-- The parts before and behind the first `mark`. -/
def cut (mark : Char) : List Char → Option (List Char × List Char)
  | [] => none
  | c :: rest =>
    if c = mark then some ([], rest)
    else (cut mark rest).map fun (before, behind) => (c :: before, behind)

/-- The parts before and behind the first `first` that `second` follows at once. -/
def cutPair (first second : Char) : List Char → Option (List Char × List Char)
  | [] => none
  | [_] => none
  | c :: d :: rest =>
    if c = first ∧ d = second then some ([], rest)
    else (cutPair first second (d :: rest)).map fun (before, behind) => (c :: before, behind)

/-- The parts between the marks: one more than there are marks. -/
def pieces (mark : Char) : List Char → List (List Char)
  | [] => [[]]
  | c :: rest =>
    if c = mark then [] :: pieces mark rest
    else match pieces mark rest with
      | [] => [[c]]
      | piece :: more => (c :: piece) :: more

/-- The parts of a list of pieces written with the mark between them. -/
def joined (mark : Char) : List (List Char) → List Char
  | [] => []
  | [piece] => piece
  | piece :: more => piece ++ mark :: joined mark more

/-- What follows the fixed beginning, if the text has it. -/
def after? (opening : String) (text : List Char) : Option (List Char) :=
  opening.toList.isPrefixOf? text

/-- What stands before the last character, if that is `mark`. -/
def before? (mark : Char) (text : List Char) : Option (List Char) :=
  if text.getLast? = some mark then some text.dropLast else none

/-- The lines of a text: what its line feeds end, without a carriage return in front of the feed, and
what stands behind the last one, if that is anything. -/
def lines (text : List Char) : List (List Char) :=
  (pieces '\n' text).dropLast.map (fun line => (before? '\r' line).getD line) ++
    (pieces '\n' text).getLast?.toList.filter (· ≠ [])

/-- The texts one after another. -/
def concat : List String → String
  | [] => ""
  | text :: more => text ++ concat more

/-- A text repeated. -/
def repeated (text : String) : Nat → String
  | 0 => ""
  | n + 1 => text ++ repeated text n

/-- The parts of a cut with the mark between them are the text again. -/
theorem cut_eq {mark : Char} {text before behind : List Char}
    (h : cut mark text = some (before, behind)) : text = before ++ mark :: behind := by
  induction text generalizing before with
  | nil => simp [cut] at h
  | cons c rest ih =>
    simp only [cut] at h
    split at h
    · next same => simp_all
    · simp only [Option.map_eq_some_iff, Prod.exists, Prod.mk.injEq] at h
      obtain ⟨b, d, found, rfl, rfl⟩ := h
      simp [ih found]

/-- The parts of a cut with the two marks between them are the text again. -/
theorem cutPair_eq {first second : Char} {text before behind : List Char}
    (h : cutPair first second text = some (before, behind)) :
    text = before ++ first :: second :: behind := by
  fun_induction cutPair first second text generalizing before with
  | case1 => simp at h
  | case2 => simp at h
  | case3 c d rest same => simp_all
  | case4 c d rest different ih =>
    simp only [Option.map_eq_some_iff, Prod.exists, Prod.mk.injEq] at h
    obtain ⟨b, e, found, rfl, rfl⟩ := h
    simp [ih found]

/-- There is a piece even of an empty text. -/
theorem pieces_ne_nil (mark : Char) (text : List Char) : pieces mark text ≠ [] := by
  cases text with
  | nil => simp [pieces]
  | cons c rest =>
    simp only [pieces]
    split
    · simp
    · split <;> simp

/-- The pieces with the mark between them are the text again. -/
theorem joined_pieces (mark : Char) (text : List Char) :
    joined mark (pieces mark text) = text := by
  induction text with
  | nil => rfl
  | cons c rest ih =>
    simp only [pieces]
    split
    · next same =>
      cases h : pieces mark rest with
      | nil => exact absurd h (pieces_ne_nil mark rest)
      | cons piece more => rw [h] at ih; simp [joined, ih, same]
    · split
      · next h => exact absurd h (pieces_ne_nil mark rest)
      · next piece more h =>
        rw [h] at ih
        cases more with
        | nil => simpa [joined] using ih
        | cons next others => simpa [joined] using ih

end WikiPress.Text

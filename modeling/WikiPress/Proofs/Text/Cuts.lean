import Mathlib.Data.List.Basic
import WikiPress.Text.Split

/-!
# Cuts at marks

A cut succeeds where the mark occurs and takes the first occurrence, so its parts are determined
by the text and bring in no characters. The pieces between all marks hold none, and pieces without a
mark are found again in the text that they are joined to, or that ends each of them with the mark or
with a pair of marks.
-/

namespace WikiPress.Text

variable {mark : Char} {text before behind : List Char}

/-- The part before a cut does not hold the mark. -/
theorem not_mem_of_cut (found : cut mark text = some (before, behind)) : mark ∉ before := by
  induction text generalizing before with
  | nil => simp [cut] at found
  | cons c rest ih =>
    rw [cut] at found
    split at found
    · obtain ⟨rfl, rfl⟩ := Prod.mk.inj (Option.some.inj found)
      exact List.not_mem_nil
    · next other =>
      obtain ⟨⟨first, later⟩, inner, same⟩ := Option.map_eq_some_iff.1 found
      obtain ⟨rfl, rfl⟩ := Prod.mk.inj same
      rw [List.mem_cons, not_or]
      exact ⟨fun same => other same.symm, ih inner⟩

/-- A text that goes on with the mark behind a part without one is cut there. -/
theorem cut_append (absent : mark ∉ before) (behind : List Char) :
    cut mark (before ++ mark :: behind) = some (before, behind) := by
  induction before with
  | nil => rw [List.nil_append, cut, if_pos rfl]
  | cons c rest ih =>
    rw [List.mem_cons, not_or] at absent
    rw [List.cons_append, cut, if_neg fun same => absent.1 same.symm, ih absent.2]
    rfl

/-- A text is cut at the first mark. -/
theorem cut_eq_some_iff :
    cut mark text = some (before, behind) ↔ text = before ++ mark :: behind ∧ mark ∉ before := by
  constructor
  · intro found
    exact ⟨cut_eq found, not_mem_of_cut found⟩
  · rintro ⟨rfl, absent⟩
    exact cut_append absent behind

/-- A text without the mark is not cut. -/
theorem cut_eq_none_iff : cut mark text = none ↔ mark ∉ text := by
  induction text with
  | nil => simp [cut]
  | cons c rest ih =>
    rw [cut, List.mem_cons, not_or, ← ih]
    by_cases same : c = mark
    · simp [same]
    · simp [same, Ne.symm same]

/-- What stands before a last mark. -/
theorem before?_eq_some_iff : before? mark text = some before ↔ text = before ++ [mark] := by
  unfold before?
  constructor
  · intro found
    split at found
    · next last =>
      obtain ⟨start, rfl⟩ := List.getLast?_eq_some_iff.1 last
      rw [List.dropLast_concat] at found
      rw [Option.some.inj found]
    · simp at found
  · rintro rfl
    simp

/-- A part without the first character of a pair goes in front of where a text is cut at the pair.
-/
theorem cutPair_skip {first second : Char} (absent : first ∉ before) (text : List Char) :
    cutPair first second (before ++ text) =
      (cutPair first second text).map fun cut => (before ++ cut.1, cut.2) := by
  induction before with
  | nil => exact Option.map_id'.symm
  | cons c more ih =>
    rw [List.mem_cons, not_or] at absent
    have other (d : Char) : ¬(c = first ∧ d = second) := fun both => absent.1 both.1.symm
    have skipped : cutPair first second (c :: (more ++ text)) =
        (cutPair first second (more ++ text)).map fun cut => (c :: cut.1, cut.2) := by
      cases more ++ text with
      | nil => rfl
      | cons d rest => rw [cutPair, if_neg (other d)]
    rw [List.cons_append, skipped, ih absent.2, Option.map_map]
    rfl

/-- A text that begins with the first character of a pair is cut there where the second one
follows. -/
theorem cutPair_first {first second : Char} (text : List Char) :
    cutPair first second (first :: text) =
      if text.head? = some second then some ([], text.tail)
      else (cutPair first second text).map fun cut => (first :: cut.1, cut.2) := by
  cases text with
  | nil => rfl
  | cons d rest => simp [cutPair]

/-- No piece holds the mark. -/
theorem not_mem_of_mem_pieces {piece : List Char} (member : piece ∈ pieces mark text) :
    mark ∉ piece := by
  induction text generalizing piece with
  | nil =>
    obtain rfl := List.mem_singleton.1 member
    exact List.not_mem_nil
  | cons c rest ih =>
    rw [pieces] at member
    split at member
    · obtain rfl | later := List.mem_cons.1 member
      · exact List.not_mem_nil
      · exact ih later
    · next other =>
      cases found : pieces mark rest with
      | nil => exact absurd found (pieces_ne_nil mark rest)
      | cons first more =>
        simp only [found] at member ih
        obtain rfl | later := List.mem_cons.1 member
        · rw [List.mem_cons, not_or]
          exact ⟨fun same => other same.symm, ih List.mem_cons_self⟩
        · exact ih (List.mem_cons_of_mem _ later)

/-- A piece in front of a mark is the first of all pieces. -/
theorem pieces_append {piece : List Char} (absent : mark ∉ piece) (rest : List Char) :
    pieces mark (piece ++ mark :: rest) = piece :: pieces mark rest := by
  induction piece with
  | nil => rw [List.nil_append, pieces, if_pos rfl]
  | cons c more ih =>
    rw [List.mem_cons, not_or] at absent
    rw [List.cons_append, pieces, if_neg fun same => absent.1 same.symm, ih absent.2]

/-- A mark divides the pieces of a text. -/
theorem pieces_break (before behind : List Char) :
    pieces mark (before ++ mark :: behind) = pieces mark before ++ pieces mark behind := by
  induction before with
  | nil => simp [pieces]
  | cons c rest ih =>
    rw [List.cons_append, pieces, pieces, ih]
    by_cases same : c = mark
    · rw [if_pos same, if_pos same, List.cons_append]
    · rw [if_neg same, if_neg same]
      cases found : pieces mark rest with
      | nil => exact absurd found (pieces_ne_nil mark rest)
      | cons piece more => rfl

/-- Behind another text, a text continues the last piece of that one. -/
theorem exists_pieces_append (mark : Char) (before : List Char) :
    ∃ front stem, ∀ behind, ∃ first rest, pieces mark behind = first :: rest ∧
      pieces mark (before ++ behind) = front ++ (stem ++ first) :: rest := by
  induction before with
  | nil =>
    refine ⟨[], [], fun behind => ?_⟩
    obtain ⟨first, rest, shape⟩ := List.exists_cons_of_ne_nil (pieces_ne_nil mark behind)
    exact ⟨first, rest, shape, shape⟩
  | cons c more ih =>
    obtain ⟨front, stem, split⟩ := ih
    by_cases same : c = mark
    · refine ⟨[] :: front, stem, fun behind => ?_⟩
      obtain ⟨first, rest, shape, whole⟩ := split behind
      exact ⟨first, rest, shape, by rw [List.cons_append, pieces, if_pos same, whole]; rfl⟩
    · cases front with
      | nil =>
        refine ⟨[], c :: stem, fun behind => ?_⟩
        obtain ⟨first, rest, shape, whole⟩ := split behind
        refine ⟨first, rest, shape, ?_⟩
        simp only [List.cons_append, pieces, if_neg same, whole, List.nil_append]
      | cons piece others =>
        refine ⟨(c :: piece) :: others, stem, fun behind => ?_⟩
        obtain ⟨first, rest, shape, whole⟩ := split behind
        refine ⟨first, rest, shape, ?_⟩
        simp only [List.cons_append, pieces, if_neg same, whole]

/-- A text without the mark is its only piece. -/
theorem pieces_of_not_mem (absent : mark ∉ text) : pieces mark text = [text] := by
  induction text with
  | nil => rfl
  | cons c rest ih =>
    rw [List.mem_cons, not_or] at absent
    rw [pieces, if_neg fun same => absent.1 same.symm, ih absent.2]

/-- A character that is not the mark is in a text where it is in one of the pieces. -/
theorem exists_mem_pieces_iff {c : Char} (other : c ≠ mark) :
    (∃ piece ∈ pieces mark text, c ∈ piece) ↔ c ∈ text := by
  induction text with
  | nil => simp [pieces]
  | cons first rest ih =>
    rw [List.mem_cons, ← ih, pieces]
    by_cases same : first = mark
    · simp [same, other]
    · cases found : pieces mark rest with
      | nil => exact absurd found (pieces_ne_nil mark rest)
      | cons piece more => simp [same, or_assoc]

/-- A piece is of the text. -/
theorem subset_of_mem_pieces {piece : List Char} (member : piece ∈ pieces mark text) :
    piece ⊆ text := by
  intro c inside
  have other : c ≠ mark := fun same => not_mem_of_mem_pieces member (same ▸ inside)
  exact (exists_mem_pieces_iff other).1 ⟨piece, member, inside⟩

/-- Pieces without the mark are found again in the joined text. -/
theorem pieces_joined {parts : List (List Char)} (some : parts ≠ [])
    (absent : ∀ piece ∈ parts, mark ∉ piece) : pieces mark (joined mark parts) = parts := by
  induction parts with
  | nil => exact absurd rfl some
  | cons piece more ih =>
    rw [List.forall_mem_cons] at absent
    cases more with
    | nil => rw [joined, pieces_of_not_mem absent.1]
    | cons next others =>
      rw [joined, pieces_append absent.1, ih (List.cons_ne_nil _ _) absent.2]
      exact fun single => absurd single (List.cons_ne_nil _ _)

/-- A text that ends each of its first pieces with the mark goes on with those of the rest. -/
theorem pieces_ended {parts : List (List Char)} (absent : ∀ piece ∈ parts, mark ∉ piece)
    (rest : List Char) :
    pieces mark (parts.flatMap (· ++ [mark]) ++ rest) = parts ++ pieces mark rest := by
  induction parts with
  | nil => rfl
  | cons piece more ih =>
    rw [List.forall_mem_cons] at absent
    rw [List.flatMap_cons, List.append_assoc, List.append_assoc, List.singleton_append,
      pieces_append absent.1, ih absent.2, List.cons_append]

/-- A mark behind each of the pieces is one between any two and one at the end. -/
theorem flatMap_ended {parts : List (List Char)} (some : parts ≠ []) :
    parts.flatMap (· ++ [mark]) = joined mark parts ++ [mark] := by
  induction parts with
  | nil => exact absurd rfl some
  | cons piece more ih =>
    cases more with
    | nil => rw [List.flatMap_singleton, joined]
    | cons next others =>
      have step : joined mark (piece :: next :: others) =
          piece ++ mark :: joined mark (next :: others) := rfl
      rw [List.flatMap_cons, ih (List.cons_ne_nil _ _), step]
      simp

/-- Joining is writing the mark between the pieces. -/
theorem joined_eq_intercalate (mark : Char) (parts : List (List Char)) :
    joined mark parts = [mark].intercalate parts := by
  induction parts with
  | nil => rfl
  | cons piece more ih =>
    cases more with
    | nil => simp [joined]
    | cons next others =>
      rw [joined, ih, List.intercalate_cons_cons]
      · simp
      · exact fun single => absurd single (List.cons_ne_nil _ _)

/-- The pieces are what the list library splits a text into. -/
theorem pieces_eq_splitOn (mark : Char) (text : List Char) :
    pieces mark text = text.splitOn mark := by
  have absent : ∀ piece ∈ pieces mark text, mark ∉ piece := fun _ => not_mem_of_mem_pieces
  have again := List.splitOn_intercalate mark absent (pieces_ne_nil mark text)
  rwa [← joined_eq_intercalate, joined_pieces, eq_comm] at again

/-- The parts between the pairs of marks, taken from the left: one more than there are pairs. -/
def piecesPair (first second : Char) : List Char → List (List Char)
  | [] => [[]]
  | [c] => [[c]]
  | c :: d :: rest =>
    if c = first ∧ d = second then [] :: piecesPair first second rest
    else match piecesPair first second (d :: rest) with
      | [] => [[c]]
      | piece :: more => (c :: piece) :: more

/-- A piece in front of a pair of marks is the first of all pieces. -/
theorem piecesPair_append {first second : Char} {piece : List Char} (absent : first ∉ piece)
    (rest : List Char) : piecesPair first second (piece ++ first :: second :: rest) =
      piece :: piecesPair first second rest := by
  induction piece with
  | nil => rw [List.nil_append, piecesPair, if_pos ⟨rfl, rfl⟩]
  | cons c more ih =>
    rw [List.mem_cons, not_or] at absent
    have other (d : Char) : ¬(c = first ∧ d = second) := fun both => absent.1 both.1.symm
    have later := ih absent.2
    cases more with
    | nil =>
      rw [List.nil_append] at later
      rw [List.singleton_append, piecesPair, if_neg (other _), later]
    | cons d others =>
      rw [List.cons_append] at later
      rw [List.cons_append, List.cons_append, piecesPair, if_neg (other _), later]

/-- A text that ends each of its first pieces with the pair goes on with those of the rest. -/
theorem piecesPair_ended {first second : Char} {parts : List (List Char)}
    (absent : ∀ piece ∈ parts, first ∉ piece) (rest : List Char) :
    piecesPair first second (parts.flatMap (· ++ [first, second]) ++ rest) =
      parts ++ piecesPair first second rest := by
  induction parts with
  | nil => rfl
  | cons piece more ih =>
    rw [List.forall_mem_cons] at absent
    rw [List.flatMap_cons, List.append_assoc, List.append_assoc, List.cons_append,
      List.singleton_append, piecesPair_append absent.1, ih absent.2, List.cons_append]

/-- Texts one after another hold the characters of each. -/
theorem toList_concat (texts : List String) :
    (concat texts).toList = texts.flatMap String.toList := by
  induction texts with
  | nil => rfl
  | cons text more ih => rw [concat, String.toList_append, ih, List.flatMap_cons]

/-- What follows a fixed beginning is of the text. -/
theorem after?_subset {opening : String} (found : after? opening text = some behind) :
    behind ⊆ text := by
  rw [← List.append_eq_of_isPrefixOf?_eq_some found]
  exact List.subset_append_right _ _

/-- The parts of a cut are of the text. -/
theorem cut_subset (found : cut mark text = some (before, behind)) : before ++ behind ⊆ text := by
  rw [cut_eq found]
  exact List.append_subset.2 ⟨List.subset_append_left _ _,
    List.subset_append_of_subset_right _ (List.subset_cons_self _ _)⟩

/-- The parts of a cut at two characters are of the text. -/
theorem cutPair_subset {first second : Char}
    (found : cutPair first second text = some (before, behind)) : before ++ behind ⊆ text := by
  rw [cutPair_eq found]
  refine List.append_subset.2 ⟨List.subset_append_left _ _, ?_⟩
  intro c member
  simp [member]

end WikiPress.Text

import WikiPress.Document.Style

/-!
# Markers

A marker is written around a stretch of text to style it. Three facts about its end are fixed
here: the text is not empty, the closing marker does not follow a space, and a single marker
character next to another one belongs to a doubled marker and ends nothing.
-/

namespace WikiPress

/-- A mark around styled text. -/
inductive Marker where
  | bold
  | italic
  | underline
  | sup
  | sub
  | strike
  deriving DecidableEq

namespace Marker

/-- The character that a marker is written with. -/
def char : Marker → Char
  | bold => '*'
  | italic => '*'
  | underline => '_'
  | sup => '^'
  | sub => ','
  | strike => '~'

/-- The marker is written twice on each side. -/
def isDoubled : Marker → Bool
  | italic => false
  | sup => false
  | _ => true

/-- The written marker. -/
def sigil (m : Marker) : List Char := if m.isDoubled then [m.char, m.char] else [m.char]

/-- The style of the text between the marks. -/
def style : Marker → Style
  | bold => { bold := true }
  | italic => { italic := true }
  | underline => { underline := true }
  | sup => { sup := true }
  | sub => { sub := true }
  | strike => { strike := true }

/-- The marker at the front of a text, and the text behind it. Two stars are never read as one
star and another. -/
def opening? : List Char → Option (Marker × List Char)
  | '*' :: '*' :: rest => some (bold, rest)
  | '*' :: rest => some (italic, rest)
  | '_' :: '_' :: rest => some (underline, rest)
  | '^' :: rest => some (sup, rest)
  | ',' :: ',' :: rest => some (sub, rest)
  | '~' :: '~' :: rest => some (strike, rest)
  | _ => none

/-- The text before and behind the first pair of marks that does not follow a space; `before` is
the character in front of the text. -/
def closingPair (mark before : Char) : List Char → Option (List Char × List Char)
  | [] => none
  | [_] => none
  | c :: d :: rest =>
    if c = mark ∧ d = mark ∧ before ≠ ' ' then some ([], rest)
    else (closingPair mark c (d :: rest)).map fun (inside, behind) => (c :: inside, behind)

/-- The text before and behind the first single mark that does not follow a space, where two
marks in a row are passed over together; `before` is the character in front of the text. -/
def closingSingle (mark before : Char) : List Char → Option (List Char × List Char)
  | [] => none
  | [c] => if c = mark ∧ before ≠ ' ' then some ([], []) else none
  | c :: d :: rest =>
    if c = mark ∧ d = mark then
      (closingSingle mark mark rest).map fun (inside, behind) => (c :: d :: inside, behind)
    else if c = mark ∧ before ≠ ' ' then some ([], d :: rest)
    else (closingSingle mark c (d :: rest)).map fun (inside, behind) => (c :: inside, behind)

/-- The text up to the closing marker and the text behind it. The front of the text counts as
following a space: nothing closes there, so the styled text is not empty. -/
def closing? (m : Marker) (text : List Char) : Option (List Char × List Char) :=
  if m.isDoubled then closingPair m.char ' ' text else closingSingle m.char ' ' text

/-- What a marker at the front of a text encloses, and the text behind its end. A space behind
the opening marker, or nothing at all, opens nothing. -/
def enclosed? (text : List Char) : Option (Marker × List Char × List Char) :=
  match opening? text with
  | none => none
  | some (_, []) => none
  | some (_, ' ' :: _) => none
  | some (m, rest) => (m.closing? rest).map fun (inside, behind) => (m, inside, behind)

/-- An opening marker takes characters. -/
theorem length_opening? {text rest : List Char} {m : Marker}
    (h : opening? text = some (m, rest)) : rest.length < text.length := by
  unfold opening? at h
  split at h <;> simp only [Option.some.injEq, Prod.mk.injEq, reduceCtorEq] at h <;>
    obtain ⟨_, rfl⟩ := h <;> simp only [List.length_cons] <;> omega

/-- The two sides of a closing pair are together shorter than the text. -/
theorem length_closingPair {mark before : Char} {text inside behind : List Char}
    (h : closingPair mark before text = some (inside, behind)) :
    inside.length + behind.length < text.length := by
  fun_induction closingPair mark before text generalizing inside with
  | case1 => simp at h
  | case2 => simp at h
  | case3 before c d rest found =>
    simp only [Option.some.injEq, Prod.mk.injEq] at h
    obtain ⟨rfl, rfl⟩ := h
    simp only [List.length_cons, List.length_nil]
    omega
  | case4 before c d rest other ih =>
    simp only [Option.map_eq_some_iff, Prod.exists, Prod.mk.injEq] at h
    obtain ⟨i, b, found, rfl, rfl⟩ := h
    have := ih found
    simp only [List.length_cons] at this ⊢
    omega

/-- The two sides of a single closing mark are together shorter than the text. -/
theorem length_closingSingle {mark before : Char} {text inside behind : List Char}
    (h : closingSingle mark before text = some (inside, behind)) :
    inside.length + behind.length < text.length := by
  fun_induction closingSingle mark before text generalizing inside with
  | case1 => simp at h
  | case2 before c found => simp_all
  | case3 => simp at h
  | case4 before c d rest found ih =>
    simp only [Option.map_eq_some_iff, Prod.exists, Prod.mk.injEq] at h
    obtain ⟨i, b, found, rfl, rfl⟩ := h
    have := ih found
    simp only [List.length_cons] at this ⊢
    omega
  | case5 before c d rest _ found => simp_all
  | case6 before c d rest _ _ ih =>
    simp only [Option.map_eq_some_iff, Prod.exists, Prod.mk.injEq] at h
    obtain ⟨i, b, found, rfl, rfl⟩ := h
    have := ih found
    simp only [List.length_cons] at this ⊢
    omega

/-- The two sides of a closing marker are together shorter than the text. -/
theorem length_closing? {m : Marker} {text inside behind : List Char}
    (h : m.closing? text = some (inside, behind)) :
    inside.length + behind.length < text.length := by
  unfold closing? at h
  split at h
  · exact length_closingPair h
  · exact length_closingSingle h

/-- The enclosed text and the text behind it are together shorter than the text they are from. -/
theorem length_enclosed? {text inside behind : List Char} {m : Marker}
    (h : enclosed? text = some (m, inside, behind)) :
    inside.length + behind.length < text.length := by
  unfold enclosed? at h
  split at h
  · simp at h
  · simp at h
  · simp at h
  · next n rest _ _ opened =>
    simp only [Option.map_eq_some_iff, Prod.exists, Prod.mk.injEq] at h
    obtain ⟨i, b, found, _, rfl, rfl⟩ := h
    have := length_opening? opened
    have := length_closing? found
    omega

end Marker

end WikiPress

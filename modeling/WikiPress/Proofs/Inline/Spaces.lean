import WikiPress.Proofs.Inline.Content

/-!
# Spaces behind a line

A space is part of no mark that opens or ends something, so a line with a space behind it is read as
the line is, and the space is left over (`Construct.read?_spaced`). It is shown, also where a
backslash stands in front of it, so lines that differ in the number of spaces behind them never come
out alike (`spacesOf_replicate`).
-/

namespace WikiPress

/-- What was read from the front of a text, with a space behind the rest. -/
def spaced {α : Type} (found : α × List Char) : α × List Char := (found.1, found.2 ++ [' '])

namespace Text

/-- A space behind a text does not change where the text is cut. -/
theorem cut_spaced {mark : Char} (other : ' ' ≠ mark) (text : List Char) :
    cut mark (text ++ [' ']) = (cut mark text).map spaced := by
  induction text with
  | nil =>
    show cut mark [' '] = none
    rw [cut, if_neg other]
    rfl
  | cons c rest ih =>
    rw [List.cons_append, cut, cut, ih]
    split
    · rfl
    · rw [Option.map_map, Option.map_map]
      rfl

/-- A space behind a text does not change where the text is cut at two characters. -/
theorem cutPair_spaced {first second : Char} (other : ' ' ≠ second) (text : List Char) :
    cutPair first second (text ++ [' ']) = (cutPair first second text).map spaced := by
  fun_induction cutPair first second text with
  | case1 => rfl
  | case2 c =>
    show cutPair first second [c, ' '] = none
    rw [cutPair, if_neg fun pair => other pair.2]
    rfl
  | case3 c d rest found =>
    show cutPair first second (c :: d :: (rest ++ [' '])) = _
    rw [cutPair, if_pos found]
    rfl
  | case4 c d rest apart ih =>
    show cutPair first second (c :: d :: (rest ++ [' '])) = _
    rw [cutPair, if_neg apart, ← List.cons_append, ih, Option.map_map, Option.map_map]
    rfl

end Text

namespace Marker

variable {text : List Char}

/-- A space behind a text does not close a pair. -/
theorem closingPair_spaced {mark before : Char} (other : ' ' ≠ mark) (text : List Char) :
    closingPair mark before (text ++ [' ']) = (closingPair mark before text).map spaced := by
  fun_induction closingPair mark before text with
  | case1 => rfl
  | case2 before c =>
    show closingPair mark before [c, ' '] = none
    rw [closingPair, if_neg fun pair => other pair.2.1]
    rfl
  | case3 before c d rest found =>
    show closingPair mark before (c :: d :: (rest ++ [' '])) = _
    rw [closingPair, if_pos found]
    rfl
  | case4 before c d rest apart ih =>
    show closingPair mark before (c :: d :: (rest ++ [' '])) = _
    rw [closingPair, if_neg apart, ← List.cons_append, ih, Option.map_map, Option.map_map]
    rfl

/-- A space behind a text does not close what a single mark opens. -/
theorem closingSingle_spaced {mark before : Char} (other : ' ' ≠ mark) (text : List Char) :
    closingSingle mark before (text ++ [' ']) = (closingSingle mark before text).map spaced := by
  fun_induction closingSingle mark before text with
  | case1 =>
    show closingSingle mark _ [' '] = none
    rw [closingSingle, if_neg fun single => other single.1]
  | case2 before c found =>
    show closingSingle mark before [c, ' '] = _
    rw [closingSingle, if_neg fun pair => other pair.2, if_pos found]
    rfl
  | case3 before c open_ =>
    show closingSingle mark before [c, ' '] = _
    rw [closingSingle, if_neg fun pair => other pair.2, if_neg open_, closingSingle,
      if_neg fun single => other single.1]
    rfl
  | case4 before c d rest pair ih =>
    show closingSingle mark before (c :: d :: (rest ++ [' '])) = _
    rw [closingSingle, if_pos pair, ih, Option.map_map, Option.map_map]
    rfl
  | case5 before c d rest apart found =>
    show closingSingle mark before (c :: d :: (rest ++ [' '])) = _
    rw [closingSingle, if_neg apart, if_pos found]
    rfl
  | case6 before c d rest apart open_ ih =>
    show closingSingle mark before (c :: d :: (rest ++ [' '])) = _
    rw [closingSingle, if_neg apart, if_neg open_, ← List.cons_append, ih, Option.map_map,
      Option.map_map]
    rfl

/-- A space behind a text ends no marker. -/
theorem closing?_spaced (m : Marker) (text : List Char) :
    m.closing? (text ++ [' ']) = (m.closing? text).map spaced := by
  have other : ' ' ≠ m.char := by cases m <;> decide
  unfold closing?
  split
  · exact closingPair_spaced other text
  · exact closingSingle_spaced other text

/-- A space behind a text opens no marker. -/
theorem opening?_spaced (filled : text ≠ []) :
    opening? (text ++ [' ']) = (opening? text).map spaced := by
  rcases text with _ | ⟨c, _ | ⟨d, rest⟩⟩
  · exact absurd rfl filled
  · show opening? [c, ' '] = (opening? [c]).map spaced
    unfold opening?
    split <;> simp_all [spaced]
  · show opening? (c :: d :: (rest ++ [' '])) = _
    unfold opening?
    split
    case h_2 apart same =>
      obtain ⟨rfl, rfl⟩ := List.cons.inj same
      have single : d ≠ '*' := fun doubled => apart (rest ++ [' ']) (by rw [doubled])
      split <;> simp_all [spaced, eq_comm]
    all_goals simp_all [spaced]

/-- A marker at the front of a text encloses the same with a space behind the text. -/
theorem enclosed?_spaced (filled : text ≠ []) : enclosed? (text ++ [' ']) =
    (enclosed? text).map fun (m, inside, behind) => (m, spaced (inside, behind)) := by
  have opens := opening?_spaced filled
  cases opened : opening? text with
  | none =>
    rw [opened] at opens
    simp only [enclosed?, opens, opened, Option.map_none]
  | some found =>
    obtain ⟨m, rest⟩ := found
    rw [opened] at opens
    change opening? _ = some (m, rest ++ [' ']) at opens
    cases rest with
    | nil => simp only [enclosed?, opens, opened, List.nil_append, Option.map_none]
    | cons c more =>
      by_cases space : c = ' '
      · subst space
        simp only [enclosed?, opens, opened, List.cons_append, Option.map_none]
      · have closed := m.closing?_spaced (c :: more)
        rw [List.cons_append] at closed opens
        rw [enclosed?_opened opened space, enclosed?_opened opens space, closed, Option.map_map,
          Option.map_map]
        rfl

end Marker

namespace Construct

variable {text : List Char}

/-- Brackets hold the same with a space behind the text. -/
theorem bracketed?_spaced (text : List Char) :
    bracketed? (text ++ [' ']) = (bracketed? text).map spaced := by
  unfold bracketed?
  rw [Text.cutPair_spaced (by decide)]
  cases Text.cutPair ']' ']' text with
  | none => rfl
  | some found =>
    obtain ⟨content, behind⟩ := found
    simp only [Option.map_some, spaced]
    split <;> rfl

/-- A colour holds the same with a space behind the text. -/
theorem colored?_spaced (text : List Char) :
    colored? (text ++ [' ']) = (colored? text).map spaced := by
  have outside : isColorChar ' ' = false := by decide
  have name : (text ++ [' ']).takeWhile isColorChar = text.takeWhile isColorChar := by
    rw [List.takeWhile_append, List.takeWhile_cons_of_neg (by simp [outside]), List.append_nil]
    split
    · next whole => exact ((List.takeWhile_prefix _).eq_of_length whole).symm
    · rfl
  have rest : (text ++ [' ']).dropWhile isColorChar = text.dropWhile isColorChar ++ [' '] := by
    rw [List.dropWhile_append, List.dropWhile_cons_of_neg (by simp [outside])]
    split
    · next none => rw [List.isEmpty_iff.1 none, List.nil_append]
    · rfl
  simp only [colored?, name, rest]
  split
  · rfl
  · cases text.dropWhile isColorChar with
    | nil => rfl
    | cons c more =>
      by_cases bar : c = '|'
      · subst bar
        simp only [List.cons_append, Text.cut_spaced (show ' ' ≠ '}' by decide) more]
        cases Text.cut '}' more with
        | none => rfl
        | some found =>
          simp only [Option.map_some, spaced]
          split <;> rfl
      · simp [bar]

/-- Behind neither two brackets nor a brace a marker is read. -/
theorem read?_enclosed {c : Char} {rest : List Char} (color : c ≠ '\x7b')
    (link : c = '[' → rest.head? ≠ some '[') : read? (c :: rest) =
      (Marker.enclosed? (c :: rest)).map fun (m, inside, behind) =>
        (.styled m.style inside, behind) := by
  unfold read?
  split
  · next same =>
    obtain ⟨rfl, rfl⟩ := List.cons.inj same
    exact absurd rfl (link rfl)
  · next same => exact absurd (List.cons.inj same).1 color
  · rfl

/-- A construct at the front of a text is the same with a space behind the text. -/
theorem read?_spaced (filled : text ≠ []) : read? (text ++ [' ']) = (read? text).map spaced := by
  obtain ⟨c, rest, rfl⟩ := List.exists_cons_of_ne_nil filled
  by_cases color : c = '\x7b'
  · subst color
    exact colored?_spaced rest
  · by_cases link : c = '[' ∧ rest.head? = some '['
    · obtain ⟨rfl, second⟩ := link
      obtain ⟨more, rfl⟩ := List.head?_eq_some_iff.1 second
      exact bracketed?_spaced more
    · rw [not_and] at link
      have link' : c = '[' → (rest ++ [' ']).head? ≠ some '[' := by
        intro first
        cases rest with
        | nil => decide
        | cons d more => exact link first
      have closed := Marker.enclosed?_spaced filled
      rw [List.cons_append] at closed ⊢
      rw [read?_enclosed color link, read?_enclosed color link', closed, Option.map_map,
        Option.map_map]
      rfl

end Construct

/-- The number of spaces that runs show. -/
def spacesOf (runs : List Run) : Nat := (Run.shown runs).count ' '

/-- Runs in a row show the spaces of each. -/
theorem spacesOf_append (runs more : List Run) :
    spacesOf (runs ++ more) = spacesOf runs + spacesOf more := by
  rw [spacesOf, Run.shown_append, List.count_append]
  rfl

/-- A space behind a line is shown once, and nothing else changes about the spaces. -/
theorem spacesOf_spaced (style : Style) (held text : List Char) :
    spacesOf (runsFrom style held (text ++ [' '])) = spacesOf (runsFrom style held text) + 1 := by
  have alone : Construct.read? [' '] = none := Construct.read?_literal (by decide) []
  have last (style : Style) (held : List Char) :
      spacesOf (runsFrom style held [' ']) = spacesOf (literalRun style held) + 1 := by
    rw [runsFrom_unread (by simp) alone, runsFrom, spacesOf, spacesOf, shown_literalRun,
      shown_literalRun]
    simp
  fun_induction runsFrom style held text with
  | case1 style held => exact last style held
  | case2 style held c rest ih =>
    show spacesOf (runsFrom style held ('\\' :: c :: (rest ++ [' ']))) = _
    rw [runsFrom, ih]
  | case3 style held c rest plain k behind read inner outer =>
    have more : Construct.read? (c :: rest ++ [' ']) = some (k, behind ++ [' ']) := by
      rw [Construct.read?_spaced (List.cons_ne_nil c rest), read]
      rfl
    rw [runsFrom_read more, spacesOf_append, outer, spacesOf_append _ (runsFrom style [] behind),
      Nat.add_assoc]
  | case4 style held c rest plain unread ih =>
    by_cases escape : c = '\\' ∧ rest = []
    · -- the backslash at the end of the line takes the space
      obtain ⟨rfl, rfl⟩ := escape
      show spacesOf (runsFrom style held ['\\', ' ']) = _
      rw [runsFrom, runsFrom, runsFrom, spacesOf, spacesOf, shown_literalRun, shown_literalRun]
      simp
    · have more : Construct.read? (c :: (rest ++ [' '])) = none := by
        have same := Construct.read?_spaced (List.cons_ne_nil c rest)
        rwa [unread, List.cons_append] at same
      have plain' : ∀ d more, c = '\\' → rest ++ [' '] ≠ d :: more := by
        intro d more slash same
        cases rest with
        | nil => exact escape ⟨slash, rfl⟩
        | cons first others => exact plain first others slash rfl
      rw [List.cons_append, runsFrom_unread plain' more, ih]

/-- Spaces behind a line are all shown. -/
theorem spacesOf_replicate (text : List Char) (n : Nat) :
    spacesOf (runsOf (text ++ List.replicate n ' ')) = spacesOf (runsOf text) + n := by
  induction n with
  | zero => rw [List.replicate_zero, List.append_nil, Nat.add_zero]
  | succ n ih =>
    rw [List.replicate_succ', ← List.append_assoc, runsOf, spacesOf_spaced, ← runsOf, ih,
      Nat.add_assoc]

end WikiPress

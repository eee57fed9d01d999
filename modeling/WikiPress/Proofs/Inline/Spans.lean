import WikiPress.Proofs.Inline.Characters

/-!
# Reading a span

Text that has no mark in it is closed by the first mark behind it, so a marker or a brace that opens
such a text encloses all of it (`Construct.read?_marked`, `Construct.read?_colored`). Characters
that begin no construct are held as literal text until something else comes (`runsFrom_literal`),
and a construct comes out between the text that is held and what stands behind it (`runsFrom_read`).
-/

namespace WikiPress

/-- The characters that markup is written with. The closing brace begins nothing, but ends the text
of a colour. -/
def markupChars : List Char := ['*', '_', '^', ',', '~', '[', '{', '}', '\\']

/-- The characters that a marker, brackets, a colour or an escape begins with. -/
def openingChars : List Char := ['*', '_', '^', ',', '~', '[', '{', '\\']

namespace Marker

/-- A character that does not stand twice as the mark goes into the text that a pair closes. -/
theorem closingPair_cons {mark before c : Char} {rest : List Char}
    (apart : c = mark → rest.head? ≠ some mark) : closingPair mark before (c :: rest) =
      (closingPair mark c rest).map fun (inside, behind) => (c :: inside, behind) := by
  cases rest with
  | nil => rfl
  | cons d more =>
    have unpaired : ¬ (c = mark ∧ d = mark ∧ before ≠ ' ') := by
      rintro ⟨first, second, _⟩
      exact apart first (congrArg some second)
    rw [closingPair, if_neg unpaired]

/-- A character that is not the mark goes into the text that a single mark closes. -/
theorem closingSingle_cons {mark before c : Char} (other : c ≠ mark) (rest : List Char) :
    closingSingle mark before (c :: rest) =
      (closingSingle mark c rest).map fun (inside, behind) => (c :: inside, behind) := by
  cases rest with
  | nil => simp [closingSingle, other]
  | cons d more =>
    rw [closingSingle, if_neg fun pair => other pair.1, if_neg fun single => other single.1]

/-- The first pair of marks behind a text without a mark closes it, unless the text ends in a
space. -/
theorem closingPair_append {mark before : Char} {text : List Char} (absent : mark ∉ text)
    (close : text.getLast?.getD before ≠ ' ') (behind : List Char) :
    closingPair mark before (text ++ mark :: mark :: behind) = some (text, behind) := by
  induction text generalizing before with
  | nil => rw [List.nil_append, closingPair, if_pos ⟨rfl, rfl, close⟩]
  | cons c rest ih =>
    rw [List.mem_cons, not_or] at absent
    rw [List.getLast?_cons, Option.getD_some] at close
    rw [List.cons_append, closingPair_cons fun same => absurd same.symm absent.1,
      ih absent.2 close]
    rfl

/-- The first mark behind a text without a mark closes it, unless the text ends in a space or
another mark follows. -/
theorem closingSingle_append {mark before : Char} {text behind : List Char} (absent : mark ∉ text)
    (close : text.getLast?.getD before ≠ ' ') (alone : behind.head? ≠ some mark) :
    closingSingle mark before (text ++ mark :: behind) = some (text, behind) := by
  induction text generalizing before with
  | nil =>
    cases behind with
    | nil => rw [List.nil_append, closingSingle, if_pos ⟨rfl, close⟩]
    | cons d more =>
      have apart : ¬ d = mark := by simpa using alone
      rw [List.nil_append, closingSingle, if_neg fun pair => apart pair.2, if_pos ⟨rfl, close⟩]
  | cons c rest ih =>
    rw [List.mem_cons, not_or] at absent
    rw [List.getLast?_cons, Option.getD_some] at close
    rw [List.cons_append, closingSingle_cons (Ne.symm absent.1), ih absent.2 close]
    rfl

/-- Two marks in a row behind a text without a mark are passed over. -/
theorem closingSingle_doubled {mark before : Char} {text : List Char} (absent : mark ∉ text)
    (rest : List Char) : closingSingle mark before (text ++ mark :: mark :: rest) =
      (closingSingle mark mark rest).map fun (inside, behind) =>
        (text ++ mark :: mark :: inside, behind) := by
  induction text generalizing before with
  | nil => rw [List.nil_append, closingSingle, if_pos ⟨rfl, rfl⟩]; rfl
  | cons c more ih =>
    rw [List.mem_cons, not_or] at absent
    rw [List.cons_append, closingSingle_cons (Ne.symm absent.1), ih absent.2, Option.map_map]
    rfl

/-- A marker closes the text up to its next occurrence, unless the text ends in a space or the
marker is followed by its own character. -/
theorem closing?_append {m : Marker} {text behind : List Char} (absent : m.char ∉ text)
    (close : text.getLast?.getD ' ' ≠ ' ') (alone : behind.head? ≠ some m.char) :
    m.closing? (text ++ m.sigil ++ behind) = some (text, behind) := by
  unfold closing? sigil
  rw [List.append_assoc]
  split
  · exact closingPair_append absent close behind
  · exact closingSingle_append absent close alone

/-- A marker is read where it is written and its character does not follow. -/
theorem opening?_sigil (m : Marker) {c : Char} (other : c ≠ m.char) (rest : List Char) :
    opening? (m.sigil ++ c :: rest) = some (m, c :: rest) := by
  cases m with
  | italic =>
    show opening? ('*' :: c :: rest) = _
    unfold opening?
    split <;> simp_all [char]
  | _ => rfl

/-- A marker opens where it is written, a single star only where no other one follows. -/
theorem opening?_iff {m : Marker} {text rest : List Char} :
    opening? text = some (m, rest) ↔
      text = m.sigil ++ rest ∧ (m = italic → rest.head? ≠ some '*') := by
  constructor
  · intro opened
    refine ⟨opening?_eq opened, ?_⟩
    rintro rfl followed
    obtain ⟨more, rfl⟩ := List.head?_eq_some_iff.1 followed
    obtain rfl := opening?_eq opened
    cases opened
  · rintro ⟨rfl, alone⟩
    cases m with
    | italic =>
      cases rest with
      | nil => rfl
      | cons d more => exact opening?_sigil italic (fun same => alone rfl (congrArg some same)) more
    | _ => rfl

/-- A marker that was opened encloses the text up to its end, where no space comes first. -/
theorem enclosed?_opened {m : Marker} {text rest : List Char} {c : Char}
    (opened : opening? text = some (m, c :: rest)) (filled : c ≠ ' ') : enclosed? text =
      (m.closing? (c :: rest)).map fun (inside, behind) => (m, inside, behind) := by
  unfold enclosed?
  rw [opened]
  split
  · simp_all
  · simp_all
  · simp_all
  · next same =>
    obtain ⟨rfl, rfl⟩ := Prod.mk.inj (Option.some.inj same)
    rfl

/-- Behind its opening a marker encloses the text up to its end, where neither a space nor its own
character comes first. -/
theorem enclosed?_sigil (m : Marker) {c : Char} (other : c ≠ m.char) (filled : c ≠ ' ')
    (rest : List Char) : enclosed? (m.sigil ++ c :: rest) =
      (m.closing? (c :: rest)).map fun (inside, behind) => (m, inside, behind) :=
  enclosed?_opened (opening?_sigil m other rest) filled

end Marker

namespace Construct

/-- A marker that opens something and ends is read as a styled text. -/
theorem read?_sigil (m : Marker) {c : Char} (other : c ≠ m.char) (filled : c ≠ ' ')
    (rest : List Char) : read? (m.sigil ++ c :: rest) =
      (m.closing? (c :: rest)).map fun (inside, behind) => (.styled m.style inside, behind) := by
  have marked : read? (m.sigil ++ c :: rest) =
      (Marker.enclosed? (m.sigil ++ c :: rest)).map fun found =>
        (.styled found.1.style found.2.1, found.2.2) := by
    cases m <;> rfl
  rw [marked, Marker.enclosed?_sigil m other filled, Option.map_map]
  rfl

/-- A marker around a text without its character is read as a styled text. -/
theorem read?_marked {m : Marker} {text behind : List Char} (absent : m.char ∉ text)
    (opens : text.head?.getD ' ' ≠ ' ') (close : text.getLast?.getD ' ' ≠ ' ')
    (alone : behind.head? ≠ some m.char) :
    read? (m.sigil ++ text ++ m.sigil ++ behind) = some (.styled m.style text, behind) := by
  have found := Marker.closing?_append absent close alone
  cases text with
  | nil => exact absurd rfl opens
  | cons c rest =>
    rw [List.mem_cons, not_or] at absent
    have shape : m.sigil ++ c :: rest ++ m.sigil ++ behind =
        m.sigil ++ c :: (rest ++ m.sigil ++ behind) := by simp
    rw [shape, read?_sigil m (Ne.symm absent.1) opens]
    rw [List.cons_append, List.cons_append] at found
    rw [found]
    rfl

/-- A colour in front of a text without a closing brace is read as a coloured text. -/
theorem read?_colored {color text behind : List Char} (named : color ≠ [])
    (valid : ∀ c ∈ color, isColorChar c = true) (filled : text ≠ []) (absent : '}' ∉ text) :
    read? ('{' :: color ++ '|' :: text ++ '}' :: behind) =
      some (.styled { color := some (String.ofList color) } text, behind) := by
  have bar : isColorChar '|' = false := by decide
  have taken : (color ++ '|' :: (text ++ '}' :: behind)).takeWhile isColorChar = color := by
    rw [List.takeWhile_append_of_pos valid, List.takeWhile_cons_of_neg (by simp [bar]),
      List.append_nil]
  have dropped : (color ++ '|' :: (text ++ '}' :: behind)).dropWhile isColorChar =
      '|' :: (text ++ '}' :: behind) := by
    rw [List.dropWhile_append_of_pos valid, List.dropWhile_cons_of_neg (by simp [bar])]
  have shape : '{' :: color ++ '|' :: text ++ '}' :: behind =
      '{' :: (color ++ '|' :: (text ++ '}' :: behind)) := by simp
  rw [shape]
  show colored? (color ++ '|' :: (text ++ '}' :: behind)) = _
  simp only [colored?, taken, if_neg named, dropped, Text.cut_append absent, if_neg filled]

/-- Only a character that opens something begins a construct. -/
theorem read?_unopened {c : Char} (plain : c ∉ openingChars) (rest : List Char) :
    read? (c :: rest) = none := by
  simp only [openingChars, List.mem_cons, List.not_mem_nil, or_false, not_or] at plain
  unfold read?
  split
  · simp_all
  · simp_all
  · unfold Marker.enclosed? Marker.opening?
    split <;> simp_all

/-- A character that markup is not written with begins no construct. -/
theorem read?_literal {c : Char} (literal : c ∉ markupChars) (rest : List Char) :
    read? (c :: rest) = none := by
  have opens : openingChars ⊆ markupChars := by decide
  exact read?_unopened (fun member => literal (opens member)) rest

end Construct

/-- Where no backslash stands, a construct is read or the character is held. -/
theorem runsFrom_cons {style : Style} {held rest : List Char} {c : Char} (plain : c ≠ '\\') :
    runsFrom style held (c :: rest) =
      match Construct.read? (c :: rest) with
      | some (k, behind) =>
        literalRun style held ++ k.run style ++ runsFrom (k.innerStyle style) [] k.inside ++
          runsFrom style [] behind
      | none => runsFrom style (c :: held) rest := by
  rw [runsFrom.eq_3 _ _ _ _ fun _ _ same _ => plain same]
  split <;> simp_all

/-- Text in which nothing opens is held until something else comes. -/
theorem runsFrom_unopened (style : Style) (held : List Char) {text : List Char}
    (plain : ∀ c ∈ text, c ∉ openingChars) (rest : List Char) :
    runsFrom style held (text ++ rest) = runsFrom style (text.reverse ++ held) rest := by
  induction text generalizing held with
  | nil => rfl
  | cons c more ih =>
    rw [List.forall_mem_cons] at plain
    have unescaped : c ≠ '\\' := fun same => plain.1 (same ▸ by decide)
    have literal : runsFrom style held (c :: (more ++ rest)) =
        runsFrom style (c :: held) (more ++ rest) := by
      rw [runsFrom_cons unescaped, Construct.read?_unopened plain.1]
    rw [List.cons_append, literal, ih _ plain.2, List.reverse_cons, List.append_assoc]
    rfl

/-- Text that markup is not written with is held until something else comes. -/
theorem runsFrom_literal {style : Style} {held text : List Char}
    (literal : ∀ c ∈ text, c ∉ markupChars) (rest : List Char) :
    runsFrom style held (text ++ rest) = runsFrom style (text.reverse ++ held) rest := by
  have opens : openingChars ⊆ markupChars := by decide
  exact runsFrom_unopened style _ (fun c member opening => literal c member (opens opening)) rest

/-- A construct comes out between the literal text held in front of it and the runs behind it. -/
theorem runsFrom_read {style : Style} {held text behind : List Char} {k : Construct}
    (read : Construct.read? text = some (k, behind)) :
    runsFrom style held text = literalRun style held ++ k.run style ++
      runsFrom (k.innerStyle style) [] k.inside ++ runsFrom style [] behind := by
  cases text with
  | nil => cases read
  | cons c rest =>
    have plain : c ≠ '\\' := by
      rintro rfl
      cases read
    rw [runsFrom_cons plain, read]

/-- A character that begins no construct and is no escape is held. -/
theorem runsFrom_unread {style : Style} {held rest : List Char} {c : Char}
    (plain : ∀ d more, c = '\\' → rest ≠ d :: more)
    (unread : Construct.read? (c :: rest) = none) :
    runsFrom style held (c :: rest) = runsFrom style (c :: held) rest := by
  rw [runsFrom.eq_3 _ _ _ _ plain]
  split
  · next read =>
    rw [unread] at read
    cases read
  · rfl

/-- A styled text comes out as the runs inside it under the merged style, between the literal text
held in front of it and the runs behind it. -/
theorem runsFrom_styled {style added : Style} {held text inside behind : List Char}
    (read : Construct.read? text = some (.styled added inside, behind)) :
    runsFrom style held text = literalRun style held ++
      runsFrom (style.merge added) [] inside ++ runsFrom style [] behind := by
  rw [runsFrom_read read]
  simp [Construct.run, Construct.innerStyle, Construct.inside]

end WikiPress

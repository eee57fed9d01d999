import WikiPress.Proofs.Inline.Spans

/-!
# Texts with backslashes

A backslash is taken out of a line and the character behind it is held, whatever it is. So a text
can be given backslashes in many ways, and it is enough that every character that opens something
gets one: reading holds the whole text then (`runsFrom_backslashed`), and the line is one plain run
(`runsOf_backslashed`).
-/

namespace WikiPress

/-- A text with backslashes in front of some of its characters, and in front of all that open
something. -/
inductive Backslashed : List Char → List Char → Prop
  | nil : Backslashed [] []
  /-- A character that opens nothing may be written as it is. -/
  | plain {c : Char} {text line : List Char} (unopened : c ∉ openingChars)
      (rest : Backslashed text line) : Backslashed (c :: text) (c :: line)
  /-- Any character may be written behind a backslash. -/
  | escape (c : Char) {text line : List Char} (rest : Backslashed text line) :
      Backslashed (c :: text) ('\\' :: c :: line)

variable {text line : List Char}

/-- A text with backslashes is held without them. -/
theorem runsFrom_backslashed (style : Style) (held : List Char) (written : Backslashed text line)
    (rest : List Char) :
    runsFrom style held (line ++ rest) = runsFrom style (text.reverse ++ held) rest := by
  induction written generalizing held with
  | nil => rfl
  | @plain c text line unopened _ ih =>
    have literal : c ≠ '\\' := by
      rintro rfl
      exact unopened (by decide)
    have unread := Construct.read?_unopened unopened (line ++ rest)
    rw [List.cons_append, runsFrom_cons literal, unread, List.reverse_cons, List.append_assoc]
    exact ih (c :: held)
  | @escape c text line _ ih =>
    rw [List.cons_append, List.cons_append, runsFrom, ih, List.reverse_cons, List.append_assoc]
    rfl

/-- Whatever characters of a text stand behind a backslash, as long as all that open something do,
the line is one run with the text and nothing else. -/
theorem runsOf_backslashed (filled : text ≠ []) (written : Backslashed text line) :
    runsOf line = [{ text := String.ofList text }] := by
  have held := runsFrom_backslashed Style.plain [] written []
  have some : text.reverse ≠ [] := by simpa using filled
  rw [List.append_nil, List.append_nil] at held
  rw [runsOf, held, runsFrom, literalRun, if_neg some, List.reverse_reverse]
  rfl

/-- Backslashes in front of a letter, two stars, a backslash and a character of two bytes, and a
closing brace without one. -/
theorem runsOf_backslashed_sample :
    "a**\\é\x7d".toList ≠ [] ∧ Backslashed "a**\\é\x7d".toList "\\a\\*\\*\\\\\\é\x7d".toList ∧
      runsOf "\\a\\*\\*\\\\\\é\x7d".toList = [{ text := "a**\\é\x7d" }] := by
  have filled : "a**\\é\x7d".toList ≠ [] := by decide
  have written : Backslashed "a**\\é\x7d".toList "\\a\\*\\*\\\\\\é\x7d".toList :=
    .escape 'a' (.escape '*' (.escape '*' (.escape '\\' (.escape 'é' (.plain (by decide) .nil)))))
  exact ⟨filled, written, runsOf_backslashed filled written⟩

end WikiPress

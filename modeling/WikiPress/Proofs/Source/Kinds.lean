import WikiPress.Proofs.Text.Cuts
import WikiPress.Proofs.Text.Trimming
import WikiPress.Source.LineKind

/-!
# What the kind of a line says about its text

A line that is of no special kind is its own trimmed text, a line that starts with the inclusion
mark is an inclusion whatever follows, and what an item line says stands in the line.
-/

namespace WikiPress.LineKind

/-- A number sign makes a directive or a heading, if anything. -/
theorem marked?_cases {text : List Char} {kind : LineKind} (marked : marked? text = some kind) :
    (∃ name value, kind = .directive name value) ∨ ∃ depth title, kind = .heading depth title := by
  unfold marked? at marked
  split at marked
  · next rest =>
    rcases Option.or_eq_some_iff.1 marked with named | ⟨_, titled⟩
    · unfold directive? at named
      split at named
      · cases named
      · split at named
        · exact .inl ⟨_, _, (Option.some.inj named).symm⟩
        · cases named
    · simp only [heading?] at titled
      split at titled
      · exact .inr ⟨_, _, (Option.some.inj titled).symm⟩
      · cases titled
  · cases marked

/-- A text line is not blank, and its content is its trimmed text. -/
theorem ofLine_text {line : Line} {content : List Char} (kind : ofLine line = .text content) :
    line.isBlank = false ∧ content = line.trimmed := by
  unfold ofLine at kind
  split at kind
  · cases kind
  · next filled =>
    refine ⟨by simpa using filled, ?_⟩
    unfold ofTrimmed at kind
    split at kind
    · cases kind
    split at kind
    · cases kind
    split at kind
    · cases kind
    split at kind
    · next marked =>
      obtain ⟨_, _, rfl⟩ | ⟨_, _, rfl⟩ := marked?_cases marked <;> cases kind
    split at kind
    · cases kind
    split at kind
    · cases kind
    · exact (LineKind.text.inj kind).symm

/-- The text of a table row starts with a bar. -/
theorem head?_of_row {line : Line} {content : List Char} (kind : ofLine line = .row content) :
    content.head? = some '|' := by
  unfold ofLine at kind
  split at kind
  · cases kind
  · unfold ofTrimmed at kind
    split at kind
    · cases kind
    split at kind
    · cases kind
    split at kind
    · cases kind
    split at kind
    · next marked =>
      obtain ⟨_, _, rfl⟩ | ⟨_, _, rfl⟩ := marked?_cases marked <;> cases kind
    split at kind
    · next opened => exact LineKind.row.inj kind ▸ opened
    split at kind <;> cases kind

/-- The text of an item is of the text that it was read from. -/
theorem item?_subset {text content : List Char} {marker : ListKind}
    (found : item? text = some (marker, content)) : content ⊆ text := by
  unfold item? at found
  split at found
  · obtain ⟨_, rfl⟩ := Prod.mk.inj (Option.some.inj found)
    exact List.Subset.trans (Text.trim_subset _) fun c member => by simp [member]
  · obtain ⟨_, rfl⟩ := Prod.mk.inj (Option.some.inj found)
    exact List.Subset.trans (Text.trim_subset _) fun c member => by simp [member]
  · split at found
    · cases found
    · next number rest cut =>
      split at found
      · obtain ⟨_, rfl⟩ := Prod.mk.inj (Option.some.inj found)
        exact List.Subset.trans (Text.trim_subset _)
          (List.append_subset.1 (Text.cutPair_subset cut)).2
      · cases found

/-- The characters that a kind holds, apart from names of directives and from what marks it. -/
def characters : LineKind → List Char
  | .fence language => language
  | .inclusion locator => locator
  | .directive _ value => value
  | .heading _ title => title
  | .row content => content
  | .item _ _ content => content
  | .text content => content
  | .blank => []
  | .rule => []

/-- What a number sign makes holds characters of the text. -/
theorem characters_marked? {text : List Char} {kind : LineKind} (marked : marked? text = some kind) :
    kind.characters ⊆ text := by
  unfold marked? at marked
  split at marked
  · next rest =>
    rcases Option.or_eq_some_iff.1 marked with named | ⟨_, titled⟩
    · unfold directive? at named
      split at named
      · cases named
      · next cut =>
        split at named
        · obtain rfl := Option.some.inj named
          have parts := List.append_subset.1 (Text.cut_subset cut)
          exact List.Subset.trans (Text.trim_subset _)
            (List.Subset.trans parts.2 (List.subset_cons_self _ _))
        · cases named
    · simp only [heading?] at titled
      split at titled
      · obtain rfl := Option.some.inj titled
        exact List.Subset.trans (Text.trim_subset _) (List.dropWhile_sublist _).subset
      · cases titled
  · cases marked

/-- What the kind of a line holds is of the line. -/
theorem characters_ofLine (line : Line) : (ofLine line).characters ⊆ line.text := by
  have own : ∀ indent text, (ofTrimmed indent text).characters ⊆ text := by
    intro indent text
    unfold ofTrimmed
    split
    · next opened =>
      exact List.Subset.trans (Text.trim_subset _) (Text.after?_subset opened)
    split
    · exact List.nil_subset _
    split
    · next opened =>
      exact List.Subset.trans (Text.trim_subset _) (Text.after?_subset opened)
    split
    · next marked => exact characters_marked? marked
    split
    · exact List.Subset.refl _
    split
    · next found => exact item?_subset found
    · exact List.Subset.refl _
  unfold ofLine
  split
  · exact List.nil_subset _
  · exact List.Subset.trans (own _ _) (Text.trim_subset _)

/-- The text of an item line is of the line. -/
theorem ofLine_item {line : Line} {marker : ListKind} {indent : Nat} {content : List Char}
    (kind : ofLine line = .item marker indent content) : content ⊆ line.text := by
  have held := characters_ofLine line
  rwa [kind] at held

/-- The line break does not take more than white space from a text. -/
theorem trimEnd_withoutReturn (text : List Char) :
    Text.trimEnd (Line.withoutReturn text) = Text.trimEnd text := by
  unfold Line.withoutReturn
  split
  · next last =>
    obtain ⟨start, rfl⟩ := List.getLast?_eq_some_iff.1 last
    rw [List.dropLast_concat, Text.trimEnd_concat (by decide)]
  · rfl

/-- Nothing is left of a blank line. -/
theorem trimmed_of_isBlank {line : Line} (blank : line.isBlank = true) : line.trimmed = [] := by
  have start : Text.trimStart line.text = [] := by
    apply List.dropWhile_eq_nil_iff.2
    intro c member
    have indent := List.all_eq_true.1 blank c member
    simp only [Line.isIndent, Bool.or_eq_true, decide_eq_true_eq] at indent
    rcases indent with rfl | rfl <;> decide
  rw [Line.trimmed, Text.trim, start]
  rfl

/-- The inclusion mark and a locator behind a space make an inclusion of the trimmed locator. -/
theorem ofLine_inclusion {locator : List Char} (named : Text.trim locator ≠ []) (number : Nat) :
    ofLine ⟨Line.withoutReturn ("@>include: ".toList ++ locator), number⟩ =
      .inclusion (Text.trim locator) := by
  have filled := Text.trimEnd_ne_nil named
  have trimmed : Line.trimmed ⟨Line.withoutReturn ("@>include: ".toList ++ locator), number⟩ =
      "@>include:".toList ++ ' ' :: Text.trimEnd locator := by
    rw [Line.trimmed, ← Text.trimStart_trimEnd, trimEnd_withoutReturn,
      Text.trimEnd_append _ filled]
    rfl
  have shown : Line.isBlank ⟨Line.withoutReturn ("@>include: ".toList ++ locator), number⟩ =
      false := by
    by_contra blank
    have empty := trimmed_of_isBlank (Bool.not_eq_false _ ▸ blank)
    rw [trimmed] at empty
    simp at empty
  have unfenced : Text.after? "```" ("@>include:".toList ++ ' ' :: Text.trimEnd locator) = none :=
    rfl
  have unruled : isRule ("@>include:".toList ++ ' ' :: Text.trimEnd locator) = false := by
    simp [isRule]
  have marked : Text.after? "@>include:" ("@>include:".toList ++ ' ' :: Text.trimEnd locator) =
      some (' ' :: Text.trimEnd locator) := by
    rfl
  have spaced : Text.trim (' ' :: Text.trimEnd locator) = Text.trim locator := by
    rw [Text.trim, Text.trimStart_cons_space (by decide), ← Text.trim, Text.trim_trimEnd]
  rw [ofLine, shown, trimmed]
  simp only [Bool.false_eq_true, if_false, ofTrimmed, unfenced, unruled, marked, spaced]

/-- A line whose text starts with a bar is a table row. -/
theorem ofLine_of_bar {line : Line} (opened : line.trimmed.head? = some '|') :
    ofLine line = .row line.trimmed := by
  obtain ⟨rest, shape⟩ := List.head?_eq_some_iff.1 opened
  have shown : line.isBlank = false := by
    rw [← Bool.not_eq_true]
    intro blank
    rw [trimmed_of_isBlank blank] at shape
    cases shape
  have unfenced : Text.after? "```" ('|' :: rest) = none := rfl
  have unruled : isRule ('|' :: rest) = false := by simp [isRule]
  have unnamed : Text.after? "@>include:" ('|' :: rest) = none := rfl
  have unmarked : marked? ('|' :: rest) = none := rfl
  rw [ofLine, shown, shape]
  simp only [Bool.false_eq_true, if_false, ofTrimmed, unfenced, unruled, unnamed, unmarked,
    List.head?_cons, if_true]

/-- A line between two bars is a table row. -/
theorem ofLine_row (inside : List Char) (number : Nat) :
    ofLine ⟨'|' :: (inside ++ ['|']), number⟩ = .row ('|' :: (inside ++ ['|'])) := by
  have trimmed : Line.trimmed ⟨'|' :: (inside ++ ['|']), number⟩ = '|' :: (inside ++ ['|']) := by
    refine Text.trim_eq_self ?_ ?_
    · simp [Text.isSpace]
    · simp [List.getLast?_cons, Text.isSpace]
  have own := ofLine_of_bar (congrArg List.head? trimmed)
  rwa [trimmed] at own

end WikiPress.LineKind

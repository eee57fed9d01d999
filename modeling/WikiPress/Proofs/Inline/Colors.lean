import WikiPress.Proofs.Inline.Content
import WikiPress.Proofs.Inline.Markup

/-!
# Colours inside colours

A colour ends at the first closing brace behind it, also where that brace was written to end another
colour inside it. Of colours inside each other the outermost one then takes the text up to there,
the opening of the next one included, and that opening is left as text (`ColorRow.brace_shown`). So
written pieces come out as their texts, each in its own colour, exactly where no text stands in more
than one colour (`runsOf_colors_iff`).
-/

namespace WikiPress

/-- Without a closing brace an opening one begins no colour. -/
theorem Construct.colored?_unclosed {text : List Char} (unclosed : '}' ∉ text) :
    colored? text = none := by
  have whole := List.takeWhile_append_dropWhile (p := isColorChar) (l := text)
  simp only [colored?]
  split
  · rfl
  · split
    · next rest dropped =>
      have absent : '}' ∉ rest := by
        intro member
        rw [← whole, dropped] at unclosed
        simp [member] at unclosed
      rw [Text.cut_eq_none_iff.2 absent]
    · rfl

/-- Opening braces that nothing closes are text. -/
theorem runsFrom_unclosed {style : Style} {held text : List Char}
    (open_ : ∀ c ∈ text, c ∉ markupChars ∨ c = '{') :
    runsFrom style held text = literalRun style (text.reverse ++ held) := by
  induction text generalizing held with
  | nil => rw [runsFrom]; rfl
  | cons c rest ih =>
    rw [List.forall_mem_cons] at open_
    have unread : Construct.read? (c :: rest) = none := by
      rcases open_.1 with literal | rfl
      · exact Construct.read?_literal literal rest
      · refine Construct.colored?_unclosed fun member => ?_
        rcases open_.2 _ member with other | same
        · exact other (by decide)
        · exact absurd same (by decide)
    have plain : c ≠ '\\' := by
      rintro rfl
      rcases open_.1 with other | same
      · exact other (by decide)
      · exact absurd same (by decide)
    rw [runsFrom_unread (fun _ _ same => absurd same plain) unread, ih open_.2, List.reverse_cons,
      List.append_assoc]
    rfl

namespace Markup

/-- Pieces in a row whose spans are colours: there is one at least, texts and colours take turns,
and each colour is around a row of pieces that may hold further colours. -/
inductive ColorRow : List Markup → Prop
  | text {content : List Char} (literal : IsLiteral content) : ColorRow [.text content]
  | color {code : List Char} {inside : List Markup} (valid : (Span.color code).IsValid)
      (inner : ColorRow inside) : ColorRow [.span (.color code) inside]
  | textFirst {content : List Char} {around : Span} {inside more : List Markup}
      (literal : IsLiteral content) (rest : ColorRow (.span around inside :: more)) :
      ColorRow (.text content :: .span around inside :: more)
  | colorFirst {code content : List Char} {inside more : List Markup}
      (valid : (Span.color code).IsValid) (inner : ColorRow inside)
      (rest : ColorRow (.text content :: more)) :
      ColorRow (.span (.color code) inside :: .text content :: more)

variable {pieces inside more : List Markup} {code : List Char}

/-- The texts of a row are literal. -/
theorem ColorRow.literal (row : ColorRow pieces) (around : List Span) :
    ∀ leaf ∈ leavesOf around pieces, IsLiteral leaf.content := by
  induction row generalizing around with
  | text literal =>
    intro leaf member
    obtain rfl := List.mem_singleton.1 member
    exact literal
  | color valid inner ih =>
    intro leaf member
    rw [leavesOf, leaves, leavesOf, List.append_nil] at member
    exact ih _ leaf member
  | textFirst literal rest ih =>
    intro leaf member
    rw [leavesOf, leaves, List.singleton_append, List.mem_cons] at member
    rcases member with rfl | later
    · exact literal
    · exact ih around leaf later
  | colorFirst valid inner rest first behind =>
    intro leaf member
    rw [leavesOf, leaves, List.mem_append] at member
    rcases member with early | later
    · exact first _ leaf early
    · exact behind around leaf later

/-- A row has a text, which stands inside all that the row stands in. -/
theorem ColorRow.exists_leaf (row : ColorRow pieces) (around : List Span) :
    ∃ leaf ∈ leavesOf around pieces, around.length ≤ leaf.around.length := by
  induction row generalizing around with
  | text literal => exact ⟨_, List.mem_singleton_self _, le_refl _⟩
  | @color code inside valid inner ih =>
    obtain ⟨leaf, member, deep⟩ := ih (.color code :: around)
    exact ⟨leaf, List.mem_append_left _ member, le_trans (Nat.le_succ _) deep⟩
  | textFirst literal rest ih => exact ⟨_, List.mem_cons_self, le_refl _⟩
  | @colorFirst code content inside more valid inner rest first behind =>
    obtain ⟨leaf, member, deep⟩ := first (.color code :: around)
    exact ⟨leaf, List.mem_append_left _ member, le_trans (Nat.le_succ _) deep⟩

/-- A row that is more than a text has a text inside a colour of its own. -/
theorem ColorRow.exists_deeper (row : ColorRow pieces)
    (spanned : ¬ ∃ content, pieces = [.text content]) (around : List Span) :
    ∃ leaf ∈ leavesOf around pieces, around.length < leaf.around.length := by
  induction row with
  | @text content literal => exact absurd ⟨content, rfl⟩ spanned
  | @color code inside valid inner ih =>
    obtain ⟨leaf, member, deep⟩ := inner.exists_leaf (.color code :: around)
    exact ⟨leaf, List.mem_append_left _ member, deep⟩
  | textFirst literal rest ih =>
    obtain ⟨leaf, member, deep⟩ := ih (by simp)
    exact ⟨leaf, List.mem_append_right _ member, deep⟩
  | @colorFirst code content inside more valid inner rest first behind =>
    obtain ⟨leaf, member, deep⟩ := inner.exists_leaf (.color code :: around)
    exact ⟨leaf, List.mem_append_left _ member, deep⟩

/-- A colour whose texts stand in no other colour is around one text. -/
theorem ColorRow.inside_eq_text (inner : ColorRow inside)
    (shallow : ∀ leaf ∈ leavesOf [.color code] inside, leaf.around.length ≤ 1) :
    ∃ content, IsLiteral content ∧ inside = [.text content] := by
  by_contra other
  have spanned : ¬ ∃ content, inside = [.text content] := by
    rintro ⟨content, rfl⟩
    exact other ⟨content, inner.literal [] _ (List.mem_singleton_self _), rfl⟩
  obtain ⟨leaf, member, deep⟩ := inner.exists_deeper spanned [.color code]
  have most := shallow leaf member
  rw [List.length_singleton] at deep
  omega

/-- A colour around one text can be written. -/
theorem Span.IsValid.encloses_text (valid : (Span.color code).IsValid) (content : List Char) :
    (Span.color code).Encloses [.text content] :=
  ⟨valid, by simp [spansOf, spans], trivial⟩

/-- A row whose texts all stand in at most one colour can be read back. -/
theorem ColorRow.row (row : ColorRow pieces)
    (shallow : ∀ leaf ∈ leavesOf [] pieces, leaf.around.length ≤ 1) : Row pieces := by
  induction row with
  | text literal => exact .text literal
  | color valid inner ih =>
    obtain ⟨content, literal, rfl⟩ := inner.inside_eq_text fun leaf member =>
      shallow leaf (List.mem_append_left _ member)
    exact .span (valid.encloses_text content) (.text literal)
  | textFirst literal rest ih =>
    exact .textFirst literal (ih fun leaf member => shallow leaf (List.mem_append_right _ member))
  | colorFirst valid inner rest first behind =>
    obtain ⟨content, literal, rfl⟩ := inner.inside_eq_text fun leaf member =>
      shallow leaf (List.mem_append_left _ member)
    exact .spanFirst (valid.encloses_text content) (.text literal)
      (behind fun leaf member => shallow leaf (List.mem_append_right _ member))

/-- A colour is written in braces, with its name and a bar in front of what it is around. -/
theorem writtenOf_color (code : List Char) (inside more : List Markup) :
    writtenOf (.span (.color code) inside :: more) =
      '{' :: code ++ '|' :: writtenOf inside ++ '}' :: writtenOf more := by
  simp [writtenOf, written, Span.opening, Span.closing]

/-- The text up to its first closing brace holds an opening one, and no other markup. -/
structure OpensFirst (text front back : List Char) : Prop where
  split : text = front ++ '}' :: back
  opened : '{' ∈ front
  unclosed : ∀ c ∈ front, c ∉ markupChars ∨ c = '{'

/-- Literal text may stand in front. -/
theorem OpensFirst.behind {content text front back : List Char} (opens : OpensFirst text front back)
    (literal : ∀ c ∈ content, c ∉ markupChars) :
    OpensFirst (content ++ text) (content ++ front) back := by
  refine ⟨?_, List.mem_append_right _ opens.opened, ?_⟩
  · rw [opens.split, List.append_assoc]
  · intro c member
    rcases List.mem_append.1 member with early | later
    · exact .inl (literal c early)
    · exact opens.unclosed c later

/-- No closing brace stands in front. -/
theorem OpensFirst.not_mem {text front back : List Char} (opens : OpensFirst text front back) :
    '}' ∉ front := by
  intro member
  rcases opens.unclosed _ member with other | same
  · exact other (by decide)
  · exact absurd same (by decide)

/-- The name of a colour and the bar behind it are no markup by themselves. -/
theorem Span.IsValid.not_mem_markupChars (valid : (Span.color code).IsValid) :
    ∀ c ∈ code ++ ['|'], c ∉ markupChars := by
  have apart : markupChars.all (fun c => !Construct.isColorChar c) = true := by decide
  intro c member special
  rcases List.mem_append.1 member with named | bar
  · have other := List.all_eq_true.1 apart c special
    rw [valid.2 c named] at other
    cases other
  · obtain rfl := List.mem_singleton.1 bar
    exact absurd special (by decide)

/-- A colour is open where the first closing brace behind it stands. -/
theorem ColorRow.opensFirst_color (valid : (Span.color code).IsValid) (inner : ColorRow inside)
    (opens : (¬ ∃ content, inside = [.text content]) →
      ∃ front back, OpensFirst (writtenOf inside) front back) (more : List Markup) :
    ∃ front back, OpensFirst (writtenOf (.span (.color code) inside :: more)) front back := by
  -- that brace is the colour's own, or the one of a colour inside it
  have closed : ∃ front back, writtenOf inside ++ '}' :: writtenOf more = front ++ '}' :: back ∧
      ∀ c ∈ front, c ∉ markupChars ∨ c = '{' := by
    by_cases single : ∃ content, inside = [.text content]
    · obtain ⟨content, rfl⟩ := single
      have literal := (inner.literal [] _ (List.mem_singleton_self _)).2
      have alone : writtenOf [.text content] = content := List.append_nil content
      exact ⟨content, writtenOf more, by rw [alone], fun c member => .inl (literal c member)⟩
    · obtain ⟨front, back, first⟩ := opens single
      refine ⟨front, back ++ '}' :: writtenOf more, ?_, first.unclosed⟩
      rw [first.split]
      simp
  obtain ⟨front, back, split, unclosed⟩ := closed
  have shape : '{' :: code ++ '|' :: writtenOf inside ++ '}' :: writtenOf more =
      '{' :: (code ++ ['|']) ++ (writtenOf inside ++ '}' :: writtenOf more) := by simp
  refine ⟨'{' :: (code ++ ['|']) ++ front, back, ?_, List.mem_cons_self, ?_⟩
  · rw [writtenOf_color, shape, split, List.append_assoc]
  · intro c member
    rcases List.mem_append.1 member with named | within
    · rcases List.mem_cons.1 named with brace | name
      · exact .inr brace
      · exact .inl (valid.not_mem_markupChars c name)
    · exact unclosed c within

/-- A row that is more than a text opens a colour before it closes one. -/
theorem ColorRow.opensFirst (row : ColorRow pieces)
    (spanned : ¬ ∃ content, pieces = [.text content]) :
    ∃ front back, OpensFirst (writtenOf pieces) front back := by
  induction row with
  | @text content literal => exact absurd ⟨content, rfl⟩ spanned
  | color valid inner ih => exact opensFirst_color valid inner ih []
  | textFirst literal rest ih =>
    obtain ⟨front, back, opens⟩ := ih (by simp)
    exact ⟨_, back, opens.behind literal.2⟩
  | colorFirst valid inner rest ih behind => exact opensFirst_color valid inner ih _

/-- A colour that more than a text stands in leaves an opening brace as text. -/
theorem ColorRow.brace_shown_first (valid : (Span.color code).IsValid) (inner : ColorRow inside)
    (spanned : ¬ ∃ content, inside = [.text content]) (held : List Char) (more : List Markup) :
    '{' ∈ Run.shown (runsFrom Style.plain held
      (writtenOf (.span (.color code) inside :: more))) := by
  obtain ⟨front, back, opens⟩ := inner.opensFirst spanned
  have filled : front ≠ [] := List.ne_nil_of_mem opens.opened
  have read : Construct.read?
      ('{' :: code ++ '|' :: front ++ '}' :: (back ++ '}' :: writtenOf more)) =
      some (.styled { color := some (String.ofList code) } front, back ++ '}' :: writtenOf more) :=
    Construct.read?_colored valid.1 valid.2 filled opens.not_mem
  have shape : writtenOf (.span (.color code) inside :: more) =
      '{' :: code ++ '|' :: front ++ '}' :: (back ++ '}' :: writtenOf more) := by
    rw [writtenOf_color, opens.split]
    simp
  rw [shape, runsFrom_styled read, runsFrom_unclosed opens.unclosed]
  simp [opens.opened]

/-- Where a text stands in more than one colour, some opening brace is left as text. -/
theorem ColorRow.brace_shown (row : ColorRow pieces) {leaf : Leaf}
    (member : leaf ∈ leavesOf [] pieces) (deep : 1 < leaf.around.length) (held : List Char) :
    '{' ∈ Run.shown (runsFrom Style.plain held (writtenOf pieces)) := by
  induction row generalizing held with
  | text literal =>
    obtain rfl := List.mem_singleton.1 member
    simp at deep
  | @color code inside valid inner ih =>
    refine brace_shown_first valid inner ?_ held []
    rintro ⟨content, rfl⟩
    obtain rfl := List.mem_singleton.1 member
    simp at deep
  | @textFirst content around inside more literal rest ih =>
    rw [leavesOf, leaves, List.singleton_append, List.mem_cons] at member
    rcases member with rfl | later
    · simp at deep
    · rw [writtenOf, written, runsFrom_literal literal.2]
      exact ih later _
  | @colorFirst code content inside more valid inner rest first behind =>
    by_cases single : ∃ content, inside = [.text content]
    · obtain ⟨content, rfl⟩ := single
      rw [leavesOf, List.mem_append] at member
      rcases member with early | later
      · obtain rfl := List.mem_singleton.1 early
        simp at deep
      · -- the colour is closed where it was meant to be, and a later one is not
        have literal := inner.literal [] _ (List.mem_singleton_self _)
        have alone : '}' ∉ writtenOf [.text content] := by
          simpa [writtenOf, written] using fun member => literal.2 _ member (by decide)
        have filled : writtenOf [.text content] ≠ [] := by
          simpa [writtenOf, written] using literal.1
        rw [writtenOf_color, runsFrom_styled (Construct.read?_colored valid.1 valid.2 filled alone),
          Run.shown_append]
        exact List.mem_append_right _ (behind later [])
    · exact brace_shown_first valid inner single held _

/-- The texts of a row hold no opening brace. -/
theorem ColorRow.brace_not_mem (row : ColorRow pieces) :
    '{' ∉ Run.shown ((leavesOf [] pieces).map Leaf.run) := by
  intro member
  rw [Run.shown, List.flatMap_map, List.mem_flatMap] at member
  obtain ⟨leaf, inside, held⟩ := member
  rw [Leaf.run, String.toList_ofList] at held
  exact (row.literal [] leaf inside).2 _ held (by decide)

/-- Written texts and colours come out as their texts from left to right, each in the innermost
colour around it and in no other style, exactly where no text stands in more than one colour. -/
theorem runsOf_colors_iff (row : ColorRow pieces) :
    runsOf (writtenOf pieces) = (leavesOf [] pieces).map Leaf.run ↔
      ∀ leaf ∈ leavesOf [] pieces, leaf.around.length ≤ 1 := by
  constructor
  · intro same leaf member
    by_contra deep
    have left := row.brace_shown member (not_le.1 deep) []
    rw [← runsOf, same] at left
    exact row.brace_not_mem left
  · intro shallow
    have outside : Span.union [] = Style.plain := rfl
    rw [runsOf, ← outside, (row.row shallow).runs]

/-- A row with two colours side by side is read back; one with a colour inside another is not. -/
theorem runsOf_colors_iff_sample :
    runsOf "a{red|b}c{blue|d}".toList =
        [{ text := "a" }, { text := "b", style := some { color := some "red" } }, { text := "c" },
          { text := "d", style := some { color := some "blue" } }] ∧
      runsOf "\x7bred|a\x7bblue|b\x7dc\x7d".toList ≠
        [{ text := "a", style := some { color := some "red" } },
          { text := "b", style := some { color := some "blue" } },
          { text := "c", style := some { color := some "red" } }] := by
  have red : (Span.color "red".toList).IsValid := ⟨by decide, List.all_eq_true.1 (by decide)⟩
  have blue : (Span.color "blue".toList).IsValid := ⟨by decide, List.all_eq_true.1 (by decide)⟩
  have beside : ColorRow [.text ['a'], .span (.color "red".toList) [.text ['b']], .text ['c'],
      .span (.color "blue".toList) [.text ['d']]] :=
    .textFirst (by decide) <| .colorFirst red (.text (by decide)) <|
      .textFirst (by decide) <| .color blue (.text (by decide))
  have nested : ColorRow [.span (.color "red".toList)
      [.text ['a'], .span (.color "blue".toList) [.text ['b']], .text ['c']]] :=
    .color red <| .textFirst (by decide) <| .colorFirst blue (.text (by decide)) <|
      .text (by decide)
  refine ⟨(runsOf_colors_iff beside).2 (by decide), fun same => ?_⟩
  have shallow := (runsOf_colors_iff nested).1 same
  exact absurd shallow (by decide)

/-- The brace behind the inner one of two colours ends the outer one. -/
theorem runsOf_colors_cut :
    let pieces : List Markup := [.span (.color "red".toList)
      [.text ['a'], .span (.color "blue".toList) [.text ['b']], .text ['c']]]
    ColorRow pieces ∧
      (leavesOf [] pieces).map Leaf.run =
        [{ text := "a", style := some { color := some "red" } },
          { text := "b", style := some { color := some "blue" } },
          { text := "c", style := some { color := some "red" } }] ∧
      runsOf (writtenOf pieces) =
        [{ text := "a\x7bblue|b", style := some { color := some "red" } },
          { text := "c\x7d" }] := by
  intro pieces
  have red : (Span.color "red".toList).IsValid := ⟨by decide, List.all_eq_true.1 (by decide)⟩
  have blue : (Span.color "blue".toList).IsValid := ⟨by decide, List.all_eq_true.1 (by decide)⟩
  have nested : ColorRow pieces :=
    .color red <| .textFirst (by decide) <| .colorFirst blue (.text (by decide)) <|
      .text (by decide)
  refine ⟨nested, by decide, ?_⟩
  decide +kernel

end Markup

end WikiPress

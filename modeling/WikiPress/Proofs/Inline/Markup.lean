import WikiPress.Proofs.Inline.Spans

/-!
# Markup and its runs

Markup is a tree: literal text, and spans of a marker or a colour around pieces of markup. Written
pieces in a row can be read back where text and spans take turns, no span is inside one that ends
with the same character, and no marker stands next to a space inside it (`Markup.Row`). The runs of
the written form are then the texts of the tree from left to right, each under the union of the
styles of all spans around it (`runsOf_written`).
-/

namespace WikiPress

namespace Markup

/-- What is written around pieces of markup. -/
inductive Span where
  | mark (m : Marker)
  | color (code : List Char)
  deriving DecidableEq

namespace Span

/-- What is written in front of the pieces. -/
def opening : Span → List Char
  | mark m => m.sigil
  | color code => '{' :: code ++ ['|']

/-- What is written behind the pieces. -/
def closing : Span → List Char
  | mark m => m.sigil
  | color _ => ['}']

/-- The character that a span ends with. -/
def lastChar : Span → Char
  | mark m => m.char
  | color _ => '}'

/-- The colour of a span, if it gives one. -/
def color? : Span → Option String
  | mark _ => none
  | color code => some (String.ofList code)

/-- The style that a span gives. -/
def style : Span → Style
  | mark m => m.style
  | color code => { color := some (String.ofList code) }

/-- A colour is a text of letters, digits and number signs. -/
def IsValid : Span → Prop
  | mark _ => True
  | color code => code ≠ [] ∧ ∀ c ∈ code, Construct.isColorChar c = true

/-- A marker stands next to no space inside it. -/
def Fits (text : List Char) : Span → Prop
  | mark _ => text.head? ≠ some ' ' ∧ text.getLast? ≠ some ' '
  | color _ => True

/-- All that spans inside each other set: every flag that one of them sets, and the colour of the
innermost one that has one. The list begins with the innermost span. -/
def union (around : List Span) : Style where
  bold := mark .bold ∈ around
  italic := mark .italic ∈ around
  underline := mark .underline ∈ around
  sup := mark .sup ∈ around
  sub := mark .sub ∈ around
  strike := mark .strike ∈ around
  color := around.findSome? color?

end Span

end Markup

/-- A piece of markup. -/
inductive Markup where
  | text (content : List Char)
  | span (around : Markup.Span) (inside : List Markup)

namespace Markup

mutual

/-- A piece as it is written. -/
def written : Markup → List Char
  | .text content => content
  | .span around inside => around.opening ++ writtenOf inside ++ around.closing

/-- Pieces in a row as they are written. -/
def writtenOf : List Markup → List Char
  | [] => []
  | piece :: more => piece.written ++ writtenOf more

end

mutual

/-- The spans in a piece, at any depth. -/
def spans : Markup → List Span
  | .text _ => []
  | .span around inside => around :: spansOf inside

/-- The spans in pieces, at any depth. -/
def spansOf : List Markup → List Span
  | [] => []
  | piece :: more => piece.spans ++ spansOf more

end

/-- A text of a tree with the spans around it, the innermost one first. -/
structure Leaf where
  around : List Span
  content : List Char

mutual

/-- The texts of a piece from left to right. -/
def leaves (around : List Span) : Markup → List Leaf
  | .text content => [⟨around, content⟩]
  | .span inner inside => leavesOf (inner :: around) inside

/-- The texts of pieces from left to right. -/
def leavesOf (around : List Span) : List Markup → List Leaf
  | [] => []
  | piece :: more => piece.leaves around ++ leavesOf around more

end

/-- The run of a text: without a style where there is no span around it. -/
def Leaf.run (leaf : Leaf) : Run where
  text := String.ofList leaf.content
  style := if leaf.around = [] then none else some (Span.union leaf.around)

/-- A text that is not empty and that no markup is written with. -/
def IsLiteral (content : List Char) : Prop := content ≠ [] ∧ ∀ c ∈ content, c ∉ markupChars

instance (content : List Char) : Decidable (IsLiteral content) :=
  decidable_of_iff (content ≠ [] ∧ content.all (fun c => !markupChars.contains c) = true)
    (by simp [IsLiteral])

/-- The span can be written around the pieces. -/
structure Span.Encloses (around : Span) (inside : List Markup) : Prop where
  valid : around.IsValid
  /-- No span inside ends with the same character, however deep it is. -/
  apart : ∀ other ∈ spansOf inside, other.lastChar ≠ around.lastChar
  fits : around.Fits (writtenOf inside)

/-- Pieces that can be written in a row: there is one at least, texts and spans take turns, and each
span can be written around its own row of pieces. -/
inductive Row : List Markup → Prop
  | text {content : List Char} (literal : IsLiteral content) : Row [.text content]
  | span {around : Span} {inside : List Markup} (encloses : around.Encloses inside)
      (inner : Row inside) : Row [.span around inside]
  | textFirst {content : List Char} {around : Span} {inside more : List Markup}
      (literal : IsLiteral content) (rest : Row (.span around inside :: more)) :
      Row (.text content :: .span around inside :: more)
  | spanFirst {content : List Char} {around : Span} {inside more : List Markup}
      (encloses : around.Encloses inside) (inner : Row inside)
      (rest : Row (.text content :: more)) :
      Row (.span around inside :: .text content :: more)

namespace Span

/-- One span more adds its style inside the others. -/
theorem union_cons (inner : Span) (around : List Span) :
    union (inner :: around) = (union around).merge inner.style := by
  cases inner with
  | mark m =>
    cases m <;>
      simp [union, style, Marker.style, Style.merge, List.findSome?_cons, color?, Bool.or_comm]
  | color code => simp [union, style, Style.merge, List.findSome?_cons, color?]

/-- Only where there is no span nothing is set. -/
theorem isPlain_union (around : List Span) : (union around).isPlain = true ↔ around = [] := by
  cases around with
  | nil => simp [union, Style.isPlain]
  | cons inner rest =>
    rw [union_cons]
    cases inner with
    | mark m => cases m <;> simp [style, Marker.style, Style.merge, Style.isPlain]
    | color code => simp [style, Style.merge, Style.isPlain]

/-- What a span ends with is a character of markup, and no character of a colour. -/
theorem lastChar_special (around : Span) :
    around.lastChar ∈ markupChars ∧ Construct.isColorChar around.lastChar = false ∧
      around.lastChar ≠ '{' ∧ around.lastChar ≠ '|' := by
  cases around with
  | mark m => cases m <;> decide
  | color code =>
    show '}' ∈ markupChars ∧ Construct.isColorChar '}' = false ∧ '}' ≠ '{' ∧ '}' ≠ '|'
    decide

/-- What is written around pieces does not hold the last character of another span that ends
differently. -/
theorem not_mem_delimiters {outer other : Span} (valid : other.IsValid)
    (apart : other.lastChar ≠ outer.lastChar) :
    outer.lastChar ∉ other.opening ∧ outer.lastChar ∉ other.closing := by
  obtain ⟨_, uncolored, brace, bar⟩ := outer.lastChar_special
  cases other with
  | mark m =>
    have absent : outer.lastChar ∉ m.sigil := by
      have differs : outer.lastChar ≠ m.char := Ne.symm apart
      unfold Marker.sigil
      split <;> simp [differs]
    exact ⟨absent, absent⟩
  | color code =>
    have unnamed : outer.lastChar ∉ code := by
      intro member
      rw [valid.2 _ member] at uncolored
      cases uncolored
    have close : outer.lastChar ≠ '}' := Ne.symm apart
    constructor
    · simp [opening, brace, bar, unnamed]
    · simp [closing, close]

end Span

variable {pieces inside more : List Markup} {around : List Span} {outer : Span}

/-- Pieces in a row are written as some text. -/
theorem Row.written_ne_nil (row : Row pieces) : writtenOf pieces ≠ [] := by
  have spanned (span : Span) (inside more : List Markup) :
      writtenOf (.span span inside :: more) ≠ [] := by
    cases span with
    | mark m => cases m <;> simp [writtenOf, written, Span.opening, Marker.sigil, Marker.isDoubled]
    | color code => simp [writtenOf, written, Span.opening]
  cases row with
  | text literal => simpa [writtenOf, written] using literal.1
  | span => exact spanned _ _ _
  | textFirst literal => simp [writtenOf, written, literal.1]
  | spanFirst => exact spanned _ _ _

/-- The character that a span ends with is not written inside it. -/
theorem Row.lastChar_not_mem (row : Row pieces)
    (apart : ∀ other ∈ spansOf pieces, other.lastChar ≠ outer.lastChar) :
    outer.lastChar ∉ writtenOf pieces := by
  have absent {content : List Char} (literal : IsLiteral content) : outer.lastChar ∉ content :=
    fun member => literal.2 _ member outer.lastChar_special.1
  induction row with
  | text literal => simpa [writtenOf, written] using absent literal
  | span encloses _ ih =>
    simp only [spansOf, spans, List.append_nil, List.forall_mem_cons] at apart
    obtain ⟨front, back⟩ := Span.not_mem_delimiters encloses.valid apart.1
    simp [writtenOf, written, front, back, ih apart.2]
  | textFirst literal _ ih =>
    have behind := ih apart
    rw [writtenOf, List.mem_append, not_or]
    exact ⟨absent literal, behind⟩
  | spanFirst encloses _ _ inner rest =>
    simp only [spansOf, spans, List.nil_append, List.cons_append, List.forall_mem_cons,
      List.forall_mem_append] at apart
    obtain ⟨front, back⟩ := Span.not_mem_delimiters encloses.valid apart.1
    have own := inner apart.2.1
    have behind := rest (by simpa [spansOf, spans] using apart.2.2)
    rw [writtenOf, written, List.mem_append, List.mem_append, List.mem_append]
    simp [front, back, own, behind]

/-- A span around a row of pieces is read as a styled text, where its last character does not
follow. -/
theorem read?_span (encloses : outer.Encloses inside) (row : Row inside) {behind : List Char}
    (alone : behind.head? ≠ some outer.lastChar) :
    Construct.read? (outer.opening ++ writtenOf inside ++ outer.closing ++ behind) =
      some (.styled outer.style (writtenOf inside), behind) := by
  have absent := row.lastChar_not_mem encloses.apart
  have filled := row.written_ne_nil
  cases outer with
  | mark m =>
    obtain ⟨opens, closes⟩ := encloses.fits
    refine Construct.read?_marked absent ?_ ?_ alone
    · cases shape : (writtenOf inside).head? with
      | none => exact absurd (List.head?_eq_none_iff.1 shape) filled
      | some c => simpa [shape] using opens
    · cases shape : (writtenOf inside).getLast? with
      | none => exact absurd (List.getLast?_eq_none_iff.1 shape) filled
      | some c => simpa [shape] using closes
  | color code =>
    obtain ⟨named, valid⟩ := encloses.valid
    have found : Construct.read? ('{' :: code ++ '|' :: writtenOf inside ++ '}' :: behind) =
        some (.styled { color := some (String.ofList code) } (writtenOf inside), behind) :=
      Construct.read?_colored named valid filled absent
    simpa [Span.opening, Span.closing, Span.style] using found

/-- A row that begins with a span goes on with a text or not at all, so the span ends where it was
meant to. -/
theorem Row.first (row : Row (.span outer inside :: more)) :
    outer.Encloses inside ∧ Row inside ∧ (writtenOf more).head? ≠ some outer.lastChar := by
  cases row with
  | span encloses inner => exact ⟨encloses, inner, by simp [writtenOf]⟩
  | @spanFirst content _ _ others encloses inner rest =>
    refine ⟨encloses, inner, ?_⟩
    have literal : IsLiteral content := by
      cases rest with
      | text literal => exact literal
      | textFirst literal => exact literal
    cases content with
    | nil => exact absurd rfl literal.1
    | cons c text =>
      have special := outer.lastChar_special.1
      have plain := literal.2 c List.mem_cons_self
      simp only [writtenOf, written, List.cons_append, List.head?_cons, ne_eq, Option.some.injEq]
      exact fun same => plain (same ▸ special)

/-- A row that begins with a span sends out the text held in front of it, then the runs inside the
span, under the span's style too, and then those of the pieces behind it. -/
theorem Row.runs_first (row : Row (.span outer inside :: more)) (around : List Span)
    (held : List Char) :
    runsFrom (Span.union around) held (writtenOf (.span outer inside :: more)) =
      literalRun (Span.union around) held ++
        runsFrom (Span.union (outer :: around)) [] (writtenOf inside) ++
        runsFrom (Span.union around) [] (writtenOf more) := by
  obtain ⟨encloses, inner, alone⟩ := row.first
  rw [Span.union_cons, writtenOf, written]
  exact runsFrom_styled (read?_span encloses inner alone)

/-- Literal text comes out as one run. -/
theorem literalRun_leaf {content : List Char} (literal : IsLiteral content) (around : List Span) :
    literalRun (Span.union around) content.reverse = [Leaf.run ⟨around, content⟩] := by
  have filled : content.reverse ≠ [] := by simpa using literal.1
  rw [literalRun, if_neg filled, List.reverse_reverse]
  by_cases outside : around = []
  · have plain : (Span.union around).isPlain = true := (Span.isPlain_union around).2 outside
    simp only [Run.styled, if_pos plain, Leaf.run, if_pos outside]
  · have styled : ¬ (Span.union around).isPlain = true := by
      rw [Span.isPlain_union]
      exact outside
    simp only [Run.styled, if_neg styled, Leaf.run, if_neg outside]

/-- Literal text is held until something else comes. -/
theorem runsFrom_text {content : List Char} (literal : IsLiteral content) (style : Style)
    (rest : List Markup) : runsFrom style [] (writtenOf (.text content :: rest)) =
      runsFrom style content.reverse (writtenOf rest) := by
  have held : runsFrom style [] (content ++ writtenOf rest) =
      runsFrom style (content.reverse ++ []) (writtenOf rest) := runsFrom_literal literal.2 _
  rwa [List.append_nil] at held

/-- The runs of a row under the spans around it are its texts from left to right. -/
theorem Row.runs (row : Row pieces) (around : List Span) :
    runsFrom (Span.union around) [] (writtenOf pieces) =
      (leavesOf around pieces).map Leaf.run := by
  -- a text is held until the row ends or a span begins, and either sends it out as its own run
  induction row generalizing around with
  | @text content literal =>
    calc runsFrom (Span.union around) [] (writtenOf [.text content])
        = literalRun (Span.union around) content.reverse := by
          rw [runsFrom_text literal, writtenOf, runsFrom]
      _ = [Leaf.run ⟨around, content⟩] := literalRun_leaf literal around
  | @span outer inside encloses inner ih =>
    rw [(Row.span encloses inner).runs_first, ih (outer :: around), writtenOf, runsFrom]
    simp [literalRun, leavesOf, leaves]
  | @textFirst content outer inside more literal rest ih =>
    have behind := ih around
    rw [rest.runs_first] at behind
    rw [runsFrom_text literal, rest.runs_first, literalRun_leaf literal, List.append_assoc]
    rw [List.append_assoc] at behind
    simp only [literalRun, if_true, List.nil_append] at behind
    rw [behind]
    rfl
  | @spanFirst content outer inside more encloses inner rest first behind =>
    rw [(Row.spanFirst encloses inner rest).runs_first, first (outer :: around), behind around]
    simp [literalRun, leavesOf, leaves]

/-- The runs of written markup are its texts from left to right, one run for each. A text outside
all spans has no style, and any other one has all flags of the spans around it and their colour. -/
theorem runsOf_written (row : Row pieces) :
    runsOf (writtenOf pieces) = (leavesOf [] pieces).map Leaf.run := by
  have outside : Span.union [] = Style.plain := rfl
  rw [runsOf, ← outside, row.runs]

/-- Bold text around a raised text in a colour with a struck-through word, between plain texts. -/
theorem runsOf_written_sample :
    runsOf "a **b^{red|c ~~d~~ e}^f** |]".toList =
      [{ text := "a " }, { text := "b", style := some { bold := true } },
        { text := "c ", style := some { bold := true, sup := true, color := some "red" } },
        { text := "d",
          style := some { bold := true, sup := true, strike := true, color := some "red" } },
        { text := " e", style := some { bold := true, sup := true, color := some "red" } },
        { text := "f", style := some { bold := true } }, { text := " |]" }] := by
  have struck : Row [.text "c ".toList, .span (.mark .strike) [.text ['d']],
      .text " e".toList] :=
    .textFirst (by decide +kernel) <|
      .spanFirst ⟨trivial, by decide, by decide, by decide⟩ (.text (by decide +kernel)) <|
        .text (by decide +kernel)
  have raised : Row [.text ['b'], .span (.mark .sup) [.span (.color "red".toList)
      [.text "c ".toList, .span (.mark .strike) [.text ['d']], .text " e".toList]],
      .text ['f']] :=
    .textFirst (by decide +kernel) <|
      .spanFirst ⟨trivial, by decide, by decide, by decide⟩
        (.span ⟨⟨by decide, List.all_eq_true.1 (by decide)⟩, by decide, trivial⟩ struck) <|
          .text (by decide +kernel)
  have whole : Row [.text "a ".toList, .span (.mark .bold) [.text ['b'], .span (.mark .sup)
      [.span (.color "red".toList) [.text "c ".toList, .span (.mark .strike) [.text ['d']],
        .text " e".toList]], .text ['f']], .text " |]".toList] :=
    .textFirst (by decide +kernel) <|
      .spanFirst ⟨trivial, by decide, by decide, by decide⟩ raised <|
        .text (by decide +kernel)
  exact runsOf_written whole

end Markup

end WikiPress

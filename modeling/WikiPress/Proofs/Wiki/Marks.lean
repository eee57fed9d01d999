import WikiPress.Proofs.Inline.Markup
import WikiPress.Proofs.Wiki.Literal

/-!
# The marks of styled runs

A styled run on a page is its quoted text inside the marks of its style, the one of the colour
outermost (`styled_spans`). What stands in front of a text tells which mark is the outermost one and
what is inside it (`around_inj`), and a quoted text is never mistaken for one with a mark around it:
without quotes it ends with a space, and with quotes it begins with them (`around_ne_shown`). So the
style and the text of a run can be read back from what a page shows (`trimmed_ofRun_inj`).
-/

namespace WikiPress

namespace Wiki

open Markup (Span)

/-- What a page writes in front of a text for a marker. -/
def openingMark : Marker → List Char
  | .bold => ['<', 'b', '>']
  | .italic => ['<', 'i', '>']
  | .underline => ['<', 'u', '>']
  | .sup => ['^']
  | .sub => [',', ',']
  | .strike => ['~', '~']

/-- What a page writes behind a text for a marker. -/
def closingMark : Marker → List Char
  | .bold => ['<', '/', 'b', '>']
  | .italic => ['<', '/', 'i', '>']
  | .underline => ['<', '/', 'u', '>']
  | .sup => ['^']
  | .sub => [',', ',']
  | .strike => ['~', '~']

/-- What a page writes in front of a text under a span. -/
def opening : Span → List Char
  | .mark m => openingMark m
  | .color code => "<font color=\"".toList ++ (code ++ ['\"', '>'])

/-- What a page writes behind a text under a span. -/
def closing : Span → List Char
  | .mark m => closingMark m
  | .color _ => "</font>".toList

/-- A text under a span on a page. -/
def around (span : Span) (text : List Char) : List Char := opening span ++ text ++ closing span

/-- A text under spans, the outermost one first. -/
def wrapped (spans : List Span) (text : List Char) : List Char := spans.foldr around text

/-- The span of a marker that a style asks for, or none. -/
def asked (flag : Bool) (m : Marker) : List Span := if flag then [.mark m] else []

/-- The spans that a page shows a style with, the outermost one first. -/
def spans (style : Style) : List Span :=
  (style.color.map fun color => Span.color color.toList).toList ++
    (asked style.strike .strike ++ (asked style.sub .sub ++ (asked style.sup .sup ++
      (asked style.underline .underline ++ (asked style.italic .italic ++
        asked style.bold .bold)))))

/-- The text of a run on a page, without the marks of its style. -/
def shown (text : String) : List Char := (neutral (text ++ " ")).toList

/-- Spans stand around each other. -/
theorem wrapped_append (outer inner : List Span) (text : List Char) :
    wrapped (outer ++ inner) text = wrapped outer (wrapped inner text) := List.foldr_append

/-- A text with the mark of a marker on a page. -/
def marked : Marker → String → String
  | .bold => element "b"
  | .italic => element "i"
  | .underline => element "u"
  | .sup => wrap "^"
  | .sub => wrap ",,"
  | .strike => wrap "~~"

/-- The mark of a marker is around the text. -/
theorem toList_marked (m : Marker) (text : String) :
    (marked m text).toList = around (.mark m) text.toList := by
  show (marked m text).toList = openingMark m ++ text.toList ++ closingMark m
  cases m <;> simp [marked, element, wrap, openingMark, closingMark]

/-- A mark that is asked for is around the text. -/
theorem toList_layer (flag : Bool) (m : Marker) (text : String) :
    (layer flag (marked m) text).toList = wrapped (asked flag m) text.toList := by
  cases flag with
  | true => exact toList_marked m text
  | false => rfl

/-- A colour is around the text. -/
theorem toList_colored (color text : String) :
    (colored color text).toList = around (.color color.toList) text.toList := by
  show ("<font color=\"" ++ color ++ "\">" ++ text ++ "</font>").toList =
    "<font color=\"".toList ++ (color.toList ++ ['\"', '>']) ++ text.toList ++ "</font>".toList
  simp

/-- A styled text is the text under the spans of its style. -/
theorem styled_spans (style : Style) (text : String) :
    (styled style text).toList = wrapped (spans style) text.toList := by
  let inner := layer style.strike (marked .strike) (layer style.sub (marked .sub)
    (layer style.sup (marked .sup) (layer style.underline (marked .underline)
      (layer style.italic (marked .italic) (layer style.bold (marked .bold) text)))))
  rw [spans, wrapped_append]
  cases color : style.color with
  | none =>
    have shown : styled style text = inner := by
      rw [styled, color]
      rfl
    simp only [shown, inner, toList_layer, wrapped_append]
    rfl
  | some name =>
    have shown : styled style text = colored name inner := by
      rw [styled, color]
      rfl
    simp only [shown, toList_colored, inner, toList_layer, wrapped_append]
    rfl

/-- No quotation mark is in the colour of the span. -/
def IsUnquoted : Span → Prop
  | .mark _ => True
  | .color code => '\"' ∉ code

section Reading

variable {span other : Span} {text more : List Char}

/-- What stands in front of a text tells the marker. -/
theorem openingMark_inj {m n : Marker} (same : openingMark m ++ text = openingMark n ++ more) :
    m = n := by
  cases m <;> cases n <;> simp_all [openingMark]

/-- A colour begins differently from all markers. -/
theorem opening_color_ne (code : List Char) (m : Marker) :
    opening (.color code) ++ text ≠ openingMark m ++ more := by
  have begun : ∃ rest, opening (.color code) ++ text = '<' :: 'f' :: rest := ⟨_, rfl⟩
  obtain ⟨rest, shape⟩ := begun
  rw [shape]
  cases m <;> simp [openingMark]

/-- What stands in front of a text tells the span. -/
theorem opening_inj (one : IsUnquoted span) (two : IsUnquoted other)
    (same : opening span ++ text = opening other ++ more) : span = other := by
  cases span with
  | mark m =>
    cases other with
    | mark n => rw [openingMark_inj same]
    | color code => exact absurd same.symm (opening_color_ne code m)
  | color code =>
    cases other with
    | mark n => exact absurd same (opening_color_ne code n)
    | color name =>
      -- the colour reaches up to the quotation mark behind it
      have behind (code text : List Char) : opening (.color code) ++ text =
          "<font color=\"".toList ++ (code ++ '\"' :: ('>' :: text)) := by
        show "<font color=\"".toList ++ (code ++ ['\"', '>']) ++ text = _
        simp only [List.append_assoc, List.cons_append, List.nil_append]
      rw [behind, behind] at same
      have cut := congrArg (Text.cut '\"') (List.append_cancel_left same)
      rw [Text.cut_append one, Text.cut_append two] at cut
      rw [(Prod.mk.inj (Option.some.inj cut)).1]

/-- A text under a span tells the span and the text. -/
theorem around_inj (one : IsUnquoted span) (two : IsUnquoted other)
    (same : around span text = around other more) : span = other ∧ text = more := by
  rw [around, around, List.append_assoc, List.append_assoc] at same
  obtain rfl := opening_inj one two same
  exact ⟨rfl, List.append_cancel_right (List.append_cancel_left same)⟩

/-- The mark in front of a text begins with neither white space nor a quote. -/
theorem exists_opening (span : Span) : ∃ first rest, opening span = first :: rest ∧
    Text.isSpace first = false ∧ first ≠ '\x60' ∧ first ≠ '\x7b' := by
  cases span with
  | mark m => cases m <;> exact ⟨_, _, rfl, by decide⟩
  | color code => exact ⟨'<', _, rfl, by decide⟩

/-- The mark behind a text does not end with white space. -/
theorem exists_closing (span : Span) :
    ∃ front last, closing span = front ++ [last] ∧ Text.isSpace last = false := by
  cases span with
  | mark m =>
    cases m with
    | bold => exact ⟨['<', '/', 'b'], '>', rfl, by decide⟩
    | italic => exact ⟨['<', '/', 'i'], '>', rfl, by decide⟩
    | underline => exact ⟨['<', '/', 'u'], '>', rfl, by decide⟩
    | sup => exact ⟨[], '^', rfl, by decide⟩
    | sub => exact ⟨[','], ',', rfl, by decide⟩
    | strike => exact ⟨['~'], '~', rfl, by decide⟩
  | color code => exact ⟨"</font".toList, '>', rfl, by decide⟩

/-- Nothing is trimmed off a text under a span. -/
theorem trim_around (span : Span) (text : List Char) :
    Text.trim (around span text) = around span text := by
  obtain ⟨first, rest, opened, front, _⟩ := exists_opening span
  obtain ⟨start, last, closed, back⟩ := exists_closing span
  have shape : around span text = first :: (rest ++ text ++ start ++ [last]) := by
    rw [around, opened, closed]
    simp
  apply Text.trim_eq_self
  · rw [shape]
    rintro c ⟨⟩
    exact front
  · rw [shape, ← List.cons_append, List.getLast?_concat]
    rintro c ⟨⟩
    exact back

/-- The text of a run without its marks is no text under a span. -/
theorem around_ne_shown (span : Span) (inner : List Char) (text : String) :
    around span inner ≠ shown text := by
  intro same
  by_cases open_ : IsOpen text.toList
  · -- without quotes the text ends with a space
    obtain ⟨start, last, closed, back⟩ := exists_closing span
    have spaced : shown text = text.toList ++ [' '] := by
      rw [shown, neutral_of_isOpen open_]
      exact String.toList_append
    have ends := congrArg List.getLast? same
    rw [spaced, around, closed, ← List.append_assoc, List.getLast?_concat,
      List.getLast?_concat] at ends
    rw [Option.some.inj ends] at back
    cases back
  · -- with quotes it begins with them
    obtain ⟨first, rest, opened, _, unquoted, unbraced⟩ := exists_opening span
    obtain ⟨⟨c, more, quoted, quote⟩, _⟩ := neutral_of_not_isOpen open_
    have begins := congrArg List.head? same
    rw [shown, quoted, around, opened] at begins
    obtain rfl := Option.some.inj begins
    exact quote.elim unquoted unbraced

/-- A text that needs no quotes is not shown as one that does. -/
theorem shown_ne_shown {text more : String} (open_ : IsOpen text.toList)
    (marked : ¬ IsOpen more.toList) : shown text ≠ shown more := by
  have plain : shown text = text.toList ++ [' '] := by
    rw [shown, neutral_of_isOpen open_]
    exact String.toList_append
  have back : '\x60' ∈ shown more := (neutral_of_not_isOpen marked).2
  intro same
  rw [← same, plain] at back
  simp [open_.1] at back

/-- A text in braces is not shown as one in back-quotes. -/
theorem shown_ne_of_mem {text more : String} (back : '\x60' ∈ text.toList)
    (marked : ¬ IsOpen more.toList) (other : '\x60' ∉ more.toList) : shown text ≠ shown more := by
  rw [shown, shown, neutral_of_mem back, neutral_of_not_mem marked other]
  simp

/-- What a page shows of a text tells the text. -/
theorem shown_inj {text more : String} (same : shown text = shown more) : text = more := by
  by_cases open_ : IsOpen text.toList <;> by_cases plain : IsOpen more.toList
  · rw [shown, shown, neutral_of_isOpen open_, neutral_of_isOpen plain] at same
    exact String.toList_inj.1 (by simpa using same)
  · exact absurd same (shown_ne_shown open_ plain)
  · exact absurd same.symm (shown_ne_shown plain open_)
  · by_cases back : '\x60' ∈ text.toList <;> by_cases other : '\x60' ∈ more.toList
    · rw [shown, shown, neutral_of_mem back, neutral_of_mem other] at same
      exact String.toList_inj.1 (by simpa using same)
    · exact absurd same (shown_ne_of_mem back plain other)
    · exact absurd same.symm (shown_ne_of_mem other open_ back)
    · rw [shown, shown, neutral_of_not_mem open_ back, neutral_of_not_mem plain other] at same
      exact String.toList_inj.1 (by simpa using same)

/-- A text under spans tells all of the spans and the text inside them. -/
theorem wrapped_inj {spans others : List Span} {text more : String}
    (one : ∀ span ∈ spans, IsUnquoted span) (two : ∀ span ∈ others, IsUnquoted span)
    (same : wrapped spans (shown text) = wrapped others (shown more)) :
    spans = others ∧ text = more := by
  induction spans generalizing others with
  | nil =>
    cases others with
    | nil => exact ⟨rfl, shown_inj same⟩
    | cons outer inner => exact absurd same.symm (around_ne_shown outer _ text)
  | cons outer inner ih =>
    cases others with
    | nil => exact absurd same (around_ne_shown outer _ more)
    | cons other rest =>
      rw [List.forall_mem_cons] at one two
      obtain ⟨rfl, inside⟩ := around_inj one.1 two.1 same
      obtain ⟨rfl, texts⟩ := ih one.2 two.2 inside
      exact ⟨rfl, texts⟩

end Reading

/-- The spans of a style set the style. -/
theorem union_spans (style : Style) : Span.union (spans style) = style := by
  obtain ⟨bold, italic, underline, sup, sub, strike, color⟩ := style
  have own (flag : Bool) (m n : Marker) : Span.mark n ∈ asked flag m ↔ flag = true ∧ n = m := by
    cases flag <;> simp [asked]
  have colorless (flag : Bool) (m : Marker) : (asked flag m).findSome? Span.color? = none := by
    cases flag <;> rfl
  cases color with
  | none => simp [Span.union, spans, own, colorless, List.findSome?_append]
  | some name => simp [Span.union, spans, own, Span.color?]

/-- The run is a text under a style that sets something, with a colour of letters, digits and number
signs if it sets one, and is neither a link nor an image. -/
structure IsMarked (run : Run) : Prop where
  linkless : run.href = none
  imageless : run.src = none
  styled : ∃ style, run.style = some style ∧ style.isPlain = false ∧
    ∀ color ∈ style.color, ∀ c ∈ color.toList, Construct.isColorChar c = true

/-- A colour of letters, digits and number signs holds no quotation mark. -/
theorem isUnquoted_of_mem_spans {style : Style}
    (valid : ∀ color ∈ style.color, ∀ c ∈ color.toList, Construct.isColorChar c = true) :
    ∀ span ∈ spans style, IsUnquoted span := by
  intro span member
  cases span with
  | mark m => trivial
  | color code =>
    have uncolored (flag : Bool) (m : Marker) : Span.color code ∉ asked flag m := by
      cases flag <;> simp [asked]
    simp only [spans, List.mem_append, uncolored, or_false] at member
    obtain ⟨color, own, rfl⟩ : ∃ color ∈ style.color, color.toList = code := by
      simpa using member
    intro quote
    have named := valid color own _ quote
    revert named
    decide

/-- A marked run is shown on a page as its text under the spans of its style. -/
theorem trimmed_ofRun {run : Run} {style : Style} (linkless : run.href = none)
    (imageless : run.src = none) (own : run.style = some style) (visible : style.isPlain = false) :
    (Text.trimmed (ofRun run)).toList = wrapped (spans style) (shown run.text) := by
  have written : ofRun run = styled style (neutral (run.text ++ " ")) := by
    simp [ofRun, linkless, imageless, own]
  have marked : spans style ≠ [] := by
    intro none
    have same := union_spans style
    rw [none] at same
    rw [← same] at visible
    cases visible
  obtain ⟨outer, inner, shape⟩ := List.exists_cons_of_ne_nil marked
  rw [Text.toList_trimmed, written, styled_spans, ← shown, shape]
  exact trim_around outer _

/-- Two marked runs look alike on a page exactly where they have the same text and the same style,
whatever their texts are. -/
theorem trimmed_ofRun_inj {first second : Run} (one : IsMarked first) (two : IsMarked second) :
    Text.trimmed (ofRun first) = Text.trimmed (ofRun second) ↔
      first.text = second.text ∧ first.style = second.style := by
  obtain ⟨linkless, imageless, style, own, visible, valid⟩ := one
  obtain ⟨linkless', imageless', style', own', visible', valid'⟩ := two
  have left := trimmed_ofRun linkless imageless own visible
  have right := trimmed_ofRun linkless' imageless' own' visible'
  constructor
  · intro same
    rw [same, right] at left
    obtain ⟨spans, texts⟩ := wrapped_inj (isUnquoted_of_mem_spans valid')
      (isUnquoted_of_mem_spans valid) left
    have styles : style' = style := by rw [← union_spans style', spans, union_spans]
    exact ⟨texts.symm, by rw [own, own', styles]⟩
  · rintro ⟨texts, styles⟩
    rw [own, own', Option.some.injEq] at styles
    rw [← String.toList_inj, left, right, texts, styles]

/-- A red text between two circumflexes does not look like the raised text in red, and a text that is
written like a run in bold type does not look like that run in italics. -/
theorem trimmed_ofRun_inj_sample :
    let red : Style := { color := some "red" }
    let literal : Run := { text := "^a ^", style := some red }
    let raised : Run := { text := "a", style := some { red with sup := true } }
    let written : Run := { text := "<b>`</b>", style := some { italic := true } }
    let bold : Run := { text := "`", style := some { bold := true, italic := true } }
    IsMarked literal ∧ IsMarked raised ∧ IsMarked written ∧ IsMarked bold ∧
      Text.trimmed (ofRun literal) ≠ Text.trimmed (ofRun raised) ∧
      Text.trimmed (ofRun written) ≠ Text.trimmed (ofRun bold) := by
  intro red literal raised written bold
  have valid : ∀ color ∈ red.color, ∀ c ∈ color.toList, Construct.isColorChar c = true := by
    rintro color ⟨⟩
    exact List.all_eq_true.1 (by decide)
  have one : IsMarked literal := ⟨rfl, rfl, red, rfl, rfl, valid⟩
  have two : IsMarked raised := ⟨rfl, rfl, { red with sup := true }, rfl, rfl, valid⟩
  have three : IsMarked written := ⟨rfl, rfl, { italic := true }, rfl, rfl, by simp⟩
  have four : IsMarked bold := ⟨rfl, rfl, { bold := true, italic := true }, rfl, rfl, by simp⟩
  refine ⟨one, two, three, four, fun same => ?_, fun same => ?_⟩
  · exact absurd ((trimmed_ofRun_inj one two).1 same).1 (by decide)
  · exact absurd ((trimmed_ofRun_inj three four).1 same).1 (by decide)

end Wiki

end WikiPress

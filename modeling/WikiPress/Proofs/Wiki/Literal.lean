import WikiPress.Proofs.Text.Trimming
import WikiPress.Wiki.Run

/-!
# Literal text on pages

A text that holds a token of the markup is quoted, so on a page no text without quotes holds one
(`hasToken_trim`). Every mark of a style but one is a token: a styled run holds a token unless it is
raised and nothing else (`hasToken_styled`). The circumflex of raised text is no token, and a literal
text that is written like a raised run is the same on the page as that run (`literal_eq_styled_iff`).
-/

namespace WikiPress

namespace Wiki

/-- The character is never part of a token. -/
def IsQuiet (c : Char) : Prop := isToken c = false ∧ isPairToken c = false

/-- The text stands on a page without quotes. -/
def IsOpen (text : List Char) : Prop := '\x60' ∉ text ∧ hasToken text = false

section Tokens

variable {c : Char} {text more : List Char}

/-- White space is quiet. -/
theorem isQuiet_of_isSpace (space : Text.isSpace c = true) : IsQuiet c := by
  have apart : ∀ d, Text.isSpace d = false → c ≠ d := by
    rintro d filled rfl
    rw [space] at filled
    cases filled
  constructor
  · simp [isToken, apart '_' rfl, apart '*' rfl, apart '<' rfl, apart '>' rfl, apart '\x7b' rfl,
      apart '\x7d' rfl, apart '[' rfl, apart ']' rfl]
  · simp [isPairToken, apart ',' rfl, apart '~' rfl, apart '|' rfl]

/-- A token begins with the first character or stands behind it. -/
theorem hasToken_cons (c : Char) (rest : List Char) :
    hasToken (c :: rest) =
      (isToken c || (isPairToken c && rest.head? == some c) || hasToken rest) := by
  cases rest with
  | nil => simp [hasToken]
  | cons d more => rw [hasToken, List.head?_cons, Option.some_beq_some, Bool.beq_comm]

/-- A quiet character in front adds no token. -/
theorem hasToken_cons_quiet (quiet : IsQuiet c) : hasToken (c :: text) = hasToken text := by
  rw [hasToken_cons, quiet.1, quiet.2, Bool.false_and, Bool.false_or, Bool.false_or]

/-- A quiet character behind a text adds no token. -/
theorem hasToken_concat_quiet (quiet : IsQuiet c) : hasToken (text ++ [c]) = hasToken text := by
  induction text with
  | nil => exact hasToken_cons_quiet quiet
  | cons first rest ih =>
    rw [List.cons_append, hasToken_cons, hasToken_cons, ih]
    cases rest with
    | nil =>
      have apart : (isPairToken first && some c == some first) = false := by
        by_cases same : c = first
        · rw [← same, quiet.2, Bool.false_and]
        · simp [same]
      rw [List.nil_append, List.head?_cons, apart, List.head?_nil]
      simp
    | cons next more => rfl

/-- A token stays one behind another text. -/
theorem hasToken_append_left (token : hasToken more = true) : hasToken (text ++ more) = true := by
  induction text with
  | nil => exact token
  | cons first rest ih => rw [List.cons_append, hasToken_cons, ih, Bool.or_true]

/-- A token stays one in front of another text. -/
theorem hasToken_append_right (token : hasToken text = true) : hasToken (text ++ more) = true := by
  induction text with
  | nil => cases token
  | cons first rest ih =>
    rw [hasToken_cons] at token
    rw [List.cons_append, hasToken_cons]
    simp only [Bool.or_eq_true, Bool.and_eq_true] at token ⊢
    rcases token with (own | ⟨pair, next⟩) | behind
    · exact .inl (.inl own)
    · left
      right
      cases rest with
      | nil => cases next
      | cons d others => exact ⟨pair, next⟩
    · exact .inr (ih behind)

/-- White space around a text adds no token. -/
theorem hasToken_trim (text : List Char) : hasToken (Text.trim text) = hasToken text := by
  obtain ⟨front, back, split, before, behind⟩ := Text.exists_trim text
  have led : ∀ {spaces : List Char} (rest : List Char), (∀ c ∈ spaces, Text.isSpace c = true) →
      hasToken (spaces ++ rest) = hasToken rest := by
    intro spaces rest blank
    induction spaces with
    | nil => rfl
    | cons first others ih =>
      rw [List.forall_mem_cons] at blank
      rw [List.cons_append, hasToken_cons_quiet (isQuiet_of_isSpace blank.1), ih blank.2]
  have followed : ∀ {spaces : List Char} (rest : List Char),
      (∀ c ∈ spaces, Text.isSpace c = true) → hasToken (rest ++ spaces) = hasToken rest := by
    intro spaces rest blank
    induction spaces generalizing rest with
    | nil => rw [List.append_nil]
    | cons first others ih =>
      rw [List.forall_mem_cons] at blank
      rw [List.append_cons, ih _ blank.2, hasToken_concat_quiet (isQuiet_of_isSpace blank.1)]
  conv_rhs => rw [split, followed _ behind, led _ before]

end Tokens

section Quotes

variable {text : String}

/-- A text is shown with a space behind it if it needs no quotes. -/
theorem neutral_of_isOpen (plain : IsOpen text.toList) : neutral (text ++ " ") = text ++ " " := by
  have shown : (text ++ " ").toList = text.toList ++ [' '] := String.toList_append
  have unmarked : (text ++ " ").toList.contains '\x60' = false := by
    simp [shown, plain.1]
  have tokenless : hasToken (text ++ " ").toList = false := by
    rw [shown, hasToken_concat_quiet ⟨rfl, rfl⟩, plain.2]
  rw [neutral, unmarked, tokenless]
  rfl

/-- A text that holds a back-quote is shown in braces. -/
theorem neutral_of_mem (back : '\x60' ∈ text.toList) :
    neutral (text ++ " ") = "\x7b\x7b\x7b" ++ (text ++ " ") ++ "\x7d\x7d\x7d" := by
  have shown : (text ++ " ").toList = text.toList ++ [' '] := String.toList_append
  rw [neutral, if_pos (by simp [shown, back])]

/-- A text that needs quotes and holds no back-quote is shown in back-quotes. -/
theorem neutral_of_not_mem (marked : ¬ IsOpen text.toList) (back : '\x60' ∉ text.toList) :
    neutral (text ++ " ") = "`" ++ (text ++ " ") ++ "`" := by
  have shown : (text ++ " ").toList = text.toList ++ [' '] := String.toList_append
  have token : hasToken (text ++ " ").toList = true := by
    rw [shown, hasToken_concat_quiet ⟨rfl, rfl⟩]
    by_contra tokenless
    exact marked ⟨back, by simpa using tokenless⟩
  rw [neutral, if_neg (by simp [shown, back]), if_pos token]

/-- A text that needs quotes begins with them, and holds a back-quote then. -/
theorem neutral_of_not_isOpen (marked : ¬ IsOpen text.toList) :
    (∃ c rest, (neutral (text ++ " ")).toList = c :: rest ∧ (c = '\x60' ∨ c = '\x7b')) ∧
      '\x60' ∈ (neutral (text ++ " ")).toList := by
  by_cases back : '\x60' ∈ text.toList
  · rw [neutral_of_mem back]
    simp [back]
  · rw [neutral_of_not_mem marked back]
    simp

/-- Whether a text needs quotes does not depend on the white space around it. -/
theorem isOpen_trim (text : List Char) : IsOpen (Text.trim text) ↔ IsOpen text := by
  rw [IsOpen, IsOpen, Text.mem_trim_iff rfl, hasToken_trim]

end Quotes

/-- A mark around a text where the style asks for it. -/
def layer (flag : Bool) (mark : String → String) (text : String) : String :=
  if flag then mark text else text

/-- A text in the elements of a style. -/
def elements (style : Style) (text : String) : String :=
  layer style.underline (element "u") (layer style.italic (element "i")
    (layer style.bold (element "b") text))

section Styles

variable {style : Style} {text : String} {flag : Bool} {mark : String → String}

/-- A colour goes around everything else. -/
theorem styled_color {color : String} (colorful : style.color = some color) (text : String) :
    ∃ inner, styled style text = colored color inner := by
  rw [styled, colorful]
  exact ⟨_, rfl⟩

/-- Without a colour, the elements come first, and the sigils around them. -/
theorem styled_eq_layers (colorless : style.color = none) (text : String) :
    styled style text = layer style.strike (wrap "~~") (layer style.sub (wrap ",,")
      (layer style.sup (wrap "^") (elements style text))) := by
  rw [styled, colorless]
  rfl

/-- The text begins with a character that begins a mark. -/
def BeginsMarked (text : String) : Prop :=
  ∃ c ∈ text.toList.head?, c = '<' ∨ c = '^' ∨ c = ',' ∨ c = '~'

/-- A mark that is asked for begins the text, and otherwise what it would go around does. -/
theorem beginsMarked_layer (always : ∀ inner, BeginsMarked (mark inner))
    (within : flag = false → BeginsMarked text) : BeginsMarked (layer flag mark text) := by
  cases flag with
  | true => exact always text
  | false => exact within rfl

/-- A text that begins with a tag begins with a mark. -/
theorem beginsMarked_tagged (tagged : text.toList.head? = some '<') : BeginsMarked text :=
  ⟨'<', tagged, .inl rfl⟩

/-- An element begins with its tag. -/
theorem head?_element (name text : String) : (element name text).toList.head? = some '<' := by
  simp [element]

/-- A coloured text begins with the tag of its colour. -/
theorem head?_colored (name text : String) : (colored name text).toList.head? = some '<' := by
  show ("<font color=\"" ++ name ++ "\">" ++ text ++ "</font>").toList.head? = some '<'
  simp

/-- Without any other mark, a style raises at most. -/
theorem eq_of_unmarked (color : style.color = none) (strike : style.strike = false)
    (sub : style.sub = false) (underline : style.underline = false) (italic : style.italic = false)
    (bold : style.bold = false) : style = { sup := style.sup } := by
  obtain ⟨_, _, _, _, _, _, _⟩ := style
  subst color strike sub underline italic bold
  rfl

/-- A run with a visible style begins with one of its marks. -/
theorem beginsMarked_styled (visible : style.isPlain = false) (text : String) :
    BeginsMarked (styled style text) := by
  cases color : style.color with
  | some name =>
    obtain ⟨inner, shown⟩ := styled_color color text
    rw [shown]
    exact beginsMarked_tagged (head?_colored name inner)
  | none =>
    rw [styled_eq_layers color, elements]
    refine beginsMarked_layer (fun inner => ⟨'~', by simp [wrap], by simp⟩) fun strike => ?_
    refine beginsMarked_layer (fun inner => ⟨',', by simp [wrap], by simp⟩) fun sub => ?_
    refine beginsMarked_layer (fun inner => ⟨'^', by simp [wrap], by simp⟩) fun sup => ?_
    refine beginsMarked_layer (fun inner => beginsMarked_tagged (head?_element "u" inner))
      fun underline => ?_
    refine beginsMarked_layer (fun inner => beginsMarked_tagged (head?_element "i" inner))
      fun italic => ?_
    refine beginsMarked_layer (fun inner => beginsMarked_tagged (head?_element "b" inner))
      fun bold => ?_
    rw [eq_of_unmarked color strike sub underline italic bold, sup] at visible
    cases visible

/-- A mark that is a token makes a text hold one, and otherwise the text it would go around does. -/
theorem hasToken_layer (always : ∀ inner, hasToken (mark inner).toList = true)
    (within : flag = false → hasToken text.toList = true) :
    hasToken (layer flag mark text).toList = true := by
  cases flag with
  | true => exact always text
  | false => exact within rfl

/-- A text that begins with a tag holds a token. -/
theorem hasToken_tagged (tagged : text.toList.head? = some '<') : hasToken text.toList = true := by
  obtain ⟨rest, shown⟩ := List.head?_eq_some_iff.1 tagged
  rw [shown, hasToken_cons]
  rfl

/-- A sigil of two characters is a token. -/
theorem hasToken_wrap_pair {c : Char} (pair : isPairToken c = true) (text : String) :
    hasToken (wrap (String.ofList [c, c]) text).toList = true := by
  have shown : (wrap (String.ofList [c, c]) text).toList = c :: c :: (text.toList ++ [c, c]) := by
    simp [wrap]
  rw [shown, hasToken_cons, pair]
  simp

/-- A text around which a mark goes keeps its tokens. -/
theorem hasToken_wrap {sigil : String} (token : hasToken text.toList = true) :
    hasToken (wrap sigil text).toList = true := by
  rw [wrap, String.toList_append, String.toList_append]
  exact hasToken_append_right (hasToken_append_left token)

/-- A run with a visible style holds a token, unless it is raised and nothing else. -/
theorem hasToken_styled (visible : style.isPlain = false) (other : style ≠ { sup := true })
    (text : String) : hasToken (styled style text).toList = true := by
  cases color : style.color with
  | some name =>
    obtain ⟨inner, shown⟩ := styled_color color text
    rw [shown]
    exact hasToken_tagged (head?_colored name inner)
  | none =>
    rw [styled_eq_layers color]
    refine hasToken_layer (hasToken_wrap_pair (c := '~') rfl) fun strike => ?_
    refine hasToken_layer (hasToken_wrap_pair (c := ',') rfl) fun sub => ?_
    -- the circumflex is no token, so the elements below it have to hold one
    have inner : hasToken (elements style text).toList = true := by
      refine hasToken_layer (fun inner => hasToken_tagged (head?_element "u" inner))
        fun underline => ?_
      refine hasToken_layer (fun inner => hasToken_tagged (head?_element "i" inner))
        fun italic => ?_
      refine hasToken_layer (fun inner => hasToken_tagged (head?_element "b" inner))
        fun bold => ?_
      have alone := eq_of_unmarked color strike sub underline italic bold
      cases sup : style.sup with
      | true =>
        rw [sup] at alone
        exact absurd alone other
      | false =>
        rw [alone, sup] at visible
        cases visible
    cases style.sup with
    | true => exact hasToken_wrap inner
    | false => exact inner

/-- A raised run is its text between two circumflexes. -/
theorem styled_raised (text : String) : styled { sup := true } text = "^" ++ text ++ "^" := rfl

/-- Nothing is trimmed off a text between two circumflexes. -/
theorem trimmed_raised (text : String) : Text.trimmed ("^" ++ text ++ "^") = "^" ++ text ++ "^" := by
  have shown : ("^" ++ text ++ "^").toList = '^' :: (text.toList ++ ['^']) := by simp
  have filled : Text.trimEnd ['^'] ≠ [] := by decide
  have kept : Text.trimEnd ('^' :: (text.toList ++ ['^'])) = '^' :: (text.toList ++ ['^']) := by
    rw [← List.cons_append, Text.trimEnd_append _ filled]
    rfl
  rw [Text.trimmed, shown, Text.trim, Text.trimStart_cons rfl, kept, ← shown, String.ofList_toList]

end Styles

/-- A text that needs no quotes is trimmed on a page. -/
theorem trimmed_neutral_of_isOpen {text : String} (plain : IsOpen text.toList) :
    Text.trimmed (neutral (text ++ " ")) = Text.trimmed text := by
  have shown : (text ++ " ").toList = text.toList ++ [' '] := String.toList_append
  rw [neutral_of_isOpen plain, Text.trimmed, shown, Text.trim_concat rfl, Text.trimmed]

/-- A text that needs quotes begins with them on a page, and so with no mark of a style. -/
theorem not_beginsMarked_of_not_isOpen {text : String} (marked : ¬ IsOpen text.toList) :
    ¬ BeginsMarked (Text.trimmed (neutral (text ++ " "))) := by
  obtain ⟨⟨c, rest, shown, quote⟩, _⟩ := neutral_of_not_isOpen marked
  have filled : Text.isSpace c = false := by rcases quote with rfl | rfl <;> rfl
  rintro ⟨d, begun, mark⟩
  rw [Text.toList_trimmed, shown, Text.head?_trim filled] at begun
  obtain rfl := Option.some.inj begun
  rcases quote with rfl | rfl <;> simp at mark

/-- Trimming leaves the mark at the beginning. -/
theorem BeginsMarked.trimmed {text : String} (begun : BeginsMarked text) :
    BeginsMarked (Text.trimmed text) := by
  obtain ⟨c, first, mark⟩ := begun
  obtain ⟨rest, shown⟩ := List.head?_eq_some_iff.1 first
  have filled : Text.isSpace c = false := by rcases mark with rfl | rfl | rfl | rfl <;> rfl
  exact ⟨c, by rw [Text.toList_trimmed, shown, Text.head?_trim filled]; rfl, mark⟩

/-- A text that needs no quotes needs none between circumflexes. -/
theorem IsOpen.raised {text : String} (plain : IsOpen text.toList) :
    IsOpen ("^" ++ (text ++ " ") ++ "^").toList := by
  have shown : ("^" ++ (text ++ " ") ++ "^").toList = '^' :: (text.toList ++ [' '] ++ ['^']) := by
    simp
  rw [shown]
  constructor
  · simp [plain.1]
  · rw [hasToken_cons_quiet ⟨rfl, rfl⟩, hasToken_concat_quiet ⟨rfl, rfl⟩,
      hasToken_concat_quiet ⟨rfl, rfl⟩, plain.2]

section Pages

variable {text other : String} {style : Style}

/-- A text that needs quotes looks like no run with a visible style on a page. -/
theorem ne_styled_of_not_isOpen (marked : ¬ IsOpen text.toList) (visible : style.isPlain = false) :
    Text.trimmed (neutral (text ++ " ")) ≠ Text.trimmed (styled style other) := by
  intro same
  have begun := (beginsMarked_styled visible other).trimmed
  rw [← same] at begun
  exact not_beginsMarked_of_not_isOpen marked begun

/-- A text that needs no quotes looks like no run on a page whose style does more than raise it. -/
theorem ne_styled_of_isOpen (plain : IsOpen text.toList) (visible : style.isPlain = false)
    (unlike : style ≠ { sup := true }) :
    Text.trimmed (neutral (text ++ " ")) ≠ Text.trimmed (styled style other) := by
  intro same
  have token := hasToken_styled visible unlike other
  have tokenless := plain.2
  rw [trimmed_neutral_of_isOpen plain] at same
  rw [← hasToken_trim, ← Text.toList_trimmed, same, Text.toList_trimmed, hasToken_trim,
    token] at tokenless
  cases tokenless

/-- A text that needs no quotes looks like a raised run exactly where the run needs none either and
stands in the text between two circumflexes. -/
theorem eq_raised_iff (plain : IsOpen text.toList) :
    Text.trimmed (neutral (text ++ " ")) =
        Text.trimmed (styled { sup := true } (neutral (other ++ " "))) ↔
      IsOpen other.toList ∧ Text.trimmed text = "^" ++ (other ++ " ") ++ "^" := by
  rw [trimmed_neutral_of_isOpen plain, styled_raised, trimmed_raised]
  by_cases open_ : IsOpen other.toList
  · rw [neutral_of_isOpen open_, and_iff_right open_]
  · -- a quoted run holds a back-quote, which would have the text quoted
    have back := (neutral_of_not_isOpen open_).2
    have unlike : Text.trimmed text ≠ "^" ++ neutral (other ++ " ") ++ "^" := by
      intro same
      have held : '\x60' ∈ (Text.trimmed text).toList := by
        rw [same]
        simp [back]
      rw [Text.toList_trimmed, Text.mem_trim_iff rfl] at held
      exact plain.1 held
    exact iff_of_false unlike fun both => open_ both.1

end Pages

/-- A literal text looks like a run with a visible style on a page exactly where the style raises the
run and does nothing else, the run needs no quotes, and the text is the run with a space behind it
between two circumflexes. -/
theorem literal_eq_styled_iff {literal run : Run} {style : Style}
    (bare : literal.style = none ∧ literal.href = none ∧ literal.src = none)
    (shown : run.style = some style ∧ run.href = none ∧ run.src = none)
    (visible : style.isPlain = false) :
    Text.trimmed (ofRun literal) = Text.trimmed (ofRun run) ↔
      style = { sup := true } ∧ IsOpen run.text.toList ∧
        Text.trimmed literal.text = "^" ++ (run.text ++ " ") ++ "^" := by
  have left : ofRun literal = neutral (literal.text ++ " ") := by simp [ofRun, bare]
  have right : ofRun run = styled style (neutral (run.text ++ " ")) := by simp [ofRun, shown]
  rw [left, right]
  by_cases plain : IsOpen literal.text.toList
  · by_cases raised : style = { sup := true }
    · rw [raised, eq_raised_iff plain, and_iff_right rfl]
    · exact iff_of_false (ne_styled_of_isOpen plain visible raised) fun all => raised all.1
  · refine iff_of_false (ne_styled_of_not_isOpen plain visible) ?_
    rintro ⟨_, open_, same⟩
    have around := open_.raised
    rw [← same, Text.toList_trimmed, isOpen_trim] at around
    exact plain around

/-- Of two literal texts the one between circumflexes looks like the raised run, and neither looks
like the run that is struck through as well. -/
theorem literal_eq_styled_iff_sample :
    let raised : Run := { text := "2", style := some { sup := true } }
    let struck : Run := { text := "2", style := some { sup := true, strike := true } }
    Style.isPlain { sup := true } = false ∧
      Text.trimmed (ofRun { text := " ^2 ^" }) = Text.trimmed (ofRun raised) ∧
      Text.trimmed (ofRun { text := "^2^" }) ≠ Text.trimmed (ofRun raised) ∧
      Text.trimmed (ofRun { text := "~~^2 ^~~" }) ≠ Text.trimmed (ofRun struck) := by
  intro raised struck
  have same : Text.trimmed (ofRun { text := " ^2 ^" }) = Text.trimmed (ofRun raised) :=
    (literal_eq_styled_iff ⟨rfl, rfl, rfl⟩ ⟨rfl, rfl, rfl⟩ rfl).2
      ⟨rfl, ⟨by decide, by decide⟩, by decide⟩
  have spaceless : Text.trimmed (ofRun { text := "^2^" }) ≠ Text.trimmed (ofRun raised) := by
    intro alike
    have written := ((literal_eq_styled_iff ⟨rfl, rfl, rfl⟩ ⟨rfl, rfl, rfl⟩ rfl).1 alike).2.2
    exact absurd written (by decide)
  refine ⟨rfl, same, spaceless, fun alike => ?_⟩
  have alone := ((literal_eq_styled_iff ⟨rfl, rfl, rfl⟩ ⟨rfl, rfl, rfl⟩ rfl).1 alike).1
  exact absurd alone (by decide)

/-- A literal text between circumflexes looks like a raised run. -/
theorem literal_looks_raised :
    let literal : Run := { text := "^a ^" }
    let run : Run := { text := "a", style := some { sup := true } }
    Style.isPlain { sup := true } = false ∧
      Text.trimmed (ofRun literal) = Text.trimmed (ofRun run) := by
  decide

end Wiki

end WikiPress

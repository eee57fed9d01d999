import WikiPress.Document.Run
import WikiPress.Text.Space
import WikiPress.Text.Split

/-!
# Runs in wiki markup

A run's text is followed by a space and set in back-quotes if it holds a token of the markup, or
in triple braces if it holds a back-quote. Images and links stand in brackets and show no style;
the marks of a style go around the text in a fixed order, bold innermost and colour outermost.
-/

namespace WikiPress.Wiki

/-- A character that is markup wherever it stands. -/
def isToken (c : Char) : Bool :=
  c = '_' || c = '*' || c = '<' || c = '>' || c = '\x7b' || c = '\x7d' || c = '[' || c = ']'

/-- A character that is markup when it stands twice in a row. -/
def isPairToken (c : Char) : Bool := c = ',' || c = '~' || c = '|'

/-- The text holds a token of the markup. -/
def hasToken : List Char → Bool
  | [] => false
  | [c] => isToken c
  | c :: d :: rest => isToken c || (isPairToken c && c == d) || hasToken (d :: rest)

/-- A text in which no token works as markup. -/
def neutral (text : String) : String :=
  if text.toList.contains '\x60' then "\x7b\x7b\x7b" ++ text ++ "\x7d\x7d\x7d"
  else if hasToken text.toList then "`" ++ text ++ "`"
  else text

/-- A text between two copies of a mark. -/
def wrap (mark text : String) : String := mark ++ text ++ mark

/-- A text in an element. -/
def element (name text : String) : String := "<" ++ name ++ ">" ++ text ++ "</" ++ name ++ ">"

/-- A text in a colour. -/
def colored (color text : String) : String :=
  "<font color=\"" ++ color ++ "\">" ++ text ++ "</font>"

/-- A text under a style. -/
def styled (style : Style) (text : String) : String :=
  let text := if style.bold then element "b" text else text
  let text := if style.italic then element "i" text else text
  let text := if style.underline then element "u" text else text
  let text := if style.sup then wrap "^" text else text
  let text := if style.sub then wrap ",," text else text
  let text := if style.strike then wrap "~~" text else text
  match style.color with
  | some color => colored color text
  | none => text

/-- A link to a target. -/
def link (href label : String) : String := "[" ++ href ++ " " ++ label ++ "]"

/-- A run in wiki markup. -/
def ofRun (run : Run) : String :=
  let text := neutral (run.text ++ " ")
  match run.src, run.href with
  | some src, some href => link href src
  | some src, none => src
  | none, some href => link href text
  | none, none =>
    match run.style with
    | some style => styled style text
    | none => text

/-- A line in wiki markup: its runs without the white space around each. -/
def ofRuns (runs : List Run) : String := Text.concat (runs.map fun run => Text.trimmed (ofRun run))

end WikiPress.Wiki

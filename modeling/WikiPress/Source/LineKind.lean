import WikiPress.Source.Line
import WikiPress.Document.Basic

/-!
# Kinds of lines

What a line begins or continues, read from its own text alone. The kinds are tried in a fixed
order, and a line that is of no other kind is text.
-/

namespace WikiPress

/-- What a line is. -/
inductive LineKind where
  | blank
  /-- The start of code in a language. -/
  | fence (language : List Char)
  | rule
  | inclusion (locator : List Char)
  | directive (name value : List Char)
  | heading (depth : Nat) (title : List Char)
  | row (text : List Char)
  | item (kind : ListKind) (indent : Nat) (text : List Char)
  | text (content : List Char)
  deriving DecidableEq

namespace LineKind

/-- Three or more dashes and nothing else. -/
def isRule (text : List Char) : Bool := 3 ≤ text.length && text.all (· = '-')

/-- A name of letters and a value, with a colon between them. -/
def directive? (text : List Char) : Option LineKind :=
  match Text.cut ':' text with
  | none => none
  | some (name, value) =>
    if name ≠ [] ∧ name.all Char.isAlpha then some (.directive name (Text.trim value)) else none

/-- One to six number signs, and a title behind a space, if any. -/
def heading? (text : List Char) : Option LineKind :=
  let depth := (text.takeWhile (· = '#')).length
  let rest := text.dropWhile (· = '#')
  if depth ≤ 6 ∧ (rest = [] ∨ rest.head? = some ' ') then some (.heading depth (Text.trim rest))
  else none

/-- What a trimmed text that starts with a number sign is: a directive, a heading or neither. -/
def marked? (text : List Char) : Option LineKind :=
  match text with
  | '#' :: rest => (directive? rest).or (heading? text)
  | _ => none

/-- The kind and the text of a list item: behind a dash, a star, or digits and a point, each
followed by a space. -/
def item? (text : List Char) : Option (ListKind × List Char) :=
  match text with
  | '-' :: ' ' :: rest => some (.unordered, Text.trim rest)
  | '*' :: ' ' :: rest => some (.unordered, Text.trim rest)
  | text =>
    match Text.cutPair '.' ' ' text with
    | none => none
    | some (number, rest) =>
      if number ≠ [] ∧ number.all Char.isDigit then some (.ordered, Text.trim rest) else none

/-- The kind of a line that is not blank, from its indentation and its trimmed text. -/
def ofTrimmed (indent : Nat) (text : List Char) : LineKind :=
  match Text.after? "```" text with
  | some language => .fence (Text.trim language)
  | none =>
    if isRule text then .rule
    else match Text.after? "@>include:" text with
      | some locator => .inclusion (Text.trim locator)
      | none =>
        match marked? text with
        | some kind => kind
        | none =>
          if text.head? = some '|' then .row text
          else match item? text with
            | some (kind, content) => .item kind indent content
            | none => .text text

/-- The kind of a line. -/
def ofLine (line : Line) : LineKind :=
  if line.isBlank then .blank else ofTrimmed line.indent line.trimmed

end LineKind

/-- The line ends fenced code. -/
def Line.endsCode (line : Line) : Bool := line.trimmed = ['\x60', '\x60', '\x60']

end WikiPress

import WikiPress.Text.Quoted
import WikiPress.Text.Split

/-!
# JSON values

Values of a data format and their text, spread over lines with two spaces for every level. In a
text, quotes, backslashes and control characters are escaped; an empty array or object
takes no lines of its own.
-/

namespace WikiPress

/-- A value of the data format; the numbers are counts. -/
inductive Json where
  | null
  | bool (b : Bool)
  | number (n : Nat)
  | text (s : String)
  | array (elements : List Json)
  | object (members : List (String × Json))

namespace Json

/-- A character inside a text. -/
def escapedChar (c : Char) : List Char :=
  if c = '"' then ['\\', '"']
  else if c = '\\' then ['\\', '\\']
  else if c = '\x08' then ['\\', 'b']
  else if c = '\x0c' then ['\\', 'f']
  else if c = '\n' then ['\\', 'n']
  else if c = '\r' then ['\\', 'r']
  else if c = '\t' then ['\\', 't']
  else if c.toNat < 32 then
    ['\\', 'u', '0', '0', Text.hexDigit (c.toNat / 16), Text.hexDigit (c.toNat % 16)]
  else [c]

/-- A text in quotes. -/
def quoted (s : String) : String :=
  "\"" ++ String.ofList (s.toList.flatMap escapedChar) ++ "\""

/-- The beginning of a line on a level. -/
def newLine (level : Nat) : String := "\n" ++ Text.repeated "  " level

mutual

/-- The text of a value whose first line is set in already. -/
def pretty (level : Nat) : Json → String
  | .null => "null"
  | .bool b => if b then "true" else "false"
  | .number n => toString n
  | .text s => quoted s
  | .array [] => "[]"
  | .array (first :: more) =>
    "[" ++ newLine (level + 1) ++ pretty (level + 1) first ++ prettyElements (level + 1) more ++
      newLine level ++ "]"
  | .object [] => "\x7b\x7d"
  | .object (first :: more) =>
    "\x7b" ++ newLine (level + 1) ++ prettyMember (level + 1) first ++
      prettyMembers (level + 1) more ++ newLine level ++ "\x7d"

/-- The text of the elements behind the first one. -/
def prettyElements (level : Nat) : List Json → String
  | [] => ""
  | element :: more =>
    "," ++ newLine level ++ pretty level element ++ prettyElements level more

/-- The text of a member. -/
def prettyMember (level : Nat) : String × Json → String
  | (name, value) => quoted name ++ ": " ++ pretty level value

/-- The text of the members behind the first one. -/
def prettyMembers (level : Nat) : List (String × Json) → String
  | [] => ""
  | member :: more =>
    "," ++ newLine level ++ prettyMember level member ++ prettyMembers level more

end

/-- The member with a text value, if there is one. -/
def given (name : String) : Option String → List (String × Json)
  | some s => [(name, .text s)]
  | none => []

end Json

end WikiPress

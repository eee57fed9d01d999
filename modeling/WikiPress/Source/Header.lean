import WikiPress.Document.Basic
import WikiPress.Source.Error
import WikiPress.Text.Space
import WikiPress.Text.Split

/-!
# Header lines

The values of directive lines: a person is a name and, in angle brackets behind it, an address;
the range of a table of contents is one number or two with a comma between them.
-/

namespace WikiPress

namespace Author

/-- The person that a trimmed value names. -/
def ofValue? (value : List Char) : Option Author :=
  match Text.cut '<' value with
  | none => if value = [] then none else some ⟨String.ofList value, none⟩
  | some (name, rest) =>
    match Text.before? '>' rest with
    | none => none
    | some address =>
      let name := Text.trim name
      let address := Text.trim address
      if name = [] then none
      else some ⟨String.ofList name, if address = [] then none else some (String.ofList address)⟩

/-- A person as header lines and outlines write it. -/
def written (author : Author) : String :=
  match author.email with
  | some email => author.name ++ " <" ++ email ++ ">"
  | none => author.name

end Author

/-- The number that digits write. -/
def digitsValue (digits : List Char) : Nat :=
  digits.foldl (fun n c => n * 10 + (c.toNat - 48)) 0

/-- The number below 256 that a text writes, with a plus sign in front or without. -/
def byteValue? (text : List Char) : Option Nat :=
  let digits := match text with
    | '+' :: rest => rest
    | text => text
  if digits ≠ [] ∧ digits.all Char.isDigit ∧ digitsValue digits ≤ 255 then some (digitsValue digits)
  else none

namespace DepthRange

/-- The range that a value gives: the deepest level, or the highest and the deepest. -/
def ofValue? (value : List Char) : Option DepthRange :=
  let range :=
    match Text.cut ',' value with
    | none => (byteValue? (Text.trim value)).map (DepthRange.mk 0)
    | some (first, last) =>
      (byteValue? (Text.trim first)).bind fun min =>
        (byteValue? (Text.trim last)).map (DepthRange.mk min)
  range.filter fun r => r.min ≤ r.max

end DepthRange

end WikiPress

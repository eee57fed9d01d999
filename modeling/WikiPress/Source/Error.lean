import WikiPress.Text.Utf8

/-!
# Errors of reading

Why a file could not be used, and why a source is no document. Each error is a cause; its wording
is in one function.
-/

namespace WikiPress

/-- Why the file system refused. -/
inductive FileError where
  | notFound
  | isDirectory
  | notDirectory
  | alreadyExists
  /-- The path holds a null character. -/
  | nullInPath
  deriving DecidableEq

/-- The wording of a refusal. -/
def FileError.message : FileError → String
  | .notFound => "No such file or directory (os error 2)"
  | .isDirectory => "Is a directory (os error 21)"
  | .notDirectory => "Not a directory (os error 20)"
  | .alreadyExists => "File exists (os error 17)"
  | .nullInPath => "file name contained an unexpected NUL byte"

/-- What is wrong in a line of a source. -/
inductive Mistake where
  /-- A fenced block that starts here has no end. -/
  | unclosedCode
  /-- A list item stands left of its list or more than one level below the item before it. -/
  | listIndentation
  /-- An inclusion names no document. -/
  | emptyInclusion
  /-- The levels of a table of contents are no numbers below 256, or out of order. -/
  | badContents
  | unknownDirective (name : String)
  /-- An author or verifier has no name or an unfinished address. -/
  | badPerson (directive : String)
  deriving DecidableEq

/-- The wording of a mistake. -/
def Mistake.message : Mistake → String
  | .unclosedCode => "unclosed code block"
  | .listIndentation => "invalid syntax in list indentation"
  | .emptyInclusion => "invalid syntax in include"
  | .badContents => "invalid syntax in #index:"
  | .unknownDirective name => "unknown directive: " ++ name
  | .badPerson directive => "malformed #" ++ directive ++ ": directive"

/-- Why a source is no document. -/
inductive ParseError where
  /-- The source could not be read to its end. -/
  | unreadable (cause : FileError)
  /-- The source is no text. -/
  | encoding (fault : Utf8.Fault)
  /-- A line of the source has a mistake. -/
  | mistake (cause : Mistake) (line : Nat)
  deriving DecidableEq

namespace ParseError

/-- The wording of an error, without what caused it. -/
def message : ParseError → String
  | unreadable _ => "failed to read source"
  | encoding _ => "source is not valid UTF-8"
  | mistake cause line => "line " ++ toString line ++ ": " ++ cause.message

/-- The wordings of an error and of what caused it. -/
def chain (e : ParseError) : List String :=
  match e with
  | unreadable cause => [e.message, cause.message]
  | encoding fault => [e.message, fault.message]
  | mistake _ _ => [e.message]

end ParseError

end WikiPress

import WikiPress.Text.Space
import WikiPress.Wiki.Page

/-!
# Settings of a batch

A batch of conversions reads documents below a source root and writes pages below a destination
root. Roots are kept with slashes only and one at the end, so that a path below a root is the
root's text and the relative path in a row. Once there is a source root, inclusions are
looked up in it, whatever directory was set for them before or after.
-/

namespace WikiPress

/-- A format of pages. There is a single one, so settings do not differ in it; a batch asks it for
pages and for the extension of their files all the same, and another format would be another case
here. -/
inductive Format where
  | wiki
  deriving DecidableEq

namespace Format

/-- The extension of a page's file name. -/
def extension : Format → String
  | wiki => Wiki.fileExtension

/-- The page of a document. -/
def page : Format → Document → String
  | wiki => Wiki.page

end Format

/-- What is fixed before a batch of conversions runs. -/
structure Settings where
  /-- The source root; empty as long as none is set. -/
  src : String := ""
  /-- The destination root; empty as long as none is set. -/
  dest : String := ""
  /-- The name of the index file as it was given. -/
  indexName : Option String := none
  /-- Arguments of no fixed meaning. -/
  arguments : List String := []
  /-- The directory in which inclusions are looked up. -/
  lookup : Path := ⟨""⟩
  format : Format := .wiki
  deriving DecidableEq

/-- An argument was asked for that is not there. -/
structure MissingArgument where
  index : Nat
  count : Nat
  deriving DecidableEq

/-- The wording of a request for an argument that is not there. -/
def MissingArgument.message (e : MissingArgument) : String :=
  "argument index " ++ toString e.index ++ " out of range (" ++ toString e.count ++ " arguments)"

namespace Settings

/-- A root with slashes for backslashes and a slash at the end. -/
def normalRoot (root : String) : String :=
  let slashed := Path.withSlashes root
  if slashed.toList.getLast? = some Path.separator then slashed else slashed ++ "/"

/-- A relative path with slashes for backslashes and without slashes in front. -/
def normalRelative (rel : String) : String :=
  String.ofList ((Path.withSlashes rel).toList.dropWhile (· = Path.separator))

/-- The settings with another source root. -/
def withSrc (s : Settings) (root : String) : Settings :=
  { s with src := normalRoot root, lookup := ⟨normalRoot root⟩ }

/-- The settings with another destination root. -/
def withDest (s : Settings) (root : String) : Settings := { s with dest := normalRoot root }

/-- The settings with another name for the index file. -/
def withIndexName (s : Settings) (name : String) : Settings := { s with indexName := some name }

/-- The settings with one more argument. -/
def addArgument (s : Settings) (argument : String) : Settings :=
  { s with arguments := s.arguments ++ [argument] }

/-- The settings with another directory for inclusions, which counts only while there is no source
root. -/
def withLookup (s : Settings) (directory : Path) : Settings :=
  { s with lookup := if s.src = "" then directory else ⟨s.src⟩ }

/-- The settings with another format. With a single format there is, these are the same settings
again. -/
def withFormat (s : Settings) (format : Format) : Settings := { s with format }

/-- The name of the index file when none is given. -/
def defaultIndex : String := "index.xml"

/-- The name of the index file; a name of white space counts as none. -/
def indexFile (s : Settings) : String :=
  match s.indexName with
  | some name => if Text.trim name.toList = [] then defaultIndex else name
  | none => defaultIndex

/-- The argument at an index, counted from zero. -/
def argument (s : Settings) (index : Nat) : Except MissingArgument String :=
  match s.arguments[index]? with
  | some argument => .ok argument
  | none => .error ⟨index, s.arguments.length⟩

/-- Where a document is read. -/
def sourcePath (s : Settings) (rel : String) : Path := ⟨s.src ++ normalRelative rel⟩

/-- Where the page of a document is written. -/
def outputPath (s : Settings) (rel : String) : Path :=
  Path.join ⟨s.dest⟩ (Path.withExtension ⟨normalRelative rel⟩ s.format.extension)

/-- Where the index is written. -/
def indexPath (s : Settings) : Path := ⟨s.dest ++ s.indexFile⟩

end Settings

end WikiPress

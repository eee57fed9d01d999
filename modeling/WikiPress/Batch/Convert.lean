import WikiPress.Batch.Settings
import WikiPress.Inclusion.Expand

/-!
# Conversions

A conversion reads a document, expands its inclusions and writes its page. Nothing is written
before the page is complete: an error in reading, parsing or including leaves the file system
as it was. A batch runs its conversions in order and stops at the first error.
-/

namespace WikiPress

/-- A conversion that was done. -/
structure Converted where
  source : Path
  output : Path
  /-- The title of the document. -/
  title : String
  deriving DecidableEq

/-- Why a conversion was not done. -/
inductive ConversionError where
  | read (path : Path) (cause : FileError)
  | parse (path : Path) (cause : ParseError)
  | write (path : Path) (cause : FileError)
  | inclusion (cause : InclusionError)
  deriving DecidableEq

namespace ConversionError

/-- The wording of an error, without what caused it. -/
def message : ConversionError → String
  | read path _ => "failed to read " ++ path.text
  | parse path _ => "failed to parse " ++ path.text
  | write path _ => "failed to write " ++ path.text
  | inclusion cause => cause.message

/-- The wordings of an error and of what caused it. -/
def chain (e : ConversionError) : List String :=
  match e with
  | read _ cause => [e.message, cause.message]
  | parse _ cause => e.message :: cause.chain
  | write _ cause => [e.message, cause.message]
  | inclusion cause => cause.chain

end ConversionError

namespace Settings

/-- The document at a relative path, with its inclusions expanded. -/
def document (s : Settings) (fs : FileSystem) (rel : String) :
    Except ConversionError Document :=
  let source := s.sourcePath rel
  match fs.document s.lookup source with
  | .error e => .error (.read source e)
  | .ok (.error e) => .error (.parse source e)
  | .ok (.ok d) =>
    let expanded := d.expandAt fs source
    match expanded.stopped with
    | some e => .error (.inclusion e)
    | none => .ok expanded.body

/-- Convert the document at a relative path. -/
def convert (s : Settings) (fs : FileSystem) (rel : String) :
    Except ConversionError Converted × FileSystem :=
  match s.document fs rel with
  | .error e => (.error e, fs)
  | .ok d =>
    let output := s.outputPath rel
    match fs.writeNested output (Utf8.encode (s.format.page d)) with
    | (.error e, changed) => (.error (.write output e), changed)
    | (.ok (), written) => (.ok ⟨s.sourcePath rel, output, d.title⟩, written)

/-- Convert the documents at relative paths in order, up to the first error. -/
def convertAll (s : Settings) (fs : FileSystem) :
    List String → Except ConversionError (List Converted) × FileSystem
  | [] => (.ok [], fs)
  | rel :: more =>
    match s.convert fs rel with
    | (.error e, changed) => (.error e, changed)
    | (.ok done, written) =>
      match s.convertAll written more with
      | (.error e, changed) => (.error e, changed)
      | (.ok others, final) => (.ok (done :: others), final)

end Settings

end WikiPress

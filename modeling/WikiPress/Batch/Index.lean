import WikiPress.Batch.Convert

/-!
# The index of a batch

The index lists the pages of a batch in order: for each page its path below the destination root
and the title of its document, as attributes in which the five special characters are entities.
-/

namespace WikiPress

namespace Index

/-- A character inside an attribute. -/
def escapedChar (c : Char) : List Char :=
  if c = '&' then "&amp;".toList
  else if c = '<' then "&lt;".toList
  else if c = '>' then "&gt;".toList
  else if c = '"' then "&quot;".toList
  else if c = '\x27' then "&apos;".toList
  else [c]

/-- A text inside an attribute. -/
def escaped (text : String) : String := String.ofList (text.toList.flatMap escapedChar)

/-- The path of a page as the index shows it: below the destination root if it is there. -/
def pagePath (dest : String) (output : Path) : String :=
  Path.withSlashes ((output.within? ⟨dest⟩).getD output).text

/-- The line of a page. -/
def entry (dest : String) (done : Converted) : String :=
  "  <doc path=\"" ++ escaped (pagePath dest done.output) ++ "\" title=\"" ++
    escaped done.title ++ "\"/>\n"

end Index

namespace Settings

/-- The index of the pages of a batch. -/
def index (s : Settings) (done : List Converted) : String :=
  "<?xml version=\"1.0\" encoding=\"UTF-8\"?>\n<docs>\n" ++
    Text.concat (done.map (Index.entry s.dest)) ++ "</docs>\n"

/-- Write the index of the pages of a batch. -/
def writeIndex (s : Settings) (fs : FileSystem) (done : List Converted) :
    Except ConversionError Path × FileSystem :=
  match fs.writeNested s.indexPath (Utf8.encode (s.index done)) with
  | (.error e, changed) => (.error (.write s.indexPath e), changed)
  | (.ok (), written) => (.ok s.indexPath, written)

end Settings

end WikiPress

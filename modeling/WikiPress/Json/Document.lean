import WikiPress.Json.Value
import WikiPress.Statistics

/-!
# Documents as JSON values

The tree of a document and its statistics as data. A block says its type and then only what its
kind has; a style is written out in full, except for a colour that is not set.
-/

namespace WikiPress

namespace Json

/-- A style. -/
def ofStyle (s : Style) : Json :=
  .object
    ([("bold", .bool s.bold), ("italic", .bool s.italic), ("underline", .bool s.underline),
      ("sup", .bool s.sup), ("sub", .bool s.sub), ("strike", .bool s.strike)] ++
      given "color" s.color)

/-- A run. -/
def ofRun (run : Run) : Json :=
  .object
    ([("text", .text run.text)] ++
      (match run.style with
        | some style => [("style", ofStyle style)]
        | none => []) ++
      given "href" run.href ++ given "src" run.src)

/-- A line. -/
def ofRuns (runs : List Run) : Json := .array (runs.map ofRun)

/-- A person. -/
def ofAuthor (author : Author) : Json :=
  .object (("name", .text author.name) :: given "email" author.email)

mutual

/-- A block. -/
def ofBlock : Block → Json
  | .paragraph runs => .object [("type", .text "Paragraph"), ("eles", ofRuns runs)]
  | .heading depth title children =>
    .object [("type", .text "Heading"), ("depth", .number depth), ("eles", ofRuns title),
      ("children", .array (ofBlocks children))]
  | .list kind items =>
    .object [("type", .text "List"), ("kind", .text kind.name), ("items", .array (ofItems items))]
  | .table rows =>
    .object [("type", .text "Table"),
      ("rows", .array (rows.map fun cells => .array (cells.map ofRuns)))]
  | .code language content =>
    .object [("type", .text "CodeBlock"),
      ("lang", match language with
        | some tag => .text tag
        | none => .null),
      ("text", .text content)]
  | .rule => .object [("type", .text "Rule")]
  | .contents range =>
    .object [("type", .text "Toc"), ("min", .number range.min), ("max", .number range.max)]
  | .inclusion leaf =>
    .object [("type", .text "Include"), ("reference", .text leaf.target.display)]

/-- Blocks in their order. -/
def ofBlocks : List Block → List Json
  | [] => []
  | block :: more => ofBlock block :: ofBlocks more

/-- Items in their order. -/
def ofItems : List Item → List Json
  | [] => []
  | item :: more => ofItem item :: ofItems more

/-- An item. -/
def ofItem : Item → Json
  | ⟨kind, depth, runs, children⟩ =>
    .object [("kind", .text kind.name), ("depth", .number depth), ("eles", ofRuns runs),
      ("children", .array (ofBlocks children))]

end

/-- A document. -/
def ofDocument (d : Document) : Json :=
  .object [("title", .text d.title), ("authors", .array (d.authors.map ofAuthor)),
    ("verifiers", .array (d.verifiers.map ofAuthor)), ("blocks", .array (ofBlocks d.blocks))]

/-- Statistics. -/
def ofStatistics (s : Statistics) : Json :=
  .object (s.fields.map fun (name, count) => (name, .number count))

end Json

end WikiPress

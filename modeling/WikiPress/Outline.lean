import WikiPress.Source.Header
import WikiPress.Text.Quoted

/-!
# Outlines

An outline shows the tree of a document, one line for each block, list item and table row, set in
by two spaces for every level. It is a list of lines with their levels before it is a text.
-/

namespace WikiPress

/-- A line of an outline. -/
structure OutlineLine where
  level : Nat
  text : String
  deriving DecidableEq

/-- The line, set in, with its line feed. -/
def OutlineLine.written (line : OutlineLine) : String :=
  Text.repeated "  " line.level ++ line.text ++ "\n"

/-- A title without markup and without white space around it. -/
def titleText (runs : List Run) : String := Text.trimmed (plainText runs)

/-- The number of lines of a text. -/
def lineCount (text : String) : Nat := (Text.lines text.toList).length

/-- The marker of a list item. -/
def ListKind.bullet : ListKind → String
  | .ordered => "#"
  | .unordered => "*"

/-- The line of a table row. -/
def rowText (cells : List (List Run)) : String :=
  "| " ++ " | ".intercalate (cells.map plainText) ++ " |"

mutual

/-- The lines of a block. -/
def Block.outlineLines (level : Nat) : Block → List OutlineLine
  | .paragraph runs => [⟨level, "paragraph: " ++ plainText runs⟩]
  | .heading depth title children =>
    ⟨level, "heading(" ++ toString depth ++ "): " ++ titleText title⟩ ::
      outlineLinesOf (level + 1) children
  | .list kind items => ⟨level, kind.name ++ "-list"⟩ :: outlineLinesOfItems (level + 1) items
  | .table rows => ⟨level, "table"⟩ :: rows.map fun cells => ⟨level + 1, rowText cells⟩
  | .code _ text => [⟨level, "code (" ++ toString (lineCount text) ++ " lines)"⟩]
  | .rule => [⟨level, "rule"⟩]
  | .contents range => [⟨level, "toc " ++ toString range.min ++ "..=" ++ toString range.max⟩]
  | .inclusion leaf => [⟨level, "@>include: " ++ leaf.target.display⟩]

/-- The lines of blocks in their order. -/
def outlineLinesOf (level : Nat) : List Block → List OutlineLine
  | [] => []
  | block :: more => block.outlineLines level ++ outlineLinesOf level more

/-- The lines of items in their order. -/
def outlineLinesOfItems (level : Nat) : List Item → List OutlineLine
  | [] => []
  | item :: more => item.outlineLines level ++ outlineLinesOfItems level more

/-- The lines of an item and of the blocks it owns. -/
def Item.outlineLines (level : Nat) : Item → List OutlineLine
  | ⟨kind, _, runs, children⟩ =>
    ⟨level, kind.bullet ++ " " ++ plainText runs⟩ :: outlineLinesOf (level + 1) children

end

/-- The line that lists people under a label, if there are any. -/
def peopleLines (label : String) (people : List Author) : List OutlineLine :=
  if people = [] then []
  else [⟨1, label ++ ": " ++ ", ".intercalate (people.map Author.written)⟩]

namespace Document

/-- The lines of a document. -/
def outlineLines (d : Document) : List OutlineLine :=
  ⟨0, "Document " ++ Text.quoted d.title⟩ ::
    (peopleLines "authors" d.authors ++ peopleLines "verifiers" d.verifiers ++
      outlineLinesOf 1 d.blocks)

/-- The outline of a document. -/
def outline (d : Document) : String := Text.concat (d.outlineLines.map OutlineLine.written)

end Document

/-- The outline of a block by itself. -/
def Block.outline (block : Block) : String :=
  Text.concat ((block.outlineLines 0).map OutlineLine.written)

end WikiPress

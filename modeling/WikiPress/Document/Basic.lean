import WikiPress.Document.Run
import WikiPress.Reference
import WikiPress.Text.Split

/-!
# Documents

A document carries a title, its authors and verifiers, and a body of blocks. Headings own the
blocks that follow them, list items own the lists nested in them; every other block is a leaf.
An inclusion is a leaf that stands for the body of another document until it is expanded.
-/

namespace WikiPress

/-- An author or a verifier. -/
structure Author where
  name : String
  email : Option String := none
  deriving DecidableEq

/-- The numbering of a list item. -/
inductive ListKind where
  | ordered
  | unordered
  deriving DecidableEq

/-- The heading levels that a table of contents shows, both ends included. -/
structure DepthRange where
  min : Nat
  max : Nat
  deriving DecidableEq

/-- A document to be put in place, and the directory in which the inclusions of that document
are looked up in turn. -/
structure Inclusion where
  target : Reference
  root : Path
  deriving DecidableEq

mutual

/-- A part of a document's body. -/
inductive Block where
  | paragraph (runs : List Run)
  /-- A section: its level, its title and the blocks it owns. -/
  | heading (depth : Nat) (title : List Run) (children : List Block)
  /-- Items of one level; the list is of the kind of its first item. -/
  | list (kind : ListKind) (items : List Item)
  /-- Rows of cells of runs. -/
  | table (rows : List (List (List Run)))
  /-- Text taken as it is, with the language it is written in. -/
  | code (language : Option String) (text : String)
  | rule
  /-- The place of a table of contents. -/
  | contents (range : DepthRange)
  | inclusion (leaf : Inclusion)

/-- An entry of a list; its depth is one for an outermost item. -/
structure Item where
  kind : ListKind
  depth : Nat
  runs : List Run
  children : List Block

end

/-- A rule stands in where any block will do. -/
instance : Inhabited Block := ⟨.rule⟩

/-- A document. -/
structure Document where
  title : String := ""
  authors : List Author := []
  verifiers : List Author := []
  blocks : List Block := []

/-- A line without markup. -/
def plainText (runs : List Run) : String := Text.concat (runs.map Run.plainText)

/-- The name of a kind of list. -/
def ListKind.name : ListKind → String
  | .ordered => "ordered"
  | .unordered => "unordered"

/-- The name of a kind of block. -/
def Block.kindName : Block → String
  | .paragraph _ => "paragraph"
  | .heading .. => "heading"
  | .list kind _ => kind.name ++ "-list"
  | .table _ => "table"
  | .code .. => "code"
  | .rule => "rule"
  | .contents _ => "toc"
  | .inclusion _ => "include"

mutual

/-- The inclusions in a block, in document order. -/
def Block.inclusions : Block → List Inclusion
  | .heading _ _ children => inclusionsOf children
  | .list _ items => inclusionsOfItems items
  | .inclusion leaf => [leaf]
  | _ => []

/-- The inclusions in blocks, in document order. -/
def inclusionsOf : List Block → List Inclusion
  | [] => []
  | block :: more => block.inclusions ++ inclusionsOf more

/-- The inclusions in the blocks that items own. -/
def inclusionsOfItems : List Item → List Inclusion
  | [] => []
  | item :: more => item.inclusions ++ inclusionsOfItems more

/-- The inclusions in the blocks that an item owns. -/
def Item.inclusions : Item → List Inclusion
  | ⟨_, _, _, children⟩ => inclusionsOf children

end

/-- The inclusions of a document, in document order. -/
def Document.inclusions (d : Document) : List Inclusion := inclusionsOf d.blocks

end WikiPress

import WikiPress.Document.Basic
import WikiPress.Outline
import WikiPress.Text.Space

/-!
# Statistics

What a document is made of: how often each kind of block occurs anywhere in its tree, and the
size of its source.
-/

namespace WikiPress

/-- How often the parts of a document occur. -/
structure Tally where
  /-- Blocks of any kind. -/
  blocks : Nat := 0
  headings : Nat := 0
  paragraphs : Nat := 0
  codeBlocks : Nat := 0
  lists : Nat := 0
  items : Nat := 0
  tables : Nat := 0
  inclusions : Nat := 0
  deriving DecidableEq

/-- The tally of two parts together. -/
def Tally.add (s t : Tally) : Tally where
  blocks := s.blocks + t.blocks
  headings := s.headings + t.headings
  paragraphs := s.paragraphs + t.paragraphs
  codeBlocks := s.codeBlocks + t.codeBlocks
  lists := s.lists + t.lists
  items := s.items + t.items
  tables := s.tables + t.tables
  inclusions := s.inclusions + t.inclusions

/-- Tallies are added count by count. -/
instance : Add Tally := ⟨Tally.add⟩

mutual

/-- The tally of a block and what it owns. -/
def Block.tally : Block → Tally
  | .paragraph _ => { blocks := 1, paragraphs := 1 }
  | .heading _ _ children => { blocks := 1, headings := 1 } + tallyBlocks children
  | .list _ items => { blocks := 1, lists := 1 } + tallyItems items
  | .table _ => { blocks := 1, tables := 1 }
  | .code .. => { blocks := 1, codeBlocks := 1 }
  | .rule => { blocks := 1 }
  | .contents _ => { blocks := 1 }
  | .inclusion _ => { blocks := 1, inclusions := 1 }

/-- The tally of blocks. -/
def tallyBlocks : List Block → Tally
  | [] => {}
  | block :: more => block.tally + tallyBlocks more

/-- The tally of items. -/
def tallyItems : List Item → Tally
  | [] => {}
  | item :: more => item.tally + tallyItems more

/-- The tally of an item and what it owns. -/
def Item.tally : Item → Tally
  | ⟨_, _, _, children⟩ => { items := 1 } + tallyBlocks children

end

/-- The statistics of a document and its source. -/
structure Statistics where
  tally : Tally
  characters : Nat
  words : Nat
  lines : Nat
  deriving DecidableEq

namespace Statistics

/-- The statistics of a document with the given source. -/
def of (d : Document) (source : String) : Statistics where
  tally := tallyBlocks d.blocks
  characters := source.length
  words := Text.wordCount source.toList
  lines := lineCount source

/-- The statistics with the names that data output gives them. -/
def fields (s : Statistics) : List (String × Nat) :=
  [("total_blocks", s.tally.blocks), ("headings", s.tally.headings),
    ("paragraphs", s.tally.paragraphs), ("code_blocks", s.tally.codeBlocks),
    ("lists", s.tally.lists), ("list_items", s.tally.items), ("tables", s.tally.tables),
    ("includes", s.tally.inclusions), ("chars", s.characters), ("words", s.words),
    ("lines", s.lines)]

/-- The statistics of a document as a report to read. -/
def report (s : Statistics) (d : Document) : String :=
  Text.concat
    ["Document Statistics\n-------------------\n",
      "Title:        ", d.title, "\n",
      "Authors:      ", toString d.authors.length, "\n",
      "Verifiers:    ", toString d.verifiers.length, "\n\n",
      "Content:\n",
      "  Total blocks:   ", toString s.tally.blocks, "\n",
      "  Headings:       ", toString s.tally.headings, "\n",
      "  Paragraphs:     ", toString s.tally.paragraphs, "\n",
      "  Code blocks:    ", toString s.tally.codeBlocks, "\n",
      "  Lists:          ", toString s.tally.lists, "\n",
      "  List items:     ", toString s.tally.items, "\n",
      "  Tables:         ", toString s.tally.tables, "\n",
      "  Includes:       ", toString s.tally.inclusions, "\n\n",
      "Size:\n",
      "  Characters:     ", toString s.characters, "\n",
      "  Words (est.):   ", toString s.words, "\n",
      "  Lines:          ", toString s.lines, "\n"]

end Statistics

end WikiPress

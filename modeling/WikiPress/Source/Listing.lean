import WikiPress.Inline.Runs
import WikiPress.Document.Basic
import WikiPress.Source.Error

/-!
# Lists from lines

Consecutive item lines form one list. The first line is on level one, and two columns of
indentation make a level. A line may stand one level below the line before it, on its level, or
on any level above; then each item owns a list of the items that follow it on deeper levels.
-/

namespace WikiPress

/-- An item line. -/
structure ItemLine where
  kind : ListKind
  indent : Nat
  text : List Char
  /-- The number of the line. -/
  number : Nat
  deriving DecidableEq

namespace ItemLine

/-- The deepest level there is. -/
def deepest : Nat := 255

/-- The level of a line in a list that starts at the column `base`. -/
def level? (base : Nat) (line : ItemLine) : Except ParseError Nat :=
  if line.indent < base ∨ deepest < (line.indent - base) / 2 + 1 then
    .error (.mistake .listIndentation line.number)
  else .ok ((line.indent - base) / 2 + 1)

/-- The item of a line on a level, before it owns anything. -/
def item (line : ItemLine) (level : Nat) : Item := ⟨line.kind, level, runsOf line.text, []⟩

/-- The lines with their levels. -/
def levels (base : Nat) : List ItemLine → Except ParseError (List (ItemLine × Nat))
  | [] => .ok []
  | line :: more => do
    let level ← line.level? base
    let others ← levels base more
    .ok ((line, level) :: others)

/-- No line stands more than one level below the line before it. -/
def checkSteps (above : Nat) : List (ItemLine × Nat) → Except ParseError Unit
  | [] => .ok ()
  | (line, level) :: more =>
    if above + 1 < level then .error (.mistake .listIndentation line.number)
    else checkSteps level more

end ItemLine

/-- The items as the blocks of their owner: one list, or nothing. -/
def sublist : List Item → List Block
  | [] => []
  | first :: more => [.list first.kind (first :: more)]

/-- Put an item in front of a nested list of items: it takes over the deeper items that follow. -/
def Item.consNested (item : Item) (behind : List Item) : List Item :=
  { item with children := item.children ++ sublist (behind.takeWhile (item.depth < ·.depth)) } ::
    behind.dropWhile (item.depth < ·.depth)

/-- The tree of a flat list of items. -/
def nestItems (flat : List Item) : List Item := flat.foldr Item.consNested []

/-- The list that item lines make. -/
def listOf (lines : List ItemLine) : Except ParseError (List Block) := do
  match lines with
  | [] => .ok []
  | first :: _ =>
    let leveled ← ItemLine.levels first.indent lines
    ItemLine.checkSteps 0 leveled
    .ok (sublist (nestItems (leveled.map fun (line, level) => line.item level)))

end WikiPress

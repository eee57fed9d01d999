import WikiPress.Proofs.Document.Tree
import WikiPress.Source.Listing

/-!
# Gathering from trees

Much of what is said about a document is a list that is gathered from its tree: something from every
heading, from every item and from every block that owns nothing, each place in front of what it
owns. Nesting moves a block or an item only into one that stands in front of it, so whatever is
gathered from a tree is what the flat list gives, in the same order (`gatherBlocks_nestHeadings`,
`gatherItems_nestItems`). A walk that goes through a tree in this way gathers, so nesting does not
show to it (`Gathers.nestHeadings`, `Gathers.nestItems`).
-/

namespace WikiPress

/-- What is gathered at each place of a tree. -/
structure Gathering (α : Type) where
  heading : Nat → List Run → List α
  item : ListKind → Nat → List Run → List α
  /-- What is gathered at a block that is neither a heading nor a list. -/
  leaf : Block → List α

variable {α : Type}

mutual

/-- What is gathered from a block and all that it owns. -/
def Block.gather (g : Gathering α) : Block → List α
  | .heading depth title children => g.heading depth title ++ gatherBlocks g children
  | .list _ items => gatherItems g items
  | block => g.leaf block

/-- What is gathered from blocks. -/
def gatherBlocks (g : Gathering α) : List Block → List α
  | [] => []
  | block :: more => block.gather g ++ gatherBlocks g more

/-- What is gathered from items. -/
def gatherItems (g : Gathering α) : List Item → List α
  | [] => []
  | item :: more => item.gather g ++ gatherItems g more

/-- What is gathered from an item and all that it owns. -/
def Item.gather (g : Gathering α) : Item → List α
  | ⟨kind, depth, runs, children⟩ => g.item kind depth runs ++ gatherBlocks g children

end

variable (g : Gathering α)

/-- What is gathered at a plain block is all that it gives. -/
theorem Block.gather_plain {block : Block} (plain : block.isPlain = true) :
    block.gather g = g.leaf block := by
  cases block with
  | heading => cases plain
  | list => cases plain
  | _ => rfl

/-- Each block gives its own part. -/
theorem gatherBlocks_eq_flatMap (blocks : List Block) :
    gatherBlocks g blocks = blocks.flatMap (Block.gather g) := by
  induction blocks with
  | nil => rfl
  | cons block rest ih => rw [gatherBlocks, ih, List.flatMap_cons]

/-- Each item gives its own part. -/
theorem gatherItems_eq_flatMap (items : List Item) :
    gatherItems g items = items.flatMap (Item.gather g) := by
  induction items with
  | nil => rfl
  | cons item rest ih => rw [gatherItems, ih, List.flatMap_cons]

/-- The blocks of two bodies in a row. -/
@[simp]
theorem gatherBlocks_append (blocks more : List Block) :
    gatherBlocks g (blocks ++ more) = gatherBlocks g blocks ++ gatherBlocks g more := by
  simp only [gatherBlocks_eq_flatMap, List.flatMap_append]

/-- The items of two lists in a row. -/
@[simp]
theorem gatherItems_append (items more : List Item) :
    gatherItems g (items ++ more) = gatherItems g items ++ gatherItems g more := by
  simp only [gatherItems_eq_flatMap, List.flatMap_append]

/-- Items that are put into a list of their own give the same. -/
@[simp]
theorem gatherBlocks_sublist (items : List Item) :
    gatherBlocks g (sublist items) = gatherItems g items := by
  cases items with
  | nil => rfl
  | cons first more => rw [sublist, gatherBlocks, gatherBlocks, Block.gather, List.append_nil]

/-- A block in front of nested ones comes first, whatever it takes over. -/
theorem gatherBlocks_consNested (block : Block) (behind : List Block) :
    gatherBlocks g (block.consNested behind) = block.gather g ++ gatherBlocks g behind := by
  cases block with
  | heading depth title children =>
    have whole := List.takeWhile_append_dropWhile (p := Block.isBelow depth) (l := behind)
    calc gatherBlocks g (Block.consNested (.heading depth title children) behind)
        = g.heading depth title ++ (gatherBlocks g children ++
            gatherBlocks g (behind.takeWhile (Block.isBelow depth) ++
              behind.dropWhile (Block.isBelow depth))) := by
          simp only [Block.consNested, gatherBlocks, Block.gather, gatherBlocks_append,
            List.append_assoc]
      _ = _ := by rw [whole, Block.gather, List.append_assoc]
  | _ => rfl

/-- Nested blocks give what the flat ones do. -/
theorem gatherBlocks_nestHeadings (flat : List Block) :
    gatherBlocks g (nestHeadings flat) = gatherBlocks g flat := by
  induction flat with
  | nil => rfl
  | cons block more ih =>
    show gatherBlocks g (block.consNested (nestHeadings more)) = _
    rw [gatherBlocks_consNested, ih, gatherBlocks]

/-- An item in front of nested ones comes first, whatever it takes over. -/
theorem gatherItems_consNested (item : Item) (behind : List Item) :
    gatherItems g (item.consNested behind) = item.gather g ++ gatherItems g behind := by
  obtain ⟨kind, depth, runs, children⟩ := item
  have whole := List.takeWhile_append_dropWhile (p := fun other => decide (depth < other.depth))
    (l := behind)
  calc gatherItems g (Item.consNested ⟨kind, depth, runs, children⟩ behind)
      = g.item kind depth runs ++ (gatherBlocks g children ++
          gatherItems g (behind.takeWhile (fun other => decide (depth < other.depth)) ++
            behind.dropWhile fun other => decide (depth < other.depth))) := by
        simp only [Item.consNested, gatherItems, Item.gather, gatherBlocks_append,
          gatherBlocks_sublist, gatherItems_append, List.append_assoc]
    _ = _ := by rw [whole, Item.gather, List.append_assoc]

/-- Nested items give what the flat ones do. -/
theorem gatherItems_nestItems (flat : List Item) :
    gatherItems g (nestItems flat) = gatherItems g flat := by
  induction flat with
  | nil => rfl
  | cons item more ih =>
    show gatherItems g (item.consNested (nestItems more)) = _
    rw [gatherItems_consNested, ih, gatherItems]

/-- The items of lines give one after the other what the lines say. -/
theorem gatherItems_lines (level : ItemLine → Nat) (lines : List ItemLine) :
    gatherItems g (lines.map fun line => line.item (level line)) =
      lines.flatMap fun line => g.item line.kind (level line) (runsOf line.text) := by
  have own (line : ItemLine) : (line.item (level line)).gather g =
      g.item line.kind (level line) (runsOf line.text) := List.append_nil _
  rw [gatherItems_eq_flatMap, List.flatMap_map]
  simp only [own]

/-- Two functions, of blocks and of items, that walk a tree and gather. -/
structure Gathers (ofBlocks : List Block → List α) (ofItems : List Item → List α) : Prop where
  nil : ofBlocks [] = []
  inclusion : ∀ leaf more,
    ofBlocks (.inclusion leaf :: more) = g.leaf (.inclusion leaf) ++ ofBlocks more
  heading : ∀ depth title children more, ofBlocks (.heading depth title children :: more) =
    g.heading depth title ++ ofBlocks children ++ ofBlocks more
  list : ∀ kind items more, ofBlocks (.list kind items :: more) = ofItems items ++ ofBlocks more
  plain : ∀ block more, block.isPlain = true →
    ofBlocks (block :: more) = g.leaf block ++ ofBlocks more
  noItem : ofItems [] = []
  item : ∀ kind depth runs children more, ofItems (⟨kind, depth, runs, children⟩ :: more) =
    g.item kind depth runs ++ ofBlocks children ++ ofItems more

namespace Gathers

variable {g : Gathering α} {ofBlocks : List Block → List α} {ofItems : List Item → List α}

/-- A walk gives of blocks what is gathered from them. -/
theorem blocks_eq (walk : Gathers g ofBlocks ofItems) (blocks : List Block) :
    ofBlocks blocks = gatherBlocks g blocks := by
  induction blocks using blocks_induction
    (Q := fun items => ofItems items = gatherItems g items) with
  | nil => rw [walk.nil, gatherBlocks]
  | inclusion leaf more rest =>
    rw [walk.inclusion, rest]
    rfl
  | heading depth title children more inner rest =>
    rw [walk.heading, inner, rest, gatherBlocks, Block.gather]
  | list kind items more inner rest => rw [walk.list, inner, rest, gatherBlocks, Block.gather]
  | plain block more plain rest =>
    rw [walk.plain block more plain, rest, gatherBlocks, Block.gather_plain g plain]
  | noItem => rw [walk.noItem, gatherItems]
  | item kind depth runs children more inner rest =>
    rw [walk.item, inner, rest, gatherItems, Item.gather]

/-- A walk gives of items what is gathered from them. -/
theorem items_eq (walk : Gathers g ofBlocks ofItems) (items : List Item) :
    ofItems items = gatherItems g items := by
  -- items alone are what a list of them gives, of whatever kind it is
  have listed := walk.blocks_eq [.list .unordered items]
  rwa [walk.list, walk.nil, List.append_nil, gatherBlocks, Block.gather, gatherBlocks,
    List.append_nil] at listed

/-- Nested blocks are walked as the flat ones. -/
theorem nestHeadings (walk : Gathers g ofBlocks ofItems) (flat : List Block) :
    ofBlocks (nestHeadings flat) = ofBlocks flat := by
  rw [walk.blocks_eq, walk.blocks_eq, gatherBlocks_nestHeadings]

/-- Nested items are walked as the flat ones. -/
theorem nestItems (walk : Gathers g ofBlocks ofItems) (flat : List Item) :
    ofItems (nestItems flat) = ofItems flat := by
  rw [walk.items_eq, walk.items_eq, gatherItems_nestItems]

/-- Items that are put into a list of their own are walked as they are. -/
theorem sublist (walk : Gathers g ofBlocks ofItems) (items : List Item) :
    ofBlocks (sublist items) = ofItems items := by
  rw [walk.blocks_eq, walk.items_eq, gatherBlocks_sublist]

/-- The items of lines are walked one after the other. -/
theorem lines (walk : Gathers g ofBlocks ofItems) (level : ItemLine → Nat)
    (lines : List ItemLine) : ofItems (lines.map fun line => line.item (level line)) =
      lines.flatMap fun line => g.item line.kind (level line) (runsOf line.text) := by
  rw [walk.items_eq, gatherItems_lines]

end Gathers

/-- What gathers from a tree walks it. -/
theorem gathers_gatherBlocks (g : Gathering α) : Gathers g (gatherBlocks g) (gatherItems g) := by
  constructor
  case plain =>
    intro block more plain
    rw [gatherBlocks, Block.gather_plain g plain]
  all_goals
    intros
    rfl

/-- The inclusions of a tree. -/
def inclusionGathering : Gathering Inclusion where
  heading _ _ := []
  item _ _ _ := []
  leaf := Block.inclusions

/-- Inclusions are gathered. -/
theorem gathers_inclusionsOf : Gathers inclusionGathering inclusionsOf inclusionsOfItems := by
  constructor <;> intros <;> rfl

/-- Nesting keeps the inclusions and their order. -/
theorem inclusionsOf_nestHeadings (flat : List Block) :
    inclusionsOf (nestHeadings flat) = inclusionsOf flat := gathers_inclusionsOf.nestHeadings flat

end WikiPress

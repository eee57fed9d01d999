import WikiPress.Document.Nesting

/-!
# Trees of blocks

Blocks own blocks in two ways, as the sections below headings and through the items of lists, and
an inclusion stands for blocks without owning any. Every other block is plain, and functions that
walk a tree treat all plain blocks alike. `blocks_induction` is the induction that follows these
walks, `flattenBlocks` lists the blocks of a body in their order with the headings emptied, and
nesting a flat list of blocks does not change that order.
-/

namespace WikiPress

/-- A block that owns no blocks and stands for none. -/
def Block.isPlain : Block → Bool
  | .heading .. => false
  | .list .. => false
  | .inclusion _ => false
  | _ => true

/-- What holds of no blocks and no items, and of every list whose first entry owns blocks for which
it holds, holds of all blocks. -/
theorem blocks_induction {P : List Block → Prop} {Q : List Item → Prop} (nil : P [])
    (inclusion : ∀ leaf more, P more → P (.inclusion leaf :: more))
    (heading : ∀ depth title children more, P children → P more →
      P (.heading depth title children :: more))
    (list : ∀ kind items more, Q items → P more → P (.list kind items :: more))
    (plain : ∀ block more, Block.isPlain block = true → P more → P (block :: more))
    (noItem : Q [])
    (item : ∀ kind depth runs children more, P children → Q more →
      Q (⟨kind, depth, runs, children⟩ :: more)) : ∀ blocks, P blocks :=
  @Block.rec_1 (fun block => ∀ more, P more → P (block :: more))
    (fun item => ∀ more, Q more → Q (item :: more)) P Q
    (fun runs more => plain (.paragraph runs) more rfl)
    (fun depth title children inner more => heading depth title children more inner)
    (fun kind items inner more => list kind items more inner)
    (fun rows more => plain (.table rows) more rfl)
    (fun language text more => plain (.code language text) more rfl)
    (fun more => plain .rule more rfl)
    (fun range more => plain (.contents range) more rfl)
    (fun leaf more => inclusion leaf more)
    (fun kind depth runs children inner more => item kind depth runs children more inner)
    nil (fun _ more first rest => first more rest)
    noItem (fun _ more first rest => first more rest)

/-- A plain block holds no inclusion. -/
theorem Block.inclusions_plain {block : Block} (plain : block.isPlain = true) :
    block.inclusions = [] := by
  cases block <;> simp_all [Block.isPlain, Block.inclusions]

/-- The inclusions of two bodies in a row. -/
@[simp]
theorem inclusionsOf_append (blocks more : List Block) :
    inclusionsOf (blocks ++ more) = inclusionsOf blocks ++ inclusionsOf more := by
  induction blocks with
  | nil => rfl
  | cons block rest ih => simp only [List.cons_append, inclusionsOf, ih, List.append_assoc]

mutual

/-- A block and what it owns as a heading, in their order and with the headings emptied. -/
def Block.flatten : Block → List Block
  | .heading depth title children => .heading depth title [] :: flattenBlocks children
  | block => [block]

/-- The blocks of a body in their order, headings without what they own. -/
def flattenBlocks : List Block → List Block
  | [] => []
  | block :: more => block.flatten ++ flattenBlocks more

end

/-- The flattening of two bodies in a row. -/
@[simp]
theorem flattenBlocks_append (blocks more : List Block) :
    flattenBlocks (blocks ++ more) = flattenBlocks blocks ++ flattenBlocks more := by
  induction blocks with
  | nil => rfl
  | cons block rest ih => simp only [List.cons_append, flattenBlocks, ih, List.append_assoc]

/-- The block is no heading that owns blocks. -/
def Block.isBare : Block → Bool
  | .heading _ _ children => children.isEmpty
  | _ => true

/-- A bare block is its own flattening. -/
theorem Block.flatten_bare {block : Block} (bare : block.isBare = true) :
    block.flatten = [block] := by
  cases block with
  | heading depth title children =>
    have empty : children = [] := List.isEmpty_iff.1 bare
    rw [empty]
    rfl
  | _ => rfl

/-- Bare blocks are flat already. -/
theorem flattenBlocks_bare {blocks : List Block} (bare : ∀ block ∈ blocks, block.isBare = true) :
    flattenBlocks blocks = blocks := by
  induction blocks with
  | nil => rfl
  | cons block rest ih =>
    have behind := ih fun other member => bare other (List.mem_cons_of_mem _ member)
    rw [flattenBlocks, Block.flatten_bare (bare block List.mem_cons_self), behind]
    rfl

/-- A block in front of nested ones comes first in the flattening, whatever it takes over. -/
theorem flattenBlocks_consNested (block : Block) (behind : List Block) :
    flattenBlocks (block.consNested behind) = block.flatten ++ flattenBlocks behind := by
  cases block with
  | heading depth title children =>
    have whole := List.takeWhile_append_dropWhile (p := Block.isBelow depth) (l := behind)
    calc flattenBlocks (Block.consNested (.heading depth title children) behind)
        = .heading depth title [] :: (flattenBlocks children ++
            flattenBlocks (behind.takeWhile (Block.isBelow depth) ++
              behind.dropWhile (Block.isBelow depth))) := by
          simp only [Block.consNested, flattenBlocks, Block.flatten, flattenBlocks_append,
            List.append_assoc, List.cons_append]
      _ = _ := by rw [whole, Block.flatten, List.cons_append]
  | _ => rfl

/-- Nesting keeps the order of the blocks. -/
theorem flattenBlocks_nestHeadings (flat : List Block) :
    flattenBlocks (nestHeadings flat) = flattenBlocks flat := by
  induction flat with
  | nil => rfl
  | cons block more ih =>
    show flattenBlocks (block.consNested (nestHeadings more)) = _
    rw [flattenBlocks_consNested, ih, flattenBlocks]

end WikiPress

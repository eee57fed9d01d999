import WikiPress.Document.Basic

/-!
# Replacing inclusions

Each inclusion of a tree is replaced in place by the blocks that an expansion gives for it, in
document order and at any depth. The first refusal stops the work: what was replaced stays
replaced, and the refused inclusion and everything behind it stay as they are.
-/

namespace WikiPress

/-- How far the replacing of inclusions came. -/
structure Progress (ε α : Type) where
  /-- The tree as it stands now. -/
  body : α
  /-- The number of inclusions replaced, those inside replaced ones among them. -/
  replaced : Nat
  /-- What stopped the work, if anything. -/
  stopped : Option ε

/-- The blocks put in place of an inclusion, and the number of inclusions replaced in them. -/
abbrev Expansion (ε : Type) := Inclusion → Except ε (List Block × Nat)

mutual

/-- Replace the inclusions in a block. -/
def Block.splice {ε : Type} (expand : Expansion ε) : Block → Progress ε (List Block)
  | .inclusion leaf =>
    match expand leaf with
    | .ok (body, nested) => ⟨body, nested + 1, none⟩
    | .error e => ⟨[.inclusion leaf], 0, some e⟩
  | .heading depth title children =>
    let inner := spliceBlocks expand children
    ⟨[.heading depth title inner.body], inner.replaced, inner.stopped⟩
  | .list kind items =>
    let inner := spliceItems expand items
    ⟨[.list kind inner.body], inner.replaced, inner.stopped⟩
  | block => ⟨[block], 0, none⟩

/-- Replace the inclusions in blocks. -/
def spliceBlocks {ε : Type} (expand : Expansion ε) : List Block → Progress ε (List Block)
  | [] => ⟨[], 0, none⟩
  | block :: more =>
    let first := block.splice expand
    match first.stopped with
    | some e => ⟨first.body ++ more, first.replaced, some e⟩
    | none =>
      let rest := spliceBlocks expand more
      ⟨first.body ++ rest.body, first.replaced + rest.replaced, rest.stopped⟩

/-- Replace the inclusions in the blocks that items own. -/
def spliceItems {ε : Type} (expand : Expansion ε) : List Item → Progress ε (List Item)
  | [] => ⟨[], 0, none⟩
  | item :: more =>
    let first := item.splice expand
    match first.stopped with
    | some e => ⟨first.body :: more, first.replaced, some e⟩
    | none =>
      let rest := spliceItems expand more
      ⟨first.body :: rest.body, first.replaced + rest.replaced, rest.stopped⟩

/-- Replace the inclusions in the blocks that an item owns. -/
def Item.splice {ε : Type} (expand : Expansion ε) : Item → Progress ε Item
  | ⟨kind, depth, runs, children⟩ =>
    let inner := spliceBlocks expand children
    ⟨⟨kind, depth, runs, inner.body⟩, inner.replaced, inner.stopped⟩

end

end WikiPress

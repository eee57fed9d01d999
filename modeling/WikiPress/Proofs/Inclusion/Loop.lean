import WikiPress.Proofs.Inclusion.Ending

/-!
# Replacing inclusions in place

The inclusions of a body can be replaced by a loop with a position: an inclusion at the position
makes room for its blocks, and the loop goes on behind them; the blocks below a heading and those of
the items of a list are worked on where they are. One chain is lent to all of it: the expansion of an
inclusion puts its reference at the end and takes the last one off when it is done. An error leaves
the loop at once, and with it whatever an expansion has made of the document that it read.

The loop leaves the chain as it was and the tree as the replacing of inclusions does
(`sweepBlocks_eq`), and no expansion is nested deeper than there are references that can come up
(`Document.sweepBlocks_expandInChain`).
-/

namespace WikiPress

/-- What a loop leaves: the number of inclusions replaced or what stopped it, the list that was lent
to it, and the chain. -/
structure Swept (ε α : Type) where
  result : Except ε Nat
  lent : List α
  chain : List Reference

/-- The expansion of an inclusion under a chain that is lent to it and that it leaves. -/
abbrev ChainedExpansion (ε : Type) :=
  List Reference → Inclusion → Except ε (List Block × Nat) × List Reference

section Sizes

variable {α : Type} [SizeOf α] {l : List α} {pos : Nat} {a : α}

/-- What stands at a position is no larger than what there is from the position on. -/
theorem sizeOf_lt_of_getElem? (here : l[pos]? = some a) : sizeOf a < sizeOf (l.drop pos) := by
  obtain ⟨inside, rfl⟩ := List.getElem?_eq_some_iff.1 here
  rw [List.drop_eq_getElem_cons inside, List.cons.sizeOf_spec]
  omega

/-- Behind what stands at a position there is less than from it on. -/
theorem sizeOf_drop_lt (here : l[pos]? = some a) :
    sizeOf (l.drop (pos + 1)) < sizeOf (l.drop pos) := by
  obtain ⟨inside, rfl⟩ := List.getElem?_eq_some_iff.1 here
  rw [List.drop_eq_getElem_cons inside, List.cons.sizeOf_spec]
  omega

/-- Changing what stands at a position changes nothing behind it. -/
theorem sizeOf_drop_set_lt (here : l[pos]? = some a) (other : α) :
    sizeOf ((l.set pos other).drop (pos + 1)) < sizeOf (l.drop pos) := by
  rw [List.drop_set_of_lt (Nat.lt_succ_self pos)]
  exact sizeOf_drop_lt here

/-- Putting a list in the place of what stands at a position changes nothing behind it. -/
theorem sizeOf_drop_splice_lt (here : l[pos]? = some a) (body : List α) :
    sizeOf ((l.take pos ++ body ++ l.drop (pos + 1)).drop (pos + body.length)) <
      sizeOf (l.drop pos) := by
  obtain ⟨inside, _⟩ := List.getElem?_eq_some_iff.1 here
  have front : (l.take pos ++ body).length = pos + body.length := by
    rw [List.length_append, List.length_take_of_le inside.le]
  rw [← front, List.drop_left]
  exact sizeOf_drop_lt here

end Sizes

mutual

/-- The loop over blocks from a position on, with the number of inclusions replaced before. -/
def sweepBlocks {ε : Type} (call : ChainedExpansion ε) (blocks : List Block) (pos replaced : Nat)
    (chain : List Reference) : Swept ε Block :=
  match here : blocks[pos]? with
  | none => ⟨.ok replaced, blocks, chain⟩
  | some (.inclusion leaf) =>
    match call chain leaf with
    | (.error e, chain) => ⟨.error e, blocks, chain⟩
    | (.ok (body, nested), chain) =>
      sweepBlocks call (blocks.take pos ++ body ++ blocks.drop (pos + 1)) (pos + body.length)
        (replaced + (nested + 1)) chain
  | some (.heading depth title children) =>
    match sweepBlocks call children 0 0 chain with
    | ⟨.error e, children, chain⟩ =>
      ⟨.error e, blocks.set pos (.heading depth title children), chain⟩
    | ⟨.ok count, children, chain⟩ =>
      sweepBlocks call (blocks.set pos (.heading depth title children)) (pos + 1)
        (replaced + count) chain
  | some (.list kind items) =>
    match sweepItems call items 0 replaced chain with
    | ⟨.error e, items, chain⟩ => ⟨.error e, blocks.set pos (.list kind items), chain⟩
    | ⟨.ok replaced, items, chain⟩ =>
      sweepBlocks call (blocks.set pos (.list kind items)) (pos + 1) replaced chain
  | some _ => sweepBlocks call blocks (pos + 1) replaced chain
termination_by sizeOf (blocks.drop pos)
decreasing_by
  · exact sizeOf_drop_splice_lt here body
  · have whole := sizeOf_lt_of_getElem? here
    rw [Block.heading.sizeOf_spec] at whole
    rw [List.drop_zero]
    omega
  · exact sizeOf_drop_set_lt here _
  · have whole := sizeOf_lt_of_getElem? here
    rw [Block.list.sizeOf_spec] at whole
    rw [List.drop_zero]
    omega
  · exact sizeOf_drop_set_lt here _
  · exact sizeOf_drop_lt here

/-- The loop over the items of a list from a position on, with the number of inclusions replaced
before. -/
def sweepItems {ε : Type} (call : ChainedExpansion ε) (items : List Item) (pos replaced : Nat)
    (chain : List Reference) : Swept ε Item :=
  match _ : items[pos]? with
  | none => ⟨.ok replaced, items, chain⟩
  | some ⟨kind, depth, runs, children⟩ =>
    match sweepBlocks call children 0 0 chain with
    | ⟨.error e, children, chain⟩ =>
      ⟨.error e, items.set pos ⟨kind, depth, runs, children⟩, chain⟩
    | ⟨.ok count, children, chain⟩ =>
      sweepItems call (items.set pos ⟨kind, depth, runs, children⟩) (pos + 1) (replaced + count) chain
termination_by sizeOf (items.drop pos)
decreasing_by
  · have whole := sizeOf_lt_of_getElem? ‹items[pos]? = some _›
    rw [Item.mk.sizeOf_spec] at whole
    rw [List.drop_zero]
    omega
  · exact sizeOf_drop_set_lt ‹items[pos]? = some _› _

end

/-- Why an expansion stops. -/
inductive Halt where
  | refused (e : InclusionError)
  /-- The chain has no room for another reference. -/
  | full

/-- The expansion of an inclusion under a chain, the latest reference last, that can still grow by
some. -/
def expandInChain (fs : FileSystem) : Nat → ChainedExpansion Halt
  | 0, chain, _ => (.error .full, chain)
  | room + 1, chain, leaf =>
    if leaf.target ∈ chain then (.error (.refused (.cycle leaf.target)), chain)
    else
      match leaf.document fs with
      | .error e => (.error (.refused e), chain)
      | .ok d =>
        -- where the loop stops, the blocks that it leaves go with the document
        let swept := sweepBlocks (expandInChain fs room) d.blocks 0 0 (chain ++ [leaf.target])
        (swept.result.map fun nested => (swept.lent, nested), swept.chain.dropLast)

/-- What a loop leaves that has come to the end of some progress, where other entries stand in front
and others have been replaced before. -/
def Progress.swept {ε δ α : Type} (refuse : ε → δ) (front : List α) (before : Nat)
    (chain : List Reference) (p : Progress ε (List α)) : Swept δ α where
  result := (p.result.map fun made => before + made.2).mapError refuse
  lent := front ++ p.body
  chain := chain

section Fronts

variable {α : Type}

/-- What stands behind a front is found at its length. -/
theorem getElem?_front (front more : List α) (a : α) :
    (front ++ a :: more)[front.length]? = some a := by simp

/-- What stands behind a front is changed at its length. -/
theorem set_front (front more : List α) (a b : α) :
    (front ++ a :: more).set front.length b = (front ++ [b]) ++ more := by simp

/-- What stands behind a front is replaced at its length. -/
theorem splice_front (front body more : List α) (a : α) :
    (front ++ a :: more).take front.length ++ body ++ (front ++ a :: more).drop (front.length + 1) =
      (front ++ body) ++ more := by simp

end Fronts

section Turns

variable {ε : Type} {call : ChainedExpansion ε} {blocks : List Block} {items : List Item}
  {pos before : Nat} {chain : List Reference}

/-- Behind the last block the loop ends. -/
theorem sweepBlocks_end (behind : blocks[pos]? = none) :
    sweepBlocks call blocks pos before chain = ⟨.ok before, blocks, chain⟩ := by
  rw [sweepBlocks]
  grind

/-- A turn at an inclusion calls for it and goes on behind its blocks. -/
theorem sweepBlocks_inclusion {leaf : Inclusion} (here : blocks[pos]? = some (.inclusion leaf)) :
    sweepBlocks call blocks pos before chain =
      match call chain leaf with
      | (.error e, chain) => ⟨.error e, blocks, chain⟩
      | (.ok (body, nested), chain) =>
        sweepBlocks call (blocks.take pos ++ body ++ blocks.drop (pos + 1)) (pos + body.length)
          (before + (nested + 1)) chain := by
  rw [sweepBlocks]
  grind

/-- A turn at a heading runs the loop below it. -/
theorem sweepBlocks_heading {depth : Nat} {title : List Run} {children : List Block}
    (here : blocks[pos]? = some (.heading depth title children)) :
    sweepBlocks call blocks pos before chain =
      match sweepBlocks call children 0 0 chain with
      | ⟨.error e, children, chain⟩ =>
        ⟨.error e, blocks.set pos (.heading depth title children), chain⟩
      | ⟨.ok count, children, chain⟩ =>
        sweepBlocks call (blocks.set pos (.heading depth title children)) (pos + 1)
          (before + count) chain := by
  rw [sweepBlocks]
  grind

/-- A turn at a list runs the loop over its items, which goes on counting. -/
theorem sweepBlocks_list {kind : ListKind} (here : blocks[pos]? = some (.list kind items)) :
    sweepBlocks call blocks pos before chain =
      match sweepItems call items 0 before chain with
      | ⟨.error e, items, chain⟩ => ⟨.error e, blocks.set pos (.list kind items), chain⟩
      | ⟨.ok count, items, chain⟩ =>
        sweepBlocks call (blocks.set pos (.list kind items)) (pos + 1) count chain := by
  rw [sweepBlocks]
  grind

/-- A turn at a plain block passes it. -/
theorem sweepBlocks_plain {block : Block} (here : blocks[pos]? = some block)
    (plain : block.isPlain = true) :
    sweepBlocks call blocks pos before chain = sweepBlocks call blocks (pos + 1) before chain := by
  rw [sweepBlocks]
  grind [Block.isPlain]

/-- Behind the last item the loop ends. -/
theorem sweepItems_end (behind : items[pos]? = none) :
    sweepItems call items pos before chain = ⟨.ok before, items, chain⟩ := by
  rw [sweepItems]
  grind

/-- A turn at an item runs the loop over the blocks that it owns. -/
theorem sweepItems_item {kind : ListKind} {depth : Nat} {runs : List Run} {children : List Block}
    (here : items[pos]? = some ⟨kind, depth, runs, children⟩) :
    sweepItems call items pos before chain =
      match sweepBlocks call children 0 0 chain with
      | ⟨.error e, children, chain⟩ =>
        ⟨.error e, items.set pos ⟨kind, depth, runs, children⟩, chain⟩
      | ⟨.ok count, children, chain⟩ =>
        sweepItems call (items.set pos ⟨kind, depth, runs, children⟩) (pos + 1) (before + count)
          chain := by
  rw [sweepItems]
  grind

end Turns

section Loops

variable {ε δ : Type} {call : ChainedExpansion δ} {expand : Expansion ε} {refuse : ε → δ}
  {chain : List Reference}

/-- Progress behind a body that is done is what a loop leaves behind it. -/
theorem Progress.swept_behind {α : Type} (p : Progress ε (List α)) (body front : List α)
    (count before : Nat) :
    Progress.swept refuse front before chain ⟨body ++ p.body, count + p.replaced, p.stopped⟩ =
      p.swept refuse (front ++ body) (before + count) chain := by
  rw [swept, swept, result, result, ← List.append_assoc]
  cases p.stopped with
  | some e => rfl
  | none =>
    show Swept.mk (.ok (before + (count + p.replaced))) _ _ = _
    rw [← Nat.add_assoc]
    rfl

/-- Where each call for an inclusion gives what an expansion does and leaves the chain as it was, the
loop leaves the chain as it was and the blocks as the replacing of inclusions does. -/
theorem sweepBlocks_eq (blocks : List Block) :
    (∀ leaf ∈ inclusionsOf blocks, call chain leaf = ((expand leaf).mapError refuse, chain)) →
      ∀ front before, sweepBlocks call (front ++ blocks) front.length before chain =
        (spliceBlocks expand blocks).swept refuse front before chain := by
  induction blocks using blocks_induction
    (Q := fun items =>
      (∀ leaf ∈ inclusionsOfItems items,
        call chain leaf = ((expand leaf).mapError refuse, chain)) →
      ∀ front before, sweepItems call (front ++ items) front.length before chain =
        (spliceItems expand items).swept refuse front before chain) with
  | nil =>
    intro _ front before
    rw [sweepBlocks_end (by simp)]
    rfl
  | inclusion leaf more rest =>
    intro calls front before
    simp only [inclusionsOf, Block.inclusions, List.cons_append, List.nil_append,
      List.forall_mem_cons] at calls
    have here := getElem?_front front more (.inclusion leaf)
    rw [sweepBlocks_inclusion here, calls.1, spliceBlocks, Block.splice]
    cases made : expand leaf with
    | error e => rfl
    | ok result =>
      obtain ⟨body, nested⟩ := result
      simp only [Except.mapError, splice_front, ← List.length_append, rest calls.2,
        Progress.swept_behind]
  | heading depth title children more inner rest =>
    intro calls front before
    simp only [inclusionsOf, Block.inclusions, List.forall_mem_append] at calls
    have here := getElem?_front front more (.heading depth title children)
    have below : sweepBlocks call children 0 0 chain = _ := inner calls.1 [] 0
    rw [sweepBlocks_heading here, below, spliceBlocks, Block.splice, Progress.swept,
      Progress.result]
    cases (spliceBlocks expand children).stopped with
    | some e =>
      simp only [Except.map, Except.mapError, set_front, List.append_assoc]
      rfl
    | none =>
      have behind := fun own => rest calls.2 (front ++ [own])
      simp only [List.length_append, List.length_singleton] at behind
      simp only [Except.map, Except.mapError, set_front, List.nil_append, Nat.zero_add, behind,
        Progress.swept_behind]
  | list kind items more inner rest =>
    intro calls front before
    simp only [inclusionsOf, Block.inclusions, List.forall_mem_append] at calls
    have here := getElem?_front front more (.list kind items)
    have below : sweepItems call items 0 before chain = _ := inner calls.1 [] before
    rw [sweepBlocks_list here, below, spliceBlocks, Block.splice, Progress.swept,
      Progress.result]
    cases (spliceItems expand items).stopped with
    | some e =>
      simp only [Except.map, Except.mapError, set_front, List.append_assoc]
      rfl
    | none =>
      have behind := fun own => rest calls.2 (front ++ [own])
      simp only [List.length_append, List.length_singleton] at behind
      simp only [Except.map, Except.mapError, set_front, List.nil_append, behind,
        Progress.swept_behind]
  | plain block more plain rest =>
    intro calls front before
    rw [inclusionsOf, Block.inclusions_plain plain, List.nil_append] at calls
    have behind := rest calls (front ++ [block]) before
    rw [List.length_append, List.length_singleton, List.append_assoc] at behind
    rw [sweepBlocks_plain (getElem?_front front more block) plain, spliceBlocks,
      Block.splice_plain plain, Progress.swept_behind]
    exact behind
  | noItem =>
    rename_i _ front before
    rw [sweepItems_end (by simp)]
    rfl
  | item kind depth runs children more inner rest =>
    rename_i calls front before
    simp only [inclusionsOfItems, Item.inclusions, List.forall_mem_append] at calls
    have here := getElem?_front front more ⟨kind, depth, runs, children⟩
    have below : sweepBlocks call children 0 0 chain = _ := inner calls.1 [] 0
    rw [sweepItems_item here, below, spliceItems, Item.splice, Progress.swept, Progress.result]
    cases (spliceBlocks expand children).stopped with
    | some e =>
      simp only [Except.map, Except.mapError, set_front, List.append_assoc]
      rfl
    | none =>
      have behind := fun own => rest calls.2 (front ++ [own])
      simp only [List.length_append, List.length_singleton] at behind
      simp only [Except.map, Except.mapError, set_front, List.nil_append, Nat.zero_add, behind]
      exact (Progress.swept_behind _ _ _ _ _).symm

end Loops

section Chains

open Relation Inclusion

variable {fs : FileSystem} {names chain : List Reference} {leaf : Inclusion}

/-- With room for all that can come up, an expansion in a chain gives what an expansion gives under
the same references, and it leaves the chain as it was. -/
theorem expandInChain_eq {room : Nat}
    (known : ∀ inner, ReflTransGen (Within fs) inner leaf → inner.target ∈ names)
    (fits : (names.filter (· ∉ chain)).length ≤ room) :
    expandInChain fs (room + 1) chain.reverse leaf =
      ((expandWithin fs room chain leaf).mapError .refused, chain.reverse) := by
  induction room generalizing chain leaf with
  | zero =>
    have again := mem_of_full (known leaf .refl) fits
    rw [expandInChain, expandWithin, if_pos (List.mem_reverse.2 again)]
    rfl
  | succ room ih =>
    rw [expandInChain, expandWithin]
    simp only [List.mem_reverse]
    by_cases again : leaf.target ∈ chain
    · rw [if_pos again, if_pos again]
      rfl
    rw [if_neg again, if_neg again]
    cases found : leaf.document fs with
    | error e => rfl
    | ok d =>
      have shorter := room_of_push (known leaf .refl) again
      have calls : ∀ other ∈ d.inclusions,
          expandInChain fs (room + 1) (leaf.target :: chain).reverse other =
            ((expandWithin fs room (leaf.target :: chain) other).mapError .refused,
              (leaf.target :: chain).reverse) := by
        intro other member
        have within : Within fs other leaf := ⟨d, found, member⟩
        exact ih (fun deep inside => known deep (inside.tail within)) (by omega)
      have swept : sweepBlocks (expandInChain fs (room + 1)) d.blocks 0 0
          (leaf.target :: chain).reverse = _ := sweepBlocks_eq d.blocks calls [] 0
      rw [List.reverse_cons] at swept
      simp only [swept, Progress.swept, Progress.result, List.dropLast_concat]
      cases (spliceBlocks (expandWithin fs room (leaf.target :: chain)) d.blocks).stopped with
      | some e => rfl
      | none => simp only [Except.map, Except.mapError, Nat.zero_add, List.nil_append]

/-- The loop over the blocks of a document, with a chain whose latest reference is the last, comes to
what the expansion of the document gives under the chain. It ends with the number of inclusions
replaced or with the error that stopped the expansion, and it leaves the blocks of the expansion and
the chain as it was. The chain has room enough where it can grow by one more than can come up. -/
theorem Document.sweepBlocks_expandInChain (fs : FileSystem) (chain : List Reference) (d : Document)
    {room : Nat} (enough : (d.reachable fs).length ≤ room) :
    sweepBlocks (expandInChain fs (room + 1)) d.blocks 0 0 chain =
      ⟨((d.expandFrom fs chain.reverse).result.map (·.2)).mapError .refused,
        (d.expandFrom fs chain.reverse).body.blocks, chain⟩ := by
  have fits := List.length_filter_le (· ∉ chain.reverse) (d.reachable fs)
  have calls : ∀ leaf ∈ d.inclusions, expandInChain fs (room + 1) chain leaf =
      ((expandWithin fs (d.reachable fs).length chain.reverse leaf).mapError .refused, chain) := by
    intro leaf member
    have known : ∀ inner, ReflTransGen (Within fs) inner leaf → inner.target ∈ d.reachable fs :=
      fun _ => target_mem_reachable member
    have called : expandInChain fs (room + 1) chain.reverse.reverse leaf = _ :=
      expandInChain_eq known (fits.trans enough)
    have same := (endsIn_expandWithin known (fits.trans enough)).unique
      (endsIn_expandWithin known fits)
    rwa [List.reverse_reverse, same] at called
  have swept : sweepBlocks _ d.blocks 0 0 chain = _ := sweepBlocks_eq d.blocks calls [] 0
  rw [swept, expandFrom, Progress.swept, Progress.result, Progress.result]
  cases (spliceBlocks _ d.blocks).stopped with
  | some e => rfl
  | none => simp only [Except.map, Nat.zero_add, List.nil_append]

end Chains

end WikiPress

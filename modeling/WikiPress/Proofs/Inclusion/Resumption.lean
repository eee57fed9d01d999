import WikiPress.Proofs.Files.Walks
import WikiPress.Proofs.Inclusion.Ending

/-!
# Expansions that are taken up again

An expansion that is refused leaves a document in which some of the first inclusions have been
replaced and nothing else has changed (`substituteFirst`). Expanding that document goes on where the
work stopped: what was replaced before need not be replaced again, however the other files have
changed in the meantime (`spliceBlocks_substituteFirst`). So it comes to the same end as expanding
the original document again (`expandFrom_resumes`).
-/

namespace WikiPress

open Relation

mutual

/-- What a block becomes when bodies take the place of its first inclusions, as many as `count` in
document order. -/
def Block.substituteFirst (count : Nat) (body : Inclusion → List Block) : Block → List Block
  | .inclusion leaf => if count = 0 then [.inclusion leaf] else body leaf
  | .heading depth title children => [.heading depth title (substituteFirst count body children)]
  | .list kind items => [.list kind (substituteFirstItems count body items)]
  | block => [block]

/-- Blocks with bodies in the place of their first inclusions; the later ones stay. -/
def substituteFirst (count : Nat) (body : Inclusion → List Block) : List Block → List Block
  | [] => []
  | block :: more =>
    block.substituteFirst count body ++
      substituteFirst (count - block.inclusions.length) body more

/-- Items with bodies in the place of the first inclusions that they own. -/
def substituteFirstItems (count : Nat) (body : Inclusion → List Block) : List Item → List Item
  | [] => []
  | item :: more =>
    item.substituteFirst count body ::
      substituteFirstItems (count - item.inclusions.length) body more

/-- An item with bodies in the place of the first inclusions that it owns. -/
def Item.substituteFirst (count : Nat) (body : Inclusion → List Block) : Item → Item
  | ⟨kind, depth, runs, children⟩ => ⟨kind, depth, runs, WikiPress.substituteFirst count body children⟩

end

/-- Plain blocks stay as they are. -/
theorem Block.substituteFirst_plain {block : Block} (plain : block.isPlain = true) (count : Nat)
    (body : Inclusion → List Block) : block.substituteFirst count body = [block] := by
  cases block <;> simp_all [Block.isPlain, Block.substituteFirst]

/-- With no inclusion replaced the tree is as before. -/
theorem substituteFirst_zero (body : Inclusion → List Block) (blocks : List Block) :
    substituteFirst 0 body blocks = blocks := by
  induction blocks using blocks_induction
    (Q := fun items => substituteFirstItems 0 body items = items) with
  | nil => rfl
  | inclusion leaf more rest =>
    simp only [substituteFirst, Block.substituteFirst, if_true, Nat.zero_sub, rest]
    rfl
  | heading depth title children more inner rest =>
    simp only [substituteFirst, Block.substituteFirst, Nat.zero_sub, inner, rest]
    rfl
  | list kind items more inner rest =>
    simp only [substituteFirst, Block.substituteFirst, Nat.zero_sub, inner, rest]
    rfl
  | plain block more plain rest =>
    simp only [substituteFirst, Block.substituteFirst_plain plain, Nat.zero_sub, rest]
    rfl
  | noItem => rfl
  | item kind depth runs children more inner rest =>
    simp only [substituteFirstItems, Item.substituteFirst, Nat.zero_sub, inner, rest]

/-- With no inclusion replaced the items are as before. -/
theorem substituteFirstItems_zero (body : Inclusion → List Block) (items : List Item) :
    substituteFirstItems 0 body items = items := by
  have whole := substituteFirst_zero body [.list .ordered items]
  simpa [substituteFirst, Block.substituteFirst] using whole

/-- Replacing the first of two lists of inclusions in a row goes on in the second list only where
nothing is left of the first. -/
theorem flatMap_take_append (inner : Inclusion → List Inclusion) (first second : List Inclusion)
    (count : Nat) :
    (first.take count).flatMap inner ++ first.drop count ++
        ((second.take (count - first.length)).flatMap inner ++
          second.drop (count - first.length)) =
      ((first ++ second).take count).flatMap inner ++ (first ++ second).drop count := by
  rw [List.take_append, List.drop_append, List.flatMap_append]
  rcases Nat.le_total count first.length with within | beyond
  · simp only [Nat.sub_eq_zero_of_le within, List.take_zero, List.flatMap_nil, List.append_nil,
      List.nil_append, List.append_assoc]
  · simp only [List.drop_eq_nil_of_le beyond, List.append_nil, List.nil_append, List.append_assoc]

/-- The inclusions that were not replaced are left, behind those of the bodies. -/
theorem inclusionsOf_substituteFirst (body : Inclusion → List Block) (blocks : List Block)
    (count : Nat) : inclusionsOf (substituteFirst count body blocks) =
      ((inclusionsOf blocks).take count).flatMap (fun leaf => inclusionsOf (body leaf)) ++
        (inclusionsOf blocks).drop count := by
  induction blocks using blocks_induction
    (Q := fun items => ∀ count, inclusionsOfItems (substituteFirstItems count body items) =
      ((inclusionsOfItems items).take count).flatMap (fun leaf => inclusionsOf (body leaf)) ++
        (inclusionsOfItems items).drop count) generalizing count with
  | nil => simp [substituteFirst, inclusionsOf]
  | inclusion leaf more rest =>
    cases count with
    | zero => simp [substituteFirst_zero]
    | succ count =>
      simp only [substituteFirst, Block.substituteFirst, inclusionsOf, Block.inclusions,
        inclusionsOf_append, rest, Nat.succ_ne_zero, if_false, List.length_singleton,
        Nat.add_sub_cancel, List.singleton_append, List.take_succ_cons, List.drop_succ_cons,
        List.flatMap_cons, List.append_assoc]
  | heading depth title children more inner rest =>
    simp only [substituteFirst, Block.substituteFirst, inclusionsOf, Block.inclusions, inner, rest,
      List.cons_append, List.nil_append, flatMap_take_append]
  | list kind items more inner rest =>
    simp only [substituteFirst, Block.substituteFirst, inclusionsOf, Block.inclusions, inner, rest,
      List.cons_append, List.nil_append, flatMap_take_append]
  | plain block more plain rest =>
    simp only [substituteFirst, Block.substituteFirst_plain plain, inclusionsOf,
      Block.inclusions_plain plain, rest, List.cons_append, List.nil_append, List.length_nil,
      Nat.sub_zero]
  | noItem => simp [substituteFirstItems, inclusionsOfItems]
  | item kind depth runs children more inner rest count =>
    simp only [substituteFirstItems, Item.substituteFirst, inclusionsOfItems, Item.inclusions, inner,
      rest, flatMap_take_append]

section Splicing

variable {ε : Type} {expand : Expansion ε}

/-- The progress of work that others have begun, with the inclusions that they replaced. -/
def Progress.countedFrom {α : Type} (before : Nat) (p : Progress ε α) : Progress ε α :=
  { p with replaced := before + p.replaced }

/-- Work that nothing stops in a body goes on behind it. -/
theorem spliceBlocks_append {front : List Block}
    (finished : (spliceBlocks expand front).stopped = none) (more : List Block) :
    spliceBlocks expand (front ++ more) =
      ⟨(spliceBlocks expand front).body ++ (spliceBlocks expand more).body,
        (spliceBlocks expand front).replaced + (spliceBlocks expand more).replaced,
        (spliceBlocks expand more).stopped⟩ := by
  induction front with
  | nil =>
    simp only [spliceBlocks, List.nil_append, Nat.zero_add]
  | cons block others ih =>
    rw [spliceBlocks] at finished
    cases first : (block.splice expand).stopped with
    | some e => simp [first] at finished
    | none =>
      simp only [first] at finished
      simp only [List.cons_append, spliceBlocks, first, ih finished, List.append_assoc,
        Nat.add_assoc]

/-- There is nothing to replace in items without inclusions. -/
theorem spliceItems_of_none {items : List Item} (none : inclusionsOfItems items = []) :
    spliceItems expand items = ⟨items, 0, .none⟩ := by
  have single : inclusionsOf [.list .ordered items] = [] := by
    rw [inclusionsOf, Block.inclusions, none]
    rfl
  have whole : spliceBlocks expand [.list .ordered items] = ⟨[.list .ordered items], 0, .none⟩ :=
    spliceBlocks_of_none single
  cases inner : spliceItems expand items with
  | mk body replaced stopped => cases stopped <;> simp_all [spliceBlocks, Block.splice]

/-- Where the first inclusion is refused, nothing is replaced. -/
theorem spliceBlocks_refused {leaf : Inclusion} {e : ε} (refused : expand leaf = .error e)
    (blocks : List Block) : (inclusionsOf blocks).head? = some leaf →
      spliceBlocks expand blocks = ⟨blocks, 0, some e⟩ := by
  induction blocks using blocks_induction
    (Q := fun items => (inclusionsOfItems items).head? = some leaf →
      spliceItems expand items = ⟨items, 0, some e⟩) with
  | nil => simp [inclusionsOf]
  | inclusion other more rest =>
    intro first
    obtain rfl : other = leaf := by simpa [inclusionsOf, Block.inclusions] using first
    simp only [spliceBlocks, Block.splice, refused, List.singleton_append]
  | heading depth title children more inner rest =>
    intro first
    rw [inclusionsOf, Block.inclusions, List.head?_append, Option.or_eq_some_iff,
      List.head?_eq_none_iff] at first
    rcases first with own | ⟨none, behind⟩
    · simp only [spliceBlocks, Block.splice, inner own, List.singleton_append]
    · simp only [spliceBlocks, Block.splice, spliceBlocks_of_none none, rest behind, Nat.zero_add,
        List.singleton_append]
  | list kind items more inner rest =>
    intro first
    rw [inclusionsOf, Block.inclusions, List.head?_append, Option.or_eq_some_iff,
      List.head?_eq_none_iff] at first
    rcases first with own | ⟨none, behind⟩
    · simp only [spliceBlocks, Block.splice, inner own, List.singleton_append]
    · simp only [spliceBlocks, Block.splice, spliceItems_of_none none, rest behind, Nat.zero_add,
        List.singleton_append]
  | plain block more plain rest =>
    intro first
    rw [inclusionsOf, Block.inclusions_plain plain, List.nil_append] at first
    simp only [spliceBlocks, Block.splice_plain plain, rest first, Nat.zero_add,
      List.singleton_append]
  | noItem =>
    rename_i first
    simp [inclusionsOfItems] at first
  | item kind depth runs children more inner rest =>
    rename_i first
    rw [inclusionsOfItems, Item.inclusions, List.head?_append, Option.or_eq_some_iff,
      List.head?_eq_none_iff] at first
    rcases first with own | ⟨none, behind⟩
    · simp only [spliceItems, Item.splice, inner own]
    · simp only [spliceItems, Item.splice, spliceBlocks_of_none none, rest behind, Nat.zero_add]

/-- Only a refused inclusion of its own stops the work on a block. -/
theorem Block.stopped_splice (block : Block) :
    (block.splice expand).stopped = block.inclusions.findSome? (Expansion.refusal? expand) := by
  have whole : (spliceBlocks expand [block]).stopped = _ := stopped_spliceBlocks [block]
  rw [inclusionsOf, inclusionsOf, List.append_nil] at whole
  rw [← whole, spliceBlocks]
  cases (block.splice expand).stopped <;> rfl

/-- Work is stopped only behind the inclusions that are known to be expanded. -/
theorem length_of_refused {leaves : List Inclusion} {count : Nat} {e : ε}
    (given : ∀ leaf ∈ leaves.take count, ∃ made, expand leaf = .ok made)
    (refused : leaves.findSome? (Expansion.refusal? expand) = some e) : count ≤ leaves.length := by
  by_contra beyond
  rw [List.take_of_length_le (by omega)] at given
  obtain ⟨leaf, member, cause⟩ := List.exists_of_findSome?_eq_some refused
  obtain ⟨made, result⟩ := given leaf member
  rw [Expansion.refusal?_eq_some_iff, result] at cause
  cases cause

section Resumed

variable {body : Inclusion → List Block} {nested : Inclusion → Nat}

/-- The expansion gives the bodies for the leaves, and nothing is left to replace in them. -/
def Expansion.Completes (expand : Expansion ε) (body : Inclusion → List Block)
    (nested : Inclusion → Nat) (leaves : List Inclusion) : Prop :=
  ∀ leaf ∈ leaves, expand leaf = .ok (body leaf, nested leaf) ∧ inclusionsOf (body leaf) = []

/-- A block whose own inclusions need not be replaced again, in front of blocks of which this
holds. -/
theorem spliceBlocks_cons_substituteFirst {block other : Block} {more : List Block} {count : Nat}
    (given : Expansion.Completes expand body nested (block.inclusions.take count))
    (becomes : block.substituteFirst count body = [other])
    (first : block.splice expand =
      (other.splice expand).countedFrom (replacedIn nested (block.inclusions.take count)))
    (rest : spliceBlocks expand more =
      (spliceBlocks expand (substituteFirst (count - block.inclusions.length) body more)).countedFrom
        (replacedIn nested ((inclusionsOf more).take (count - block.inclusions.length)))) :
    spliceBlocks expand (block :: more) =
      (spliceBlocks expand (substituteFirst count body (block :: more))).countedFrom
        (replacedIn nested ((inclusionsOf (block :: more)).take count)) := by
  have stopped : (block.splice expand).stopped = _ := block.stopped_splice
  rw [first] at stopped
  simp only [Progress.countedFrom] at stopped first rest ⊢
  simp only [spliceBlocks, substituteFirst, becomes, List.singleton_append, inclusionsOf,
    List.take_append, replacedIn_append, first]
  cases reason : (other.splice expand).stopped with
  | none =>
    simp only [rest, Progress.mk.injEq, true_and, and_true]
    omega
  | some e =>
    -- the work stops in the block, so nothing behind it was replaced beforehand
    have refused := stopped.symm.trans reason
    have within := length_of_refused (fun leaf member => ⟨_, (given leaf member).1⟩) refused
    simp only [Nat.sub_eq_zero_of_le within, substituteFirst_zero, List.take_zero, replacedIn,
      Nat.add_zero]

/-- An item whose own inclusions need not be replaced again, in front of items of which this
holds. -/
theorem spliceItems_cons_substituteFirst {kind : ListKind} {depth : Nat} {runs : List Run}
    {children : List Block} {more : List Item} {count : Nat}
    (given : Expansion.Completes expand body nested ((inclusionsOf children).take count))
    (inner : spliceBlocks expand children =
      (spliceBlocks expand (substituteFirst count body children)).countedFrom
        (replacedIn nested ((inclusionsOf children).take count)))
    (rest : spliceItems expand more =
      (spliceItems expand
        (substituteFirstItems (count - (inclusionsOf children).length) body more)).countedFrom
          (replacedIn nested
            ((inclusionsOfItems more).take (count - (inclusionsOf children).length)))) :
    spliceItems expand (⟨kind, depth, runs, children⟩ :: more) =
      (spliceItems expand
        (substituteFirstItems count body (⟨kind, depth, runs, children⟩ :: more))).countedFrom
          (replacedIn nested
            ((inclusionsOfItems (⟨kind, depth, runs, children⟩ :: more)).take count)) := by
  have stopped : (spliceBlocks expand children).stopped = _ := stopped_spliceBlocks children
  rw [inner] at stopped
  simp only [Progress.countedFrom] at stopped inner rest ⊢
  simp only [spliceItems, Item.splice, substituteFirstItems, Item.substituteFirst, Item.inclusions,
    inclusionsOfItems, List.take_append, replacedIn_append, inner]
  cases reason : (spliceBlocks expand (substituteFirst count body children)).stopped with
  | none =>
    simp only [rest, Progress.mk.injEq, true_and, and_true]
    omega
  | some e =>
    have refused := stopped.symm.trans reason
    have within := length_of_refused (fun leaf member => ⟨_, (given leaf member).1⟩) refused
    simp only [Nat.sub_eq_zero_of_le within, substituteFirstItems_zero, List.take_zero, replacedIn,
      Nat.add_zero]

/-- What was replaced beforehand as the expansion would have replaced it need not be replaced again:
the work goes on behind it and comes to the same end. -/
theorem spliceBlocks_substituteFirst (blocks : List Block) (count : Nat) :
    Expansion.Completes expand body nested ((inclusionsOf blocks).take count) →
    spliceBlocks expand blocks =
      (spliceBlocks expand (substituteFirst count body blocks)).countedFrom
        (replacedIn nested ((inclusionsOf blocks).take count)) := by
  induction blocks using blocks_induction
    (Q := fun items => ∀ count,
      Expansion.Completes expand body nested ((inclusionsOfItems items).take count) →
      spliceItems expand items =
        (spliceItems expand (substituteFirstItems count body items)).countedFrom
          (replacedIn nested ((inclusionsOfItems items).take count))) generalizing count with
  | nil =>
    intro _
    simp [inclusionsOf, substituteFirst, replacedIn, Progress.countedFrom]
  | inclusion leaf more rest =>
    intro given
    cases count with
    | zero => simp [substituteFirst_zero, replacedIn, Progress.countedFrom]
    | succ count =>
      simp only [Expansion.Completes, inclusionsOf, Block.inclusions, List.singleton_append,
        List.take_succ_cons, List.forall_mem_cons] at given
      obtain ⟨⟨made, empty⟩, later⟩ := given
      have done : spliceBlocks expand (body leaf) = ⟨body leaf, 0, none⟩ := spliceBlocks_of_none empty
      have finished : (spliceBlocks expand (body leaf)).stopped = none := by rw [done]
      have front := spliceBlocks_append finished (substituteFirst count body more)
      simp only [spliceBlocks, Block.splice, made, rest count later, substituteFirst,
        Block.substituteFirst, Nat.succ_ne_zero, if_false, Block.inclusions, List.length_singleton,
        Nat.add_sub_cancel, front, done, inclusionsOf, List.singleton_append, List.take_succ_cons,
        replacedIn, Progress.countedFrom, Nat.add_assoc, Nat.zero_add]
  | heading depth title children more inner rest =>
    intro given
    rw [inclusionsOf, Block.inclusions, List.take_append] at given
    obtain ⟨own, behind⟩ := List.forall_mem_append.1 given
    refine spliceBlocks_cons_substituteFirst own rfl ?_ (rest _ behind)
    simp only [Block.splice, inner count own, Progress.countedFrom, Block.inclusions]
  | list kind items more inner rest =>
    intro given
    rw [inclusionsOf, Block.inclusions, List.take_append] at given
    obtain ⟨own, behind⟩ := List.forall_mem_append.1 given
    refine spliceBlocks_cons_substituteFirst own rfl ?_ (rest _ behind)
    simp only [Block.splice, inner count own, Progress.countedFrom, Block.inclusions]
  | plain block more plain rest =>
    intro given
    rw [inclusionsOf, List.take_append] at given
    obtain ⟨own, behind⟩ := List.forall_mem_append.1 given
    refine spliceBlocks_cons_substituteFirst own (Block.substituteFirst_plain plain count body) ?_
      (rest _ behind)
    simp only [Block.splice_plain plain, Block.inclusions_plain plain, List.take_nil, replacedIn,
      Progress.countedFrom, Nat.zero_add]
  | noItem =>
    simp [inclusionsOfItems, substituteFirstItems, spliceItems, replacedIn, Progress.countedFrom]
  | item kind depth runs children more inner rest count =>
    rename_i given
    rw [inclusionsOfItems, Item.inclusions, List.take_append] at given
    obtain ⟨own, behind⟩ := List.forall_mem_append.1 given
    exact spliceItems_cons_substituteFirst own (inner count own) (rest _ behind)

end Resumed

end Splicing

/-- What is inside an inclusion that stands for a body names the same document in other files with
the same content at its target. -/
theorem Inclusion.StandsFor.document_later {fs later : FileSystem} {leaf inner : Inclusion}
    {blocks : List Block} {n : Nat} (stands : leaf.StandsFor fs blocks n)
    (inside : ReflTransGen (Inclusion.Within fs) inner leaf)
    (same : later.bytesAt inner.target.path = fs.bytesAt inner.target.path) :
    inner.document later = inner.document fs := by
  obtain ⟨others, m, own⟩ := stands.inside inside
  obtain ⟨d, _, found, _⟩ := Document.standsFor_iff.1 own
  obtain ⟨bytes, opened, read⟩ := Inclusion.document_eq_ok_iff.1 found
  rw [← FileSystem.bytesAt_eq_ok_iff, ← same, FileSystem.bytesAt_eq_ok_iff] at opened
  rw [found]
  exact Inclusion.document_eq_ok_iff.2 ⟨bytes, opened, read⟩

namespace Document

open Inclusion

variable {fs : FileSystem} {chain : List Reference} {d : Document} {e : InclusionError}

/-- The document with bodies in the place of its first inclusions. -/
def substituteFirst (count : Nat) (body : Inclusion → List Block) (d : Document) : Document :=
  { d with blocks := WikiPress.substituteFirst count body d.blocks }

/-- What is left of the inclusions where the bodies of the first ones hold none. -/
theorem inclusions_substituteFirst {body : Inclusion → List Block} {done rest : List Inclusion}
    (split : d.inclusions = done ++ rest) (empty : ∀ leaf ∈ done, inclusionsOf (body leaf) = []) :
    (d.substituteFirst done.length body).inclusions = rest := by
  have left : (d.substituteFirst done.length body).inclusions =
      (d.inclusions.take done.length).flatMap (fun leaf => inclusionsOf (body leaf)) ++
        d.inclusions.drop done.length := inclusionsOf_substituteFirst body d.blocks done.length
  rw [left, split, List.take_left, List.drop_left, List.flatMap_eq_nil_iff.2 empty, List.nil_append]

/-- An expansion that ends in these results for the inclusions of a document, the first of them
bodies without inclusions, goes on from the document with those in place. -/
theorem expandFrom_substituteFirst {body : Inclusion → List Block} {nested : Inclusion → Nat}
    {done rest : List Inclusion} (split : d.inclusions = done ++ rest)
    (ended : ∀ leaf ∈ done, leaf.EndsIn fs chain (.ok (body leaf, nested leaf)))
    (empty : ∀ leaf ∈ done, inclusionsOf (body leaf) = []) :
    d.expandFrom fs chain = ((d.substituteFirst done.length body).expandFrom fs chain).countedFrom
      (replacedIn nested done) := by
  obtain ⟨results, ends, shape⟩ := endsIn_expandFrom fs chain d
  have taken : (inclusionsOf d.blocks).take done.length = done := by
    show d.inclusions.take done.length = done
    rw [split, List.take_left]
  have complete : Expansion.Completes results body nested
      ((inclusionsOf d.blocks).take done.length) := by
    rw [taken]
    intro leaf member
    have inside : leaf ∈ d.inclusions := split ▸ List.mem_append_left rest member
    exact ⟨(ends leaf inside).unique (ended leaf member), empty leaf member⟩
  have goesOn := spliceBlocks_substituteFirst d.blocks done.length complete
  have again : (d.substituteFirst done.length body).EndsIn fs chain
      ⟨{ d with blocks :=
          (spliceBlocks results (d.substituteFirst done.length body).blocks).body },
        (spliceBlocks results (d.substituteFirst done.length body).blocks).replaced,
        (spliceBlocks results (d.substituteFirst done.length body).blocks).stopped⟩ := by
    refine ⟨results, fun leaf member => ?_, rfl⟩
    rw [inclusions_substituteFirst split empty] at member
    exact ends leaf (split ▸ List.mem_append_right done member)
  rw [taken] at goesOn
  rw [shape, goesOn, (endsIn_expandFrom fs chain _).unique again]
  rfl

/-- Where the first inclusion ends in an error, the document stays as it is. -/
theorem expandFrom_refused {leaf : Inclusion} (first : d.inclusions.head? = some leaf)
    (refused : leaf.EndsIn fs chain (.error e)) : d.expandFrom fs chain = ⟨d, 0, some e⟩ := by
  obtain ⟨results, ends, shape⟩ := endsIn_expandFrom fs chain d
  have own := (ends leaf (List.mem_of_mem_head? first)).unique refused
  rw [shape, spliceBlocks_refused own d.blocks first]

/-- Work that is stopped has replaced the inclusions in front of the refused one by the bodies that
they stand for, and nothing else. -/
theorem expandFrom_stopped (stopped : (d.expandFrom fs chain).stopped = some e) :
    ∃ done leaf rest body nested, d.inclusions = done ++ leaf :: rest ∧
      (∀ first ∈ done, first.StandsFor fs (body first) (nested first) ∧
        first.EndsIn fs chain (.ok (body first, nested first))) ∧
      leaf.EndsIn fs chain (.error e) ∧
      d.expandFrom fs chain =
        ⟨d.substituteFirst done.length body, replacedIn nested done, some e⟩ := by
  let expand := expandWithin fs (d.reachable fs).length chain
  have ends : ∀ leaf ∈ d.inclusions, leaf.EndsIn fs chain (expand leaf) := fun leaf member =>
    endsIn_expandWithin (fun _ => target_mem_reachable member) (List.length_filter_le _ _)
  have first : d.inclusions.findSome? (Expansion.refusal? expand) = some e :=
    (stopped_spliceBlocks d.blocks).symm.trans stopped
  obtain ⟨done, leaf, rest, split, refused, before⟩ := List.findSome?_eq_some_iff.1 first
  rw [Expansion.refusal?_eq_some_iff] at refused
  have made : ∀ other ∈ done,
      expand other = .ok (Expansion.bodyOf expand other, Expansion.nestedIn expand other) := by
    intro other member
    obtain ⟨result, own⟩ := Expansion.refusal?_eq_none_iff.1 (before other member)
    simp only [Expansion.bodyOf, Expansion.nestedIn, own]
  have stands := fun other member => standsFor_of_expandWithin (made other member)
  have ended : ∀ other ∈ done, other.EndsIn fs chain
      (.ok (Expansion.bodyOf expand other, Expansion.nestedIn expand other)) :=
    fun other member => made other member ▸ ends other (split ▸ List.mem_append_left _ member)
  have empty := fun other member => (stands other member).complete
  have final : leaf.EndsIn fs chain (.error e) := refused ▸ ends leaf (by simp [split])
  refine ⟨done, leaf, rest, _, _, split, fun other member => ⟨stands other member, ended other member⟩,
    final, ?_⟩
  have left := inclusions_substituteFirst split empty
  rw [expandFrom_substituteFirst split ended empty, expandFrom_refused (by rw [left]; rfl) final]
  rfl

/-- Work that is stopped leaves a document that can be taken up again. The inclusions in front of a
first one were replaced by the bodies that they stand for, that one was refused with the error, and
it, the inclusions behind it and all else are as before. In any files in which those that were read
for the replaced inclusions have the same content, the document left and the original one have the
same expansion, up to the inclusions that the first attempt has replaced and counted. -/
theorem expandFrom_resumes (stopped : (d.expandFrom fs chain).stopped = some e) :
    ∃ (done : List Inclusion) (leaf : Inclusion) (rest : List Inclusion)
      (body : Inclusion → List Block) (nested : Inclusion → Nat),
      d.inclusions = done ++ leaf :: rest ∧
      (∀ first ∈ done, first.StandsFor fs (body first) (nested first)) ∧
      leaf.EndsIn fs chain (.error e) ∧
      d.expandFrom fs chain =
        ⟨{ d with blocks := WikiPress.substituteFirst done.length body d.blocks },
          replacedIn nested done, some e⟩ ∧
      (d.expandFrom fs chain).body.inclusions = leaf :: rest ∧
      ∀ later : FileSystem,
        (∀ first ∈ done, ∀ inner, ReflTransGen (Within fs) inner first →
          later.bytesAt inner.target.path = fs.bytesAt inner.target.path) →
        d.expandFrom later chain =
          ((d.expandFrom fs chain).body.expandFrom later chain).countedFrom
            (d.expandFrom fs chain).replaced := by
  obtain ⟨done, leaf, rest, body, nested, split, before, refused, shape⟩ :=
    expandFrom_stopped stopped
  have empty : ∀ first ∈ done, inclusionsOf (body first) = [] :=
    fun first member => (before first member).1.complete
  refine ⟨done, leaf, rest, body, nested, split, fun first member => (before first member).1,
    refused, shape, ?_, fun later same => ?_⟩
  · rw [shape]
    exact inclusions_substituteFirst split empty
  · have ended : ∀ first ∈ done, first.EndsIn later chain (.ok (body first, nested first)) := by
      intro first member
      obtain ⟨stands, ends⟩ := before first member
      exact ends.transfer fun inner inside =>
        stands.document_later inside (same first member inner inside)
    rw [shape]
    exact expandFrom_substituteFirst split ended empty

/-- A section that includes a text, a list item that owns an inclusion of a missing file, and another
inclusion of the text. Once the missing file is there, with an inclusion of the text in it, the
document that was left and the original one become the same. -/
theorem expandFrom_resumes_sample :
    ∃ (fs later : FileSystem) (d left whole : Document),
      d.expandFrom fs [Reference.ofPath ⟨"main"⟩] =
        ⟨left, 1, some (.cannotOpen (Reference.ofPath ⟨"b"⟩) .notFound)⟩ ∧
      sameBlocks left.blocks [.heading 1 [] [.paragraph (runsOf ['x'])],
        .list .ordered [⟨.ordered, 1, [], [.inclusion ⟨Reference.ofPath ⟨"b"⟩, ⟨""⟩⟩]⟩],
        .inclusion ⟨Reference.ofPath ⟨"a"⟩, ⟨""⟩⟩] = true ∧
      left.expandFrom later [Reference.ofPath ⟨"main"⟩] = ⟨whole, 3, none⟩ ∧
      d.expandFrom later [Reference.ofPath ⟨"main"⟩] = ⟨whole, 4, none⟩ := by
  let text : Block := .inclusion ⟨Reference.ofPath ⟨"a"⟩, ⟨""⟩⟩
  let missing : Block := .inclusion ⟨Reference.ofPath ⟨"b"⟩, ⟨""⟩⟩
  let fs : FileSystem := ⟨[(["a"], .file (Utf8.encode "x\n"))], []⟩
  let later : FileSystem := ⟨[(["a"], .file (Utf8.encode "x\n")),
    (["b"], .file (Utf8.encode "@>include: a\n"))], []⟩
  let chain := [Reference.ofPath ⟨"main"⟩]
  let d : Document :=
    { blocks := [.heading 1 [] [text], .list .ordered [⟨.ordered, 1, [], [missing]⟩], text] }
  have stopped : (d.expandFrom fs chain).stopped =
      some (.cannotOpen (Reference.ofPath ⟨"b"⟩) .notFound) := by decide +kernel
  have replaced : (d.expandFrom fs chain).replaced = 1 := by decide +kernel
  have finished : ((d.expandFrom fs chain).body.expandFrom later chain).stopped = none := by
    decide +kernel
  have others : ((d.expandFrom fs chain).body.expandFrom later chain).replaced = 3 := by
    decide +kernel
  obtain ⟨done, leaf, rest, body, nested, split, stands, _, _, _, goesOn⟩ :=
    expandFrom_resumes stopped
  have same : ∀ first ∈ done, ∀ inner, ReflTransGen (Within fs) inner first →
      later.bytesAt inner.target.path = fs.bytesAt inner.target.path := by
    intro first member inner inside
    have known : ∀ r ∈ d.reachable fs, later.bytesAt r.path = fs.bytesAt r.path ∨
        fs.bytesAt r.path = .error .notFound := by decide +kernel
    have start : first ∈ d.inclusions := split ▸ List.mem_append_left _ member
    obtain held | absent := known _ (target_mem_reachable start inside)
    · exact held
    · obtain ⟨_, _, own⟩ := (stands first member).inside inside
      obtain ⟨_, _, found, _⟩ := standsFor_iff.1 own
      obtain ⟨bytes, opened, _⟩ := document_eq_ok_iff.1 found
      rw [FileSystem.bytesAt_eq_ok_iff.2 opened] at absent
      cases absent
  have resumed := goesOn later same
  refine ⟨fs, later, d, (d.expandFrom fs chain).body,
    ((d.expandFrom fs chain).body.expandFrom later chain).body, ?_, by decide +kernel, ?_, ?_⟩
  · rw [← stopped, ← replaced]
  · rw [← finished, ← others]
  · rw [resumed, Progress.countedFrom, finished, others, replaced]

end Document

end WikiPress

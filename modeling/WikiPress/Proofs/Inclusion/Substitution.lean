import WikiPress.Inclusion.Splice
import WikiPress.Proofs.Document.Tree

/-!
# Substituting bodies for inclusions

`substituteBlocks` puts a body in the place of every inclusion of a tree at once. It is the plain
form of the work that `spliceBlocks` does one inclusion after another: the two agree wherever no
inclusion of the tree is refused (`spliceBlocks_of_ok`), and the work is stopped by nothing but the
first refusal (`stopped_spliceBlocks`).
-/

namespace WikiPress

mutual

/-- The blocks that a block becomes when bodies take the place of its inclusions. -/
def Block.substitute (body : Inclusion → List Block) : Block → List Block
  | .inclusion leaf => body leaf
  | .heading depth title children => [.heading depth title (substituteBlocks body children)]
  | .list kind items => [.list kind (substituteItems body items)]
  | block => [block]

/-- Blocks with bodies in the place of their inclusions. -/
def substituteBlocks (body : Inclusion → List Block) : List Block → List Block
  | [] => []
  | block :: more => block.substitute body ++ substituteBlocks body more

/-- Items with bodies in the place of the inclusions that they own. -/
def substituteItems (body : Inclusion → List Block) : List Item → List Item
  | [] => []
  | item :: more => item.substitute body :: substituteItems body more

/-- An item with bodies in the place of the inclusions that it owns. -/
def Item.substitute (body : Inclusion → List Block) : Item → Item
  | ⟨kind, depth, runs, children⟩ => ⟨kind, depth, runs, substituteBlocks body children⟩

end

/-- The number of inclusions replaced for a list of them, each with those inside its body. -/
def replacedIn (nested : Inclusion → Nat) : List Inclusion → Nat
  | [] => 0
  | leaf :: more => nested leaf + 1 + replacedIn nested more

/-- The numbers of two lists of inclusions add up. -/
@[simp]
theorem replacedIn_append (nested : Inclusion → Nat) (leaves more : List Inclusion) :
    replacedIn nested (leaves ++ more) = replacedIn nested leaves + replacedIn nested more := by
  induction leaves with
  | nil => simp only [List.nil_append, replacedIn, Nat.zero_add]
  | cons leaf rest ih => simp only [List.cons_append, replacedIn, ih, Nat.add_assoc]

/-- The number depends only on the listed inclusions. -/
theorem replacedIn_congr {nested other : Inclusion → Nat} {leaves : List Inclusion}
    (same : ∀ leaf ∈ leaves, nested leaf = other leaf) :
    replacedIn nested leaves = replacedIn other leaves := by
  induction leaves with
  | nil => rfl
  | cons leaf rest ih =>
    have behind := ih fun found member => same found (List.mem_cons_of_mem _ member)
    rw [replacedIn, replacedIn, same leaf List.mem_cons_self, behind]

/-- The number for inclusions that stand for others. -/
theorem replacedIn_map (nested : Inclusion → Nat) (other : Inclusion → Inclusion)
    (leaves : List Inclusion) :
    replacedIn nested (leaves.map other) = replacedIn (fun leaf => nested (other leaf)) leaves := by
  induction leaves with
  | nil => rfl
  | cons leaf rest ih => rw [List.map_cons, replacedIn, replacedIn, ih]

/-- Plain blocks stay as they are. -/
theorem Block.substitute_plain {block : Block} (plain : block.isPlain = true)
    (body : Inclusion → List Block) : block.substitute body = [block] := by
  cases block <;> simp_all [Block.isPlain, Block.substitute]

/-- The substitution in two bodies in a row. -/
@[simp]
theorem substituteBlocks_append (body : Inclusion → List Block) (blocks more : List Block) :
    substituteBlocks body (blocks ++ more) =
      substituteBlocks body blocks ++ substituteBlocks body more := by
  induction blocks with
  | nil => rfl
  | cons block rest ih => simp only [List.cons_append, substituteBlocks, ih, List.append_assoc]

/-- Only the bodies of the inclusions that occur matter. -/
theorem substituteBlocks_congr {body other : Inclusion → List Block} (blocks : List Block) :
    (∀ leaf ∈ inclusionsOf blocks, body leaf = other leaf) →
      substituteBlocks body blocks = substituteBlocks other blocks := by
  induction blocks using blocks_induction
    (Q := fun items => (∀ leaf ∈ inclusionsOfItems items, body leaf = other leaf) →
      substituteItems body items = substituteItems other items) with
  | nil =>
    intro _
    rfl
  | inclusion leaf more rest =>
    intro same
    simp only [inclusionsOf, Block.inclusions, List.cons_append, List.nil_append,
      List.forall_mem_cons] at same
    simp only [substituteBlocks, Block.substitute, same.1, rest same.2]
  | heading depth title children more inner rest =>
    intro same
    simp only [inclusionsOf, Block.inclusions, List.forall_mem_append] at same
    simp only [substituteBlocks, Block.substitute, inner same.1, rest same.2]
  | list kind items more inner rest =>
    intro same
    simp only [inclusionsOf, Block.inclusions, List.forall_mem_append] at same
    simp only [substituteBlocks, Block.substitute, inner same.1, rest same.2]
  | plain block more plain rest =>
    intro same
    rw [inclusionsOf, Block.inclusions_plain plain, List.nil_append] at same
    simp only [substituteBlocks, Block.substitute_plain plain, rest same]
  | noItem => rfl
  | item kind depth runs children more inner rest =>
    rename_i same
    simp only [inclusionsOfItems, Item.inclusions, List.forall_mem_append] at same
    simp only [substituteItems, Item.substitute, inner same.1, rest same.2]

/-- What is left of the inclusions are those of the bodies. -/
theorem inclusionsOf_substituteBlocks (body : Inclusion → List Block) (blocks : List Block) :
    inclusionsOf (substituteBlocks body blocks) =
      (inclusionsOf blocks).flatMap fun leaf => inclusionsOf (body leaf) := by
  induction blocks using blocks_induction
    (Q := fun items => inclusionsOfItems (substituteItems body items) =
      (inclusionsOfItems items).flatMap fun leaf => inclusionsOf (body leaf)) with
  | nil => rfl
  | inclusion leaf more rest =>
    simp only [substituteBlocks, Block.substitute, inclusionsOf, Block.inclusions,
      inclusionsOf_append, rest, List.cons_append, List.nil_append, List.flatMap_cons]
  | heading depth title children more inner rest =>
    simp only [substituteBlocks, Block.substitute, inclusionsOf, Block.inclusions, inner, rest,
      List.cons_append, List.nil_append, List.flatMap_append]
  | list kind items more inner rest =>
    simp only [substituteBlocks, Block.substitute, inclusionsOf, Block.inclusions, inner, rest,
      List.cons_append, List.nil_append, List.flatMap_append]
  | plain block more plain rest =>
    simp only [substituteBlocks, Block.substitute_plain plain, inclusionsOf,
      Block.inclusions_plain plain, rest, List.cons_append, List.nil_append]
  | noItem => rfl
  | item kind depth runs children more inner rest =>
    simp only [substituteItems, Item.substitute, inclusionsOfItems, Item.inclusions, inner, rest,
      List.flatMap_append]

/-- Every inclusion in its own place is the tree again. -/
theorem substituteBlocks_self (blocks : List Block) :
    substituteBlocks (fun leaf => [.inclusion leaf]) blocks = blocks := by
  induction blocks using blocks_induction
    (Q := fun items => substituteItems (fun leaf => [.inclusion leaf]) items = items) with
  | nil => rfl
  | inclusion leaf more rest => simp only [substituteBlocks, Block.substitute, rest]; rfl
  | heading depth title children more inner rest =>
    simp only [substituteBlocks, Block.substitute, inner, rest]; rfl
  | list kind items more inner rest =>
    simp only [substituteBlocks, Block.substitute, inner, rest]; rfl
  | plain block more plain rest =>
    simp only [substituteBlocks, Block.substitute_plain plain, rest]; rfl
  | noItem => rfl
  | item kind depth runs children more inner rest =>
    simp only [substituteItems, Item.substitute, inner, rest]

/-- A tree without inclusions has no place for a body. -/
theorem substituteBlocks_of_none {blocks : List Block} (none : inclusionsOf blocks = [])
    (body : Inclusion → List Block) : substituteBlocks body blocks = blocks := by
  calc substituteBlocks body blocks
      = substituteBlocks (fun leaf => [.inclusion leaf]) blocks :=
        substituteBlocks_congr blocks fun leaf member => by simp [none] at member
    _ = blocks := substituteBlocks_self blocks

/-- Bodies with bodies in them can be put in place in one go. -/
theorem substituteBlocks_substituteBlocks (outer inner : Inclusion → List Block)
    (blocks : List Block) : substituteBlocks outer (substituteBlocks inner blocks) =
      substituteBlocks (fun leaf => substituteBlocks outer (inner leaf)) blocks := by
  induction blocks using blocks_induction
    (Q := fun items => substituteItems outer (substituteItems inner items) =
      substituteItems (fun leaf => substituteBlocks outer (inner leaf)) items) with
  | nil => rfl
  | inclusion leaf more rest =>
    simp only [substituteBlocks, Block.substitute, substituteBlocks_append, rest]
  | heading depth title children more own rest =>
    simp only [substituteBlocks, Block.substitute, substituteBlocks_append, own, rest,
      List.append_nil]
  | list kind items more own rest =>
    simp only [substituteBlocks, Block.substitute, substituteBlocks_append, own, rest,
      List.append_nil]
  | plain block more plain rest =>
    simp only [substituteBlocks, Block.substitute_plain plain, substituteBlocks_append, rest,
      List.append_nil]
  | noItem => rfl
  | item kind depth runs children more own rest =>
    simp only [substituteItems, Item.substitute, own, rest]

section Splicing

variable {ε : Type} {expand : Expansion ε}

/-- Plain blocks are passed over. -/
theorem Block.splice_plain {block : Block} (plain : block.isPlain = true) :
    block.splice expand = ⟨[block], 0, none⟩ := by
  cases block <;> simp_all [Block.isPlain, Block.splice]

/-- Where every inclusion is expanded, replacing them one after another is the substitution. -/
theorem spliceBlocks_of_ok {body : Inclusion → List Block} {nested : Inclusion → Nat}
    (blocks : List Block) :
    (∀ leaf ∈ inclusionsOf blocks, expand leaf = .ok (body leaf, nested leaf)) →
      spliceBlocks expand blocks =
        ⟨substituteBlocks body blocks, replacedIn nested (inclusionsOf blocks), none⟩ := by
  induction blocks using blocks_induction
    (Q := fun items =>
      (∀ leaf ∈ inclusionsOfItems items, expand leaf = .ok (body leaf, nested leaf)) →
        spliceItems expand items =
          ⟨substituteItems body items, replacedIn nested (inclusionsOfItems items), none⟩) with
  | nil =>
    intro _
    rfl
  | inclusion leaf more rest =>
    intro succeeds
    simp only [inclusionsOf, Block.inclusions, List.cons_append, List.nil_append,
      List.forall_mem_cons] at succeeds
    simp only [spliceBlocks, Block.splice, succeeds.1, rest succeeds.2, substituteBlocks,
      Block.substitute, inclusionsOf, Block.inclusions, replacedIn, List.cons_append,
      List.nil_append]
  | heading depth title children more inner rest =>
    intro succeeds
    simp only [inclusionsOf, Block.inclusions, List.forall_mem_append] at succeeds
    simp only [spliceBlocks, Block.splice, inner succeeds.1, rest succeeds.2, substituteBlocks,
      Block.substitute, inclusionsOf, Block.inclusions, replacedIn_append]
  | list kind items more inner rest =>
    intro succeeds
    simp only [inclusionsOf, Block.inclusions, List.forall_mem_append] at succeeds
    simp only [spliceBlocks, Block.splice, inner succeeds.1, rest succeeds.2, substituteBlocks,
      Block.substitute, inclusionsOf, Block.inclusions, replacedIn_append]
  | plain block more plain rest =>
    intro succeeds
    rw [inclusionsOf, Block.inclusions_plain plain, List.nil_append] at succeeds
    simp only [spliceBlocks, Block.splice_plain plain, rest succeeds, substituteBlocks,
      Block.substitute_plain plain, inclusionsOf, Block.inclusions_plain plain, List.nil_append,
      Nat.zero_add]
  | noItem => rfl
  | item kind depth runs children more inner rest =>
    rename_i succeeds
    simp only [inclusionsOfItems, Item.inclusions, List.forall_mem_append] at succeeds
    simp only [spliceItems, Item.splice, inner succeeds.1, rest succeeds.2, substituteItems,
      Item.substitute, inclusionsOfItems, Item.inclusions, replacedIn_append]

/-- The error with which an expansion refuses an inclusion. -/
def Expansion.refusal? (expand : Expansion ε) (leaf : Inclusion) : Option ε :=
  match expand leaf with
  | .ok _ => none
  | .error e => some e

/-- Nothing but a refusal is an error. -/
theorem Expansion.refusal?_eq_some_iff {leaf : Inclusion} {e : ε} :
    Expansion.refusal? expand leaf = some e ↔ expand leaf = .error e := by
  cases made : expand leaf with
  | ok body => simp [Expansion.refusal?, made]
  | error fault => simp [Expansion.refusal?, made]

/-- What is not refused is expanded. -/
theorem Expansion.refusal?_eq_none_iff {leaf : Inclusion} :
    Expansion.refusal? expand leaf = none ↔ ∃ made, expand leaf = .ok made := by
  cases made : expand leaf with
  | ok body => simp [Expansion.refusal?, made]
  | error fault => simp [Expansion.refusal?, made]

/-- The first refused inclusion in document order stops the work, however deep it stands. -/
theorem stopped_spliceBlocks (blocks : List Block) :
    (spliceBlocks expand blocks).stopped =
      (inclusionsOf blocks).findSome? (Expansion.refusal? expand) := by
  induction blocks using blocks_induction
    (Q := fun items => (spliceItems expand items).stopped =
      (inclusionsOfItems items).findSome? (Expansion.refusal? expand)) with
  | nil => rfl
  | inclusion leaf more rest =>
    cases made : expand leaf with
    | ok result =>
      simp only [spliceBlocks, Block.splice, made, rest, inclusionsOf, Block.inclusions,
        List.findSome?_append, List.findSome?_singleton, Expansion.refusal?, Option.none_or]
    | error e =>
      simp only [spliceBlocks, Block.splice, made, inclusionsOf, Block.inclusions,
        List.findSome?_append, List.findSome?_singleton, Expansion.refusal?, Option.some_or]
  | heading depth title children more inner rest =>
    simp only [spliceBlocks, Block.splice, inclusionsOf, Block.inclusions, List.findSome?_append,
      ← inner, ← rest]
    cases (spliceBlocks expand children).stopped <;> rfl
  | list kind items more inner rest =>
    simp only [spliceBlocks, Block.splice, inclusionsOf, Block.inclusions, List.findSome?_append,
      ← inner, ← rest]
    cases (spliceItems expand items).stopped <;> rfl
  | plain block more plain rest =>
    simp only [spliceBlocks, Block.splice_plain plain, inclusionsOf, Block.inclusions_plain plain,
      List.nil_append, rest]
  | noItem => rfl
  | item kind depth runs children more inner rest =>
    simp only [spliceItems, Item.splice, inclusionsOfItems, Item.inclusions, List.findSome?_append,
      ← inner, ← rest]
    cases (spliceBlocks expand children).stopped <;> rfl

/-- Work that nothing stopped has expanded every inclusion. -/
theorem expanded_of_not_stopped {blocks : List Block}
    (finished : (spliceBlocks expand blocks).stopped = none) :
    ∀ leaf ∈ inclusionsOf blocks, ∃ made, expand leaf = .ok made := by
  rw [stopped_spliceBlocks, List.findSome?_eq_none_iff] at finished
  exact fun leaf member => Expansion.refusal?_eq_none_iff.1 (finished leaf member)

/-- What stopped the work refused one of the inclusions. -/
theorem refused_of_stopped {blocks : List Block} {e : ε}
    (stopped : (spliceBlocks expand blocks).stopped = some e) :
    ∃ leaf ∈ inclusionsOf blocks, expand leaf = .error e := by
  rw [stopped_spliceBlocks] at stopped
  obtain ⟨leaf, member, refused⟩ := List.exists_of_findSome?_eq_some stopped
  exact ⟨leaf, member, Expansion.refusal?_eq_some_iff.1 refused⟩

/-- Only what an expansion gives for the inclusions that occur matters. -/
theorem spliceBlocks_congr {other : Expansion ε} (blocks : List Block) :
    (∀ leaf ∈ inclusionsOf blocks, expand leaf = other leaf) →
      spliceBlocks expand blocks = spliceBlocks other blocks := by
  induction blocks using blocks_induction
    (Q := fun items => (∀ leaf ∈ inclusionsOfItems items, expand leaf = other leaf) →
      spliceItems expand items = spliceItems other items) with
  | nil =>
    intro _
    rfl
  | inclusion leaf more rest =>
    intro same
    simp only [inclusionsOf, Block.inclusions, List.cons_append, List.nil_append,
      List.forall_mem_cons] at same
    simp only [spliceBlocks, Block.splice, same.1, rest same.2]
  | heading depth title children more inner rest =>
    intro same
    simp only [inclusionsOf, Block.inclusions, List.forall_mem_append] at same
    simp only [spliceBlocks, Block.splice, inner same.1, rest same.2]
  | list kind items more inner rest =>
    intro same
    simp only [inclusionsOf, Block.inclusions, List.forall_mem_append] at same
    simp only [spliceBlocks, Block.splice, inner same.1, rest same.2]
  | plain block more plain rest =>
    intro same
    rw [inclusionsOf, Block.inclusions_plain plain, List.nil_append] at same
    simp only [spliceBlocks, Block.splice_plain plain, rest same]
  | noItem => rfl
  | item kind depth runs children more inner rest =>
    rename_i same
    simp only [inclusionsOfItems, Item.inclusions, List.forall_mem_append] at same
    simp only [spliceItems, Item.splice, inner same.1, rest same.2]

/-- The blocks that an expansion gives for an inclusion, and none where it refuses. -/
def Expansion.bodyOf (expand : Expansion ε) (leaf : Inclusion) : List Block :=
  match expand leaf with
  | .ok (body, _) => body
  | .error _ => []

/-- The inclusions that an expansion replaces inside an inclusion, and none where it refuses. -/
def Expansion.nestedIn (expand : Expansion ε) (leaf : Inclusion) : Nat :=
  match expand leaf with
  | .ok (_, nested) => nested
  | .error _ => 0

/-- Work that nothing stopped is the substitution of what the expansion gave. -/
theorem spliceBlocks_of_not_stopped {blocks : List Block}
    (finished : (spliceBlocks expand blocks).stopped = none) :
    (∀ leaf ∈ inclusionsOf blocks,
      expand leaf = .ok (Expansion.bodyOf expand leaf, Expansion.nestedIn expand leaf)) ∧
    spliceBlocks expand blocks = ⟨substituteBlocks (Expansion.bodyOf expand) blocks,
      replacedIn (Expansion.nestedIn expand) (inclusionsOf blocks), none⟩ := by
  have given : ∀ leaf ∈ inclusionsOf blocks,
      expand leaf = .ok (Expansion.bodyOf expand leaf, Expansion.nestedIn expand leaf) := by
    intro leaf member
    obtain ⟨made, result⟩ := expanded_of_not_stopped finished leaf member
    simp only [Expansion.bodyOf, Expansion.nestedIn, result]
  exact ⟨given, spliceBlocks_of_ok blocks given⟩

/-- There is nothing to replace in a tree without inclusions. -/
theorem spliceBlocks_of_none {blocks : List Block} (none : inclusionsOf blocks = []) :
    spliceBlocks expand blocks = ⟨blocks, 0, .none⟩ := by
  have given : ∀ leaf ∈ inclusionsOf blocks,
      expand leaf = .ok (Expansion.bodyOf expand leaf, Expansion.nestedIn expand leaf) := by
    intro leaf member
    simp [none] at member
  rw [spliceBlocks_of_ok blocks given, substituteBlocks_of_none none, none, replacedIn]

end Splicing

end WikiPress

import Mathlib.Data.List.Chain
import WikiPress.Proofs.Document.Gathering
import WikiPress.Proofs.Document.Sections

/-!
# Tiers of a list

Nesting puts flat items into a tree by their levels. Where no item stands more than one level below
the item in front of it, the tree has one tier for each level: the items of a list stand on one
level, and what an item owns is one list on the next level (`isTier_nestItems`). The items of the
tree, read in their order, are the flat ones (`flattenItems_nestItems`), and where no level is lower
than the levels in front of it, the items are nested apart (`nestItems_append`).
-/

namespace WikiPress

mutual

/-- The items in a block, in their order and without what they own. -/
def Block.items : Block → List Item
  | .heading _ _ children => itemsOf children
  | .list _ items => flattenItems items
  | _ => []

/-- The items in blocks, in their order and without what they own. -/
def itemsOf : List Block → List Item
  | [] => []
  | block :: more => block.items ++ itemsOf more

/-- Items and those in the blocks they own, in their order and without what they own. -/
def flattenItems : List Item → List Item
  | [] => []
  | item :: more => item.flatten ++ flattenItems more

/-- An item and those in the blocks it owns, in their order and without what they own. -/
def Item.flatten : Item → List Item
  | ⟨kind, depth, runs, children⟩ => ⟨kind, depth, runs, []⟩ :: itemsOf children

end

/-- Items of one list: they stand on one level, and each owns nothing or one list, which is of the
kind of its first item and has its items on the next level. -/
inductive IsTier : Nat → List Item → Prop
  | nil (level : Nat) : IsTier level []
  | leaf {level : Nat} {item : Item} {more : List Item} (here : item.depth = level)
      (bare : item.children = []) (behind : IsTier level more) : IsTier level (item :: more)
  | owner {level : Nat} {item first : Item} {others more : List Item} (here : item.depth = level)
      (owns : item.children = [.list first.kind (first :: others)])
      (below : IsTier (level + 1) (first :: others)) (behind : IsTier level more) :
      IsTier level (item :: more)

/-- Nested items in a row: their levels never rise, and each has its tiers below it. -/
structure IsStair (items : List Item) : Prop where
  falling : items.Pairwise fun front later => later.depth ≤ front.depth
  tiers : ∀ item ∈ items, IsTier item.depth [item]

section Levels

variable {level depth : Nat} {item : Item} {items front back behind flat : List Item}

/-- The nesting of an item and the items behind it. -/
theorem nestItems_cons (item : Item) (flat : List Item) :
    nestItems (item :: flat) = item.consNested (nestItems flat) := rfl

/-- Nested items stand on levels of the flat ones. -/
theorem exists_of_mem_nestItems (member : item ∈ nestItems flat) :
    ∃ own ∈ flat, own.depth = item.depth := by
  induction flat with
  | nil => cases member
  | cons first rest ih =>
    rw [nestItems_cons, Item.consNested, List.mem_cons] at member
    rcases member with rfl | behind
    · exact ⟨first, List.mem_cons_self, rfl⟩
    · obtain ⟨own, inside, same⟩ := ih ((List.dropWhile_sublist _).subset behind)
      exact ⟨own, List.mem_cons_of_mem _ inside, same⟩

/-- Nested items begin on the level of the first flat one. -/
theorem forall_head?_nestItems {P : Nat → Prop} (start : ∀ first ∈ flat.head?, P first.depth) :
    ∀ first ∈ (nestItems flat).head?, P first.depth := by
  cases flat with
  | nil => simp [nestItems]
  | cons item rest =>
    intro first top
    obtain rfl := Option.some.inj top
    exact start item rfl

/-- An item takes over exactly the deeper items in front of one that is not deeper. -/
theorem Item.consNested_append (deeper : ∀ other ∈ front, item.depth < other.depth)
    (stops : ∀ first ∈ back.head?, first.depth ≤ item.depth) :
    item.consNested (front ++ back) =
      { item with children := item.children ++ sublist front } :: back := by
  have taken : ∀ other ∈ front, decide (item.depth < other.depth) = true :=
    fun other member => decide_eq_true (deeper other member)
  have left : ∀ first ∈ back.head?, decide (item.depth < first.depth) = false :=
    fun first top => decide_eq_false (Nat.not_lt.2 (stops first top))
  obtain ⟨own, rest⟩ := takeWhile_append_exactly taken left
  rw [consNested, own, rest]

/-- Items are nested apart from those behind them where the first of these is not deeper than any
of them. -/
theorem nestItems_append (apart : ∀ item ∈ front, ∀ first ∈ back.head?, first.depth ≤ item.depth) :
    nestItems (front ++ back) = nestItems front ++ nestItems back := by
  induction front with
  | nil => rfl
  | cons item rest ih =>
    rw [List.forall_mem_cons] at apart
    have shallow := forall_head?_nestItems (P := (· ≤ item.depth)) apart.1
    have stops : ∀ first ∈ (nestItems back).head?, decide (item.depth < first.depth) = false := by
      intro first top
      exact decide_eq_false (Nat.not_lt.2 (shallow first top))
    obtain ⟨taken, left⟩ := takeWhile_append_of_stop (nestItems rest) stops
    rw [List.cons_append, nestItems_cons, ih apart.2, nestItems_cons, Item.consNested, taken, left]
    rfl

end Levels

section Tiers

variable {level : Nat} {item : Item} {items inner more behind flat : List Item}

/-- An item that owns a tier, or nothing, begins a tier. -/
theorem IsTier.cons (here : item.depth = level) (owns : item.children = sublist inner)
    (below : IsTier (level + 1) inner) (behind : IsTier level more) :
    IsTier level (item :: more) := by
  cases inner with
  | nil => exact .leaf here owns behind
  | cons first others => exact .owner here owns below behind

/-- Items with tiers below them are one tier where they stand on one level. -/
theorem isTier_of_depth (tiers : ∀ item ∈ items, IsTier item.depth [item])
    (level_eq : ∀ item ∈ items, item.depth = level) : IsTier level items := by
  induction items with
  | nil => exact .nil level
  | cons item rest ih =>
    rw [List.forall_mem_cons] at tiers level_eq
    have behind := ih tiers.2 level_eq.2
    obtain ⟨here, _⟩ := level_eq
    subst here
    cases tiers.1 with
    | leaf here bare _ => exact .leaf here bare behind
    | owner here owns below _ => exact .owner here owns below behind

/-- No item of a stair is deeper than its first one. -/
theorem IsStair.depth_le (stair : IsStair items) (start : ∀ first ∈ items.head?, first.depth ≤ level) :
    ∀ item ∈ items, item.depth ≤ level := by
  cases items with
  | nil => simp
  | cons first rest =>
    have top := start first rfl
    have below := (List.pairwise_cons.1 stair.falling).1
    rw [List.forall_mem_cons]
    exact ⟨top, fun item member => Nat.le_trans (below item member) top⟩

/-- A part of a stair is a stair. -/
theorem IsStair.sublist (stair : IsStair more) (part : items.Sublist more) : IsStair items :=
  ⟨stair.falling.sublist part, fun item member => stair.tiers item (part.subset member)⟩

/-- The deeper items that begin a stair are a tier on the next level, if the stair begins no deeper
than that. -/
theorem IsStair.isTier_takeWhile (stair : IsStair items)
    (start : ∀ first ∈ items.head?, first.depth ≤ level + 1) :
    IsTier (level + 1) (items.takeWhile (level < ·.depth)) := by
  have part := List.takeWhile_sublist (l := items) fun other => decide (level < other.depth)
  refine isTier_of_depth (stair.sublist part).tiers fun item member => ?_
  have deeper : level < item.depth := by simpa using List.mem_takeWhile_imp member
  have bounded := stair.depth_le start item (part.subset member)
  omega

/-- An item without children in front of a stair that begins at most one level below it makes a
stair. -/
theorem IsStair.consNested (stair : IsStair behind) (bare : item.children = [])
    (step : ∀ first ∈ behind.head?, first.depth ≤ item.depth + 1) :
    IsStair (item.consNested behind) := by
  have rest := stair.sublist (List.dropWhile_sublist fun other => decide (item.depth < other.depth))
  have stops := List.head?_dropWhile_not (fun other : Item => decide (item.depth < other.depth))
    behind
  refine ⟨List.pairwise_cons.2 ⟨rest.depth_le fun first top => ?_, rest.falling⟩, ?_⟩
  · rw [Option.mem_def.1 top] at stops
    exact Nat.not_lt.1 (of_decide_eq_false stops)
  · rw [Item.consNested, List.forall_mem_cons]
    refine ⟨.cons rfl ?_ (stair.isTier_takeWhile step) (.nil _), rest.tiers⟩
    rw [bare, List.nil_append]

end Tiers

end WikiPress

import Mathlib.Data.List.TakeWhile
import WikiPress.Proofs.Document.Stack
import WikiPress.Proofs.Document.Tree

/-!
# Sections

Nesting puts the blocks of a flat list into the sections of their headings. The result is an
outline (`IsOutline`): wherever blocks stand side by side, those of no section come first, the levels
of the headings behind them never rise, and a section holds only deeper headings. An outline is
determined by its flattening (`foldr_consNested_outline`), so nesting is the one way to make an
outline of a flat list, and the heading of each section owns the blocks up to the next heading that
is not deeper (`sectionsOf_nestHeadings`).
-/

namespace WikiPress

/-- The level of a heading. -/
def Block.level? : Block → Option Nat
  | .heading depth _ _ => some depth
  | _ => none

/-- Blocks that stand side by side are in order. -/
structure InOrder (blocks : List Block) : Prop where
  /-- Only headings follow a heading. -/
  bodyFirst : blocks.Pairwise fun first later => first.level?.isSome → later.level?.isSome
  /-- The levels of the headings never rise. -/
  falling : (blocks.filterMap Block.level?).Pairwise (· ≥ ·)

mutual

/-- The section of the block, if it is a heading, holds blocks in order whose headings are deeper,
and so do the sections in it. -/
def Block.IsSection : Block → Prop
  | .heading depth _ children =>
    (∀ child ∈ children, ∀ level ∈ child.level?, depth < level) ∧ InOrder children ∧
      AreSections children
  | _ => True

/-- The sections of all blocks hold blocks in order whose headings are deeper. -/
def AreSections : List Block → Prop
  | [] => True
  | block :: more => block.IsSection ∧ AreSections more

end

/-- The blocks are in order, and so are those in every section. -/
structure IsOutline (blocks : List Block) : Prop where
  order : InOrder blocks
  inner : AreSections blocks

mutual

/-- The sections that a block begins, each with its level, its title and the blocks in it. -/
def Block.sections : Block → List (Nat × List Run × List Block)
  | .heading depth title children => (depth, title, flattenBlocks children) :: sectionsOf children
  | _ => []

/-- The sections of a body in their order. -/
def sectionsOf : List Block → List (Nat × List Run × List Block)
  | [] => []
  | block :: more => block.sections ++ sectionsOf more

end

/-- The headings of a flat list, each with the blocks up to the next heading that is not deeper. -/
def stretchesOf : List Block → List (Nat × List Run × List Block)
  | [] => []
  | .heading depth title _ :: more =>
    (depth, title, more.takeWhile (Block.isBelow depth)) :: stretchesOf more
  | _ :: more => stretchesOf more

/-- A plain block has no level. -/
theorem Block.level?_plain {block : Block} (plain : block.isPlain = true) : block.level? = none := by
  cases block with
  | heading => cases plain
  | _ => rfl

/-- What holds of no blocks and of every list whose first block is no heading, or a heading with a
section for which it holds, holds of all blocks. -/
theorem sections_induction {P : List Block → Prop} (nil : P [])
    (body : ∀ block more, Block.level? block = none → P more → P (block :: more))
    (heading : ∀ depth title children more, P children → P more →
      P (.heading depth title children :: more)) (blocks : List Block) : P blocks :=
  blocks_induction (Q := fun _ => True) nil (fun leaf more => body (.inclusion leaf) more rfl)
    heading (fun kind items more _ => body (.list kind items) more rfl)
    (fun block more plain => body block more (Block.level?_plain plain)) trivial
    (fun _ _ _ _ _ _ _ => trivial) blocks

section Runs

variable {α : Type} {p q : α → Bool} {front back : List α}

/-- Of two conditions, the stricter one stops first, and the other one goes on from there. -/
theorem takeWhile_of_stricter (strict : ∀ a, q a = true → p a = true) (list : List α) :
    list.takeWhile p = list.takeWhile q ++ (list.dropWhile q).takeWhile p := by
  have front : ∀ a ∈ list.takeWhile q, p a = true :=
    fun a member => strict a (List.mem_takeWhile_imp member)
  calc list.takeWhile p = (list.takeWhile q ++ list.dropWhile q).takeWhile p := by
        rw [List.takeWhile_append_dropWhile]
    _ = list.takeWhile q ++ (list.dropWhile q).takeWhile p :=
        List.takeWhile_append_of_pos front

/-- A run does not go on behind a list that is followed by what stops it. -/
theorem takeWhile_append_of_stop (front : List α) (stops : ∀ first ∈ back.head?, p first = false) :
    (front ++ back).takeWhile p = front.takeWhile p ∧
      (front ++ back).dropWhile p = front.dropWhile p ++ back := by
  induction front with
  | nil =>
    cases back with
    | nil => exact ⟨rfl, rfl⟩
    | cons first rest =>
      have stop := stops first rfl
      rw [List.nil_append, List.takeWhile_cons, List.dropWhile_cons, stop]
      exact ⟨rfl, rfl⟩
  | cons a rest ih =>
    rw [List.cons_append, List.takeWhile_cons, List.dropWhile_cons, List.takeWhile_cons,
      List.dropWhile_cons, ih.1, ih.2]
    cases p a <;> exact ⟨rfl, rfl⟩

/-- A run is the list in front of what stops it where all of the list belongs to it. -/
theorem takeWhile_append_exactly (all : ∀ a ∈ front, p a = true)
    (stops : ∀ first ∈ back.head?, p first = false) :
    (front ++ back).takeWhile p = front ∧ (front ++ back).dropWhile p = back := by
  obtain ⟨taken, left⟩ := takeWhile_append_of_stop front stops
  rw [taken, left, List.takeWhile_eq_self_iff.2 all, List.dropWhile_eq_nil_iff.2 all]
  exact ⟨rfl, rfl⟩

end Runs

section Outlines

variable {depth : Nat} {title : List Run} {block : Block} {children blocks more flat : List Block}

/-- A block is taken over by a heading unless it is a heading that is not deeper. -/
theorem Block.isBelow_iff : block.isBelow depth = true ↔ ∀ level ∈ block.level?, depth < level := by
  cases block <;> simp [Block.isBelow, Block.level?]

/-- A block is not taken over where it is a heading that is not deeper. -/
theorem Block.isBelow_eq_false_iff :
    block.isBelow depth = false ↔ ∃ level ∈ block.level?, level ≤ depth := by
  cases block <;> simp [Block.isBelow, Block.level?]

/-- Sections are read block by block. -/
theorem areSections_iff : AreSections blocks ↔ ∀ block ∈ blocks, block.IsSection := by
  induction blocks with
  | nil => simp [AreSections]
  | cons block rest ih => rw [AreSections, ih, List.forall_mem_cons]

/-- A part of an outline, blocks left out wherever they stood, is an outline. -/
theorem IsOutline.sublist (outline : IsOutline more) (part : blocks.Sublist more) :
    IsOutline blocks := by
  have inner := areSections_iff.1 outline.inner
  exact ⟨⟨outline.order.bodyFirst.sublist part,
      outline.order.falling.sublist (part.filterMap Block.level?)⟩,
    areSections_iff.2 fun block member => inner block (part.subset member)⟩

/-- A block without a level may stand in front of any outline. -/
theorem isOutline_cons_body (body : block.level? = none) :
    IsOutline (block :: more) ↔ IsOutline more := by
  have own : block.IsSection := by
    cases block with
    | heading => cases body
    | _ => trivial
  constructor
  · intro outline
    exact outline.sublist (List.sublist_cons_self block more)
  · intro outline
    refine ⟨⟨List.pairwise_cons.2 ⟨?_, outline.order.bodyFirst⟩, ?_⟩, own, outline.inner⟩
    · intro later _ titled
      simp [body] at titled
    · rw [List.filterMap_cons_none body]
      exact outline.order.falling

/-- A heading begins an outline where its section is one of deeper headings and only headings follow
that are not deeper. -/
theorem isOutline_cons_heading :
    IsOutline (.heading depth title children :: more) ↔
      ((∀ child ∈ children, child.isBelow depth = true) ∧ IsOutline children) ∧
        (∀ later ∈ more, later.isBelow depth = false) ∧ IsOutline more := by
  have level : (Block.heading depth title children).level? = some depth := rfl
  constructor
  · intro outline
    have rest := outline.sublist (List.sublist_cons_self _ more)
    obtain ⟨⟨bodyFirst, falling⟩, ⟨deeper, order, inner⟩, _⟩ := outline
    refine ⟨⟨fun child member => Block.isBelow_iff.2 (deeper child member), order, inner⟩, ?_, rest⟩
    intro later member
    have titled := (List.pairwise_cons.1 bodyFirst).1 later member (by rw [level]; rfl)
    obtain ⟨own, given⟩ := Option.isSome_iff_exists.1 titled
    rw [List.filterMap_cons_some level, List.pairwise_cons] at falling
    have lower : own ≤ depth := falling.1 own (List.mem_filterMap.2 ⟨later, member, given⟩)
    exact Block.isBelow_eq_false_iff.2 ⟨own, given, lower⟩
  · rintro ⟨⟨deeper, section_⟩, shallow, outline⟩
    refine ⟨⟨List.pairwise_cons.2 ⟨?_, outline.order.bodyFirst⟩, ?_⟩,
      ⟨fun child member => Block.isBelow_iff.1 (deeper child member), section_.order,
        section_.inner⟩, outline.inner⟩
    · intro later member _
      obtain ⟨own, given, _⟩ := Block.isBelow_eq_false_iff.1 (shallow later member)
      exact Option.isSome_iff_exists.2 ⟨own, given⟩
    · rw [List.filterMap_cons_some level, List.pairwise_cons]
      refine ⟨?_, outline.order.falling⟩
      intro own listed
      obtain ⟨later, member, given⟩ := List.mem_filterMap.1 listed
      obtain ⟨other, same, lower⟩ := Block.isBelow_eq_false_iff.1 (shallow later member)
      rw [Option.mem_def, given] at same
      exact Option.some.inj same ▸ lower

/-- Behind the first block of an outline that a heading does not take over, it takes over none. -/
theorem IsOutline.dropWhile_shallow (outline : IsOutline blocks) (depth : Nat) :
    ∀ later ∈ blocks.dropWhile (Block.isBelow depth), later.isBelow depth = false := by
  have stops := List.head?_dropWhile_not (Block.isBelow depth) blocks
  have rest := outline.sublist (List.dropWhile_sublist (Block.isBelow depth))
  cases shape : blocks.dropWhile (Block.isBelow depth) with
  | nil => simp
  | cons first more =>
    rw [shape] at stops rest
    have apart : first.isBelow depth = false := stops
    cases first with
    | heading level title children =>
      have shallow := (isOutline_cons_heading.1 rest).2.1
      rw [List.forall_mem_cons]
      refine ⟨apart, fun later member => ?_⟩
      obtain ⟨own, given, lower⟩ := Block.isBelow_eq_false_iff.1 (shallow later member)
      have first : level ≤ depth := by simpa [Block.isBelow] using apart
      exact Block.isBelow_eq_false_iff.2 ⟨own, given, Nat.le_trans lower first⟩
    | _ => simp [Block.isBelow] at apart

/-- A bare block in front of an outline makes an outline when it takes over what it may. -/
theorem isOutline_consNested (bare : block.isBare = true) (outline : IsOutline more) :
    IsOutline (block.consNested more) := by
  cases block with
  | heading depth title children =>
    obtain rfl : children = [] := List.isEmpty_iff.1 bare
    rw [Block.consNested, List.nil_append, isOutline_cons_heading]
    have taken := outline.sublist (List.takeWhile_sublist (Block.isBelow depth))
    have left := outline.sublist (List.dropWhile_sublist (Block.isBelow depth))
    exact ⟨⟨fun child member => List.mem_takeWhile_imp member, taken⟩,
      outline.dropWhile_shallow depth, left⟩
  | _ => exact (isOutline_cons_body rfl).2 outline

/-- Nesting bare blocks makes an outline. -/
theorem isOutline_nestHeadings (bare : ∀ block ∈ flat, block.isBare = true) :
    IsOutline (nestHeadings flat) := by
  induction flat with
  | nil => exact ⟨⟨List.Pairwise.nil, List.Pairwise.nil⟩, trivial⟩
  | cons block rest ih =>
    rw [List.forall_mem_cons] at bare
    exact isOutline_consNested bare.1 (ih bare.2)

/-- A block without a level is its own flattening. -/
theorem Block.flatten_body (body : block.level? = none) : block.flatten = [block] := by
  cases block with
  | heading => cases body
  | _ => rfl

/-- A block without a level takes over nothing. -/
theorem Block.consNested_body (body : block.level? = none) : block.consNested more = block :: more := by
  cases block with
  | heading => cases body
  | _ => rfl

/-- Nesting the flattening of an outline gives the outline, in front of whatever its headings do not
take over. -/
theorem foldr_consNested_outline (outline : IsOutline blocks)
    (stops : ∀ block ∈ blocks, ∀ level ∈ block.level?, ∀ first ∈ more.head?,
      first.isBelow level = false) :
    (flattenBlocks blocks).foldr Block.consNested more = blocks ++ more := by
  -- the blocks behind are arbitrary because the rest of its list follows a section
  induction blocks using sections_induction generalizing more with
  | nil => rfl
  | body block rest body ih =>
    rw [List.forall_mem_cons] at stops
    have behind := ih ((isOutline_cons_body body).1 outline) stops.2
    rw [flattenBlocks, Block.flatten_body body, List.singleton_append, List.foldr_cons, behind,
      Block.consNested_body body, List.cons_append]
  | heading depth title children rest inside ih =>
    obtain ⟨⟨deeper, content⟩, shallow, outline⟩ := isOutline_cons_heading.1 outline
    rw [List.forall_mem_cons] at stops
    have behind := ih outline stops.2
    have apart : ∀ first ∈ (rest ++ more).head?, first.isBelow depth = false := by
      cases rest with
      | nil => exact stops.1 depth rfl
      | cons next others => exact fun first same => Option.some.inj same ▸ shallow next (by simp)
    have section_ : (flattenBlocks children).foldr Block.consNested (rest ++ more) =
        children ++ (rest ++ more) := by
      refine inside content fun child member level given first start => ?_
      -- what the heading leaves, the deeper headings of its section leave as well
      have below := Block.isBelow_iff.1 (deeper child member) level given
      obtain ⟨own, same, lower⟩ := Block.isBelow_eq_false_iff.1 (apart first start)
      exact Block.isBelow_eq_false_iff.2 ⟨own, same, by omega⟩
    obtain ⟨taken, left⟩ := takeWhile_append_exactly deeper apart
    rw [flattenBlocks, Block.flatten, List.cons_append, List.foldr_cons, List.foldr_append, behind,
      section_, Block.consNested, List.nil_append, taken, left, List.cons_append]

/-- An outline is the nesting of its flattening. -/
theorem IsOutline.nestHeadings_flattenBlocks (outline : IsOutline blocks) :
    nestHeadings (flattenBlocks blocks) = blocks := by
  have nested : (flattenBlocks blocks).foldr Block.consNested [] = blocks ++ [] :=
    foldr_consNested_outline outline (by simp)
  rwa [List.append_nil] at nested

end Outlines

section Stretches

variable {depth : Nat} {blocks more flat : List Block}

/-- The sections of two bodies in a row. -/
@[simp]
theorem sectionsOf_append (blocks more : List Block) :
    sectionsOf (blocks ++ more) = sectionsOf blocks ++ sectionsOf more := by
  induction blocks with
  | nil => rfl
  | cons block rest ih => simp only [List.cons_append, sectionsOf, ih, List.append_assoc]

/-- What a heading takes over of nested blocks are the blocks up to the next heading that is not
deeper. -/
theorem flattenBlocks_takeWhile (bare : ∀ block ∈ flat, block.isBare = true) :
    flattenBlocks ((nestHeadings flat).takeWhile (Block.isBelow depth)) =
      flat.takeWhile (Block.isBelow depth) := by
  induction flat with
  | nil => rfl
  | cons block rest ih =>
    rw [List.forall_mem_cons] at bare
    have behind := ih bare.2
    have nested : nestHeadings (block :: rest) = block.consNested (nestHeadings rest) := rfl
    rw [nested]
    cases block with
    | heading level title children =>
      obtain rfl : children = [] := List.isEmpty_iff.1 bare.1
      by_cases deeper : depth < level
      · have strict : ∀ other : Block, other.isBelow level = true → other.isBelow depth = true := by
          intro other below
          rw [Block.isBelow_iff] at below ⊢
          exact fun own given => Nat.lt_trans deeper (below own given)
        rw [takeWhile_of_stricter strict, flattenBlocks_append] at behind
        simp only [Block.consNested, List.nil_append, List.takeWhile_cons, Block.isBelow, deeper,
          decide_true, if_true, flattenBlocks, Block.flatten, List.cons_append]
        rw [behind]
      · simp [Block.consNested, Block.isBelow, deeper, flattenBlocks]
    | _ =>
      simp only [Block.consNested, List.takeWhile_cons, Block.isBelow, if_true, flattenBlocks,
        Block.flatten, behind, List.singleton_append]

/-- The sections of nested blocks are the stretches of the flat ones. -/
theorem sectionsOf_nestHeadings (bare : ∀ block ∈ flat, block.isBare = true) :
    sectionsOf (nestHeadings flat) = stretchesOf flat := by
  induction flat with
  | nil => rfl
  | cons block rest ih =>
    rw [List.forall_mem_cons] at bare
    have behind := ih bare.2
    have nested : nestHeadings (block :: rest) = block.consNested (nestHeadings rest) := rfl
    rw [nested]
    cases block with
    | heading level title children =>
      obtain rfl : children = [] := List.isEmpty_iff.1 bare.1
      have whole := List.takeWhile_append_dropWhile (p := Block.isBelow level)
        (l := nestHeadings rest)
      calc sectionsOf (Block.consNested (.heading level title []) (nestHeadings rest))
          = (level, title, flattenBlocks ((nestHeadings rest).takeWhile (Block.isBelow level))) ::
              sectionsOf ((nestHeadings rest).takeWhile (Block.isBelow level) ++
                (nestHeadings rest).dropWhile (Block.isBelow level)) := by
            rw [sectionsOf_append]
            rfl
        _ = stretchesOf (.heading level title [] :: rest) := by
            rw [whole, behind, flattenBlocks_takeWhile bare.2, stretchesOf]
    | _ => exact behind

end Stretches

/-- Of all trees with the flattening of bare blocks, nesting gives the one that is an outline, and
in it each heading owns the blocks up to the next heading that is not deeper. Nesting the blocks from
the front, with a stack of open headings, gives the same tree. -/
theorem nestHeadings_unique (flat : List Block) (bare : ∀ block ∈ flat, block.isBare = true) :
    (∀ tree, flattenBlocks tree = flat ∧ IsOutline tree ↔ tree = nestHeadings flat) ∧
      sectionsOf (nestHeadings flat) = stretchesOf flat ∧ nestFromFront flat = nestHeadings flat := by
  refine ⟨fun tree => ⟨?_, ?_⟩, sectionsOf_nestHeadings bare, nestFromFront_eq flat⟩
  · rintro ⟨rfl, outline⟩
    exact outline.nestHeadings_flattenBlocks.symm
  · rintro rfl
    have kept : flattenBlocks (nestHeadings flat) = flat := by
      rw [flattenBlocks_nestHeadings, flattenBlocks_bare bare]
    exact ⟨kept, isOutline_nestHeadings bare⟩

/-- Levels that begin deep, skip and return more than one step: two sections stand at the top before
the one that owns two others. -/
theorem nestHeadings_unique_sample :
    let flat : List Block := [.rule, .heading 3 [] [], .rule, .heading 1 [] [], .heading 4 [] [],
      .rule, .heading 2 [] [], .heading 0 [] []]
    let tree : List Block := [.rule, .heading 3 [] [.rule],
      .heading 1 [] [.heading 4 [] [.rule], .heading 2 [] []], .heading 0 [] []]
    .heading 4 [] [] ∈ flat ∧ (∀ block ∈ flat, block.isBare = true) ∧ flattenBlocks tree = flat ∧
      IsOutline tree ∧ sectionsOf tree = stretchesOf flat ∧ nestFromFront flat = tree := by
  intro flat tree
  have bare : ∀ block ∈ flat, block.isBare = true := by simp [flat, Block.isBare]
  have nested : tree = nestHeadings flat := rfl
  obtain ⟨unique, owned, stacked⟩ := nestHeadings_unique flat bare
  obtain ⟨kept, outline⟩ := (unique tree).2 nested
  exact ⟨by simp [flat], bare, kept, outline, nested ▸ owned, stacked.trans nested.symm⟩

end WikiPress

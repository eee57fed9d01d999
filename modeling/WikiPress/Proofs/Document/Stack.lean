import WikiPress.Document.Nesting

/-!
# Nesting with a stack

Headings can be nested from the front: those that still take over blocks stand on a stack, the
innermost first, and a block goes to the innermost one. A heading closes the ones that are not above
it, each of which goes to the heading around it. The headings on the stack rise from the innermost to
the outermost (`IsRising`), so closing them leaves the tree they make with the blocks to come
(`finish_close`), and so does reading a block (`finish_read`). Once all headings are closed, the tree
is the one that nesting from the back makes (`nestFromFront_eq`).
-/

namespace WikiPress

/-- A heading that still takes over blocks. -/
structure OpenHeading where
  depth : Nat
  title : List Run
  children : List Block

/-- The heading as it is. -/
def OpenHeading.block (heading : OpenHeading) : Block :=
  .heading heading.depth heading.title heading.children

/-- Blocks while they are nested: the finished ones at the top, and the headings that are open, the
innermost first. -/
structure Nesting where
  top : List Block
  opened : List OpenHeading

namespace Nesting

/-- A finished block goes to the innermost open heading, or to the top. -/
def push (state : Nesting) (block : Block) : Nesting :=
  match state.opened with
  | [] => { state with top := state.top ++ [block] }
  | parent :: outer =>
    { state with opened := { parent with children := parent.children ++ [block] } :: outer }

/-- A block that is pushed opens and closes no heading. -/
theorem length_push (state : Nesting) (block : Block) :
    (state.push block).opened.length = state.opened.length := by
  unfold push
  split
  · rfl
  · next shape => rw [shape]; rfl

/-- Close the innermost headings that are on a level or deeper. -/
def close (depth : Nat) (state : Nesting) : Nesting :=
  match _shape : state.opened with
  | [] => state
  | done :: outer =>
    if depth ≤ done.depth then close depth (push { state with opened := outer } done.block)
    else state
termination_by state.opened.length
decreasing_by
  rw [length_push, _shape]
  exact Nat.lt_succ_self _

/-- Read a block: a heading is opened when those that are not above it are closed. -/
def read (state : Nesting) : Block → Nesting
  | .heading depth title children =>
    let closed := state.close depth
    { closed with opened := ⟨depth, title, children⟩ :: closed.opened }
  | block => state.push block

/-- The tree that a state makes with nested blocks to come. -/
def finish (state : Nesting) (behind : List Block) : List Block :=
  state.top ++ state.opened.foldl (fun inner heading => heading.block.consNested inner) behind

/-- Every open heading is above those inside of it. -/
def IsRising (state : Nesting) : Prop :=
  state.opened.Pairwise fun inner outer => outer.depth < inner.depth

/-- The blocks begin with one that a heading of the level does not take over. -/
def StopsAt (depth : Nat) (behind : List Block) : Prop :=
  ∀ first ∈ behind.head?, first.isBelow depth = false

section Steps

variable {state : Nesting} {block : Block} {depth : Nat} {behind : List Block}

/-- A block that is pushed comes in front of the blocks to come, if the innermost open heading takes
it over. -/
theorem finish_push (taken : ∀ parent ∈ state.opened.head?, block.isBelow parent.depth = true)
    (behind : List Block) : (state.push block).finish behind = state.finish (block :: behind) := by
  obtain ⟨top, opened⟩ := state
  cases opened with
  | nil => simp [push, finish]
  | cons parent outer =>
    have below := taken parent rfl
    simp only [push, finish, List.foldl_cons, OpenHeading.block, Block.consNested,
      List.takeWhile_cons, List.dropWhile_cons, below, if_true, List.append_assoc,
      List.singleton_append]

/-- Pushing keeps the levels of the open headings. -/
theorem IsRising.push (rising : state.IsRising) (block : Block) : (state.push block).IsRising := by
  obtain ⟨top, opened⟩ := state
  cases opened with
  | nil => exact rising
  | cons parent outer => exact List.pairwise_cons.2 (List.pairwise_cons.1 rising)

/-- The headings around the innermost one are above it, and above those inside of them. -/
theorem IsRising.pop {done : OpenHeading} {outer : List OpenHeading} (rising : state.IsRising)
    (shape : state.opened = done :: outer) :
    (∀ heading ∈ outer, heading.depth < done.depth) ∧ IsRising { state with opened := outer } := by
  rw [IsRising, shape, List.pairwise_cons] at rising
  exact rising

/-- A heading takes over no blocks that begin with one that is not below it. -/
theorem consNested_of_stopsAt (heading : OpenHeading) (stops : StopsAt heading.depth behind) :
    heading.block.consNested behind = heading.block :: behind := by
  cases behind with
  | nil => simp [OpenHeading.block, Block.consNested]
  | cons first rest =>
    have apart := stops first rfl
    simp [OpenHeading.block, Block.consNested, apart]

/-- Closing headings changes nothing for blocks to come that they do not take over. -/
theorem finish_close (rising : state.IsRising)
    (stops : ∀ level, depth ≤ level → StopsAt level behind) :
    (state.close depth).finish behind = state.finish behind := by
  fun_induction close depth state with
  | case1 => rfl
  | case2 state done outer shape deep ih =>
    obtain ⟨above, others⟩ := rising.pop shape
    -- the heading around the closed one takes it over, since it is above it
    have taken : ∀ parent ∈ outer.head?, done.block.isBelow parent.depth = true :=
      fun parent first => decide_eq_true (above parent (List.mem_of_mem_head? first))
    rw [ih (others.push _), finish_push taken, finish, finish, shape, List.foldl_cons,
      consNested_of_stopsAt done (stops done.depth deep)]
  | case3 => rfl

/-- Closing keeps the levels of the open headings. -/
theorem IsRising.close (rising : state.IsRising) (depth : Nat) : (state.close depth).IsRising := by
  fun_induction Nesting.close depth state with
  | case1 => exact rising
  | case2 state done outer shape deep ih =>
    exact ih ((rising.pop shape).2.push _)
  | case3 => exact rising

/-- The headings that are left open are above the level. -/
theorem lt_of_mem_close (rising : state.IsRising) :
    ∀ heading ∈ (state.close depth).opened, heading.depth < depth := by
  fun_induction close depth state with
  | case1 state shape => simp [shape]
  | case2 state done outer shape deep ih =>
    exact ih ((rising.pop shape).2.push _)
  | case3 state done outer shape shallow =>
    have above := (rising.pop shape).1
    have first := Nat.not_le.1 shallow
    rw [shape, List.forall_mem_cons]
    exact ⟨first, fun heading member => Nat.lt_trans (above heading member) first⟩

/-- Reading keeps the levels of the open headings. -/
theorem IsRising.read (rising : state.IsRising) (block : Block) : (state.read block).IsRising := by
  cases block with
  | heading depth title children =>
    exact List.pairwise_cons.2 ⟨lt_of_mem_close rising, rising.close depth⟩
  | _ => exact rising.push _

/-- A block that is read comes in front of the nested blocks to come. -/
theorem finish_read (rising : state.IsRising) (block : Block) (behind : List Block) :
    (state.read block).finish behind = state.finish (block.consNested behind) := by
  cases block with
  | heading depth title children =>
    have stops : ∀ level, depth ≤ level →
        StopsAt level ((Block.heading depth title children).consNested behind) := by
      rintro level shallow first top
      obtain rfl := Option.some.inj top
      exact decide_eq_false (Nat.not_lt.2 shallow)
    exact finish_close rising stops
  | _ => exact finish_push (fun _ _ => rfl) behind

/-- Blocks that are read come in front of the nested blocks to come, nested as well. -/
theorem finish_foldl (rising : state.IsRising) (flat behind : List Block) :
    (flat.foldl read state).finish behind = state.finish (flat.foldr Block.consNested behind) := by
  induction flat generalizing state with
  | nil => rfl
  | cons block rest ih =>
    rw [List.foldl_cons, ih (rising.read block), finish_read rising, List.foldr_cons]

/-- Reading blocks keeps the levels of the open headings. -/
theorem IsRising.foldl (rising : state.IsRising) (flat : List Block) :
    (flat.foldl Nesting.read state).IsRising := by
  induction flat generalizing state with
  | nil => exact rising
  | cons block rest ih => exact ih (rising.read block)

end Steps

end Nesting

/-- Nest blocks from the front, with all headings closed at the end. -/
def nestFromFront (flat : List Block) : List Block :=
  ((flat.foldl Nesting.read ⟨[], []⟩).close 0).top

/-- Blocks nested from the front and from the back make the same tree. -/
theorem nestFromFront_eq (flat : List Block) : nestFromFront flat = nestHeadings flat := by
  have start : Nesting.IsRising ⟨[], []⟩ := List.Pairwise.nil
  have rising := start.foldl flat
  have closed : ((flat.foldl Nesting.read ⟨[], []⟩).close 0).finish [] =
      (flat.foldl Nesting.read ⟨[], []⟩).finish [] :=
    Nesting.finish_close rising (by simp [Nesting.StopsAt])
  have none : ((flat.foldl Nesting.read ⟨[], []⟩).close 0).opened = [] :=
    List.eq_nil_iff_forall_not_mem.2 fun heading member =>
      absurd (Nesting.lt_of_mem_close rising heading member) (Nat.not_lt_zero _)
  calc nestFromFront flat
      = ((flat.foldl Nesting.read ⟨[], []⟩).close 0).finish [] := by
        rw [Nesting.finish, none, List.foldl_nil, List.append_nil, nestFromFront]
    _ = (Nesting.mk [] []).finish (flat.foldr Block.consNested []) := by
        rw [closed, Nesting.finish_foldl start]
    _ = nestHeadings flat := rfl

end WikiPress

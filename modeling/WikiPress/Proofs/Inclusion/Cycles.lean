import WikiPress.Proofs.Inclusion.Ending

/-!
# Cycles of inclusions

The files make a graph of references: from the reference of a document to those of its inclusions
(`Reference.Includes`). A cycle is reported only where there is one, and work that ends without an
error has met none, on whatever branch (`expandFrom_cycle_exactly`): the references on the chain are
those between the document and the inclusion at hand, so one that comes up again has come back to
itself, while a file that is included on two branches is not on the chain the second time.
-/

namespace WikiPress

open Relation

/-- The document at the first reference, as it is read where inclusions are looked up in `root`,
includes the second one. -/
def Reference.Includes (fs : FileSystem) (root : Path) (outer inner : Reference) : Prop :=
  ∃ d, Inclusion.document fs ⟨outer, root⟩ = .ok d ∧ inner ∈ d.inclusions.map (·.target)

/-- Following inclusions from an inclusion of the document leads to the reference, which is on the
chain already or leads back to itself. -/
def Document.ClosesCycle (fs : FileSystem) (chain : List Reference) (d : Document)
    (r : Reference) : Prop :=
  ∃ leaf ∈ d.inclusions, ReflTransGen (Reference.Includes fs leaf.root) leaf.target r ∧
    (r ∈ chain ∨ TransGen (Reference.Includes fs leaf.root) r r)

namespace Inclusion

variable {fs : FileSystem} {chain : List Reference} {leaf inner outer : Inclusion} {r : Reference}

/-- An inclusion in another one makes an edge of the graph for its directory. -/
theorem Within.includes (within : Within fs inner outer) :
    Reference.Includes fs outer.root outer.target inner.target := by
  obtain ⟨d, found, member⟩ := within
  exact ⟨d, found, List.mem_map_of_mem member⟩

/-- An edge of the graph comes from an inclusion in another one. -/
theorem within_of_includes {root : Path} {s : Reference}
    (edge : Reference.Includes fs root r s) : Within fs ⟨s, root⟩ ⟨r, root⟩ := by
  obtain ⟨d, found, named⟩ := edge
  obtain ⟨other, member, rfl⟩ := List.mem_map.1 named
  have within : Within fs other ⟨r, root⟩ := ⟨d, found, member⟩
  obtain rfl : other.root = root := within.named.1
  exact within

/-- What is inside an inclusion is reached from it in the graph. -/
theorem reached_of_inside (inside : ReflTransGen (Within fs) inner outer) :
    ReflTransGen (Reference.Includes fs outer.root) outer.target inner.target := by
  induction inside using ReflTransGen.head_induction_on with
  | refl => exact .refl
  | head within rest ih =>
    rw [← root_of_inside rest] at ih ⊢
    exact ih.tail within.includes

/-- What is reached from an inclusion in the graph is inside it. -/
theorem inside_of_reached {root : Path} {s : Reference}
    (reached : ReflTransGen (Reference.Includes fs root) r s) :
    ReflTransGen (Within fs) ⟨s, root⟩ ⟨r, root⟩ := by
  induction reached with
  | refl => exact .refl
  | tail _ edge ih => exact .head (within_of_includes edge) ih

/-- An inclusion inside itself is on a cycle of the graph. -/
theorem cycle_of_inside (inside : TransGen (Within fs) leaf leaf) :
    TransGen (Reference.Includes fs leaf.root) leaf.target leaf.target := by
  obtain ⟨outer, rest, within⟩ := TransGen.tail'_iff.1 inside
  have reached := reached_of_inside rest
  rw [within.named.1] at reached
  exact .head' within.includes reached

/-- A reference on a cycle of the graph is inside itself. -/
theorem inside_of_cycle {root : Path} (cycle : TransGen (Reference.Includes fs root) r r) :
    TransGen (Within fs) ⟨r, root⟩ ⟨r, root⟩ := by
  obtain ⟨s, edge, rest⟩ := TransGen.head'_iff.1 cycle
  exact .tail' (inside_of_reached rest) (within_of_includes edge)

/-- A document that cannot be read is no cycle. -/
theorem document_ne_cycle : leaf.document fs ≠ .error (.cycle r) := by
  unfold document
  split <;> simp

/-- An inclusion that is refused for a cycle has one inside: an inclusion of that reference, which is
on the chain or inside itself. -/
theorem EndsIn.cycle (ends : leaf.EndsIn fs chain (.error (.cycle r))) :
    ∃ inner, ReflTransGen (Within fs) inner leaf ∧ inner.target = r ∧
      (r ∈ chain ∨ TransGen (Within fs) inner inner) := by
  generalize refused : Except.error (InclusionError.cycle r) = result at ends
  induction ends with
  | @again chain leaf known =>
    obtain rfl : r = leaf.target := by simpa using refused
    exact ⟨leaf, .refl, rfl, .inl known⟩
  | unread _ failed =>
    have cause := Except.error.inj refused
    exact absurd (cause ▸ failed) document_ne_cycle
  | @body chain leaf d results fresh found inner ih =>
    have stopped : (spliceBlocks results d.blocks).stopped = some (.cycle r) :=
      Progress.result_eq_error_iff.1 refused.symm
    obtain ⟨other, member, own⟩ := refused_of_stopped stopped
    have within : Within fs other leaf := ⟨d, found, member⟩
    obtain ⟨deep, inside, rfl, closed⟩ := ih other member own.symm
    refine ⟨deep, inside.tail within, rfl, ?_⟩
    rw [List.mem_cons] at closed
    obtain (same | known) | loop := closed
    · -- the reference came up again below itself, and both inclusions are looked up alike
      have alike : deep = leaf := eq_of_inside (inside.tail within) same
      subst alike
      exact .inr (.tail' inside within)
    · exact .inl known
    · exact .inr loop

/-- Nothing inside an inclusion that is expanded is on the chain. -/
theorem EndsIn.fresh_inside {made : List Block × Nat} (ends : leaf.EndsIn fs chain (.ok made))
    (inside : ReflTransGen (Within fs) inner leaf) : inner.target ∉ chain := by
  generalize expanded : Except.ok made = result at ends
  induction ends generalizing made with
  | again => simp at expanded
  | unread => simp at expanded
  | @body chain leaf d results fresh found _ ih =>
    obtain rfl | ⟨outer, rest, d', found', member⟩ := ReflTransGen.cases_tail inside
    · exact fresh
    · rw [found] at found'
      obtain rfl := Except.ok.inj found'
      have finished := Progress.not_stopped_of_result expanded.symm
      obtain ⟨made', own⟩ := expanded_of_not_stopped finished outer member
      have apart : inner.target ∉ leaf.target :: chain := ih outer member rest own.symm
      exact fun known => apart (List.mem_cons_of_mem _ known)

end Inclusion

namespace Document

open Inclusion

variable {fs : FileSystem} {chain : List Reference} {d : Document}

/-- A reported cycle is one of the graph: its reference is reached from an inclusion of the document,
and it is on the chain or leads back to itself. -/
theorem closesCycle_of_stopped {r : Reference}
    (stopped : (d.expandFrom fs chain).stopped = some (.cycle r)) : d.ClosesCycle fs chain r := by
  obtain ⟨results, ends, shape⟩ := endsIn_expandFrom fs chain d
  rw [shape] at stopped
  obtain ⟨leaf, member, refused⟩ := refused_of_stopped stopped
  obtain ⟨inner, inside, rfl, closed⟩ := (refused ▸ ends leaf member).cycle
  refine ⟨leaf, member, reached_of_inside inside, ?_⟩
  rw [← root_of_inside inside]
  exact closed.imp_right cycle_of_inside

/-- Work that nothing stopped has met no cycle. -/
theorem not_closesCycle_of_finished (finished : (d.expandFrom fs chain).stopped = none)
    (r : Reference) : ¬ d.ClosesCycle fs chain r := by
  rintro ⟨leaf, member, reached, closed⟩
  obtain ⟨results, ends, shape⟩ := endsIn_expandFrom fs chain d
  have inside : ReflTransGen (Within fs) ⟨r, leaf.root⟩ leaf := inside_of_reached reached
  obtain known | cycle := closed
  · rw [shape] at finished
    obtain ⟨made, own⟩ := expanded_of_not_stopped finished leaf member
    have ended : leaf.EndsIn fs chain (.ok made) := own ▸ ends leaf member
    exact ended.fresh_inside inside known
  · obtain ⟨bodies, nested, stands, _, _⟩ := expandsTo_of_not_stopped finished
    obtain ⟨_, _, deep⟩ := (stands leaf member).inside inside
    exact not_inside_self deep.acc (inside_of_cycle cycle)

/-- The detection of cycles is sound and complete. A reported reference closes a cycle: following
inclusions from the document leads to it, and it is one of the documents on the chain (where the
document itself came from) or leads back to itself. Where the expansion comes to its end, nothing
reached from the document closes a cycle, however often and on however many branches it is
included. -/
theorem expandFrom_cycle_exactly (fs : FileSystem) (chain : List Reference) (d : Document) :
    (∀ r, (d.expandFrom fs chain).stopped = some (.cycle r) → d.ClosesCycle fs chain r) ∧
      ((d.expandFrom fs chain).stopped = none → ∀ r, ¬ d.ClosesCycle fs chain r) :=
  ⟨fun _ => closesCycle_of_stopped, not_closesCycle_of_finished⟩

/-- Two files that include each other close a cycle for a document that includes neither, and a file
that is included three times, twice of them by another one, closes none. -/
theorem expandFrom_cycle_exactly_sample :
    ∃ (fs : FileSystem) (d e : Document),
      (d.expandFrom fs [Reference.ofPath ⟨"main"⟩]).stopped =
          some (.cycle (Reference.ofPath ⟨"b"⟩)) ∧
        d.ClosesCycle fs [Reference.ofPath ⟨"main"⟩] (Reference.ofPath ⟨"b"⟩) ∧
        (e.expandFrom fs [Reference.ofPath ⟨"main"⟩]).stopped = none ∧
        (e.expandFrom fs [Reference.ofPath ⟨"main"⟩]).replaced = 4 ∧
        ∀ r, ¬ e.ClosesCycle fs [Reference.ofPath ⟨"main"⟩] r := by
  let fs : FileSystem := ⟨[(["a"], .file (Utf8.encode "x\n@>include: b\n")),
    (["b"], .file (Utf8.encode "@>include: c\n")),
    (["c"], .file (Utf8.encode "# s\n@>include: b\n")),
    (["twice"], .file (Utf8.encode "@>include: text\n@>include: text\n")),
    (["text"], .file (Utf8.encode "y\n"))], []⟩
  let d : Document := { blocks := [.inclusion ⟨Reference.ofPath ⟨"a"⟩, ⟨""⟩⟩] }
  let e : Document := { blocks := [.inclusion ⟨Reference.ofPath ⟨"twice"⟩, ⟨""⟩⟩,
    .inclusion ⟨Reference.ofPath ⟨"text"⟩, ⟨""⟩⟩] }
  have stopped : (d.expandFrom fs [Reference.ofPath ⟨"main"⟩]).stopped =
      some (.cycle (Reference.ofPath ⟨"b"⟩)) := by decide +kernel
  have finished : (e.expandFrom fs [Reference.ofPath ⟨"main"⟩]).stopped = none := by
    decide +kernel
  exact ⟨fs, d, e, stopped, (expandFrom_cycle_exactly fs _ d).1 _ stopped, finished,
    by decide +kernel, (expandFrom_cycle_exactly fs _ e).2 finished⟩

end Document

end WikiPress

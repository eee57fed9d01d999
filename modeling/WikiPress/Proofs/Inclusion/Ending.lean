import Mathlib.Data.List.Dedup
import Mathlib.Data.List.Perm.Subperm
import WikiPress.Proofs.Inclusion.Completeness

/-!
# Expansions end

The rules of expansion know no bound on the nesting: an inclusion of a document that is being
expanded is refused, one whose document cannot be read is refused, and any other one is worked off
under a chain that is longer by its reference (`Inclusion.EndsIn`). Nothing in the tree at hand gets
smaller when the work goes on in another file. What gets smaller is the list of references that can
come up and are not yet on the chain, so every expansion ends, in one result, and it is nested no
deeper than there are such references (`expandFrom_ends`).
-/

namespace WikiPress

open Relation

/-- What came out of the work on a tree: the tree and the number of inclusions replaced, or what
stopped the work. -/
def Progress.result {ε α : Type} (p : Progress ε α) : Except ε (α × Nat) :=
  match p.stopped with
  | some e => .error e
  | none => .ok (p.body, p.replaced)

/-- The result is an error where something stopped the work. -/
theorem Progress.result_eq_error_iff {ε α : Type} {p : Progress ε α} {e : ε} :
    p.result = .error e ↔ p.stopped = some e := by
  unfold result
  cases p.stopped <;> simp

/-- The result is no error where nothing stopped the work. -/
theorem Progress.not_stopped_of_result {ε α : Type} {p : Progress ε α} {made : α × Nat}
    (finished : p.result = .ok made) : p.stopped = none := by
  unfold result at finished
  cases stopped : p.stopped with
  | none => rfl
  | some e => simp [stopped] at finished

/-- Expanding the inclusion while the documents on the chain are being expanded ends with the
result, by finitely many uses of the rules. -/
inductive Inclusion.EndsIn (fs : FileSystem) :
    List Reference → Inclusion → Except InclusionError (List Block × Nat) → Prop
  /-- The document is being expanded already: its file is not opened again. -/
  | again {chain : List Reference} {leaf : Inclusion} (known : leaf.target ∈ chain) :
      EndsIn fs chain leaf (.error (.cycle leaf.target))
  /-- The document cannot be read. -/
  | unread {chain : List Reference} {leaf : Inclusion} {e : InclusionError}
      (fresh : leaf.target ∉ chain) (failed : leaf.document fs = .error e) :
      EndsIn fs chain leaf (.error e)
  /-- The inclusions of the document are expanded under the longer chain, and what they end in
  takes their places. -/
  | body {chain : List Reference} {leaf : Inclusion} {d : Document}
      (results : Expansion InclusionError) (fresh : leaf.target ∉ chain)
      (found : leaf.document fs = .ok d)
      (inner : ∀ other ∈ d.inclusions, EndsIn fs (leaf.target :: chain) other (results other)) :
      EndsIn fs chain leaf (spliceBlocks results d.blocks).result

/-- Expanding the inclusions of the document under the chain ends with that progress. -/
def Document.EndsIn (fs : FileSystem) (chain : List Reference) (d : Document)
    (p : Progress InclusionError Document) : Prop :=
  ∃ results : Expansion InclusionError,
    (∀ leaf ∈ d.inclusions, leaf.EndsIn fs chain (results leaf)) ∧
      p = ⟨{ d with blocks := (spliceBlocks results d.blocks).body },
        (spliceBlocks results d.blocks).replaced, (spliceBlocks results d.blocks).stopped⟩

/-- A branch of the work on a document: while the documents `grown` are being expanded on top of
those on the chain, the latest one first, the work is on the inclusions of the document `e`. -/
inductive Document.Branch (fs : FileSystem) (chain : List Reference) (d : Document) :
    List Reference → Document → Prop
  | start : Branch fs chain d [] d
  | deeper {grown : List Reference} {leaf : Inclusion} {e inner : Document}
      (branch : Branch fs chain d grown e) (member : leaf ∈ e.inclusions)
      (fresh : leaf.target ∉ grown ++ chain) (found : leaf.document fs = .ok inner) :
      Branch fs chain d (leaf.target :: grown) inner

namespace Inclusion

variable {fs : FileSystem} {chain names : List Reference} {leaf inner : Inclusion}
  {result : Except InclusionError (List Block × Nat)}

/-- An inclusion ends in one result only. -/
theorem EndsIn.unique (first : leaf.EndsIn fs chain result)
    {other : Except InclusionError (List Block × Nat)} (second : leaf.EndsIn fs chain other) :
    result = other := by
  induction first generalizing other with
  | again known =>
    cases second with
    | again => rfl
    | unread fresh => exact absurd known fresh
    | body _ fresh => exact absurd known fresh
  | unread fresh failed =>
    cases second with
    | again known => exact absurd known fresh
    | unread _ failed' => rw [Except.error.inj (failed.symm.trans failed')]
    | body _ _ found => simp [failed] at found
  | body results fresh found inner ih =>
    cases second with
    | again known => exact absurd known fresh
    | unread _ failed => simp [found] at failed
    | body results' _ found' inner' =>
      rw [found] at found'
      obtain rfl := Except.ok.inj found'
      rw [spliceBlocks_congr _ fun leaf member => ih leaf member (inner' leaf member)]

/-- An inclusion ends alike in other files where all that is inside it names the same documents. -/
theorem EndsIn.transfer {others : FileSystem} (ends : leaf.EndsIn fs chain result)
    (same : ∀ inner, ReflTransGen (Within fs) inner leaf →
      inner.document others = inner.document fs) : leaf.EndsIn others chain result := by
  induction ends with
  | again known => exact .again known
  | unread fresh failed => exact .unread fresh ((same _ .refl).trans failed)
  | body results fresh found _ ih =>
    refine .body results fresh ((same _ .refl).trans found) fun other member => ?_
    exact ih other member fun deep inside => same deep (inside.tail ⟨_, found, member⟩)

/-- With room left, an inclusion that is not on the chain comes out as its document is worked off. -/
theorem expandWithin_fresh {room : Nat} {d : Document} (fresh : leaf.target ∉ chain)
    (found : leaf.document fs = .ok d) : expandWithin fs (room + 1) chain leaf =
      (spliceBlocks (expandWithin fs room (leaf.target :: chain)) d.blocks).result := by
  rw [expandWithin, if_neg fresh, found]
  simp only [Progress.result]
  cases (spliceBlocks (expandWithin fs room (leaf.target :: chain)) d.blocks).stopped <;> rfl

/-- What an expansion with room for all that can come up gives for an inclusion is what the
inclusion ends in. -/
theorem endsIn_expandWithin {room : Nat}
    (known : ∀ inner, ReflTransGen (Within fs) inner leaf → inner.target ∈ names)
    (fits : (names.filter (· ∉ chain)).length ≤ room) :
    leaf.EndsIn fs chain (expandWithin fs room chain leaf) := by
  -- one reference more on the chain takes up one of the room, so without room all are on the chain
  induction room generalizing chain leaf with
  | zero =>
    rw [expandWithin]
    exact .again (mem_of_full (known leaf .refl) fits)
  | succ room ih =>
    by_cases again : leaf.target ∈ chain
    · rw [expandWithin, if_pos again]
      exact .again again
    · cases found : leaf.document fs with
      | error e =>
        rw [expandWithin, if_neg again, found]
        exact .unread again found
      | ok d =>
        have shorter := room_of_push (known leaf .refl) again
        rw [expandWithin_fresh again found]
        refine .body (expandWithin fs room (leaf.target :: chain)) again found ?_
        intro other member
        have within : Within fs other leaf := ⟨d, found, member⟩
        exact ih (fun deep inside => known deep (inside.tail within)) (by omega)

end Inclusion

namespace Document

open Inclusion

variable {fs : FileSystem} {chain grown : List Reference} {d e : Document}

/-- The work on a document ends in what its expansion gives. -/
theorem endsIn_expandFrom (fs : FileSystem) (chain : List Reference) (d : Document) :
    d.EndsIn fs chain (d.expandFrom fs chain) := by
  refine ⟨expandWithin fs (d.reachable fs).length chain, fun leaf member => ?_, rfl⟩
  exact endsIn_expandWithin (fun _ => target_mem_reachable member) (List.length_filter_le _ _)

/-- The work on a document ends in one way only. -/
theorem EndsIn.unique {p q : Progress InclusionError Document} (first : d.EndsIn fs chain p)
    (second : d.EndsIn fs chain q) : p = q := by
  obtain ⟨results, ends, rfl⟩ := first
  obtain ⟨results', ends', rfl⟩ := second
  rw [spliceBlocks_congr d.blocks fun leaf member => (ends leaf member).unique (ends' leaf member)]

/-- A document is expanded alike in other files where all that is inside its inclusions names the
same documents. -/
theorem expandFrom_congr {others : FileSystem}
    (same : ∀ leaf ∈ d.inclusions, ∀ inner, ReflTransGen (Within fs) inner leaf →
      inner.document others = inner.document fs) :
    d.expandFrom others chain = d.expandFrom fs chain := by
  obtain ⟨results, ends, shape⟩ := endsIn_expandFrom fs chain d
  have moved : d.EndsIn others chain (d.expandFrom fs chain) :=
    ⟨results, fun leaf member => (ends leaf member).transfer (same leaf member), shape⟩
  exact (endsIn_expandFrom others chain d).unique moved

/-- Every inclusion that a branch comes to is inside an inclusion of the document. -/
theorem Branch.inside (branch : d.Branch fs chain grown e) :
    ∀ leaf ∈ e.inclusions, ∃ first ∈ d.inclusions, ReflTransGen (Within fs) leaf first := by
  induction branch with
  | start => exact fun leaf member => ⟨leaf, member, .refl⟩
  | deeper _ member _ found ih =>
    intro other inner
    obtain ⟨first, start, inside⟩ := ih _ member
    exact ⟨first, start, .head ⟨_, found, inner⟩ inside⟩

/-- Going down a branch never adds a reference twice, or one that was on the chain before, or one
that the files and the document do not name. -/
theorem Branch.distinct (branch : d.Branch fs chain grown e) :
    grown.Nodup ∧ ∀ r ∈ grown, r ∉ chain ∧ r ∈ d.reachable fs := by
  induction branch with
  | start => exact ⟨List.nodup_nil, fun _ member => absurd member List.not_mem_nil⟩
  | deeper branch member fresh _ ih =>
    obtain ⟨distinct, known⟩ := ih
    obtain ⟨first, start, inside⟩ := branch.inside _ member
    rw [List.mem_append, not_or] at fresh
    refine ⟨List.nodup_cons.2 ⟨fresh.1, distinct⟩, ?_⟩
    rw [List.forall_mem_cons]
    exact ⟨⟨fresh.2, target_mem_reachable start inside⟩, known⟩

/-- Every expansion ends, by finitely many uses of the rules and in exactly one way, which is what
`expandFrom` computes. On each branch the references that were added to the chain are pairwise
distinct and new on it, and each is the target of an inclusion of the document or named by an
inclusion line of a file, as looked up where an inclusion of the document is. So the work is nested
no deeper than there are such references. -/
theorem expandFrom_ends (fs : FileSystem) (chain : List Reference) (d : Document) :
    (∀ p, d.EndsIn fs chain p ↔ p = d.expandFrom fs chain) ∧
      ∀ grown e, d.Branch fs chain grown e →
        grown.Nodup ∧ (∀ r ∈ grown, r ∉ chain ∧ r ∈ d.reachable fs) ∧
          grown.length ≤ (d.reachable fs).dedup.length := by
  constructor
  · intro p
    constructor
    · intro ends
      exact ends.unique (endsIn_expandFrom fs chain d)
    · rintro rfl
      exact endsIn_expandFrom fs chain d
  · intro grown e branch
    obtain ⟨distinct, known⟩ := branch.distinct
    have listed : grown ⊆ (d.reachable fs).dedup :=
      fun r member => List.mem_dedup.2 (known r member).2
    exact ⟨distinct, known, (distinct.subperm listed).length_le⟩

end Document

end WikiPress

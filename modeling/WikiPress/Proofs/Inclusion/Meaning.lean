import Mathlib.Tactic.Choose
import WikiPress.Document.Same
import WikiPress.Inclusion.Expand
import WikiPress.Proofs.Inclusion.Substitution

/-!
# What inclusions stand for

An inclusion stands for the body of the document it names, with the bodies that the inclusions of
that document stand for put in their places (`Inclusion.StandsFor`). The relation knows no chain of
documents and no bound on their nesting. It gives an inclusion one body at most, and that body holds
no inclusion. A document that can be expanded becomes its substitution by these bodies, whatever
chain the work started from (`expandFrom_substitutes`).
-/

namespace WikiPress

/-- The inclusion stands for the blocks in the files of `fs`, and that many inclusions have been
replaced inside them. -/
inductive Inclusion.StandsFor (fs : FileSystem) : Inclusion → List Block → Nat → Prop
  /-- The body of the named document, after its own inclusions have been replaced. -/
  | body {leaf : Inclusion} {d : Document} (bodies : Inclusion → List Block)
      (nested : Inclusion → Nat) (found : leaf.document fs = .ok d)
      (inner : ∀ other ∈ d.inclusions, StandsFor fs other (bodies other) (nested other)) :
      StandsFor fs leaf (substituteBlocks bodies d.blocks) (replacedIn nested d.inclusions)

/-- The document `e` is `d` with every inclusion replaced by the body it stands for, and `n`
inclusions have been replaced on the way, those inside the bodies among them. -/
def Document.ExpandsTo (fs : FileSystem) (d e : Document) (n : Nat) : Prop :=
  ∃ (bodies : Inclusion → List Block) (nested : Inclusion → Nat),
    (∀ leaf ∈ d.inclusions, leaf.StandsFor fs (bodies leaf) (nested leaf)) ∧
      e = { d with blocks := substituteBlocks bodies d.blocks } ∧
      n = replacedIn nested d.inclusions

namespace Inclusion

variable {fs : FileSystem} {leaf : Inclusion} {blocks : List Block} {n : Nat}

/-- An inclusion stands for one body only. -/
theorem StandsFor.unique (first : leaf.StandsFor fs blocks n) {others : List Block} {m : Nat}
    (second : leaf.StandsFor fs others m) : blocks = others ∧ n = m := by
  induction first generalizing others m with
  | body bodies nested found inner ih =>
    cases second with
    | body bodies' nested' found' inner' =>
      rw [found] at found'
      obtain rfl := Except.ok.inj found'
      have agree := fun other member => ih other member (inner' other member)
      exact ⟨substituteBlocks_congr _ fun other member => (agree other member).1,
        replacedIn_congr fun other member => (agree other member).2⟩

/-- No inclusion is left in what an inclusion stands for. -/
theorem StandsFor.complete (stands : leaf.StandsFor fs blocks n) : inclusionsOf blocks = [] := by
  induction stands with
  | body bodies nested found inner ih =>
    rw [inclusionsOf_substituteBlocks, List.flatMap_eq_nil_iff]
    exact ih

end Inclusion

/-- What an expansion gives for an inclusion is what it stands for, under any chain and however
little room is left. -/
theorem standsFor_of_expandWithin {fs : FileSystem} {room : Nat} {chain : List Reference}
    {leaf : Inclusion} {blocks : List Block} {n : Nat}
    (expanded : expandWithin fs room chain leaf = .ok (blocks, n)) :
    leaf.StandsFor fs blocks n := by
  induction room generalizing chain leaf blocks n with
  | zero => simp [expandWithin] at expanded
  | succ room ih =>
    rw [expandWithin] at expanded
    split at expanded
    · simp at expanded
    · cases found : leaf.document fs with
      | error e => simp [found] at expanded
      | ok d =>
        simp only [found] at expanded
        split at expanded
        · simp at expanded
        · next finished =>
          obtain ⟨given, whole⟩ := spliceBlocks_of_not_stopped finished
          rw [whole] at expanded
          simp only [Except.ok.injEq, Prod.mk.injEq] at expanded
          obtain ⟨rfl, rfl⟩ := expanded
          exact .body _ _ found fun other member => ih (given other member)

namespace Document

variable {fs : FileSystem} {d e : Document} {n : Nat}

/-- A document has one expansion only. -/
theorem ExpandsTo.unique (first : d.ExpandsTo fs e n) {e' : Document} {m : Nat}
    (second : d.ExpandsTo fs e' m) : e = e' ∧ n = m := by
  obtain ⟨bodies, nested, inner, rfl, rfl⟩ := first
  obtain ⟨bodies', nested', inner', rfl, rfl⟩ := second
  have agree := fun leaf member => (inner leaf member).unique (inner' leaf member)
  constructor
  · rw [substituteBlocks_congr d.blocks fun leaf member => (agree leaf member).1]
  · exact replacedIn_congr fun leaf member => (agree leaf member).2

/-- An expansion holds no inclusion. -/
theorem ExpandsTo.complete (expansion : d.ExpandsTo fs e n) : e.inclusions = [] := by
  obtain ⟨bodies, nested, inner, rfl, rfl⟩ := expansion
  show inclusionsOf (substituteBlocks bodies d.blocks) = []
  rw [inclusionsOf_substituteBlocks, List.flatMap_eq_nil_iff]
  exact fun leaf member => (inner leaf member).complete

/-- Work on a document that nothing stopped gives its expansion. -/
theorem expandsTo_of_expandFrom {chain : List Reference}
    (finished : d.expandFrom fs chain = ⟨e, n, none⟩) : d.ExpandsTo fs e n := by
  simp only [expandFrom, Progress.mk.injEq] at finished
  obtain ⟨rfl, rfl, finished⟩ := finished
  obtain ⟨given, whole⟩ := spliceBlocks_of_not_stopped finished
  rw [whole]
  exact ⟨_, _, fun leaf member => standsFor_of_expandWithin (given leaf member), rfl, rfl⟩

/-- A document whose expansion was not stopped has become that expansion. -/
theorem expandsTo_of_not_stopped {chain : List Reference}
    (finished : (d.expandFrom fs chain).stopped = none) :
    d.ExpandsTo fs (d.expandFrom fs chain).body (d.expandFrom fs chain).replaced := by
  apply expandsTo_of_expandFrom
  rw [← finished]

/-- There is nothing to do for a document without inclusions. -/
theorem expandFrom_of_none (fs : FileSystem) (chain : List Reference)
    (none : d.inclusions = []) : d.expandFrom fs chain = ⟨d, 0, .none⟩ := by
  rw [expandFrom, spliceBlocks_of_none none]

/-- An inclusion stands for the body of the expansion of the document it names. -/
theorem standsFor_iff {leaf : Inclusion} {blocks : List Block} :
    leaf.StandsFor fs blocks n ↔
      ∃ d e, leaf.document fs = .ok d ∧ d.ExpandsTo fs e n ∧ blocks = e.blocks := by
  constructor
  · intro stands
    cases stands with
    | body bodies nested found inner =>
      exact ⟨_, _, found, ⟨bodies, nested, inner, rfl, rfl⟩, rfl⟩
  · rintro ⟨d, e, found, ⟨bodies, nested, inner, rfl, rfl⟩, rfl⟩
    exact .body bodies nested found inner

/-- A document has an expansion where each of its inclusions stands for something. -/
theorem exists_expansion
    (stand : ∀ leaf ∈ d.inclusions, ∃ blocks n, leaf.StandsFor fs blocks n) :
    ∃ e n, d.ExpandsTo fs e n := by
  choose! bodies nested inner using stand
  exact ⟨_, _, bodies, nested, inner, rfl, rfl⟩

/-- A finished expansion is the one substitution of every inclusion by what it stands for. It
leaves no inclusion at any depth, keeps the header, and has nothing left to do, in whatever files
and under whatever chain. -/
theorem expandFrom_substitutes {chain : List Reference}
    (finished : d.expandFrom fs chain = ⟨e, n, none⟩) :
    d.ExpandsTo fs e n ∧ (∀ other m, d.ExpandsTo fs other m → other = e ∧ m = n) ∧
      e.inclusions = [] ∧
      (e.title = d.title ∧ e.authors = d.authors ∧ e.verifiers = d.verifiers) ∧
      ∀ (later : FileSystem) (again : List Reference),
        e.expandFrom later again = ⟨e, 0, none⟩ := by
  have expansion := expandsTo_of_expandFrom finished
  have empty := expansion.complete
  refine ⟨expansion, fun other m second => ?_, empty, ?_, fun later again => ?_⟩
  · exact second.unique expansion
  · obtain ⟨bodies, nested, inner, rfl, rfl⟩ := expansion
    exact ⟨rfl, rfl, rfl⟩
  · exact expandFrom_of_none later again empty

/-- A section that includes a text which includes a rule, beside a list item that owns an inclusion
of that rule: three inclusions are replaced. -/
theorem expandFrom_substitutes_sample :
    ∃ (fs : FileSystem) (d e : Document),
      d.expandFrom fs [Reference.ofPath ⟨"main"⟩] = ⟨e, 3, none⟩ ∧ d.ExpandsTo fs e 3 ∧
        e.inclusions = [] ∧ sameBlocks e.blocks
          [.heading 1 [] [.paragraph (runsOf ['x']), .rule],
            .list .ordered [⟨.ordered, 1, [], [.rule]⟩]] = true := by
  let fs : FileSystem := ⟨[(["a"], .file (Utf8.encode "x\n@>include: b\n")),
    (["b"], .file (Utf8.encode "---\n"))], []⟩
  let first : Block := .inclusion ⟨Reference.resolve ⟨""⟩ "a", ⟨""⟩⟩
  let second : Block := .inclusion ⟨Reference.resolve ⟨""⟩ "b", ⟨""⟩⟩
  let d : Document :=
    { blocks := [.heading 1 [] [first], .list .ordered [⟨.ordered, 1, [], [second]⟩]] }
  let e : Document := (d.expandFrom fs [Reference.ofPath ⟨"main"⟩]).body
  have stopped : (d.expandFrom fs [Reference.ofPath ⟨"main"⟩]).stopped = none := by
    decide +kernel
  have replaced : (d.expandFrom fs [Reference.ofPath ⟨"main"⟩]).replaced = 3 := by
    decide +kernel
  have finished : d.expandFrom fs [Reference.ofPath ⟨"main"⟩] = ⟨e, 3, none⟩ := by
    rw [← stopped, ← replaced]
  obtain ⟨expansion, _, empty, _⟩ := expandFrom_substitutes finished
  exact ⟨fs, d, e, finished, expansion, empty, by decide +kernel⟩

end Document

end WikiPress

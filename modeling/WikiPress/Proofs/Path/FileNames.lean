import WikiPress.Proofs.Path.Cleaning
import WikiPress.Proofs.Text.Trimming

/-!
# File names of references

The path above one that ends in the name of an entry takes the steps in front of that name
(`Path.exists_parent`), so the reference of the path enters the name from there
(`Reference.ofPath_parent`). As a locator, the name leads from there to the same reference where no
character of it is special in a locator (`Reference.resolve_fileName`).
-/

namespace WikiPress

/-- The name of an entry: it enters that entry and nothing else. -/
def Path.IsOrdinary (name : String) : Prop :=
  isIdle name = false ∧ name ≠ ".." ∧ separator ∉ name.toList

namespace Path

/-- The name of the entry that a path leads to, if its last step enters one. -/
def fileName? (p : Path) : Option String :=
  match p.steps.getLast? with
  | some (.name name) => some name
  | _ => none

/-- A name is its own path. -/
theorem names_of_ordinary {name : String} (ordinary : IsOrdinary name) :
    (⟨name⟩ : Path).names = [name] ∧ (⟨name⟩ : Path).isAbsolute = false := by
  have single : (⟨name⟩ : Path).names = [name] := by
    rw [names, Text.pieces_of_not_mem ordinary.2.2]
    simp
  refine ⟨single, ?_⟩
  rw [← Bool.not_eq_true, isAbsolute_iff, single]
  rintro ⟨rest, follow, same⟩
  exact follow (List.cons.inj same).2.symm

/-- The name of an entry enters it. -/
theorem step?_of_ordinary {name : String} (ordinary : IsOrdinary name) :
    step? name = some (.name name) := by
  rw [step?, if_neg (by simp [ordinary.1]), if_neg ordinary.2.1]

/-- Idle names at the end take no step. -/
theorem filterMap_step?_trimIdle (names : List String) :
    (trimIdle names).filterMap step? = names.filterMap step? := by
  rw [trimIdle, List.filterMap_reverse, filterMap_step?_dropWhile, List.filterMap_reverse,
    List.reverse_reverse]

/-- A path of one name, idle ones aside, has nothing above it and takes the step of that name. -/
theorem steps_single {p : Path} {first name : String} {rest : List String}
    (spelled : p.names = first :: rest) (bare : trimIdle rest = [])
    (last : p.steps.getLast? = some (.name name)) :
    p.parent?.getD ⟨""⟩ = ⟨""⟩ ∧ p.steps = [.name name] := by
  have above : p.parent?.getD ⟨""⟩ = ⟨""⟩ := by
    simp only [parent?, spelled, bare, if_true]
    split <;> rfl
  have still : rest.filterMap step? = [] := by
    rw [← filterMap_step?_trimIdle, bare]
    rfl
  refine ⟨above, ?_⟩
  rw [steps, spelled] at last ⊢
  simp only [still, List.append_nil] at last ⊢
  by_cases top : first = "" ∧ rest ≠ []
  · rw [if_pos top] at last
    cases last
  · rw [if_neg top] at last ⊢
    by_cases dot : first = "."
    · rw [if_pos dot] at last
      cases last
    · rw [if_neg dot] at last ⊢
      cases step : step? first with
      | none => simp [step] at last
      | some taken =>
        rw [step] at last
        exact congrArg (fun own => [own]) (Option.some.inj last)

/-- The path above one that ends in a name, idle ones aside, starts where it does and takes the steps
of the names before that. -/
theorem exists_parent {p : Path} {first name : String} {rest above : List String}
    (spelled : p.names = first :: rest) (kept : trimIdle rest = above ++ [name]) :
    ∃ q, p.parent? = some q ∧ q.isAbsolute = p.isAbsolute ∧
      q.names.filterMap step? = (first :: above).filterMap step? := by
  obtain ⟨idle, split, _, _⟩ := trimIdle_append rest
  have follow : rest ≠ [] := by
    rintro rfl
    simp [trimIdle] at kept
  have parent := parent?_of_kept spelled kept
  by_cases top : first = "" ∧ trimIdle above = []
  · obtain ⟨rfl, bare⟩ := top
    have still : above.filterMap step? = [] := by rw [← filterMap_step?_trimIdle, bare]; rfl
    refine ⟨⟨"/"⟩, parent.trans (if_pos ⟨rfl, bare⟩), ?_, ?_⟩
    · rw [isAbsolute_iff.2 ⟨rest, follow, spelled⟩]
      decide
    · rw [List.filterMap_cons_none (step?_eq_none_iff.2 (by decide)), still]
      decide
  · have inside : trimIdle above ⊆ rest := by
      obtain ⟨more, front, _, _⟩ := trimIdle_append above
      intro own member
      rw [split, kept, front]
      simp [member]
    obtain ⟨shown, _, start⟩ := ofNames_shorter spelled follow inside top
    refine ⟨_, parent.trans (if_neg top), start, ?_⟩
    rw [shown, List.filterMap_cons, List.filterMap_cons, filterMap_step?_trimIdle]

end Path

namespace Reference

/-- The reference of a path that has a file name enters that name from the path above. -/
theorem ofPath_parent {p : Path} {name : String} (named : p.fileName? = some name) :
    Path.IsOrdinary name ∧ ofPath p = (ofPath (p.parent?.getD ⟨""⟩)).walk (.name name) := by
  have last : p.steps.getLast? = some (.name name) := by
    unfold Path.fileName? at named
    split at named
    · next own found => rw [found, Option.some.inj named]
    · cases named
  have ordinary : Path.IsOrdinary name := Path.proper_of_mem_steps (List.mem_of_getLast? last)
  refine ⟨ordinary, ?_⟩
  obtain ⟨first, rest, shape⟩ := List.exists_cons_of_ne_nil p.names_ne_nil
  obtain ⟨_, _, _, bare | ⟨above, own, kept, awake⟩⟩ := Path.trimIdle_append rest
  · obtain ⟨above, steps⟩ := Path.steps_single shape bare last
    rw [above, ofPath, steps]
    rfl
  · obtain ⟨taken, step⟩ := Option.ne_none_iff_exists'.1
      (mt Path.step?_eq_none_iff.1 (by simp [awake]) : Path.step? own ≠ none)
    have same : taken = .name name := by
      rw [Path.steps, shape] at last
      simp only [← Path.filterMap_step?_trimIdle rest, kept, List.filterMap_append,
        List.filterMap_cons_some step, List.filterMap_nil, ← List.append_assoc,
        List.getLast?_concat] at last
      exact Option.some.inj last
    obtain ⟨q, parent, start, walked⟩ := Path.exists_parent shape kept
    have steps : p.names.filterMap Path.step? =
        (first :: above).filterMap Path.step? ++ [.name name] := by
      rw [shape, List.filterMap_cons, List.filterMap_cons, ← Path.filterMap_step?_trimIdle rest, kept,
        List.filterMap_append, List.filterMap_cons_some step, same]
      cases Path.step? first <;> rfl
    rw [parent, Option.getD_some, ofPath_eq, ofPath_eq q, start, steps, List.foldl_concat, walked]

/-- The file name of a path leads from the path above to the same reference as the path, if it has no
backslash and no white space around it. -/
theorem resolve_fileName {p : Path} {name : String} (named : p.fileName? = some name)
    (straight : '\\' ∉ name.toList) (bare : Text.trimmed name = name) :
    resolve (p.parent?.getD ⟨""⟩) name = ofPath p := by
  obtain ⟨ordinary, entered⟩ := ofPath_parent named
  obtain ⟨single, relative⟩ := Path.names_of_ordinary ordinary
  rw [resolve, bare, Path.withSlashes_of_not_mem straight, ofPath_join relative, single,
    List.filterMap_cons_some (Path.step?_of_ordinary ordinary), entered]
  rfl

end Reference

end WikiPress

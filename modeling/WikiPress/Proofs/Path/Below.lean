import WikiPress.Proofs.Files.Walks

/-!
# Paths below a base

A relative path below a base walks the names of the base first and its own behind them
(`Path.exists_front`), so stripping the base gives it back without its idle names in front
(`Path.within?_join`). Below the base again, what was stripped leads to the same entry as before,
whatever the tree is (`Path.leadsLike_stripped`). Another extension replaces the last name and leaves
the others (`Path.names_withExtension`).
-/

namespace WikiPress

namespace Path

variable {base p : Path}

/-- There is a name in every path. -/
theorem names_ne_nil (p : Path) : p.names ≠ [] := by
  rw [names, ne_eq, List.map_eq_nil_iff]
  exact Text.pieces_ne_nil _ _

/-- A path is spelled by its names. -/
@[simp]
theorem ofNames_names (p : Path) : ofNames p.names = p := by
  have texts : (p.names.map String.toList) = Text.pieces separator p.text.toList := by
    rw [names, List.map_map]
    simp
  rw [ofNames, texts, Text.joined_pieces, String.ofList_toList]

/-- Names without separators are those of the path they spell. -/
theorem names_ofNames {parts : List String} (some : parts ≠ [])
    (whole : ∀ part ∈ parts, separator ∉ part.toList) : (ofNames parts).names = parts := by
  have apart : ∀ piece ∈ parts.map String.toList, separator ∉ piece := by
    rwa [List.forall_mem_map]
  rw [names, ofNames, String.toList_ofList, Text.pieces_joined (by simpa using some) apart,
    List.map_map]
  simp

/-- A path is absolute where an empty name stands in front of others. -/
theorem isAbsolute_iff : p.isAbsolute = true ↔ ∃ rest, rest ≠ [] ∧ p.names = "" :: rest := by
  unfold isAbsolute names
  cases shape : p.text.toList with
  | nil => simp [Text.pieces]
  | cons c more =>
    by_cases same : c = separator
    · subst same
      simp [Text.pieces, Text.pieces_ne_nil]
    · cases found : Text.pieces separator more with
      | nil => exact absurd found (Text.pieces_ne_nil _ _)
      | cons piece others => simp [Text.pieces, same, found]

/-- A text without backslashes has its slashes already. -/
theorem withSlashes_of_not_mem {text : String} (straight : '\\' ∉ text.toList) :
    withSlashes text = text := by
  have kept : ∀ c ∈ text.toList, (if c = '\\' then separator else c) = id c := by
    intro c member
    rw [if_neg, id]
    rintro rfl
    exact straight member
  rw [withSlashes, List.map_congr_left kept, List.map_id, String.ofList_toList]

/-- Slashes for backslashes leave no backslash. -/
theorem backslash_not_mem_withSlashes (text : String) : '\\' ∉ (withSlashes text).toList := by
  rw [withSlashes, String.toList_ofList, List.mem_map]
  rintro ⟨c, _, same⟩
  split at same
  · exact absurd same (by decide)
  · next other => exact other same

/-- The steps of names that others follow. -/
def leadSteps : List String → List Step
  | [] => []
  | first :: rest =>
    (if first = "" then [Step.top] else if first = "." then [Step.here] else (step? first).toList) ++
      rest.filterMap step?

/-- The steps of a path are those of names in front and those behind. -/
theorem steps_append {front more : List String} (some : front ≠ []) (others : more ≠ [])
    (split : p.names = front ++ more) : p.steps = leadSteps front ++ more.filterMap step? := by
  obtain ⟨first, rest, rfl⟩ := List.exists_cons_of_ne_nil some
  have follow : rest ++ more ≠ [] := by simp [others]
  simp only [steps, split, List.cons_append, leadSteps, follow, ne_eq, not_false_eq_true, and_true,
    List.filterMap_append, List.append_assoc]

/-- A relative path below a base that is not empty walks names of the base, whose steps are those
of the base, and then its own. -/
theorem exists_front (filled : base.text ≠ "") :
    ∃ front, front ≠ [] ∧ base.steps = leadSteps front ∧ ∀ p : Path, p.isAbsolute = false →
      (base.join p).names = front ++ p.names ∧ (base.join p).isAbsolute = base.isAbsolute := by
  have spelled : base.text.toList ≠ [] := fun empty => filled (String.toList_eq_nil_iff.1 empty)
  obtain ⟨c, start, shape⟩ := List.exists_cons_of_ne_nil spelled
  have head : ∀ text, (base.text ++ text).toList.head? = base.text.toList.head? := by
    intro text
    rw [String.toList_append, shape, List.cons_append, List.head?_cons, List.head?_cons]
  by_cases ended : base.text.toList.getLast? = some separator
  · obtain ⟨stem, whole⟩ := List.getLast?_eq_some_iff.1 ended
    have some : (Text.pieces separator stem).map String.ofList ≠ [] := by
      simpa using Text.pieces_ne_nil separator stem
    have split : base.names = (Text.pieces separator stem).map String.ofList ++ [""] := by
      rw [names, whole, Text.pieces_break, List.map_append]
      rfl
    have steps := steps_append some (List.cons_ne_nil _ _) split
    refine ⟨_, some, steps.trans (List.append_nil _), ?_⟩
    intro p relative
    have joined : base.join p = ⟨base.text ++ p.text⟩ := by
      rw [join, if_neg (by simp [relative]), if_pos (.inr ended)]
    rw [joined]
    constructor
    · rw [names, String.toList_append, whole, List.append_assoc, List.singleton_append,
        Text.pieces_break, List.map_append]
      rfl
    · rw [isAbsolute, isAbsolute, head]
  · have steps : base.steps = leadSteps base.names := by
      obtain ⟨first, rest, split⟩ := List.exists_cons_of_ne_nil base.names_ne_nil
      have named : ¬ (first = "" ∧ rest = []) := by
        rintro ⟨rfl, rfl⟩
        apply filled
        rw [← ofNames_names base, split]
        rfl
      rw [Path.steps, split, leadSteps]
      by_cases empty : first = ""
      · have more : rest ≠ [] := fun none => named ⟨empty, none⟩
        simp [empty, more]
      · simp [empty]
    refine ⟨base.names, base.names_ne_nil, steps, ?_⟩
    intro p relative
    have joined : base.join p = ⟨base.text ++ "/" ++ p.text⟩ := by
      rw [join, if_neg (by simp [relative]), if_neg (not_or.2 ⟨filled, ended⟩)]
    have text : (base.text ++ "/" ++ p.text).toList =
        base.text.toList ++ separator :: p.text.toList := by
      rw [String.toList_append, String.toList_append, List.append_assoc]
      rfl
    rw [joined]
    constructor
    · rw [names, text, Text.pieces_break, List.map_append]
      rfl
    · rw [isAbsolute, isAbsolute, String.append_assoc, head]

/-- The last name of the path is not idle. -/
def EndsAwake (p : Path) : Prop := ∃ init last, p.names = init ++ [last] ∧ isIdle last = false

/-- A path that other names stand in front of ends as it does with them. -/
theorem EndsAwake.of_append {q : Path} {front : List String} (ends : q.EndsAwake)
    (split : q.names = front ++ p.names) : p.EndsAwake := by
  obtain ⟨init, last, whole, awake⟩ := ends
  obtain ⟨own, name, shape⟩ := (List.eq_nil_or_concat' p.names).resolve_left p.names_ne_nil
  have same : front ++ own ++ [name] = init ++ [last] := by
    rw [← whole, split, shape, List.append_assoc]
  obtain ⟨_, rfl⟩ := List.append_singleton_inj.1 same
  exact ⟨own, name, shape, awake⟩

/-- A path that leads to a file ends in a name. -/
theorem endsAwake_of_file {fs : FileSystem} {bytes : List UInt8}
    (opened : fs.openEntry p = .ok (.file bytes)) : p.EndsAwake := by
  obtain ⟨_, walked, found⟩ := FileSystem.openEntry_eq_ok_iff.1 opened
  obtain ⟨init, last, shape⟩ := (List.eq_nil_or_concat' p.names).resolve_left p.names_ne_nil
  refine ⟨init, last, shape, ?_⟩
  rw [shape, FileSystem.walk_append] at walked
  obtain ⟨middle, _, behind⟩ := walked
  obtain ⟨next, entered, stays⟩ := FileSystem.walk_cons.1 behind
  obtain ⟨directory, step, _⟩ := FileSystem.enter_eq_ok_iff.1 entered
  obtain rfl := Except.ok.inj stays
  by_contra idle
  rw [Bool.not_eq_false] at idle
  rw [step, FileSystem.stepOnPaper, if_pos idle, directory] at found
  cases found

/-- Idle names are no steps. -/
theorem step?_eq_none_iff {name : String} : step? name = none ↔ isIdle name = true := by
  unfold step?
  by_cases idle : isIdle name = true
  · simp [idle]
  · by_cases up : name = ".." <;> simp [idle, up]

/-- Idle names in front take no step. -/
theorem filterMap_step?_dropWhile (names : List String) :
    (names.dropWhile isIdle).filterMap step? = names.filterMap step? := by
  induction names with
  | nil => rfl
  | cons name more ih =>
    by_cases idle : isIdle name = true
    · rw [List.dropWhile_cons_of_pos idle, ih,
        List.filterMap_cons_none (step?_eq_none_iff.2 idle)]
    · rw [List.dropWhile_cons_of_neg idle]

/-- Behind the steps of names, the names that follow them are left, without idle ones in front. -/
theorem dropSteps_append (front more : List String) :
    dropSteps (front.filterMap step?).length (front ++ more) = more.dropWhile isIdle := by
  induction front with
  | nil => cases more <;> rfl
  | cons name rest ih =>
    cases step : step? name with
    | none =>
      have idle := step?_eq_none_iff.1 step
      rw [List.filterMap_cons_none step, List.cons_append]
      cases count : (rest.filterMap step?).length with
      | zero =>
        rw [count] at ih
        rw [dropSteps, List.dropWhile_cons_of_pos idle, ← ih, dropSteps]
      | succ n =>
        rw [count] at ih
        rw [dropSteps, if_pos idle, ih]
    | some taken =>
      have awake : ¬ isIdle name = true := by
        rw [← step?_eq_none_iff, step]
        exact Option.some_ne_none taken
      rw [List.filterMap_cons_some step, List.length_cons, List.cons_append, dropSteps,
        if_neg awake, ih]

/-- A name that is not idle stays at the end. -/
theorem trimIdle_concat {init : List String} {last : String} (awake : isIdle last = false) :
    trimIdle (init ++ [last]) = init ++ [last] := by
  rw [trimIdle, List.reverse_append, List.reverse_singleton, List.singleton_append,
    List.dropWhile_cons_of_neg (by simp [awake]), List.reverse_cons, List.reverse_reverse]

/-- A name that is not idle stays behind the idle ones in front. -/
theorem dropWhile_concat (init : List String) {last : String} (awake : isIdle last = false) :
    ∃ kept, (init ++ [last]).dropWhile isIdle = kept ++ [last] := by
  induction init with
  | nil => exact ⟨[], List.dropWhile_cons_of_neg (by simp [awake])⟩
  | cons name more ih =>
    by_cases idle : isIdle name = true
    · rw [List.cons_append, List.dropWhile_cons_of_pos idle]
      exact ih
    · rw [List.cons_append, List.dropWhile_cons_of_neg idle]
      exact ⟨name :: more, rfl⟩

/-- The path without the idle names in front. -/
def stripped (p : Path) : Path := ofNames (p.names.dropWhile isIdle)

/-- The names of the path without those idle ones. -/
theorem names_stripped (ends : p.EndsAwake) : p.stripped.names = p.names.dropWhile isIdle := by
  obtain ⟨init, last, split, awake⟩ := ends
  obtain ⟨kept, same⟩ := dropWhile_concat init awake
  have some : p.names.dropWhile isIdle ≠ [] := by
    rw [split, same]
    simp
  apply names_ofNames some
  intro name member
  exact separator_not_mem ((List.dropWhile_sublist _).subset member)

/-- Without idle names in front, a path is relative. -/
theorem isAbsolute_stripped (ends : p.EndsAwake) : p.stripped.isAbsolute = false := by
  rw [← Bool.not_eq_true, isAbsolute_iff, names_stripped ends]
  rintro ⟨rest, _, split⟩
  have first := List.head?_dropWhile_not isIdle p.names
  rw [split] at first
  simp [isIdle] at first

/-- A relative path below a base that is not empty, and stripped of it, is without its idle names in
front. -/
theorem within?_join (filled : base.text ≠ "") (relative : p.isAbsolute = false)
    (ends : p.EndsAwake) : (base.join p).within? base = some p.stripped := by
  obtain ⟨front, some, own, below⟩ := exists_front filled
  have split := (below p relative).1
  have steps := steps_append some p.names_ne_nil split
  obtain ⟨first, rest, rfl⟩ := List.exists_cons_of_ne_nil some
  have starts : base.steps <+: (base.join p).steps := by
    rw [steps, own]
    exact List.prefix_append _ _
  have trimmed : trimIdle (p.names.dropWhile isIdle) = p.names.dropWhile isIdle := by
    obtain ⟨init, last, shape, awake⟩ := ends
    obtain ⟨kept, same⟩ := dropWhile_concat init awake
    rw [shape, same, trimIdle_concat awake]
  have follow : rest ++ p.names ≠ [] := by simp [p.names_ne_nil]
  have behind := dropSteps_append rest p.names
  -- the first name is a step in any case, though an idle one is not among the names that count
  have count : base.steps.length = (rest.filterMap step?).length + 1 := by
    have one : (leadSteps (first :: rest)).length = (rest.filterMap step?).length + 1 := by
      unfold leadSteps
      by_cases empty : first = ""
      · simp [empty]
      by_cases dot : first = "."
      · simp [dot]
      by_cases up : first = ".." <;> simp [empty, dot, up, step?, isIdle]
    rw [own, one]
  rw [within?, if_neg (not_not.2 starts), split, count, List.cons_append, stripped]
  by_cases lead : first = "" ∨ first = "."
  · have idle : (first = "" ∧ rest ++ p.names ≠ []) ∨ first = "." := by simpa [follow] using lead
    simp only [if_pos idle, behind, trimmed]
  · have awake : ¬ isIdle first = true := by simpa [isIdle] using lead
    have named : ¬ ((first = "" ∧ rest ++ p.names ≠ []) ∨ first = ".") := by
      simpa [follow] using lead
    simp only [if_neg named, dropSteps, if_neg awake, behind, trimmed]

/-- A path is itself below the empty base. -/
theorem within?_empty (ends : p.EndsAwake) : p.within? ⟨""⟩ = some p := by
  obtain ⟨init, last, split, awake⟩ := ends
  have none : (⟨""⟩ : Path).steps = [] := by decide
  rw [within?, none, if_neg (not_not.2 List.nil_prefix)]
  cases shape : p.names with
  | nil => exact absurd shape p.names_ne_nil
  | cons first rest =>
    have kept : trimIdle rest = rest := by
      rw [shape] at split
      cases init with
      | nil =>
        obtain ⟨_, rfl⟩ := List.cons.inj split
        rfl
      | cons start more =>
        obtain ⟨_, rfl⟩ := List.cons.inj split
        exact trimIdle_concat awake
    have named : ¬ (first = "" ∧ rest ≠ [] ∧ rest = []) := fun both => both.2.1 both.2.2
    have whole : ofNames (first :: rest) = p := by rw [← shape, ofNames_names]
    simp only [List.length_nil, kept, if_neg named, whole]

/-- The two paths take the same steps and lead to the same entry, whatever the tree is. -/
def LeadsLike (p q : Path) : Prop :=
  p.steps = q.steps ∧ ∀ fs : FileSystem, fs.openEntry p = fs.openEntry q

/-- A path leads as it does itself. -/
theorem LeadsLike.refl (p : Path) : p.LeadsLike p := ⟨rfl, fun _ => rfl⟩

/-- Paths lead like each other. -/
theorem LeadsLike.symm {q : Path} (alike : p.LeadsLike q) : q.LeadsLike p :=
  ⟨alike.1.symm, fun fs => (alike.2 fs).symm⟩

/-- Paths that lead like the same one lead like each other. -/
theorem LeadsLike.trans {q r : Path} (one : p.LeadsLike q) (two : q.LeadsLike r) : p.LeadsLike r :=
  ⟨one.1.trans two.1, fun fs => (one.2 fs).trans (two.2 fs)⟩

/-- A character that is no separator is in a path where it is in one of its names. -/
theorem mem_text_iff {c : Char} (other : c ≠ separator) :
    c ∈ p.text.toList ↔ ∃ name ∈ p.names, c ∈ name.toList := by
  rw [← Text.exists_mem_pieces_iff other, names]
  simp

/-- A path is taken where it is not empty and no name holds a null character. -/
theorem refusal?_eq_none_iff : FileSystem.refusal? p = none ↔
    p.text ≠ "" ∧ ∀ name ∈ p.names, ∀ c ∈ name.toList, c.toNat ≠ 0 := by
  have null : p.text.toList.any (·.toNat = 0) = true ↔
      ∃ name ∈ p.names, ∃ c ∈ name.toList, c.toNat = 0 := by
    rw [List.any_eq_true]
    constructor
    · rintro ⟨c, member, zero⟩
      have other : c ≠ separator := by
        rintro rfl
        exact absurd zero (by decide)
      obtain ⟨name, inside, held⟩ := (mem_text_iff other).1 member
      exact ⟨name, inside, c, held, of_decide_eq_true zero⟩
    · rintro ⟨name, inside, c, held, zero⟩
      have other : c ≠ separator := by
        rintro rfl
        exact absurd zero (by decide)
      exact ⟨c, (mem_text_iff other).2 ⟨name, inside, held⟩, decide_eq_true zero⟩
  unfold FileSystem.refusal?
  by_cases found : p.text.toList.any (·.toNat = 0) = true
  · obtain ⟨name, inside, c, held, zero⟩ := null.1 found
    rw [if_pos found]
    simp only [reduceCtorEq, false_iff, not_and]
    exact fun _ clear => clear name inside c held zero
  · have clear : ∀ name ∈ p.names, ∀ c ∈ name.toList, c.toNat ≠ 0 :=
      fun name inside c held zero => found (null.2 ⟨name, inside, c, held, zero⟩)
    rw [if_neg found]
    by_cases empty : p.text = ""
    · simp [empty]
    · simpa [empty] using clear

section Walks

variable (fs : FileSystem) {location : Location} {name last : String} {more other : List String}

/-- An idle name that others follow does not matter to a walk: they ask for a directory as well. -/
theorem walk_idle (idle : isIdle name = true) (follow : more ≠ []) :
    fs.walk location (name :: more) = fs.walk location more := by
  obtain ⟨next, rest, rfl⟩ := List.exists_cons_of_ne_nil follow
  rw [FileSystem.walk, FileSystem.enter]
  cases there : fs.find? location with
  | none => simp only [FileSystem.walk, FileSystem.enter, there]
  | some entry =>
    cases entry with
    | file bytes => simp only [FileSystem.walk, FileSystem.enter, there]
    | directory => simp only [idle, if_true]

/-- Idle names in front do not matter to a walk that goes on behind them. -/
theorem walk_dropWhile (init : List String) (awake : isIdle last = false) (location : Location) :
    fs.walk location ((init ++ [last]).dropWhile isIdle) = fs.walk location (init ++ [last]) := by
  induction init generalizing location with
  | nil => rw [List.nil_append, List.dropWhile_cons_of_neg (by simp [awake])]
  | cons name more ih =>
    rw [List.cons_append]
    by_cases idle : isIdle name = true
    · rw [List.dropWhile_cons_of_pos idle, ih, walk_idle fs idle (by simp)]
    · rw [List.dropWhile_cons_of_neg idle]

/-- Walks that go on alike are alike. -/
theorem walk_append_congr (front : List String)
    (same : ∀ location, fs.walk location more = fs.walk location other) :
    fs.walk location (front ++ more) = fs.walk location (front ++ other) := by
  induction front generalizing location with
  | nil => exact same location
  | cons name rest ih =>
    rw [List.cons_append, List.cons_append, FileSystem.walk, FileSystem.walk]
    cases fs.enter location name with
    | error e => rfl
    | ok next => exact ih

end Walks

/-- A path below a base leads to the same entry without its idle names in front. -/
theorem leadsLike_stripped (filled : base.text ≠ "") (relative : p.isAbsolute = false)
    (ends : p.EndsAwake) (taken : FileSystem.refusal? (base.join p) = none) :
    (base.join p.stripped).LeadsLike (base.join p) := by
  obtain ⟨front, some, _, below⟩ := exists_front filled
  obtain ⟨names, start⟩ := below p relative
  obtain ⟨names', start'⟩ := below p.stripped (isAbsolute_stripped ends)
  rw [names_stripped ends] at names'
  have less : p.names.dropWhile isIdle ≠ [] := by
    rw [← names_stripped ends]
    exact names_ne_nil _
  obtain ⟨init, last, split, awake⟩ := ends
  constructor
  · rw [steps_append some less names', steps_append some p.names_ne_nil names,
      filterMap_step?_dropWhile]
  · intro fs
    have free : FileSystem.refusal? (base.join p.stripped) = none := by
      obtain ⟨_, clear⟩ := refusal?_eq_none_iff.1 taken
      refine refusal?_eq_none_iff.2 ⟨?_, ?_⟩
      · intro empty
        have single : (base.join p.stripped).names.length = 1 := by
          rw [Path.names, empty]
          rfl
        rw [names', List.length_append] at single
        have one := List.length_pos_iff.2 some
        have another := List.length_pos_iff.2 less
        omega
      · intro name member
        apply clear
        rw [names', List.mem_append] at member
        rw [names, List.mem_append]
        exact member.imp_right fun inside => (List.dropWhile_sublist _).subset inside
    have begun : fs.startOf (base.join p.stripped) = fs.startOf (base.join p) := by
      rw [FileSystem.startOf, FileSystem.startOf, start', start]
    have walked : fs.walk (fs.startOf (base.join p)) (base.join p.stripped).names =
        fs.walk (fs.startOf (base.join p)) (base.join p).names := by
      rw [names, names', split]
      exact walk_append_congr fs front (walk_dropWhile fs init awake)
    rw [FileSystem.openEntry, FileSystem.openEntry, free, taken, begun, walked]

/-- No character comes to a path without idle names in front, separators apart. -/
theorem mem_of_stripped {c : Char} (ends : p.EndsAwake) (other : c ≠ separator)
    (member : c ∈ p.stripped.text.toList) : c ∈ p.text.toList := by
  rw [mem_text_iff other, names_stripped ends] at member
  obtain ⟨name, inside, held⟩ := member
  exact (mem_text_iff other).2 ⟨name, (List.dropWhile_sublist _).subset inside, held⟩

section Extensions

variable {extension : String}

/-- A path with another extension is itself or has another last name, whose characters are those of
an old name, points and those of the extension. -/
theorem withExtension_cases (p : Path) (extension : String) :
    p.withExtension extension = p ∨ ∃ before name behind renamed,
      p.names = before ++ name :: behind ∧ p.withExtension extension = ofNames (before ++ [renamed]) ∧
        ∀ c ∈ renamed.toList, c ∈ name.toList ∨ c = '.' ∨ c ∈ extension.toList := by
  have whole := List.takeWhile_append_dropWhile (p := isIdle) (l := p.names.reverse)
  unfold withExtension
  cases shape : p.names.reverse.dropWhile isIdle with
  | nil => exact .inl rfl
  | cons name before =>
    have split : p.names = before.reverse ++ name :: (p.names.reverse.takeWhile isIdle).reverse := by
      have turned := congrArg List.reverse whole
      rw [shape, List.reverse_reverse, List.reverse_append, List.reverse_cons, List.append_assoc,
        List.singleton_append] at turned
      exact turned.symm
    simp only
    by_cases up : name = ".."
    · rw [if_pos up]
      exact .inl rfl
    rw [if_neg up]
    refine .inr ⟨_, name, _, _, split, rfl, ?_⟩
    intro c member
    cases cut : cutExtension name.toList with
    | none =>
      rw [cut] at member
      simp only [String.toList_append, List.mem_append] at member
      rcases member with (old | point) | new
      · exact .inl old
      · exact .inr (.inl (by simpa using point))
      · exact .inr (.inr new)
    | some parts =>
      obtain ⟨stem, ending⟩ := parts
      have kept : stem ⊆ name.toList := by
        unfold cutExtension at cut
        split at cut
        · cases cut
        · next found =>
          split at cut
          · cases cut
          · obtain ⟨rfl, rfl⟩ := Prod.mk.inj (Option.some.inj cut)
            intro c inside
            have all := (List.append_subset.1 (Text.cut_subset found)).2
            simpa using all (List.mem_reverse.1 inside)
      simp only [cut] at member
      split at member
      · have points : "..".toList = ['.', '.'] := rfl
        exact .inr (.inl (by simpa [points] using member))
      · simp only [String.toList_append, String.toList_ofList, List.mem_append] at member
        rcases member with (old | point) | new
        · exact .inl (kept old)
        · exact .inr (.inl (by simpa using point))
        · exact .inr (.inr new)

/-- The names of a path with another extension are spelled out as they are. -/
theorem names_withExtension (bare : separator ∉ extension.toList) :
    p.withExtension extension = p ∨ ∃ before name behind renamed,
      p.names = before ++ name :: behind ∧ (p.withExtension extension).names = before ++ [renamed] ∧
        ∀ c ∈ renamed.toList, c ∈ name.toList ∨ c = '.' ∨ c ∈ extension.toList := by
  obtain same | ⟨before, name, behind, renamed, split, whole, chars⟩ :=
    withExtension_cases p extension
  · exact .inl same
  · refine .inr ⟨before, name, behind, renamed, split, ?_, chars⟩
    rw [whole]
    apply names_ofNames (by simp)
    have own : ∀ part ∈ p.names, separator ∉ part.toList := fun part => separator_not_mem
    rw [split, List.forall_mem_append, List.forall_mem_cons] at own
    rw [List.forall_mem_append, List.forall_mem_singleton]
    refine ⟨own.1, fun member => ?_⟩
    obtain old | point | new := chars _ member
    · exact own.2.1 old
    · exact absurd point (by decide)
    · exact bare new

/-- A relative path is relative with another extension as well. -/
theorem isAbsolute_withExtension (bare : separator ∉ extension.toList)
    (relative : p.isAbsolute = false) : (p.withExtension extension).isAbsolute = false := by
  obtain same | ⟨before, name, behind, renamed, split, names, _⟩ :=
    names_withExtension (p := p) bare
  · rw [same, relative]
  · rw [← Bool.not_eq_true, isAbsolute_iff] at relative ⊢
    rintro ⟨rest, follow, shape⟩
    apply relative
    rw [names] at shape
    cases before with
    | nil =>
      obtain ⟨_, rfl⟩ := List.cons.inj shape
      exact absurd rfl follow
    | cons first more =>
      obtain ⟨rfl, _⟩ := List.cons.inj shape
      exact ⟨more ++ name :: behind, by simp, split⟩

/-- A character that is neither a separator nor a point nor of the extension is of the old path. -/
theorem mem_of_withExtension {c : Char} (bare : separator ∉ extension.toList)
    (member : c ∈ (p.withExtension extension).text.toList) (other : c ≠ separator)
    (pointless : c ≠ '.') (new : c ∉ extension.toList) : c ∈ p.text.toList := by
  obtain same | ⟨before, name, behind, renamed, split, names, chars⟩ :=
    names_withExtension (p := p) bare
  · rwa [same] at member
  · rw [mem_text_iff other, names] at member
    rw [mem_text_iff other, split]
    obtain ⟨own, inside, held⟩ := member
    rw [List.mem_append, List.mem_singleton] at inside
    rcases inside with front | rfl
    · exact ⟨own, List.mem_append_left _ front, held⟩
    · obtain old | point | late := chars c held
      · exact ⟨name, by simp, old⟩
      · exact absurd point pointless
      · exact absurd late new

end Extensions

end Path

namespace Reference

/-- Steps of names that do not lead up add the names that are not idle to a reference. -/
theorem foldl_walk_down {names : List String} (down : ".." ∉ names) (r : Reference) :
    (names.filterMap Path.step?).foldl walk r =
      ⟨r.rooted, r.names ++ names.filter (! Path.isIdle ·)⟩ := by
  induction names generalizing r with
  | nil => rw [List.filter_nil, List.append_nil]; rfl
  | cons name rest ih =>
    rw [List.mem_cons, not_or] at down
    by_cases idle : Path.isIdle name = true
    · rw [List.filterMap_cons_none (Path.step?_eq_none_iff.2 idle), ih down.2,
        List.filter_cons_of_neg (by simp [idle])]
    · have step : Path.step? name = some (.name name) := by
        rw [Path.step?, if_neg idle, if_neg (Ne.symm down.1)]
      rw [List.filterMap_cons_some step, List.foldl_cons, ih down.2,
        List.filter_cons_of_pos (by simp [idle])]
      simp only [walk, List.append_assoc, List.singleton_append]

/-- The reference of a path is where its names lead from the top directory or from nowhere. -/
theorem ofPath_eq (p : Path) :
    ofPath p = (p.names.filterMap Path.step?).foldl walk ⟨p.isAbsolute, []⟩ := by
  obtain ⟨first, rest, shape⟩ := List.exists_cons_of_ne_nil p.names_ne_nil
  rw [ofPath, Path.steps, shape]
  by_cases top : first = "" ∧ rest ≠ []
  · obtain ⟨rfl, follow⟩ := top
    have absolute : p.isAbsolute = true := Path.isAbsolute_iff.2 ⟨rest, follow, shape⟩
    have idle : Path.step? "" = none := Path.step?_eq_none_iff.2 (by decide)
    rw [List.filterMap_cons_none idle, absolute]
    simp only [ne_eq, follow, not_false_eq_true, and_self, if_true]
    rfl
  · have relative : p.isAbsolute = false := by
      rw [← Bool.not_eq_true, Path.isAbsolute_iff, shape]
      rintro ⟨others, follow, same⟩
      obtain ⟨rfl, rfl⟩ := List.cons.inj same
      exact top ⟨rfl, follow⟩
    rw [relative]
    simp only [if_neg top]
    by_cases dot : first = "."
    · rw [if_pos dot, List.filterMap_cons_none (Path.step?_eq_none_iff.2 (by rw [dot]; rfl))]
      rfl
    · rw [if_neg dot]
      cases step : Path.step? first with
      | none => rw [List.filterMap_cons_none step]; rfl
      | some taken => rw [List.filterMap_cons_some step]; rfl

/-- The steps of names leave a reference at the top directory or away from it. -/
theorem rooted_foldl_walk (names : List String) (r : Reference) :
    ((names.filterMap Path.step?).foldl walk r).rooted = r.rooted := by
  induction names generalizing r with
  | nil => rfl
  | cons name rest ih =>
    by_cases idle : Path.isIdle name = true
    · rw [List.filterMap_cons_none (Path.step?_eq_none_iff.2 idle), ih]
    · by_cases up : name = ".."
      · have step : Path.step? name = some .up := by rw [Path.step?, if_neg idle, if_pos up]
        rw [List.filterMap_cons_some step, List.foldl_cons, ih, walk]
        split <;> rfl
      · have step : Path.step? name = some (.name name) := by
          rw [Path.step?, if_neg idle, if_neg up]
        rw [List.filterMap_cons_some step, List.foldl_cons, ih]
        rfl

/-- The reference of a path starts at the top directory where the path does. -/
theorem rooted_ofPath (p : Path) : (ofPath p).rooted = p.isAbsolute := by
  rw [ofPath_eq, rooted_foldl_walk]

/-- The reference of a relative path below a base goes on from the reference of the base. -/
theorem ofPath_join {p : Path} (relative : p.isAbsolute = false) (base : Path) :
    ofPath (base.join p) = (p.names.filterMap Path.step?).foldl walk (ofPath base) := by
  by_cases filled : base.text = ""
  · have itself : base.join p = p := by
      rw [Path.join, if_neg (by simp [relative]), if_pos (.inl filled), filled, String.empty_append]
    obtain rfl : base = ⟨""⟩ := congrArg Path.mk filled
    rw [itself, ofPath_eq, relative]
    rfl
  · obtain ⟨front, some, own, below⟩ := Path.exists_front filled
    rw [ofPath, Path.steps_append some p.names_ne_nil (below p relative).1, List.foldl_append, ← own]
    rfl

end Reference

namespace Path

/-- All relative paths below a base start in the same place, walk the names of the base first and
go on from the same reference. -/
theorem exists_below (fs : FileSystem) (base : Path) :
    ∃ front start r, ∀ p : Path, p.isAbsolute = false →
      (base.join p).names = front ++ p.names ∧ fs.startOf (base.join p) = start ∧
      Reference.ofPath (base.join p) = (p.names.filterMap step?).foldl Reference.walk r := by
  by_cases filled : base.text = ""
  · refine ⟨[], fs.current, Reference.ofPath base, fun p relative => ?_⟩
    have itself : base.join p = p := by
      rw [join, if_neg (by simp [relative]), if_pos (.inl filled), filled, String.empty_append]
    refine ⟨by rw [itself]; rfl, ?_, Reference.ofPath_join relative base⟩
    rw [itself, FileSystem.startOf, if_neg (by simp [relative])]
  · obtain ⟨front, _, _, below⟩ := exists_front filled
    refine ⟨front, if base.isAbsolute then [] else fs.current, Reference.ofPath base,
      fun p relative => ?_⟩
    obtain ⟨split, start⟩ := below p relative
    exact ⟨split, by rw [FileSystem.startOf, start], Reference.ofPath_join relative base⟩

end Path

end WikiPress

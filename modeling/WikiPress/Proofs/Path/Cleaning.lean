import Mathlib.Data.List.Induction
import Mathlib.Data.List.Infix
import WikiPress.Proofs.Files.Directories

/-!
# Places of references

A reference is a path with its steps upward taken on paper. The two lead to the same place as long as
a step upward leaves a name that was entered (`Reference.placeFrom_walk`). Where no name is left, one
step upward is kept as a name of its own, and the next one leaves that name instead of going further
up. So the reference of a relative path leads to the place of the path exactly where the path never
stands two directories above its start (`place_reference_iff`), and otherwise at least two directories
below that place.
-/

namespace WikiPress

namespace Path

/-- The step enters an entry. -/
def Step.isName : Step → Bool
  | .name _ => true
  | _ => false

/-- The walk never stands two directories above its start. -/
def StaysNear (steps : List Step) : Prop :=
  ∀ front, front <+: steps → front.count .up ≤ front.countP Step.isName + 1

instance (steps : List Step) : Decidable (StaysNear steps) :=
  decidable_of_iff (∀ front ∈ steps.inits, front.count .up ≤ front.countP Step.isName + 1)
    (by simp [StaysNear])

/-- The walk stays near up to its last step, and then it is not too far. -/
theorem staysNear_concat {steps : List Step} {step : Step} :
    StaysNear (steps ++ [step]) ↔ StaysNear steps ∧
      (steps ++ [step]).count .up ≤ (steps ++ [step]).countP Step.isName + 1 := by
  constructor
  · intro near
    exact ⟨fun front start => near front (start.trans (List.prefix_append _ _)),
      near _ List.prefix_rfl⟩
  · rintro ⟨near, last⟩ front start
    obtain rfl | before := List.prefix_concat_iff.1 start
    · exact last
    · exact near front before

/-- Only an absolute path starts at the top directory. -/
theorem top_not_mem_steps {p : Path} (relative : p.isAbsolute = false) : Step.top ∉ p.steps := by
  obtain ⟨first, rest, shape⟩ := List.exists_cons_of_ne_nil p.names_ne_nil
  have named : ¬ (first = "" ∧ rest ≠ []) := by
    rintro ⟨rfl, follow⟩
    exact Bool.false_ne_true (relative.symm.trans (isAbsolute_iff.2 ⟨rest, follow, shape⟩))
  have never : ∀ name, step? name ≠ some .top := by
    intro name
    unfold step?
    split
    · simp
    · split <;> simp
  rw [steps, shape]
  simp only [if_neg named, List.mem_append, not_or]
  constructor
  · split
    · simp
    · intro member
      exact never first (Option.mem_toList.1 member)
  · intro member
    obtain ⟨name, _, given⟩ := List.mem_filterMap.1 member
    exact never name given

end Path

namespace FileSystem

/-- Where a step leads on paper. -/
def stepTo (location : Location) : Path.Step → Location
  | .top => []
  | .here => location
  | .up => location.tail
  | .name name => name :: location

/-- Names lead where their steps do. -/
theorem onPaper_eq_foldl (location : Location) (names : List String) :
    onPaper location names = (names.filterMap Path.step?).foldl stepTo location := by
  induction names generalizing location with
  | nil => rfl
  | cons name rest ih =>
    show onPaper (stepOnPaper location name) rest = _
    rw [ih]
    unfold stepOnPaper
    by_cases idle : Path.isIdle name = true
    · have step : Path.step? name = none := Path.step?_eq_none_iff.2 idle
      rw [if_pos idle, List.filterMap_cons_none step]
    · by_cases up : name = ".."
      · have step : Path.step? name = some .up := by rw [Path.step?, if_neg idle, if_pos up]
        rw [if_neg idle, if_pos up, List.filterMap_cons_some step, List.foldl_cons, stepTo]
      · have step : Path.step? name = some (.name name) := by
          rw [Path.step?, if_neg idle, if_neg up]
        rw [if_neg idle, if_neg up, List.filterMap_cons_some step, List.foldl_cons, stepTo]

/-- A path leads where its steps do. -/
theorem place_eq_foldl (fs : FileSystem) (p : Path) :
    fs.place p = p.steps.foldl stepTo fs.current := by
  obtain ⟨first, rest, shape⟩ := List.exists_cons_of_ne_nil p.names_ne_nil
  rw [place, onPaper_eq_foldl, Path.steps, shape]
  by_cases absolute : first = "" ∧ rest ≠ []
  · obtain ⟨rfl, follow⟩ := absolute
    have start : fs.startOf p = [] := by
      rw [startOf, if_pos (Path.isAbsolute_iff.2 ⟨rest, follow, shape⟩)]
    have step : Path.step? "" = none := Path.step?_eq_none_iff.2 (by decide)
    simp only [start, ne_eq, follow, not_false_eq_true, and_self, if_true,
      List.filterMap_cons_none step, List.singleton_append, List.foldl_cons, stepTo]
  · have start : fs.startOf p = fs.current := by
      rw [startOf, if_neg]
      intro rooted
      obtain ⟨others, follow, split⟩ := Path.isAbsolute_iff.1 rooted
      rw [shape] at split
      obtain ⟨rfl, rfl⟩ := List.cons.inj split
      exact absolute ⟨rfl, follow⟩
    simp only [start, if_neg absolute]
    by_cases dot : first = "."
    · have step : Path.step? first = none := Path.step?_eq_none_iff.2 (by rw [dot]; rfl)
      rw [if_pos dot, List.filterMap_cons_none step, List.singleton_append, List.foldl_cons, stepTo]
    · rw [if_neg dot]
      cases step : Path.step? first with
      | none => rw [List.filterMap_cons_none step]; rfl
      | some taken => rw [List.filterMap_cons_some step]; rfl

end FileSystem

namespace Reference

open FileSystem

/-- Where the names of a reference lead from a directory. -/
def placeFrom (base : Location) (r : Reference) : Location :=
  onPaper (if r.rooted then [] else base) r.names

variable {base : Location} {r : Reference} {step : Path.Step} {steps : List Path.Step}

/-- The path of a reference is absolute where the reference starts at the top directory. -/
theorem isAbsolute_path (settled : r.Settled) : r.path.isAbsolute = r.rooted := by
  have spelled := names_path settled
  rw [Bool.eq_iff_iff, Path.isAbsolute_iff]
  cases rooted : r.rooted with
  | true =>
    simp only [rooted, if_true, List.singleton_append] at spelled
    refine ⟨fun _ => rfl, fun _ => ⟨_, ?_, spelled⟩⟩
    split <;> simp_all
  | false =>
    simp only [rooted, Bool.false_eq_true, if_false, List.nil_append] at spelled
    refine ⟨?_, fun wrong => absurd wrong Bool.false_ne_true⟩
    rintro ⟨rest, follow, split⟩
    rw [spelled] at split
    cases shape : r.names with
    | nil =>
      rw [if_pos shape] at split
      exact absurd (List.cons.inj split).2.symm follow
    | cons first more =>
      -- a name of a reference is not empty
      rw [if_neg (by simp [shape]), shape] at split
      have awake := (settled.proper first (by simp [shape])).1
      rw [(List.cons.inj split).1] at awake
      exact absurd awake (by decide)

/-- The path of a reference leads where its names do. -/
theorem place_path (fs : FileSystem) (settled : r.Settled) :
    fs.place r.path = r.placeFrom fs.current := by
  rw [place, startOf, isAbsolute_path settled, names_path settled, placeFrom, onPaper_append]
  have idle : ∀ start, onPaper start (if r.rooted then [""] else []) = start := by
    intro start
    split <;> rfl
  rw [idle]
  by_cases empty : r.names = []
  · rw [if_pos empty, empty]
    rfl
  · rw [if_neg empty]

/-- A reference enters one name more. -/
theorem placeFrom_concat (base : Location) (rooted : Bool) (names : List String) (name : String) :
    (Reference.mk rooted (names ++ [name])).placeFrom base =
      stepOnPaper ((Reference.mk rooted names).placeFrom base) name := onPaper_append _ _ _

/-- The names that the steps enter are proper ones. -/
def AreProper (steps : List Path.Step) : Prop :=
  ∀ n, Path.Step.name n ∈ steps → Path.isIdle n = false ∧ n ≠ ".." ∧ Path.separator ∉ n.toList

/-- A step leads a reference where it leads its place, unless it goes up from a kept step upward. -/
theorem placeFrom_walk (settled : r.Settled) (proper : AreProper [step])
    (left : step = .up → r.rooted = false → r.names ≠ [".."]) :
    (r.walk step).placeFrom base = stepTo (r.placeFrom base) step := by
  obtain ⟨rooted, names⟩ := r
  cases step with
  | top => rfl
  | here => rfl
  | name n =>
    obtain ⟨awake, down, _⟩ := proper n (List.mem_singleton_self _)
    rw [walk, placeFrom_concat, stepOnPaper_name ⟨awake, down⟩, stepTo]
  | up =>
    obtain rfl | ⟨init, last, rfl⟩ := List.eq_nil_or_concat' names
    · rfl
    · have walked : (Reference.mk rooted (init ++ [last])).walk .up = ⟨rooted, init⟩ := by
        simp [walk]
      rw [walked, placeFrom_concat, stepTo]
      by_cases up : last = ".."
      · -- a kept step upward stands in front, and at the top directory it leads nowhere
        subst up
        have front : init = [] := by
          cases init with
          | nil => rfl
          | cons first more => exact absurd settled.upward (by simp)
        subst front
        cases rooted with
        | true => rfl
        | false => exact absurd rfl (left rfl rfl)
      · have awake := (settled.proper last (by simp)).1
        rw [stepOnPaper_name ⟨awake, up⟩, List.tail_cons]

/-- A relative reference leads above its start only by a single step upward. -/
theorem length_placeFrom (settled : r.Settled) (relative : r.rooted = false) :
    base.length ≤ (r.placeFrom base).length ∨ r.names = [".."] := by
  obtain ⟨rooted, names⟩ := r
  obtain rfl : rooted = false := relative
  cases names with
  | nil => exact .inl (Nat.le_refl _)
  | cons first rest =>
    have down : ".." ∉ rest := settled.upward
    have proper := settled.proper
    have awake : rest.filter (! Path.isIdle ·) = rest := by
      rw [List.filter_eq_self]
      intro name member
      simp [(proper name (List.mem_cons_of_mem _ member)).1]
    have led : (Reference.mk false (first :: rest)).placeFrom base =
        rest.reverse ++ stepOnPaper base first := by
      show onPaper (stepOnPaper base first) rest = _
      rw [onPaper_down down, awake]
    rw [led, List.length_append, List.length_reverse]
    by_cases up : first = ".."
    · subst up
      have higher : stepOnPaper base ".." = base.tail := rfl
      rw [higher, List.length_tail]
      cases rest with
      | nil => exact .inr rfl
      | cons next more =>
        left
        rw [List.length_cons]
        omega
    · left
      rw [stepOnPaper_name ⟨(proper first List.mem_cons_self).1, up⟩, List.length_cons]
      omega

/-- The names that the steps enter are proper ones, and no step goes to the top directory. -/
structure AreRelative (steps : List Path.Step) : Prop where
  proper : AreProper steps
  below : Path.Step.top ∉ steps

/-- Steps in front and the last step are steps like all of them. -/
theorem AreRelative.of_concat (relative : AreRelative (steps ++ [step])) :
    AreRelative steps ∧ AreRelative [step] :=
  ⟨⟨fun n member => relative.proper n (List.mem_append_left _ member),
      fun member => relative.below (List.mem_append_left _ member)⟩,
    ⟨fun n member => relative.proper n (List.mem_append_right _ member),
      fun member => relative.below (List.mem_append_right _ member)⟩⟩

/-- The steps of a relative path. -/
theorem areRelative_steps {p : Path} (relative : p.isAbsolute = false) : AreRelative p.steps :=
  ⟨fun _ => Path.proper_of_mem_steps, Path.top_not_mem_steps relative⟩

/-- A walk on paper without a step to the top directory ends in a settled relative reference. -/
theorem settled_foldl (relative : AreRelative steps) :
    (steps.foldl walk start).Settled ∧ (steps.foldl walk start).rooted = false := by
  have clear : start.Settled := ⟨fun _ member => absurd member List.not_mem_nil, List.not_mem_nil⟩
  refine ⟨clear.foldl_walk relative.proper, ?_⟩
  induction steps using List.reverseRecOn with
  | nil => rfl
  | append_singleton steps step ih =>
    have before := ih relative.of_concat.1
    rw [List.foldl_concat]
    cases step with
    | top => exact absurd (by simp) relative.below
    | up =>
      rw [walk]
      split <;> exact before
    | here | name => exact before

/-- From a directory that is low enough, a relative walk ends as many directories below its start as
it enters names, less one for each step upward. -/
theorem length_foldl_stepTo (relative : AreRelative steps) (room : steps.count .up ≤ base.length) :
    (steps.foldl stepTo base).length + steps.count .up =
      base.length + steps.countP Path.Step.isName := by
  induction steps using List.reverseRecOn with
  | nil => rfl
  | append_singleton steps step ih =>
    rw [List.count_append] at room
    have before := ih relative.of_concat.1 (by omega)
    rw [List.foldl_concat, List.count_append, List.countP_append]
    cases step with
    | top => exact absurd (by simp) relative.below
    | here =>
      have steady : [Path.Step.here].count .up = 0 ∧ [Path.Step.here].countP Path.Step.isName = 0 := by
        decide
      rw [steady.1, steady.2, stepTo]
      exact before
    | name n =>
      have entered : [Path.Step.name n].count .up = 0 ∧
          [Path.Step.name n].countP Path.Step.isName = 1 := ⟨by simp, rfl⟩
      rw [entered.1, entered.2, stepTo, List.length_cons]
      omega
    | up =>
      have risen : [Path.Step.up].count .up = 1 ∧ [Path.Step.up].countP Path.Step.isName = 0 := by
        decide
      rw [risen.1] at room
      rw [risen.1, risen.2, stepTo, List.length_tail]
      omega

/-- A kept step upward leads up once, and the next step upward takes it back. -/
theorem placeFrom_kept (relative : r.rooted = false) (kept : r.names = [".."]) :
    r.placeFrom base = base.tail ∧ (r.walk .up).placeFrom base = base := by
  obtain ⟨rooted, names⟩ := r
  obtain rfl : rooted = false := relative
  obtain rfl : names = [".."] := kept
  exact ⟨rfl, rfl⟩

section Steps

-- a walk has come from the base to a location, with so many steps upward and names entered
variable {location : Location} {rises names : Nat}

/-- A step that stays near the start keeps a reference at its place. -/
theorem placeFrom_near (settled : r.Settled) (unrooted : r.rooted = false)
    (relative : AreRelative [step])
    (total : location.length + rises = base.length + names)
    (room : rises + [step].count .up ≤ base.length) (same : r.placeFrom base = location)
    (near : rises + [step].count .up ≤ names + [step].countP Path.Step.isName + 1) :
    (r.walk step).placeFrom base = stepTo location step := by
  rw [← same]
  apply placeFrom_walk settled relative.proper
  rintro rfl _ kept
  -- leaving the kept step upward would be the second directory above the start
  have above : location.length = base.length - 1 := by
    rw [← same, (placeFrom_kept unrooted kept).1, List.length_tail]
  simp only [List.count_singleton_self, List.countP_singleton, Path.Step.isName, Bool.false_eq_true,
    if_false] at near room
  omega

/-- A step that leaves the neighbourhood of the start, or comes behind such a step, leads the
reference too far down. -/
theorem placeFrom_far (settled : r.Settled) (unrooted : r.rooted = false)
    (relative : AreRelative [step])
    (total : location.length + rises = base.length + names)
    (room : rises + [step].count .up ≤ base.length)
    (far : location.length + 2 ≤ (r.placeFrom base).length ∨
      r.placeFrom base = location ∧ rises ≤ names + 1 ∧
        names + [step].countP Path.Step.isName + 1 < rises + [step].count .up) :
    (stepTo location step).length + 2 ≤ ((r.walk step).placeFrom base).length := by
  by_cases kept : step = .up ∧ r.names = [".."]
  · obtain ⟨rfl, kept⟩ := kept
    obtain ⟨above, back⟩ : r.placeFrom base = base.tail ∧ (r.walk .up).placeFrom base = base :=
      placeFrom_kept unrooted kept
    have higher : (r.placeFrom base).length = base.length - 1 := by rw [above, List.length_tail]
    simp only [List.count_singleton_self] at room
    rw [back, stepTo, List.length_tail]
    rcases far with apart | ⟨same, _, _⟩
    · omega
    · rw [same] at higher
      omega
  · have led : (r.walk step).placeFrom base = stepTo (r.placeFrom base) step :=
      placeFrom_walk settled relative.proper fun up _ names => kept ⟨up, names⟩
    rw [led]
    cases step with
    | top => exact absurd (List.mem_singleton_self _) relative.below
    | here =>
      rcases far with apart | ⟨_, near, beyond⟩
      · exact apart
      · simp [Path.Step.isName] at beyond
        omega
    | name n =>
      rcases far with apart | ⟨_, near, beyond⟩
      · simpa [stepTo] using apart
      · simp [Path.Step.isName] at beyond
        omega
    | up =>
      simp only [List.count_singleton_self, List.countP_singleton, Path.Step.isName,
        Bool.false_eq_true, if_false] at room far
      rw [stepTo, stepTo, List.length_tail, List.length_tail]
      rcases far with apart | ⟨same, _, beyond⟩
      · omega
      · -- a place above the start is that of the kept step upward
        have low : base.length ≤ (r.placeFrom base).length ∨ r.names = [".."] :=
          length_placeFrom settled unrooted
        rcases low with low | alone
        · rw [same] at low
          omega
        · exact absurd ⟨rfl, alone⟩ kept

end Steps

/-- The reference of a relative walk leads where the walk does as long as the walk stays near its
start, and from then on at least two directories further down. -/
theorem placeFrom_foldl (relative : AreRelative steps) (room : steps.count .up ≤ base.length) :
    (Path.StaysNear steps → (steps.foldl walk start).placeFrom base = steps.foldl stepTo base) ∧
      (¬ Path.StaysNear steps →
        (steps.foldl stepTo base).length + 2 ≤ ((steps.foldl walk start).placeFrom base).length) := by
  induction steps using List.reverseRecOn with
  | nil => exact ⟨fun _ => rfl, fun far => absurd (by decide) far⟩
  | append_singleton steps step ih =>
    have fewer : steps.count .up ≤ base.length := by
      rw [List.count_append] at room
      omega
    obtain ⟨front, last⟩ := relative.of_concat
    obtain ⟨same, apart⟩ := ih front fewer
    obtain ⟨settled, unrooted⟩ := settled_foldl front
    have total := length_foldl_stepTo front fewer
    rw [List.count_append] at room
    rw [Path.staysNear_concat, List.foldl_concat, List.foldl_concat, List.count_append,
      List.countP_append]
    constructor
    · rintro ⟨near, bound⟩
      exact placeFrom_near settled unrooted last total room (same near) bound
    · intro far
      apply placeFrom_far settled unrooted last total room
      by_cases near : Path.StaysNear steps
      · right
        exact ⟨same near, near steps List.prefix_rfl, not_le.1 fun bound => far ⟨near, bound⟩⟩
      · exact .inl (apart near)

/-- Once at the top directory, a reference leads where the walk does. -/
theorem placeFrom_foldl_rooted (settled : r.Settled) (rooted : r.rooted = true)
    (proper : AreProper steps) :
    (steps.foldl walk r).placeFrom base = steps.foldl stepTo (r.placeFrom base) := by
  induction steps generalizing r with
  | nil => rfl
  | cons step rest ih =>
    have own : AreProper [step] := fun n member =>
      proper n (List.mem_singleton.1 member ▸ List.mem_cons_self)
    have walked := settled.walk fun n same => own n (same ▸ List.mem_singleton_self _)
    have next : (r.walk step).rooted = true := by
      cases step with
      | top => rfl
      | up =>
        rw [walk]
        split <;> exact rooted
      | here | name => exact rooted
    have led : (r.walk step).placeFrom base = stepTo (r.placeFrom base) step :=
      placeFrom_walk settled own fun _ relative => absurd rooted (by simp [relative])
    rw [List.foldl_cons, List.foldl_cons, ← led]
    exact ih walked next fun n member => proper n (List.mem_cons_of_mem _ member)

/-- The reference of a path leads to the place of the path where the path is absolute or stays near
its start. -/
theorem place_ofPath_iff (fs : FileSystem) {p : Path}
    (room : p.isAbsolute = false → p.steps.count .up ≤ fs.current.length) :
    fs.place (ofPath p).path = fs.place p ↔ p.isAbsolute = true ∨ Path.StaysNear p.steps := by
  rw [place_path fs (settled_ofPath p), place_eq_foldl, ofPath]
  cases absolute : p.isAbsolute with
  | true =>
    obtain ⟨rest, follow, shape⟩ := Path.isAbsolute_iff.1 absolute
    have steps : p.steps = .top :: rest.filterMap Path.step? := by
      rw [Path.steps, shape]
      simp [follow]
    have proper : AreProper (rest.filterMap Path.step?) := fun n member =>
      Path.proper_of_mem_steps (p := p) (steps ▸ List.mem_cons_of_mem _ member)
    have top : (start.walk .top).Settled := ⟨by simp [walk], by simp [walk]⟩
    simp only [true_or, iff_true]
    rw [steps, List.foldl_cons, placeFrom_foldl_rooted top rfl proper]
    rfl
  | false =>
    obtain ⟨same, apart⟩ := placeFrom_foldl (areRelative_steps absolute) (room absolute)
    simp only [Bool.false_eq_true, false_or]
    refine ⟨fun equal => ?_, same⟩
    by_contra far
    have longer := apart far
    rw [equal] at longer
    omega

end Reference

/-- From a directory with enough directories above it, the reference of a relative path leads to the
place of the path exactly where the path stays near its start, and the reference of an absolute path
always does. The same holds of the reference that a locator names in a directory. -/
theorem place_reference_iff (fs : FileSystem) :
    (∀ p : Path, (p.isAbsolute = false → p.steps.count .up ≤ fs.current.length) →
      (fs.place (Reference.ofPath p).path = fs.place p ↔
        p.isAbsolute = true ∨ Path.StaysNear p.steps)) ∧
    ∀ (root : Path) (locator : String),
      let joined := root.join ⟨Path.withSlashes (Text.trimmed locator)⟩
      (joined.isAbsolute = false → joined.steps.count .up ≤ fs.current.length) →
      (fs.place (Reference.resolve root locator).path = fs.place joined ↔
        joined.isAbsolute = true ∨ Path.StaysNear joined.steps) :=
  ⟨fun _ room => Reference.place_ofPath_iff fs room,
    fun _ _ room => Reference.place_ofPath_iff fs room⟩

/-- A path that turns back among its names and a locator that leaves its directory lead from `/a/b/c`
to the places of their references. -/
theorem place_reference_iff_sample :
    let fs : FileSystem := ⟨[], ["c", "b", "a"]⟩
    let p : Path := ⟨"d/../../d/../e"⟩
    let joined : Path := ⟨"s/../../x"⟩
    (p.isAbsolute = false ∧ p.steps.count .up ≤ fs.current.length ∧
        Path.StaysNear p.steps ∧ fs.place p = ["e", "b", "a"] ∧
        fs.place (Reference.ofPath p).path = fs.place p) ∧
      joined = (⟨"s"⟩ : Path).join ⟨Path.withSlashes (Text.trimmed " ..\\../x")⟩ ∧
        joined.isAbsolute = false ∧ joined.steps.count .up ≤ fs.current.length ∧
        fs.place (Reference.resolve ⟨"s"⟩ " ..\\../x").path = fs.place joined := by
  intro fs p joined
  have room : p.steps.count .up ≤ fs.current.length := by decide
  have near : Path.StaysNear p.steps := by decide
  have spelled : joined = (⟨"s"⟩ : Path).join ⟨Path.withSlashes (Text.trimmed " ..\\../x")⟩ := by
    decide
  have roomBelow : joined.steps.count .up ≤ fs.current.length := by decide
  have nearBelow : Path.StaysNear joined.steps := by decide
  obtain ⟨paths, locators⟩ := place_reference_iff fs
  refine ⟨⟨by decide, room, near, by decide, (paths p fun _ => room).2 (.inr near)⟩,
    spelled, by decide, roomBelow, ?_⟩
  have led := locators ⟨"s"⟩ " ..\\../x"
  rw [← spelled] at led
  exact (led fun _ => roomBelow).2 (.inr nearBelow)

/-- Two steps upward from `/a/b` lead to the top directory, but their reference is empty and stays
in `/a/b`. -/
theorem place_reference_lost :
    let fs : FileSystem := ⟨[], ["b", "a"]⟩
    let p : Path := ⟨"../.."⟩
    p.isAbsolute = false ∧ p.steps.count .up ≤ fs.current.length ∧
      fs.place p = [] ∧ fs.place (Reference.ofPath p).path = fs.current := by
  decide

end WikiPress

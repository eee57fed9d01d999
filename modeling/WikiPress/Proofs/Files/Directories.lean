import WikiPress.Proofs.Path.Below

/-!
# Making directories

Making the directories above a file climbs a ladder of paths: each one leads a name further than the
next, up to idle names (`Path.ladder_ancestorsWithin`). Where no file is in the way, climbing it
never fails. It makes directories of all locations that a walk to the file comes by, those on both
sides of a step upward among them, and changes nothing else
(`FileSystem.makeDirectoriesOf_ladder`).
-/

namespace WikiPress

namespace FileSystem

/-- A walk along names comes by the location, on paper. -/
def OnWay (start : Location) (names : List String) (location : Location) : Prop :=
  ∃ front, front <+: names ∧ onPaper start front = location

variable {fs : FileSystem} {tree : FileTree} {start location spot next : Location} {name : String}
  {names more idle : List String} {p : Path}

section Ways

/-- On paper, a walk goes on where its front part has led. -/
theorem onPaper_append (start : Location) (names more : List String) :
    onPaper start (names ++ more) = onPaper (onPaper start names) more := List.foldl_append

/-- Idle names lead nowhere. -/
theorem onPaper_idle (lazy : ∀ name ∈ idle, Path.isIdle name = true) :
    onPaper start idle = start := by
  induction idle with
  | nil => rfl
  | cons name rest ih =>
    rw [List.forall_mem_cons] at lazy
    show onPaper (stepOnPaper start name) rest = start
    rw [stepOnPaper, if_pos lazy.1]
    exact ih lazy.2

/-- A walk starts on its way. -/
theorem onWay_start (start : Location) (names : List String) : OnWay start names start :=
  ⟨[], List.nil_prefix, rfl⟩

/-- A walk ends on its way. -/
theorem onWay_end (start : Location) (names : List String) :
    OnWay start names (onPaper start names) := ⟨names, List.prefix_rfl, rfl⟩

/-- A walk without names stays. -/
theorem onWay_nil_iff : OnWay start [] location ↔ location = start := by
  constructor
  · rintro ⟨front, initial, rfl⟩
    rw [List.prefix_nil.1 initial]
    rfl
  · rintro rfl
    exact onWay_start _ _

/-- A walk comes by its start and then by what the rest of it comes by. -/
theorem onWay_cons_iff : OnWay start (name :: more) location ↔
    location = start ∨ OnWay (stepOnPaper start name) more location := by
  constructor
  · rintro ⟨front, initial, rfl⟩
    obtain rfl | ⟨rest, rfl, short⟩ := List.prefix_cons_iff.1 initial
    · exact .inl rfl
    · exact .inr ⟨rest, short, rfl⟩
  · rintro (rfl | ⟨front, initial, rfl⟩)
    · exact onWay_start _ _
    · exact ⟨name :: front, List.cons_prefix_cons.2 ⟨rfl, initial⟩, rfl⟩

/-- A walk along one name more comes by the place of that name, too. -/
theorem onWay_concat_iff : OnWay start (names ++ [name]) location ↔
    OnWay start names location ∨ location = onPaper start (names ++ [name]) := by
  constructor
  · rintro ⟨front, initial, rfl⟩
    obtain rfl | short := List.prefix_concat_iff.1 initial
    · exact .inr rfl
    · exact .inl ⟨front, short, rfl⟩
  · rintro (⟨front, initial, rfl⟩ | rfl)
    · exact ⟨front, initial.trans (List.prefix_append _ _), rfl⟩
    · exact onWay_end _ _

/-- Idle names at the end add nothing to a way. -/
theorem onWay_append_idle (lazy : ∀ name ∈ idle, Path.isIdle name = true) :
    OnWay start (names ++ idle) location ↔ OnWay start names location := by
  induction names generalizing start with
  | nil =>
    rw [List.nil_append, onWay_nil_iff]
    constructor
    · rintro ⟨front, initial, rfl⟩
      exact onPaper_idle fun name member => lazy name (initial.subset member)
    · rintro rfl
      exact onWay_start _ _
  | cons name rest ih => rw [List.cons_append, onWay_cons_iff, onWay_cons_iff, ih]

/-- Along directories a walk leads where it does on paper. -/
theorem walk_of_paved (paved : ∀ spot, OnWay start names spot → fs.find? spot = some .directory) :
    fs.walk start names = .ok (onPaper start names) := by
  induction names generalizing start with
  | nil => rfl
  | cons name rest ih =>
    have behind : ∀ spot, OnWay (stepOnPaper start name) rest spot →
        fs.find? spot = some .directory :=
      fun spot along => paved spot (onWay_cons_iff.2 (.inr along))
    have there : (fs.find? (stepOnPaper start name)).isSome := by
      rw [behind _ (onWay_start _ _)]
      rfl
    have entered : fs.enter start name = .ok (stepOnPaper start name) :=
      enter_eq_ok_iff.2 ⟨paved _ (onWay_start _ _), rfl, .inr (.inr there)⟩
    exact walk_cons.2 ⟨_, entered, ih behind⟩

/-- A walk that ends in a directory has come by directories only. -/
theorem paved_of_walk (walked : fs.walk start names = .ok next)
    (inside : fs.find? next = some .directory) (along : OnWay start names spot) :
    fs.find? spot = some .directory := by
  induction names generalizing start with
  | nil =>
    obtain rfl := onWay_nil_iff.1 along
    obtain rfl : spot = next := Except.ok.inj walked
    exact inside
  | cons name rest ih =>
    obtain ⟨middle, entered, behind⟩ := walk_cons.1 walked
    obtain ⟨first, shape, _⟩ := enter_eq_ok_iff.1 entered
    obtain rfl | later := onWay_cons_iff.1 along
    · exact first
    · exact ih behind (shape ▸ later)

/-- Behind a walk that fails, a longer one fails as well. -/
theorem walk_append_error {e : FileError} (failed : fs.walk start names = .error e)
    (more : List String) : fs.walk start (names ++ more) = .error e := by
  induction names generalizing start with
  | nil => cases failed
  | cons name rest ih =>
    rw [walk] at failed
    rw [List.cons_append, walk]
    cases entered : fs.enter start name with
    | error cause =>
      rw [entered] at failed
      exact failed
    | ok middle =>
      rw [entered] at failed
      exact ih failed

/-- In a tree, a way without files is one of directories, or something is missing on it. -/
theorem paved_or_missing (inside : tree.find? start = some .directory)
    (clear : ∀ spot, OnWay start names spot → ∀ bytes, tree.find? spot ≠ some (.file bytes)) :
    (∀ spot, OnWay start names spot → tree.find? spot = some .directory) ∨
      tree.walk start names = .error .notFound := by
  induction names generalizing start with
  | nil =>
    refine .inl fun spot along => ?_
    rw [onWay_nil_iff.1 along]
    exact inside
  | cons name rest ih =>
    have behind : ∀ spot, OnWay (stepOnPaper start name) rest spot →
        ∀ bytes, tree.find? spot ≠ some (.file bytes) :=
      fun spot along => clear spot (onWay_cons_iff.2 (.inr along))
    by_cases open' : Path.isIdle name = true ∨ name = ".." ∨
        (tree.find? (stepOnPaper start name)).isSome
    · have entered : tree.enter start name = .ok (stepOnPaper start name) :=
        enter_eq_ok_iff.2 ⟨inside, rfl, open'⟩
      have deeper : tree.find? (stepOnPaper start name) = some .directory := by
        cases there : tree.find? (stepOnPaper start name) with
        | some entry =>
          cases entry with
          | file bytes => exact absurd there (behind _ (onWay_start _ _) bytes)
          | directory => rfl
        | none =>
          rw [← there]
          unfold stepOnPaper
          split
          · exact inside
          split
          · exact directory_tail inside
          · next awake down => exact absurd open' (by simp [awake, down, there])
      rcases ih deeper behind with paved | missing
      · refine .inl fun spot along => ?_
        obtain rfl | later := onWay_cons_iff.1 along
        · exact inside
        · exact paved spot later
      · refine .inr ?_
        rw [walk, entered]
        exact missing
    · obtain ⟨awake, down, absent⟩ := not_or.1 open' |>.imp_right not_or.1
      have own : stepOnPaper start name = name :: start :=
        stepOnPaper_name ⟨Bool.not_eq_true _ ▸ awake, down⟩
      rw [own] at absent
      refine .inr ?_
      rw [walk, enter, inside]
      simp only [if_neg awake, if_neg down, if_neg absent]

end Ways

section Steps

variable {paved middle after : FileTree} {entry : Entry}

/-- The tree with an entry put into a directory, where no directory is lost to a file. -/
def putInside (tree : FileTree) (location : Location) (name : String) (entry : Entry)
    (inside : tree.find? location = some .directory)
    (covered : tree.find? (name :: location) = some .directory → entry = .directory) : FileTree :=
  have found := find?_set tree entry (List.cons_ne_nil name location)
  have kept : ∀ other, tree.find? other = some .directory →
      (tree.set (name :: location) entry).find? other = some .directory := by
    intro other there
    rw [found]
    split
    · next same => rw [covered (same ▸ there)]
    · exact there
  { toFileSystem := tree.set (name :: location) entry
    inside := kept _ tree.inside
    above := by
      intro own outer there
      rw [found] at there
      split at there
      · next same =>
        obtain ⟨rfl, rfl⟩ := List.cons.inj same
        exact kept _ inside
      · exact kept _ (tree.above own outer there) }

/-- Only the place of the entry has changed. -/
theorem find?_putInside {inside : tree.find? location = some .directory}
    {covered : tree.find? (name :: location) = some .directory → entry = .directory}
    (other : Location) : (putInside tree location name entry inside covered).find? other =
      if other = name :: location then some entry else tree.find? other :=
  find?_set tree entry (List.cons_ne_nil name location) other

/-- Directories were made of the locations that a walk comes by, and nothing else has changed. -/
structure Paved (fs : FileSystem) (start : Location) (names : List String) (paved : FileTree) :
    Prop where
  current : paved.current = fs.current
  way : ∀ location, OnWay start names location → paved.find? location = some .directory
  others : ∀ location, ¬ OnWay start names location → paved.find? location = fs.find? location

/-- Paths start where they did before. -/
theorem Paved.startOf_eq (front : Paved fs start names paved) (p : Path) :
    paved.startOf p = fs.startOf p := by
  rw [startOf, startOf, front.current]

/-- Where there are only directories on the way, none has to be made. -/
theorem Paved.of_directories
    (way : ∀ spot, OnWay start names spot → tree.find? spot = some .directory) :
    Paved tree start names tree := ⟨rfl, way, fun _ _ => rfl⟩

/-- A way is paved name by name. -/
theorem Paved.further (front : Paved fs start names middle)
    (last : Paved middle start (names ++ [name]) after) : Paved fs start (names ++ [name]) after where
  current := last.current.trans front.current
  way := last.way
  others spot apart := by
    have short : ¬ OnWay start names spot := fun along => apart (onWay_concat_iff.2 (.inl along))
    rw [last.others spot apart, front.others spot short]

/-- A path whose last name is not idle has its slot in the directory that the other names lead to,
unless it leads upward. -/
theorem slot_concat (taken : refusal? p = none) (spelled : p.names = names ++ [name])
    (awake : Path.isIdle name = false) : fs.slot p =
      if name = ".." then (fs.walk (fs.startOf p) p.names).map fun _ => .standing
      else (fs.walk (fs.startOf p) (names ++ ["."])).map fun above => .place (name :: above) false := by
  obtain ⟨filled, dotless⟩ : name ≠ "" ∧ name ≠ "." := by simpa [Path.isIdle] using awake
  have turned : p.names.reverse = name :: names.reverse := by
    rw [spelled, List.reverse_append]
    rfl
  have whole : (name :: names.reverse).dropWhile (· = "") = name :: names.reverse :=
    List.dropWhile_cons_of_neg (by simp [filled])
  have bare : (name :: names.reverse).takeWhile (· = "") = [] :=
    List.takeWhile_cons_of_neg (by simp [filled])
  simp only [slot, taken, turned, whole, bare, dotless, false_or, List.reverse_reverse]
  split
  · cases fs.walk (fs.startOf p) p.names <;> rfl
  · cases fs.walk (fs.startOf p) (names ++ ["."]) <;> rfl

/-- No directory is made where one above it is missing. -/
theorem makeDirectory_missing (taken : refusal? p = none) (spelled : p.names = names ++ [name])
    (awake : Path.isIdle name = false)
    (missing : fs.walk (fs.startOf p) names = .error .notFound) :
    fs.makeDirectory p = .error .notFound := by
  have none : fs.slot p = .error .notFound := by
    rw [slot_concat taken spelled awake, spelled, walk_append_error missing,
      walk_append_error missing]
    split <;> rfl
  rw [makeDirectory, none]

/-- A directory that is there already is not made. -/
theorem makeDirectory_there (taken : refusal? p = none) (spelled : p.names = names ++ [name])
    (awake : Path.isIdle name = false)
    (way : ∀ spot, OnWay (fs.startOf p) p.names spot → fs.find? spot = some .directory) :
    fs.makeDirectory p = .error .alreadyExists ∧ fs.isDirectory p = true := by
  have there : fs.find? (fs.place p) = some .directory := way _ (onWay_end _ _)
  have walked := walk_of_paved way
  have front : ∀ spot, OnWay (fs.startOf p) names spot → fs.find? spot = some .directory := by
    intro spot along
    apply way
    rw [spelled]
    exact onWay_concat_iff.2 (.inl along)
  have inside := walk_dot.2 ⟨walk_of_paved front, front _ (onWay_end _ _)⟩
  have slots : fs.slot p = _ := slot_concat taken spelled awake
  rw [walked, inside] at slots
  constructor
  · unfold makeDirectory
    by_cases up : name = ".."
    · rw [slots, if_pos up]
      rfl
    · rw [place, spelled, onPaper_append] at there
      have below : fs.find? (name :: onPaper (fs.startOf p) names) = some .directory := by
        rw [← there, ← stepOnPaper_name ⟨awake, up⟩]
        rfl
      simp only [slots, if_neg up, Except.map, below]
  · rw [isDirectory, openEntry_eq_ok_iff.2 ⟨taken, walked, there⟩]

/-- A directory that is missing is made below the others. -/
theorem makeDirectory_absent (taken : refusal? p = none) (spelled : p.names = names ++ [name])
    (awake : Path.isIdle name = false)
    (way : ∀ spot, OnWay (tree.startOf p) names spot → tree.find? spot = some .directory)
    (absent : tree.find? (tree.place p) = none) :
    ∃ made : FileTree, Paved tree (tree.startOf p) p.names made ∧
      tree.makeDirectory p = .ok made.toFileSystem := by
  have above := way _ (onWay_end _ _)
  have inside := walk_dot.2 ⟨walk_of_paved way, above⟩
  have spot : tree.place p = stepOnPaper (onPaper (tree.startOf p) names) name := by
    rw [place, spelled, onPaper_append]
    rfl
  have down : name ≠ ".." := by
    rintro rfl
    have higher : tree.find? (tree.place p) = some .directory := spot ▸ directory_tail above
    rw [absent] at higher
    cases higher
  rw [stepOnPaper_name ⟨awake, down⟩] at spot
  have slots : tree.slot p = _ := slot_concat taken spelled awake
  rw [if_neg down, inside, Except.map, ← spot] at slots
  have made : tree.makeDirectory p = .ok (tree.set (tree.place p) .directory) := by
    simp only [makeDirectory, slots, absent]
  have shape : ∀ location, OnWay (tree.startOf p) p.names location ↔
      OnWay (tree.startOf p) names location ∨ location = tree.place p := by
    intro location
    rw [place, spelled, onWay_concat_iff]
  rw [spot] at made shape
  refine ⟨putInside tree _ name .directory above fun _ => rfl,
    ⟨rfl, fun location along => ?_, fun location apart => ?_⟩, made⟩
  · rw [find?_putInside]
    split
    · rfl
    · next other => exact way location (((shape location).1 along).resolve_right other)
  · rw [shape, not_or] at apart
    rw [find?_putInside, if_neg apart.2]

/-- Behind directories, and where no file is in its place, a directory is there or it is made. -/
theorem makeDirectory_paved (taken : refusal? p = none) (spelled : p.names = names ++ [name])
    (awake : Path.isIdle name = false)
    (way : ∀ spot, OnWay (tree.startOf p) names spot → tree.find? spot = some .directory)
    (clear : ∀ bytes, tree.find? (tree.place p) ≠ some (.file bytes)) :
    ∃ made : FileTree, Paved tree (tree.startOf p) p.names made ∧
      (tree.makeDirectory p = .ok made.toFileSystem ∨
        tree.makeDirectory p = .error .alreadyExists ∧ tree.isDirectory p = true ∧
          made = tree) := by
  cases found : tree.find? (tree.place p) with
  | none =>
    obtain ⟨made, paved, success⟩ := makeDirectory_absent taken spelled awake way found
    exact ⟨made, paved, .inl success⟩
  | some entry =>
    cases entry with
    | file bytes => exact absurd found (clear bytes)
    | directory =>
      have whole : ∀ spot, OnWay (tree.startOf p) p.names spot →
          tree.find? spot = some .directory := by
        intro spot along
        rw [spelled, onWay_concat_iff] at along
        rcases along with front | rfl
        · exact way spot front
        · rwa [place, spelled] at found
      obtain ⟨refused, opened⟩ := makeDirectory_there taken spelled awake whole
      exact ⟨tree, .of_directories whole, .inr ⟨refused, opened, rfl⟩⟩

/-- Paving a way goes on with its last name, where no file is in the place of that. -/
theorem Paved.climb (front : Paved fs (fs.startOf p) names middle) (taken : refusal? p = none)
    (spelled : p.names = names ++ [name]) (awake : Path.isIdle name = false)
    (clear : ∀ bytes, fs.find? (fs.place p) ≠ some (.file bytes)) :
    ∃ made : FileTree, Paved fs (fs.startOf p) p.names made ∧
      (middle.makeDirectory p = .ok made.toFileSystem ∨
        middle.makeDirectory p = .error .alreadyExists ∧ middle.isDirectory p = true ∧
          made = middle) := by
  have start := front.startOf_eq p
  have free : ∀ bytes, middle.find? (middle.place p) ≠ some (.file bytes) := by
    intro bytes
    have spot : middle.place p = fs.place p := by rw [place, place, start]
    rw [spot]
    by_cases along : OnWay (fs.startOf p) names (fs.place p)
    · rw [front.way _ along]
      exact fun file => by cases file
    · rw [front.others _ along]
      exact clear bytes
  obtain ⟨made, last, outcome⟩ :=
    makeDirectory_paved taken spelled awake (start ▸ front.way) free
  rw [start, spelled] at last
  refine ⟨made, ?_, outcome⟩
  rw [spelled]
  exact front.further last

/-- Ways by the same locations are paved alike. -/
theorem Paved.congr {more : List String} (front : Paved fs start names paved)
    (same : ∀ spot, OnWay start more spot ↔ OnWay start names spot) : Paved fs start more paved :=
  ⟨front.current, fun spot along => front.way spot ((same spot).1 along),
    fun spot apart => front.others spot fun along => apart ((same spot).2 along)⟩

end Steps

end FileSystem

namespace Path

/-- Paths that lead along the same names, each one as far as the next and a name further: that name
is not idle, and idle ones behind it are left out. At the foot there is a path of idle names, or
none. -/
inductive Ladder (absolute : Bool) : List String → List Path → Prop
  | ground {names : List String} (lazy : ∀ name ∈ names, isIdle name = true) :
      Ladder absolute names []
  | foot {names : List String} {p : Path} (lazy : ∀ name ∈ names, isIdle name = true)
      (still : ∀ name ∈ p.names, isIdle name = true) (start : p.isAbsolute = absolute)
      (taken : FileSystem.refusal? p = none) : Ladder absolute names [p]
  | rung {names idle : List String} {name : String} {p : Path} {above : List Path}
      (below : Ladder absolute names above) (awake : isIdle name = false)
      (lazy : ∀ name ∈ idle, isIdle name = true) (spelled : p.names = names ++ [name])
      (start : p.isAbsolute = absolute) (taken : FileSystem.refusal? p = none) :
      Ladder absolute (names ++ name :: idle) (p :: above)

variable {p : Path} {names : List String} {name : String}

/-- Names without the idle ones at the end are followed by these, and end in another one if any. -/
theorem trimIdle_append (names : List String) :
    ∃ idle, names = trimIdle names ++ idle ∧ (∀ name ∈ idle, isIdle name = true) ∧
      (trimIdle names = [] ∨
        ∃ front last, trimIdle names = front ++ [last] ∧ isIdle last = false) := by
  refine ⟨(names.reverse.takeWhile isIdle).reverse, ?_, ?_, ?_⟩
  · rw [trimIdle, ← List.reverse_append, List.takeWhile_append_dropWhile, List.reverse_reverse]
  · intro name member
    exact List.all_eq_true.1 List.all_takeWhile name (List.mem_reverse.1 member)
  · have first := List.head?_dropWhile_not isIdle names.reverse
    unfold trimIdle
    cases shape : names.reverse.dropWhile isIdle with
    | nil => exact .inl rfl
    | cons last front =>
      rw [shape, List.head?_cons] at first
      exact .inr ⟨front.reverse, last, List.reverse_cons, by simpa using first⟩

/-- Idle names all go when the idle ones at the end do. -/
theorem trimIdle_idle (lazy : ∀ name ∈ names, isIdle name = true) : trimIdle names = [] := by
  obtain ⟨idle, split, _, none | ⟨front, last, kept, awake⟩⟩ := trimIdle_append names
  · exact none
  · have member : last ∈ names := by
      rw [split, kept]
      simp
    rw [lazy last member] at awake
    cases awake

/-- The path above one that ends in a name, idle ones aside, has the names before that, without the
idle ones at the end. -/
theorem parent?_of_kept {first : String} {more : List String} (spelled : p.names = first :: more)
    (kept : trimIdle more = names ++ [name]) : p.parent? =
      if first = "" ∧ trimIdle names = [] then some ⟨"/"⟩
      else some (ofNames (first :: trimIdle names)) := by
  simp only [parent?, spelled, kept, List.dropLast_concat, List.append_eq_nil_iff,
    List.cons_ne_nil, and_false, if_false]

/-- The first name of a path and some of the others spell a path that starts where it does. -/
theorem ofNames_shorter {first : String} {above more : List String}
    (spelled : p.names = first :: more) (follow : more ≠ []) (inside : above ⊆ more)
    (named : ¬ (first = "" ∧ above = [])) :
    (ofNames (first :: above)).names = first :: above ∧ (ofNames (first :: above)).text ≠ "" ∧
      (ofNames (first :: above)).isAbsolute = p.isAbsolute := by
  have within : first :: above ⊆ p.names := by
    rw [spelled]
    exact List.cons_subset_cons first inside
  have shown : (ofNames (first :: above)).names = first :: above :=
    names_ofNames (List.cons_ne_nil _ _) fun own member => separator_not_mem (within member)
  refine ⟨shown, fun empty => ?_, ?_⟩
  · have nameless : ofNames (first :: above) = ⟨""⟩ := congrArg Path.mk empty
    have single : (⟨""⟩ : Path).names = [""] := by decide
    rw [nameless, single] at shown
    obtain ⟨same, bare⟩ := List.cons.inj shown
    exact named ⟨same.symm, bare.symm⟩
  · rw [Bool.eq_iff_iff, isAbsolute_iff, isAbsolute_iff, shown, spelled]
    constructor
    · rintro ⟨_, _, same⟩
      obtain ⟨rfl, _⟩ := List.cons.inj same
      exact ⟨more, follow, rfl⟩
    · rintro ⟨_, _, same⟩
      obtain ⟨rfl, _⟩ := List.cons.inj same
      exact ⟨above, fun bare => named ⟨rfl, bare⟩, rfl⟩

/-- The path above one whose last name is not idle: none, one of idle names, or one that leads along
the other names up to the last one that is not idle. -/
theorem parent?_cases (taken : FileSystem.refusal? p = none) (spelled : p.names = names ++ [name])
    (awake : isIdle name = false) :
    names = [] ∧ p.parent? = some ⟨""⟩ ∨
      ∃ q, p.parent? = some q ∧ q.text ≠ "" ∧ q.isAbsolute = p.isAbsolute ∧
        FileSystem.refusal? q = none ∧
        ((∀ own ∈ names, isIdle own = true) ∧ (∀ own ∈ q.names, isIdle own = true) ∨
          ∃ front last idle, names = front ++ last :: idle ∧ isIdle last = false ∧
            (∀ own ∈ idle, isIdle own = true) ∧ q.names = front ++ [last]) := by
  cases names with
  | nil =>
    have filled : name ≠ "" := by
      rintro rfl
      cases awake
    have bare : trimIdle [] = [] := rfl
    refine .inl ⟨rfl, ?_⟩
    simp only [parent?, spelled, List.nil_append, bare, if_neg filled, if_true]
  | cons first rest =>
    obtain ⟨idle, split, lazy, ends⟩ := trimIdle_append rest
    rw [List.cons_append] at spelled
    have follow : rest ++ [name] ≠ [] := by simp
    have parent := parent?_of_kept spelled (trimIdle_concat awake)
    by_cases top : first = "" ∧ trimIdle rest = []
    · rw [if_pos top] at parent
      rw [top.2, List.nil_append] at split
      have absolute : p.isAbsolute = true := isAbsolute_iff.2 ⟨_, follow, top.1 ▸ spelled⟩
      refine .inr ⟨⟨"/"⟩, parent, by decide, by rw [absolute]; decide, by decide, .inl ⟨?_, by decide⟩⟩
      rw [List.forall_mem_cons, split]
      exact ⟨by rw [top.1]; rfl, lazy⟩
    · rw [if_neg top] at parent
      have inside : trimIdle rest ⊆ rest ++ [name] := by
        intro own member
        rw [split]
        exact List.mem_append_left _ (List.mem_append_left _ member)
      obtain ⟨shown, filled, start⟩ := ofNames_shorter spelled follow inside top
      have free : FileSystem.refusal? (ofNames (first :: trimIdle rest)) = none := by
        refine refusal?_eq_none_iff.2 ⟨filled, fun own member => ?_⟩
        rw [shown] at member
        apply (refusal?_eq_none_iff.1 taken).2
        rw [spelled]
        exact List.cons_subset_cons first inside member
      refine .inr ⟨_, parent, filled, start, free, ?_⟩
      rw [shown]
      rcases ends with bare | ⟨front, last, kept, awake⟩
      · rw [bare, List.nil_append] at split
        rw [bare, split]
        by_cases still : isIdle first = true
        · exact .inl ⟨List.forall_mem_cons.2 ⟨still, lazy⟩, by simpa using still⟩
        · exact .inr ⟨[], first, idle, rfl, Bool.not_eq_true _ ▸ still, lazy, rfl⟩
      · refine .inr ⟨first :: front, last, idle, ?_, awake, lazy, by rw [kept]; rfl⟩
        rw [split, kept, List.append_assoc]
        rfl

/-- There is nothing above a path of idle names. -/
theorem ancestorsWithin_idle (lazy : ∀ own ∈ p.names, isIdle own = true) (n : Nat) :
    p.ancestorsWithin n = [] := by
  cases n with
  | zero => rfl
  | succ n =>
    obtain ⟨first, rest, shape⟩ := List.exists_cons_of_ne_nil p.names_ne_nil
    rw [shape, List.forall_mem_cons] at lazy
    by_cases empty : first = ""
    · simp only [ancestorsWithin, parent?, shape, trimIdle_idle lazy.2, if_pos empty, if_true]
    · simp only [ancestorsWithin, parent?, shape, trimIdle_idle lazy.2, if_neg empty, if_true]

/-- The paths above one whose last name is not idle are a ladder of the other names. -/
theorem ladder_ancestorsWithin {n : Nat} (taken : FileSystem.refusal? p = none)
    (spelled : p.names = names ++ [name]) (awake : isIdle name = false)
    (enough : names.countP (! isIdle ·) ≤ n) : Ladder p.isAbsolute names (p.ancestorsWithin n) := by
  induction n generalizing p names name with
  | zero =>
    have none := List.countP_eq_zero.1 (Nat.le_zero.1 enough)
    exact .ground fun own member => by simpa using none own member
  | succ n ih =>
    obtain ⟨rfl, parent⟩ | ⟨q, parent, filled, start, free, shape⟩ :=
      parent?_cases taken spelled awake
    · simp only [ancestorsWithin, parent, if_true]
      exact .ground fun own member => absurd member List.not_mem_nil
    · simp only [ancestorsWithin, parent, if_neg filled]
      rcases shape with ⟨lazy, still⟩ | ⟨front, last, idle, rfl, up, lazy, own⟩
      · rw [ancestorsWithin_idle still]
        exact .foot lazy still start free
      · have fewer : front.countP (! isIdle ·) ≤ n := by
          rw [List.countP_append, List.countP_cons_of_pos (by simp [up])] at enough
          omega
        have below := ih free own up fewer
        rw [start] at below
        exact .rung below up lazy own start free

/-- What is made before a file is written is a ladder of the names in front of the last one. -/
theorem ladder_parent (taken : FileSystem.refusal? p = none) (spelled : p.names = names ++ [name])
    (awake : isIdle name = false) : ∃ paths, Ladder p.isAbsolute names paths ∧
      ∀ fs : FileSystem,
        fs.makeDirectories (p.parent?.getD ⟨""⟩) = fs.makeDirectoriesOf paths := by
  obtain ⟨rfl, parent⟩ | ⟨q, parent, filled, start, free, shape⟩ :=
    parent?_cases taken spelled awake
  · refine ⟨[], .ground fun own member => absurd member List.not_mem_nil, fun fs => ?_⟩
    rw [parent, Option.getD_some, FileSystem.makeDirectories, if_pos rfl]
    rfl
  · have enough : names.countP (! isIdle ·) ≤ q.names.length + 1 := by
      rcases shape with ⟨lazy, _⟩ | ⟨front, last, idle, rfl, _, lazy, own⟩
      · rw [List.countP_eq_zero.2 fun own member => by simp [lazy own member]]
        exact Nat.zero_le _
      · have front' := List.countP_le_length (p := (! isIdle ·)) (l := front ++ [last])
        have none : idle.countP (! isIdle ·) = 0 :=
          List.countP_eq_zero.2 fun own member => by simp [lazy own member]
        rw [← List.singleton_append, ← List.append_assoc, List.countP_append, none, own]
        omega
    refine ⟨_, ladder_ancestorsWithin taken spelled awake enough, fun fs => ?_⟩
    rw [parent, Option.getD_some, FileSystem.makeDirectories, if_neg filled]
    simp only [ancestorsWithin, parent, if_neg filled, ancestors]

end Path

namespace FileSystem

variable {fs : FileSystem} {tree : FileTree} {start location : Location} {names idle : List String}
  {p : Path}

/-- Along idle names there is only a directory where the start is one. -/
theorem paved_of_idle (inside : fs.find? start = some .directory)
    (lazy : ∀ name ∈ idle, Path.isIdle name = true) :
    ∀ spot, OnWay start idle spot → fs.find? spot = some .directory := by
  intro spot along
  rw [← List.nil_append idle, onWay_append_idle lazy, onWay_nil_iff] at along
  rwa [along]

/-- A path of idle names is a directory already. -/
theorem makeDirectory_idle (tree : FileTree) (taken : refusal? p = none)
    (lazy : ∀ name ∈ p.names, Path.isIdle name = true) :
    tree.makeDirectory p = .error .alreadyExists ∧ tree.isDirectory p = true := by
  have way := paved_of_idle (directory_startOf tree p) lazy
  have walked := walk_of_paved way
  constructor
  · have standing : tree.slot p = .ok .standing := by
      simp only [slot, taken]
      cases shape : p.names.reverse.dropWhile (· = "") with
      | nil => rfl
      | cons name before =>
        have last : name ∈ p.names := by
          have kept : name ∈ p.names.reverse.dropWhile (· = "") := shape ▸ List.mem_cons_self
          exact List.mem_reverse.1 ((List.dropWhile_sublist _).subset kept)
        have filled : name ≠ "" := by
          have first := List.head?_dropWhile_not (· = "") p.names.reverse
          simpa [shape] using first
        have dot : name = "." := by simpa [Path.isIdle, filled] using lazy name last
        simp only [if_pos (Or.inl dot : name = "." ∨ name = ".."), walked]
    simp only [makeDirectory, standing]
  · have found : tree.find? (tree.place p) = some .directory := way _ (onWay_end _ _)
    rw [isDirectory, openEntry_eq_ok_iff.2 ⟨taken, walked, found⟩]

/-- Where no file is on the way along names, climbing their ladder makes directories of all that is
on it. -/
theorem makeDirectoriesOf_ladder {paths : List Path}
    (ladder : Path.Ladder p.isAbsolute names paths)
    (clear : ∀ spot, OnWay (tree.startOf p) names spot →
      ∀ bytes, tree.find? spot ≠ some (.file bytes)) :
    ∃ paved : FileTree, tree.makeDirectoriesOf paths = (.ok (), paved.toFileSystem) ∧
      Paved tree (tree.startOf p) names paved := by
  have inside := directory_startOf tree p
  induction ladder with
  | ground lazy => exact ⟨tree, rfl, .of_directories (paved_of_idle inside lazy)⟩
  | foot lazy still _ taken =>
    obtain ⟨refused, opened⟩ := makeDirectory_idle tree taken still
    refine ⟨tree, ?_, .of_directories (paved_of_idle inside lazy)⟩
    simp only [makeDirectoriesOf, refused, opened, if_true]
  | @rung names idle name q above _ awake lazy spelled begins taken ih =>
    have start : tree.startOf q = tree.startOf p := by rw [startOf, startOf, begins]
    have whole : ∀ spot, OnWay (tree.startOf q) (names ++ name :: idle) spot ↔
        OnWay (tree.startOf q) q.names spot := by
      intro spot
      rw [spelled, ← List.singleton_append, ← List.append_assoc, onWay_append_idle lazy]
    rw [← start] at clear ih inside ⊢
    -- the paths above are tried only where this one cannot be made without them
    have free := clear _ ((whole _).2 (onWay_end _ _))
    have front : ∀ spot, OnWay (tree.startOf q) names spot →
        ∀ bytes, tree.find? spot ≠ some (.file bytes) := by
      intro spot along
      apply clear
      rw [whole, spelled]
      exact onWay_concat_iff.2 (.inl along)
    rcases paved_or_missing inside front with way | missing
    · obtain ⟨made, paved, outcome⟩ :=
        (Paved.of_directories way).climb taken spelled awake free
      refine ⟨made, ?_, paved.congr whole⟩
      rcases outcome with success | ⟨refused, opened, rfl⟩
      · simp only [makeDirectoriesOf, success]
      · simp only [makeDirectoriesOf, refused, opened, if_true]
    · have absent := makeDirectory_missing taken spelled awake missing
      obtain ⟨middle, lower, below⟩ := ih front
      obtain ⟨made, paved, outcome⟩ := below.climb taken spelled awake free
      refine ⟨made, ?_, paved.congr whole⟩
      rcases outcome with success | ⟨refused, opened, rfl⟩
      · simp only [makeDirectoriesOf, absent, lower, success]
      · simp only [makeDirectoriesOf, absent, lower, refused, opened, if_true]

end FileSystem

end WikiPress

import WikiPress.FileSystem
import WikiPress.Proofs.Path.References

/-!
# Walks through a growing tree

Without links between directories, a walk that succeeds ends where it would on paper
(`FileSystem.walk_eq_onPaper`), so each path has one place. Making directories and writing files only
adds to a tree (`FileSystem.Growth`): what could be opened before can be opened afterwards, with the
same content unless its place was written, and in a tree the same holds backwards for files that a
straight path leads to.
-/

namespace WikiPress

namespace FileSystem

/-- A step on paper. -/
def stepOnPaper (location : Location) (name : String) : Location :=
  if Path.isIdle name then location else if name = ".." then location.tail else name :: location

/-- Where names lead on paper. -/
def onPaper (location : Location) (names : List String) : Location :=
  names.foldl stepOnPaper location

/-- The place that a path stands for, whether or not there is anything. -/
def place (fs : FileSystem) (p : Path) : Location := onPaper (fs.startOf p) p.names

/-- The second file system is the first one with directories added, and with files written at the
places of the list. -/
structure Growth (written : List Location) (fs grown : FileSystem) : Prop where
  current : grown.current = fs.current
  kept : ∀ location, (fs.find? location).isSome → (grown.find? location).isSome
  directory : ∀ location, fs.find? location = some .directory →
    grown.find? location = some .directory
  /-- No other file came, went or changed. -/
  file : ∀ location, location ∉ written → ∀ bytes,
    grown.find? location = some (.file bytes) ↔ fs.find? location = some (.file bytes)

variable {fs grown : FileSystem} {tree : FileTree} {location next : Location} {name : String}
  {names more : List String} {written : List Location} {p : Path} {bytes : List UInt8}

/-- A step to a name goes below. -/
theorem stepOnPaper_name (own : Path.isIdle name = false ∧ name ≠ "..") :
    stepOnPaper location name = name :: location := by
  rw [stepOnPaper, own.1, if_neg own.2]
  rfl

/-- A step succeeds from a directory, to where it leads on paper, if there is something. -/
theorem enter_eq_ok_iff : fs.enter location name = .ok next ↔
    fs.find? location = some .directory ∧ next = stepOnPaper location name ∧
      (Path.isIdle name = true ∨ name = ".." ∨ (fs.find? next).isSome) := by
  unfold enter
  cases found : fs.find? location with
  | none => simp
  | some entry =>
    cases entry with
    | file content => simp
    | directory =>
      simp only [true_and]
      unfold stepOnPaper
      by_cases idle : Path.isIdle name = true
      · rw [if_pos idle, if_pos idle, Except.ok.injEq]
        exact ⟨fun stays => ⟨stays.symm, .inl idle⟩, fun stays => stays.1.symm⟩
      rw [if_neg idle, if_neg idle]
      by_cases up : name = ".."
      · rw [if_pos up, if_pos up, Except.ok.injEq]
        exact ⟨fun rises => ⟨rises.symm, .inr (.inl up)⟩, fun rises => rises.1.symm⟩
      rw [if_neg up, if_neg up]
      by_cases there : (fs.find? (name :: location)).isSome = true
      · rw [if_pos there, Except.ok.injEq]
        constructor
        · rintro rfl
          exact ⟨rfl, .inr (.inr there)⟩
        · rintro ⟨rfl, _⟩
          rfl
      · rw [if_neg there]
        constructor
        · intro failed
          cases failed
        · rintro ⟨rfl, open'⟩
          exact absurd open' (by simp [idle, up, there])

/-- A walk along one name more takes a step first. -/
theorem walk_cons : fs.walk location (name :: more) = .ok next ↔
    ∃ middle, fs.enter location name = .ok middle ∧ fs.walk middle more = .ok next := by
  rw [walk]
  cases fs.enter location name with
  | error e => simp
  | ok middle => simp

/-- A walk along two lists of names is one walk behind the other. -/
theorem walk_append : fs.walk location (names ++ more) = .ok next ↔
    ∃ middle, fs.walk location names = .ok middle ∧ fs.walk middle more = .ok next := by
  induction names generalizing location with
  | nil => simp [walk]
  | cons name rest ih =>
    simp only [List.cons_append, walk_cons, ih]
    constructor
    · rintro ⟨first, entered, middle, front, back⟩
      exact ⟨middle, ⟨first, entered, front⟩, back⟩
    · rintro ⟨middle, ⟨first, entered, front⟩, back⟩
      exact ⟨first, entered, middle, front, back⟩

/-- A walk that ends with a point ends in a directory. -/
theorem walk_dot : fs.walk location (names ++ ["."]) = .ok next ↔
    fs.walk location names = .ok next ∧ fs.find? next = some .directory := by
  rw [walk_append]
  constructor
  · rintro ⟨middle, along, behind⟩
    obtain ⟨last, entered, stays⟩ := walk_cons.1 behind
    obtain ⟨directory, same, _⟩ := enter_eq_ok_iff.1 entered
    obtain rfl : last = middle := same
    obtain rfl : last = next := Except.ok.inj stays
    exact ⟨along, directory⟩
  · rintro ⟨along, directory⟩
    have entered : fs.enter next "." = .ok next := enter_eq_ok_iff.2 ⟨directory, rfl, .inl rfl⟩
    exact ⟨next, along, walk_cons.2 ⟨next, entered, rfl⟩⟩

/-- A walk that succeeds ends where it would on paper. -/
theorem walk_eq_onPaper (walked : fs.walk location names = .ok next) :
    next = onPaper location names := by
  induction names generalizing location with
  | nil => exact (Except.ok.inj walked).symm
  | cons name rest ih =>
    obtain ⟨middle, entered, behind⟩ := walk_cons.1 walked
    obtain ⟨_, rfl, _⟩ := enter_eq_ok_iff.1 entered
    exact ih behind

/-- Opening a path finds what stands at its place, where a walk has led. -/
theorem openEntry_eq_ok_iff {entry : Entry} : fs.openEntry p = .ok entry ↔
    refusal? p = none ∧ fs.walk (fs.startOf p) p.names = .ok (fs.place p) ∧
      fs.find? (fs.place p) = some entry := by
  unfold openEntry
  cases refused : refusal? p with
  | some e => simp
  | none =>
    cases walked : fs.walk (fs.startOf p) p.names with
    | error e => simp
    | ok location =>
      obtain rfl : location = fs.place p := walk_eq_onPaper walked
      simp only [true_and]
      cases fs.find? (fs.place p) with
      | none => simp
      | some other => simp

/-- The content of a file is what opening it finds. -/
theorem bytesAt_eq_ok_iff : fs.bytesAt p = .ok bytes ↔ fs.openEntry p = .ok (.file bytes) := by
  unfold bytesAt
  cases fs.openEntry p with
  | error e => simp
  | ok entry => cases entry <;> simp [Entry.read]

section Trees

/-- What stands above an entry is a directory. -/
theorem directory_of_suffix {low high : Location} (there : (tree.find? low).isSome)
    (suffix : high <:+ low) (apart : high ≠ low) : tree.find? high = some .directory := by
  induction low with
  | nil => exact absurd (List.suffix_nil.1 suffix) apart
  | cons name rest ih =>
    have below := tree.above name rest there
    obtain same | inside := List.suffix_cons_iff.1 suffix
    · exact absurd same apart
    · by_cases same : high = rest
      · exact same ▸ below
      · exact ih (by simp [below]) inside same

/-- Paths start in directories of a tree. -/
theorem directory_startOf (tree : FileTree) (p : Path) :
    tree.find? (tree.startOf p) = some .directory := by
  unfold startOf
  split
  · rfl
  · exact tree.inside

/-- Above a directory of a tree there is another one. -/
theorem directory_tail (inside : tree.find? location = some .directory) :
    tree.find? location.tail = some .directory := by
  cases location with
  | nil => exact inside
  | cons own outer => exact tree.above own outer (by simp [inside])

/-- Leading upward from a directory never fails in a tree. -/
theorem walk_up (up : ∀ name ∈ names, Path.isIdle name = true ∨ name = "..")
    (start : tree.find? location = some .directory) :
    tree.walk location names = .ok (onPaper location names) := by
  induction names generalizing location with
  | nil => rfl
  | cons name rest ih =>
    rw [List.forall_mem_cons] at up
    have entered : tree.enter location name = .ok (stepOnPaper location name) :=
      enter_eq_ok_iff.2 ⟨start, rfl, up.1.imp_right .inl⟩
    have above : tree.find? (stepOnPaper location name) = some .directory := by
      unfold stepOnPaper
      split
      · exact start
      split
      · exact directory_tail start
      · next awake down => exact absurd up.1 (by simp [awake, down])
    exact walk_cons.2 ⟨_, entered, ih up.2 above⟩

/-- Names that do not lead up lead to the entries of the names that are not idle. -/
theorem onPaper_down (down : ".." ∉ names) (location : Location) :
    onPaper location names = (names.filter (! Path.isIdle ·)).reverse ++ location := by
  induction names generalizing location with
  | nil => rfl
  | cons name rest ih =>
    rw [List.mem_cons, not_or] at down
    show onPaper (stepOnPaper location name) rest = _
    rw [ih down.2, stepOnPaper]
    by_cases idle : Path.isIdle name = true
    · rw [if_pos idle, List.filter_cons_of_neg (by simp [idle])]
    · rw [if_neg idle, if_neg (Ne.symm down.1), List.filter_cons_of_pos (by simp [idle]),
        List.reverse_cons, List.append_assoc]
      rfl

/-- Names that do not lead up lead on below the start. -/
theorem suffix_onPaper (down : ".." ∉ names) : location <:+ onPaper location names :=
  ⟨_, (onPaper_down down location).symm⟩

/-- In a tree, a walk downward to a file that was there before could have been taken before. -/
theorem walk_down (down : ".." ∉ names) (walked : grown.walk location names = .ok next)
    (found : tree.find? next = some (.file bytes)) (still : grown.find? next = some (.file bytes)) :
    tree.walk location names = .ok next := by
  induction names generalizing location with
  | nil => exact walked
  | cons name rest ih =>
    rw [List.mem_cons, not_or] at down
    obtain ⟨middle, entered, behind⟩ := walk_cons.1 walked
    obtain ⟨start, shape, _⟩ := enter_eq_ok_iff.1 entered
    -- all locations on the way are above the file, so there is nothing new among them
    have low : middle <:+ next := walk_eq_onPaper behind ▸ suffix_onPaper down.2
    have step : location <:+ middle := by
      have one : ".." ∉ [name] := by simpa using down.1
      exact shape ▸ suffix_onPaper one
    have apart : location ≠ next := by
      rintro rfl
      rw [start] at still
      cases still
    have held : (tree.find? next).isSome := by simp [found]
    have above := directory_of_suffix held (step.trans low) apart
    have there : (tree.find? middle).isSome := by
      by_cases same : middle = next
      · rwa [same]
      · simp [directory_of_suffix held low same]
    exact walk_cons.2 ⟨middle, enter_eq_ok_iff.2 ⟨above, shape, .inr (.inr there)⟩, ih down.2 behind⟩

end Trees

namespace Growth

/-- A file system that stays as it is. -/
theorem refl (written : List Location) (fs : FileSystem) : Growth written fs fs :=
  ⟨rfl, fun _ => id, fun _ => id, fun _ _ _ => .rfl⟩

/-- Two stretches of growth in a row. -/
theorem trans {later : List Location} {final : FileSystem} (first : Growth written fs grown)
    (second : Growth later grown final) : Growth (written ++ later) fs final where
  current := second.current.trans first.current
  kept location there := second.kept location (first.kept location there)
  directory location there := second.directory location (first.directory location there)
  file location apart bytes := by
    rw [List.mem_append, not_or] at apart
    exact (second.file location apart.2 bytes).trans (first.file location apart.1 bytes)

/-- Paths start where they did. -/
theorem startOf_eq (growth : Growth written fs grown) (p : Path) :
    grown.startOf p = fs.startOf p := by
  rw [startOf, startOf, growth.current]

/-- Paths keep their places. -/
theorem place_eq (growth : Growth written fs grown) (p : Path) : grown.place p = fs.place p := by
  rw [place, place, growth.startOf_eq]

/-- A walk that succeeded before succeeds afterwards. -/
theorem walk (growth : Growth written fs grown) (walked : fs.walk location names = .ok next) :
    grown.walk location names = .ok next := by
  induction names generalizing location with
  | nil => exact walked
  | cons name rest ih =>
    obtain ⟨middle, entered, behind⟩ := walk_cons.1 walked
    obtain ⟨start, shape, there⟩ := enter_eq_ok_iff.1 entered
    have again : grown.enter location name = .ok middle :=
      enter_eq_ok_iff.2 ⟨growth.directory _ start, shape,
        there.imp_right fun open' => open'.imp_right (growth.kept _)⟩
    exact walk_cons.2 ⟨middle, again, ih behind⟩

/-- A file that could be opened before can be opened afterwards, with the same content unless its
place was written. -/
theorem openEntry (growth : Growth written fs grown) (opened : fs.openEntry p = .ok (.file bytes))
    (apart : fs.place p ∉ written) : grown.openEntry p = .ok (.file bytes) := by
  obtain ⟨taken, walked, found⟩ := openEntry_eq_ok_iff.1 opened
  rw [openEntry_eq_ok_iff, growth.place_eq, growth.startOf_eq]
  exact ⟨taken, growth.walk walked, (growth.file _ apart bytes).2 found⟩

/-- In a tree, a file that lies straight behind a walk which was possible before could be opened
before, unless its place was written. -/
theorem openEntry_behind (growth : Growth written tree grown) {downs : List String}
    (split : p.names = names ++ downs) (down : ".." ∉ downs)
    (entered : tree.walk (tree.startOf p) names = .ok location)
    (opened : grown.openEntry p = .ok (.file bytes)) (apart : tree.place p ∉ written) :
    tree.openEntry p = .ok (.file bytes) := by
  obtain ⟨taken, walked, still⟩ := openEntry_eq_ok_iff.1 opened
  rw [growth.place_eq, growth.startOf_eq] at walked
  rw [growth.place_eq] at still
  have found := (growth.file _ apart bytes).1 still
  rw [split] at walked
  obtain ⟨middle, front, back⟩ := walk_append.1 walked
  have again := growth.walk entered
  rw [front] at again
  obtain rfl : middle = location := Except.ok.inj again
  refine openEntry_eq_ok_iff.2 ⟨taken, ?_, found⟩
  rw [split]
  exact walk_append.2 ⟨middle, entered, walk_down down back found still⟩

/-- In a tree, a file that a straight path leads to could be opened before, unless its place was
written. -/
theorem openEntry_before (growth : Growth written tree grown) (straight : p.IsStraight)
    (opened : grown.openEntry p = .ok (.file bytes)) (apart : tree.place p ∉ written) :
    tree.openEntry p = .ok (.file bytes) := by
  obtain ⟨ups, downs, shape, up, down⟩ := straight
  have risen := walk_up up (directory_startOf tree p)
  exact growth.openEntry_behind shape down risen opened apart

end Growth

section Writing

/-- Putting an entry only adds to a tree where no file is put over a directory, and where only a new
directory is put at a place that is not listed. -/
theorem growth_set {entry : Entry} (below : location ≠ [])
    (covered : fs.find? location = some .directory → entry = .directory)
    (unlisted : location ∉ written → entry = .directory ∧ fs.find? location = none) :
    Growth written fs (fs.set location entry) := by
  have found := find?_set fs entry below
  constructor
  · rfl
  · intro other there
    rw [found]
    split
    · rfl
    · exact there
  · intro other there
    rw [found]
    split
    · next same => rw [covered (same ▸ there)]
    · exact there
  · intro other apart bytes
    rw [found]
    split
    · next same =>
      obtain ⟨rfl, free⟩ := unlisted (same ▸ apart)
      simp [same, free]
    · exact .rfl

/-- A slot is in the directory that the names in front of its own one lead to. -/
theorem slot_place {closed : Bool} (given : fs.slot p = .ok (.place location closed)) :
    refusal? p = none ∧ ∃ name before above, p.names.reverse.dropWhile (· = "") = name :: before ∧
      location = name :: above ∧ (name ≠ "." ∧ name ≠ "..") ∧
      fs.walk (fs.startOf p) (before.reverse ++ ["."]) = .ok above ∧
      closed = decide (p.names.reverse.takeWhile (· = "") ≠ []) := by
  unfold slot at given
  split at given
  · cases given
  · next taken =>
    refine ⟨taken, ?_⟩
    split at given
    · cases given
    · next name before shape =>
      split at given
      · split at given <;> cases given
      · next awake =>
        split at given
        · cases given
        · next above walked =>
          cases given
          exact ⟨name, before, above, shape, rfl, not_or.1 awake, walked, rfl⟩

/-- A slot is below the top directory. -/
theorem slot_ne_nil {closed : Bool} (given : fs.slot p = .ok (.place location closed)) :
    location ≠ [] := by
  obtain ⟨_, name, _, above, _, rfl, _⟩ := slot_place given
  exact List.cons_ne_nil name above

/-- A slot that no separator follows is that of the last name. -/
theorem slot_open (given : fs.slot p = .ok (.place location false)) :
    refusal? p = none ∧ ∃ front name above, p.names = front ++ [name] ∧ location = name :: above ∧
      (Path.isIdle name = false ∧ name ≠ "..") ∧ fs.walk (fs.startOf p) front = .ok above ∧
      fs.find? above = some .directory := by
  obtain ⟨taken, name, before, above, shape, rfl, ⟨dotless, down⟩, walked, last⟩ := slot_place given
  have bare : p.names.reverse.takeWhile (· = "") = [] := by simpa using last
  have whole := List.takeWhile_append_dropWhile (p := (· = "")) (l := p.names.reverse)
  rw [shape, bare, List.nil_append] at whole
  have names : p.names = before.reverse ++ [name] := by
    rw [← List.reverse_reverse p.names, ← whole, List.reverse_cons]
  have filled : name ≠ "" := by
    have first := List.head?_dropWhile_not (· = "") p.names.reverse
    simpa [shape] using first
  obtain ⟨along, inside⟩ := walk_dot.1 walked
  exact ⟨taken, before.reverse, name, above, names, rfl,
    ⟨by simp [Path.isIdle, filled, dotless], down⟩, along, inside⟩

/-- A slot that no separator follows is the place of the path. -/
theorem place_of_slot (given : fs.slot p = .ok (.place location false)) : fs.place p = location := by
  obtain ⟨_, front, name, above, names, rfl, own, walked, _⟩ := slot_open given
  rw [place, names, onPaper, List.foldl_append]
  show stepOnPaper (onPaper (fs.startOf p) front) name = _
  rw [← walk_eq_onPaper walked, stepOnPaper_name own]

/-- What a slot holds after the tree has grown is found at its path. -/
theorem openEntry_of_slot {entry : Entry} (given : fs.slot p = .ok (.place location false))
    (growth : Growth written fs grown) (found : grown.find? location = some entry) :
    grown.openEntry p = .ok entry := by
  have spot := place_of_slot given
  obtain ⟨taken, front, name, above, names, rfl, own, walked, inside⟩ := slot_open given
  have step : grown.enter above name = .ok (name :: above) :=
    enter_eq_ok_iff.2 ⟨growth.directory _ inside, (stepOnPaper_name own).symm,
      .inr (.inr (by simp [found]))⟩
  rw [openEntry_eq_ok_iff, growth.place_eq, growth.startOf_eq, spot, names]
  exact ⟨taken, walk_append.2 ⟨above, growth.walk walked, walk_cons.2 ⟨_, step, rfl⟩⟩, found⟩

/-- A written file is found at its path afterwards, and nothing else has changed. -/
theorem putFile_ok {after : FileSystem} (put : fs.putFile p bytes = .ok after) :
    Growth [fs.place p] fs after ∧ after.openEntry p = .ok (.file bytes) := by
  unfold putFile at put
  split at put
  · cases put
  · cases put
  · cases put
  · next location given =>
    split at put
    · cases put
    · next free =>
      obtain rfl := Except.ok.inj put
      have below := slot_ne_nil given
      have growth : Growth [fs.place p] fs (fs.set location (.file bytes)) := by
        refine growth_set below (fun there => absurd there free) fun apart => ?_
        rw [place_of_slot given] at apart
        exact absurd List.mem_cons_self apart
      have found : (fs.set location (.file bytes)).find? location = some (.file bytes) := by
        rw [find?_set fs _ below, if_pos rfl]
      exact ⟨growth, openEntry_of_slot given growth found⟩

/-- Making a directory only adds it. -/
theorem growth_makeDirectory {after : FileSystem} (made : fs.makeDirectory p = .ok after) :
    Growth [] fs after := by
  unfold makeDirectory at made
  split at made
  · cases made
  · cases made
  · next location closed given =>
    split at made
    · cases made
    · next free =>
      obtain rfl := Except.ok.inj made
      exact growth_set (slot_ne_nil given) (fun _ => rfl) fun _ => ⟨rfl, free⟩

/-- Making directories only adds directories, also where it fails half-way. -/
theorem growth_makeDirectoriesOf (fs : FileSystem) (paths : List Path) :
    Growth [] fs (fs.makeDirectoriesOf paths).2 := by
  induction paths generalizing fs with
  | nil => exact .refl [] fs
  | cons p above ih =>
    unfold makeDirectoriesOf
    split
    · next made success => exact growth_makeDirectory success
    · have outer := ih fs
      split
      · next failed => simpa [failed] using outer
      · next changed success =>
        rw [success] at outer
        split
        · next made success' => exact outer.trans (growth_makeDirectory success')
        · split
          · exact outer
          · exact outer
    · split
      · exact .refl [] fs
      · exact .refl [] fs

/-- Making a directory with those above it only adds directories. -/
theorem growth_makeDirectories (fs : FileSystem) (p : Path) :
    Growth [] fs (fs.makeDirectories p).2 := by
  unfold makeDirectories
  split
  · exact .refl [] fs
  · exact growth_makeDirectoriesOf fs _

/-- A file written with the directories above it is found at its path afterwards, and no other file
has changed. -/
theorem writeNested_ok {after : FileSystem} (done : fs.writeNested p bytes = (.ok (), after)) :
    Growth [fs.place p] fs after ∧ after.openEntry p = .ok (.file bytes) := by
  have prepared := growth_makeDirectories fs (p.parent?.getD ⟨""⟩)
  unfold writeNested at done
  split at done
  · cases done
  · next changed made =>
    rw [made] at prepared
    split at done
    · cases done
    · next written put =>
      obtain ⟨rfl⟩ : written = after := by simpa using done
      obtain ⟨growth, found⟩ := putFile_ok put
      rw [prepared.place_eq] at growth
      exact ⟨prepared.trans growth, found⟩

/-- Where a file cannot be written, no file has changed; directories may have been added. -/
theorem growth_of_writeNested_error {e : FileError} {after : FileSystem}
    (failed : fs.writeNested p bytes = (.error e, after)) : Growth [] fs after := by
  have prepared := growth_makeDirectories fs (p.parent?.getD ⟨""⟩)
  unfold writeNested at failed
  split at failed
  · next cause changed stuck =>
    obtain ⟨-, rfl⟩ : cause = e ∧ changed = after := by simpa using failed
    rwa [stuck] at prepared
  · next changed made =>
    split at failed
    · next cause refused =>
      obtain ⟨-, rfl⟩ : cause = e ∧ changed = after := by simpa using failed
      rwa [made] at prepared
    · cases failed

end Writing

end FileSystem

end WikiPress

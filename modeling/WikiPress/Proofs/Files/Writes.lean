import WikiPress.Proofs.Files.Directories

/-!
# Writing files in any order

A file is written with the directories above it exactly where no file is in their place and no
directory in its own (`FileSystem.ready_of_writeNested`, `FileSystem.writeNested_of_ready`), and
the write changes nothing else. So several files can be written one after the other exactly where
each of them could be written alone and none is to be a directory for another
(`FileSystem.Writes.separate`, `FileSystem.Separate.writes`). That does not depend on their order,
and neither do the files that are there at the end, if their places are distinct
(`FileSystem.Writes.perm`).
-/

namespace WikiPress

namespace FileSystem

/-- The way to the place of a path leads by the location before the last name. -/
def Crosses (fs : FileSystem) (p : Path) (location : Location) : Prop :=
  OnWay (fs.startOf p) p.names.dropLast location

/-- A file can be written to the place of the path, as far as the tree shows. -/
structure Ready (fs : FileSystem) (p : Path) : Prop where
  taken : refusal? p = none
  named : ∃ front name, p.names = front ++ [name] ∧ Path.isIdle name = false ∧ name ≠ ".."
  /-- Nothing in the place of a directory is a file. -/
  clear : ∀ location, fs.Crosses p location → ∀ bytes, fs.find? location ≠ some (.file bytes)
  free : fs.find? (fs.place p) ≠ some .directory

/-- The file was written to the place of the path, directories were made of what is on the way to it,
and nothing else has changed. -/
structure Wrote (fs : FileSystem) (p : Path) (bytes : List UInt8) (after : FileTree) : Prop where
  current : after.current = fs.current
  page : after.find? (fs.place p) = some (.file bytes)
  way : ∀ location, fs.Crosses p location → after.find? location = some .directory
  others : ∀ location, location ≠ fs.place p → ¬ fs.Crosses p location →
    after.find? location = fs.find? location

variable {fs after final : FileSystem} {tree written : FileTree} {location : Location} {p q : Path}
  {bytes : List UInt8}

section One

/-- A file that was written could be written, and its place is not on the way to it. -/
theorem ready_of_writeNested (done : fs.writeNested p bytes = (.ok (), after)) :
    fs.Ready p ∧ ¬ fs.Crosses p (fs.place p) := by
  have prepared := growth_makeDirectories fs (p.parent?.getD ⟨""⟩)
  unfold writeNested at done
  split at done
  · cases done
  · next changed made =>
    rw [made] at prepared
    split at done
    · cases done
    · next after put =>
      have spot : changed.place p = fs.place p := prepared.place_eq p
      unfold putFile at put
      split at put
      · cases put
      · cases put
      · cases put
      · next location given =>
        split at put
        · cases put
        · next free =>
          have own : fs.place p = location := spot.symm.trans (place_of_slot given)
          obtain ⟨taken, front, name, above, names, _, proper, walked, inside⟩ := slot_open given
          rw [prepared.startOf_eq] at walked
          have way : ∀ other, fs.Crosses p other → changed.find? other = some .directory := by
            intro other crossed
            rw [Crosses, names, List.dropLast_concat] at crossed
            exact paved_of_walk walked inside crossed
          refine ⟨⟨taken, ⟨front, name, names, proper⟩, ?_, ?_⟩, ?_⟩
          · intro other crossed content held
            have file := (prepared.file other List.not_mem_nil content).2 held
            rw [way other crossed] at file
            cases file
          · intro there
            exact free (prepared.directory _ (own ▸ there))
          · intro crossed
            exact free (own ▸ way _ crossed)

/-- Behind directories, a file is put where no directory stands. -/
theorem putFile_of_paved {front : List String} {name : String} {changed : FileTree}
    (paved : fs.Paved (fs.startOf p) front changed) (taken : refusal? p = none)
    (spelled : p.names = front ++ [name]) (awake : Path.isIdle name = false) (down : name ≠ "..")
    (free : changed.find? (fs.place p) ≠ some .directory) :
    changed.putFile p bytes = .ok (changed.set (fs.place p) (.file bytes)) := by
  have start := paved.startOf_eq p
  have spot : fs.place p = name :: onPaper (fs.startOf p) front := by
    rw [place, spelled, onPaper_append]
    exact stepOnPaper_name ⟨awake, down⟩
  have inside := walk_dot.2 ⟨walk_of_paved paved.way, paved.way _ (onWay_end _ _)⟩
  have slots : changed.slot p = .ok (.place (fs.place p) false) := by
    rw [slot_concat taken spelled awake, if_neg down, start, inside, spot]
    rfl
  simp only [putFile, slots]

/-- A file that can be written is written, where its place is not on the way to it. -/
theorem writeNested_of_ready (ready : tree.Ready p) (apart : ¬ tree.Crosses p (tree.place p))
    (bytes : List UInt8) : ∃ after : FileTree,
      tree.writeNested p bytes = (.ok (), after.toFileSystem) ∧ tree.Wrote p bytes after := by
  obtain ⟨taken, ⟨front, name, names, awake, down⟩, clear, free⟩ := ready
  have way : ∀ other, tree.Crosses p other ↔ OnWay (tree.startOf p) front other := by
    intro other
    rw [Crosses, names, List.dropLast_concat]
  have spot : tree.place p = name :: onPaper (tree.startOf p) front := by
    rw [place, names, onPaper_append]
    exact stepOnPaper_name ⟨awake, down⟩
  obtain ⟨paths, ladder, made⟩ := Path.ladder_parent taken names awake
  obtain ⟨changed, success, paved⟩ := makeDirectoriesOf_ladder ladder
    fun other along => clear other ((way other).2 along)
  have kept : changed.find? (tree.place p) ≠ some .directory := by
    rw [paved.others _ fun along => apart ((way _).2 along)]
    exact free
  have put : changed.putFile p bytes = _ := putFile_of_paved paved taken names awake down kept
  have inside := paved.way _ (onWay_end _ _)
  have covered : changed.find? (name :: onPaper (tree.startOf p) front) = some .directory →
      Entry.file bytes = .directory := fun there => absurd there (spot ▸ kept)
  rw [spot] at put apart
  refine ⟨putInside changed _ name (.file bytes) inside covered, ?_, paved.current, ?_, ?_, ?_⟩
  · rw [writeNested, made, success]
    simp only [put]
    rfl
  · rw [find?_putInside, if_pos spot]
  · intro other crossed
    have apart' : other ≠ name :: onPaper (tree.startOf p) front :=
      fun same => apart (same ▸ crossed)
    rw [find?_putInside, if_neg apart']
    exact paved.way other ((way other).1 crossed)
  · intro other apart' crossed
    rw [spot] at apart'
    rw [find?_putInside, if_neg apart']
    exact paved.others other fun along => crossed ((way other).2 along)

/-- What a write into a tree leaves is a tree. -/
theorem wrote_of_writeNested (done : tree.writeNested p bytes = (.ok (), after)) :
    ∃ written : FileTree, written.toFileSystem = after ∧ tree.Wrote p bytes written := by
  obtain ⟨ready, apart⟩ := ready_of_writeNested done
  obtain ⟨written, success, wrote⟩ := writeNested_of_ready ready apart bytes
  exact ⟨written, by simpa [success] using done, wrote⟩

end One

section Several

/-- Files written one after the other, each with its path and content. -/
inductive Writes : FileSystem → List (Path × List UInt8) → FileSystem → Prop
  | none (fs : FileSystem) : Writes fs [] fs
  | next {fs written after : FileSystem} {job : Path × List UInt8}
      {more : List (Path × List UInt8)} (first : fs.writeNested job.1 job.2 = (.ok (), written))
      (behind : Writes written more after) : Writes fs (job :: more) after

/-- Each of the files can be written, and none of them is to be a directory for one of them. -/
def Separate (fs : FileSystem) (jobs : List (Path × List UInt8)) : Prop :=
  ∀ job ∈ jobs, fs.Ready job.1 ∧ ∀ other ∈ jobs, ¬ fs.Crosses other.1 (fs.place job.1)

/-- The files are in their places, directories are on the way to them, and nothing else has
changed. -/
structure Holds (fs : FileSystem) (jobs : List (Path × List UInt8)) (after : FileSystem) : Prop where
  current : after.current = fs.current
  page : ∀ job ∈ jobs, after.find? (fs.place job.1) = some (.file job.2)
  way : ∀ job ∈ jobs, ∀ location, fs.Crosses job.1 location →
    after.find? location = some .directory
  others : ∀ location, (∀ job ∈ jobs, location ≠ fs.place job.1 ∧ ¬ fs.Crosses job.1 location) →
    after.find? location = fs.find? location

/-- The same is found everywhere in both file systems, and relative paths start in the same place. -/
structure Alike (fs other : FileSystem) : Prop where
  current : fs.current = other.current
  found : ∀ location, fs.find? location = other.find? location

variable {jobs others more : List (Path × List UInt8)}

/-- Paths start where they did before a write. -/
theorem Wrote.startOf_eq (wrote : fs.Wrote p bytes written) (q : Path) :
    written.startOf q = fs.startOf q := by
  rw [startOf, startOf, wrote.current]

/-- Paths keep their places in a write. -/
theorem Wrote.place_eq (wrote : fs.Wrote p bytes written) (q : Path) :
    written.place q = fs.place q := by
  rw [place, place, wrote.startOf_eq]

/-- The ways to places are the same after a write. -/
theorem Wrote.crosses_iff (wrote : fs.Wrote p bytes written) :
    written.Crosses q location ↔ fs.Crosses q location := by
  rw [Crosses, Crosses, wrote.startOf_eq]

/-- What can be written after a write could be written before it, and neither file is to be a
directory for the other. -/
theorem Wrote.ready_before (wrote : fs.Wrote p bytes written) (ready : fs.Ready p)
    (later : written.Ready q) :
    fs.Ready q ∧ ¬ fs.Crosses q (fs.place p) ∧ ¬ fs.Crosses p (fs.place q) := by
  have front : ¬ fs.Crosses q (fs.place p) := fun crossed =>
    later.clear _ (wrote.crosses_iff.2 crossed) bytes wrote.page
  have back : ¬ fs.Crosses p (fs.place q) := fun crossed =>
    later.free (wrote.place_eq q ▸ wrote.way _ crossed)
  refine ⟨⟨later.taken, later.named, ?_, ?_⟩, front, back⟩
  · intro location crossed content held
    have other : location ≠ fs.place p := fun same => front (same ▸ crossed)
    by_cases along : fs.Crosses p location
    · exact ready.clear location along content held
    · apply later.clear location (wrote.crosses_iff.2 crossed) content
      rw [wrote.others location other along, held]
  · intro there
    have other : fs.place q ≠ fs.place p := by
      intro same
      exact ready.free (same ▸ there)
    apply later.free
    rw [wrote.place_eq, wrote.others _ other back, there]

/-- What can be written before a write can be written after it, where neither file is to be a
directory for the other. -/
theorem Wrote.ready_after (wrote : fs.Wrote p bytes written) (ready : fs.Ready q)
    (front : ¬ fs.Crosses q (fs.place p)) (back : ¬ fs.Crosses p (fs.place q)) : written.Ready q := by
  refine ⟨ready.taken, ready.named, ?_, ?_⟩
  · intro location crossed content held
    rw [wrote.crosses_iff] at crossed
    have other : location ≠ fs.place p := fun same => front (same ▸ crossed)
    by_cases along : fs.Crosses p location
    · rw [wrote.way location along] at held
      cases held
    · rw [wrote.others location other along] at held
      exact ready.clear location crossed content held
  · intro there
    rw [wrote.place_eq] at there
    by_cases same : fs.place q = fs.place p
    · rw [same, wrote.page] at there
      cases there
    · rw [wrote.others _ same back] at there
      exact ready.free there

/-- A row of files is written by its first one and then the others. -/
theorem writes_cons : fs.Writes ((p, bytes) :: more) after ↔
    ∃ written, fs.writeNested p bytes = (.ok (), written) ∧ written.Writes more after := by
  constructor
  · intro writes
    cases writes with
    | next first behind => exact ⟨_, first, behind⟩
  · rintro ⟨written, first, behind⟩
    exact .next first behind

/-- Files that were written one after the other are separate. -/
theorem Writes.separate (writes : tree.Writes jobs after) : tree.Separate jobs := by
  induction jobs generalizing tree with
  | nil => exact fun job member => absurd member List.not_mem_nil
  | cons head more ih =>
    obtain ⟨changed, first, behind⟩ := writes_cons.1 writes
    obtain ⟨ready, apart⟩ := ready_of_writeNested first
    obtain ⟨written, rfl, wrote⟩ := wrote_of_writeNested first
    have later := ih behind
    have rest : ∀ job ∈ more, tree.Ready job.1 ∧ ¬ tree.Crosses job.1 (tree.place head.1) ∧
        ¬ tree.Crosses head.1 (tree.place job.1) :=
      fun job member => wrote.ready_before ready (later job member).1
    refine List.forall_mem_cons.2 ⟨⟨ready, ?_⟩, fun job member => ⟨(rest job member).1, ?_⟩⟩
    · exact List.forall_mem_cons.2 ⟨apart, fun other member => (rest other member).2.1⟩
    · refine List.forall_mem_cons.2 ⟨(rest job member).2.2, fun other member' crossed => ?_⟩
      apply (later job member).2 other member'
      rwa [wrote.crosses_iff, wrote.place_eq]

/-- Separate files can be written one after the other. -/
theorem Separate.writes (separate : tree.Separate jobs) : ∃ after, tree.Writes jobs after := by
  induction jobs generalizing tree with
  | nil => exact ⟨tree, .none tree⟩
  | cons head more ih =>
    obtain ⟨⟨ready, own⟩, rest⟩ := List.forall_mem_cons.1 separate
    obtain ⟨apart, front⟩ := List.forall_mem_cons.1 own
    obtain ⟨written, first, wrote⟩ := writeNested_of_ready ready apart head.2
    have later : written.Separate more := by
      intro job member
      obtain ⟨able, clear⟩ := rest job member
      obtain ⟨back, clear⟩ := List.forall_mem_cons.1 clear
      refine ⟨wrote.ready_after able (front job member) back, fun other member' => ?_⟩
      rw [wrote.crosses_iff, wrote.place_eq]
      exact clear other member'
    obtain ⟨after, behind⟩ := ih later
    exact ⟨after, .next first behind⟩

/-- Files that were written one after the other to distinct places are there at the end. -/
theorem Writes.holds (writes : tree.Writes jobs after)
    (distinct : (jobs.map fun job => tree.place job.1).Nodup) : tree.Holds jobs after := by
  have separate := writes.separate
  induction jobs generalizing tree with
  | nil =>
    cases writes
    exact ⟨rfl, fun job member => absurd member List.not_mem_nil,
      fun job member => absurd member List.not_mem_nil, fun location _ => rfl⟩
  | cons head more ih =>
    obtain ⟨changed, first, behind⟩ := writes_cons.1 writes
    obtain ⟨written, rfl, wrote⟩ := wrote_of_writeNested first
    obtain ⟨unlisted, apart⟩ := List.nodup_cons.1 distinct
    obtain ⟨⟨_, own⟩, rest⟩ := List.forall_mem_cons.1 separate
    have front : ∀ job ∈ more, ¬ tree.Crosses job.1 (tree.place head.1) :=
      (List.forall_mem_cons.1 own).2
    have back : ∀ job ∈ more, ¬ tree.Crosses head.1 (tree.place job.1) :=
      fun job member => (List.forall_mem_cons.1 (rest job member).2).1
    have spot : (fun job : Path × List UInt8 => written.place job.1) =
        fun job => tree.place job.1 := funext fun job => wrote.place_eq job.1
    have held := ih behind (spot ▸ apart) behind.separate
    have kept : ∀ location, (∀ job ∈ more, location ≠ tree.place job.1 ∧
        ¬ tree.Crosses job.1 location) → after.find? location = written.find? location := by
      intro location clear
      refine held.others location fun job member => ?_
      rw [wrote.place_eq, wrote.crosses_iff]
      exact clear job member
    refine ⟨held.current.trans wrote.current, List.forall_mem_cons.2 ⟨?_, ?_⟩,
      List.forall_mem_cons.2 ⟨?_, ?_⟩, ?_⟩
    · rw [kept _ fun job member => ⟨fun same => ?_, front job member⟩, wrote.page]
      exact unlisted (List.mem_map.2 ⟨job, member, same.symm⟩)
    · intro job member
      rw [← wrote.place_eq]
      exact held.page job member
    · intro location crossed
      by_cases clear : ∀ job ∈ more, ¬ tree.Crosses job.1 location
      · rw [kept _ fun job member => ⟨fun same => ?_, clear job member⟩, wrote.way _ crossed]
        exact back job member (same ▸ crossed)
      · obtain ⟨job, member, along⟩ : ∃ job ∈ more, tree.Crosses job.1 location := by
          simpa using clear
        exact held.way job member location (wrote.crosses_iff.2 along)
    · intro job member location crossed
      exact held.way job member location (wrote.crosses_iff.2 crossed)
    · intro location clear
      obtain ⟨⟨other, aside⟩, behind⟩ := List.forall_mem_cons.1 clear
      rw [kept location behind, wrote.others location other aside]

/-- Two file systems that hold the same files are alike. -/
theorem Holds.alike (first : fs.Holds jobs after) (second : fs.Holds others final)
    (same : ∀ job, job ∈ others ↔ job ∈ jobs) : final.Alike after where
  current := second.current.trans first.current.symm
  found location := by
    by_cases page : ∃ job ∈ jobs, location = fs.place job.1
    · obtain ⟨job, member, rfl⟩ := page
      rw [first.page job member, second.page job ((same job).2 member)]
    · by_cases way : ∃ job ∈ jobs, fs.Crosses job.1 location
      · obtain ⟨job, member, crossed⟩ := way
        rw [first.way job member location crossed,
          second.way job ((same job).2 member) location crossed]
      · have clear : ∀ job ∈ jobs, location ≠ fs.place job.1 ∧ ¬ fs.Crosses job.1 location :=
          fun job member => ⟨fun here => page ⟨job, member, here⟩,
            fun crossed => way ⟨job, member, crossed⟩⟩
        rw [first.others location clear,
          second.others location fun job member => clear job ((same job).1 member)]

/-- Files that are written one after the other to distinct places can be written in any order, and
then the same is found everywhere. -/
theorem Writes.perm (writes : tree.Writes jobs after)
    (distinct : (jobs.map fun job => tree.place job.1).Nodup) (reordered : jobs.Perm others) :
    ∃ final, tree.Writes others final ∧ final.Alike after := by
  have same : ∀ job, job ∈ others ↔ job ∈ jobs := fun job => reordered.mem_iff.symm
  have separate : tree.Separate others := by
    intro job member
    obtain ⟨ready, apart⟩ := writes.separate job ((same job).1 member)
    exact ⟨ready, fun other member' => apart other ((same other).1 member')⟩
  obtain ⟨final, again⟩ := separate.writes
  have distinct' : (others.map fun job => tree.place job.1).Nodup :=
    (List.Perm.map _ reordered).nodup distinct
  have first := writes.holds distinct
  have second := again.holds distinct'
  exact ⟨final, again, first.alike second same⟩

end Several

end FileSystem

end WikiPress

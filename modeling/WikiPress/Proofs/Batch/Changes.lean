import Mathlib.Data.List.Induction
import WikiPress.Batch.Settings
import WikiPress.Proofs.Path.Below

/-!
# Settings under changes

Settings are made by a row of changes to fresh ones, in any order. A part that changes of one kind
set is as the last of them has set it (`Settings.after_last`), and what was added stays in order. The
directory for inclusions hangs on two kinds of changes: a source root counts before and after any
directory that is given (`Settings.lookup_after`). So settings are consistent after every row of
changes (`Settings.after_consistent`).
-/

namespace WikiPress

/-- A change to settings. -/
inductive Change where
  | src (root : String)
  | dest (root : String)
  | indexName (name : String)
  | argument (argument : String)
  /-- A reader of sources that looks inclusions up in a directory of its own. -/
  | lookup (directory : Path)
  | format (format : Format)
  deriving DecidableEq

namespace Change

/-- The source root that a change sets. -/
def src? : Change → Option String
  | src root => some root
  | _ => none

/-- The destination root that a change sets. -/
def dest? : Change → Option String
  | dest root => some root
  | _ => none

/-- The name that a change gives to the index file. -/
def indexName? : Change → Option String
  | indexName name => some name
  | _ => none

/-- The argument that a change adds. -/
def argument? : Change → Option String
  | argument text => some text
  | _ => none

/-- The directory for inclusions that a change gives. -/
def lookup? : Change → Option Path
  | lookup directory => some directory
  | _ => none

end Change

/-- What the last change of a kind gives. -/
def lastGiven {α : Type} (give : Change → Option α) (changes : List Change) : Option α :=
  (changes.filterMap give).getLast?

/-- A further change gives something itself or leaves what was given before. -/
theorem lastGiven_concat {α : Type} (give : Change → Option α) (changes : List Change)
    (change : Change) :
    lastGiven give (changes ++ [change]) = (give change).or (lastGiven give changes) := by
  rw [lastGiven, List.filterMap_append, List.getLast?_append]
  cases given : give change with
  | none => rw [List.filterMap_cons_none given]; rfl
  | some value => rw [List.filterMap_cons_some given]; rfl

namespace Settings

/-- The settings after a change. -/
def changed (s : Settings) : Change → Settings
  | .src root => s.withSrc root
  | .dest root => s.withDest root
  | .indexName name => s.withIndexName name
  | .argument argument => s.addArgument argument
  | .lookup directory => s.withLookup directory
  | .format format => s.withFormat format

/-- The settings before any change, with a directory for inclusions and a format. -/
def fresh (directory : Path) (format : Format) : Settings := { lookup := directory, format }

/-- The settings that changes in a row make of fresh ones. -/
def after (directory : Path) (format : Format) (changes : List Change) : Settings :=
  changes.foldl changed (fresh directory format)

/-- One more change. -/
theorem after_concat (directory : Path) (format : Format) (changes : List Change)
    (change : Change) :
    after directory format (changes ++ [change]) =
      (after directory format changes).changed change := List.foldl_concat _ _ _ _

/-- A root ends in a slash. -/
theorem getLast?_normalRoot (root : String) :
    (normalRoot root).toList.getLast? = some Path.separator := by
  simp only [normalRoot]
  split
  · assumption
  · rw [String.toList_append, List.getLast?_append]
    rfl

/-- A root is not empty. -/
theorem normalRoot_ne_empty (root : String) : normalRoot root ≠ "" := by
  intro empty
  have ended := getLast?_normalRoot root
  rw [empty] at ended
  cases ended

/-- A root has no backslash. -/
theorem backslash_not_mem_normalRoot (root : String) : '\\' ∉ (normalRoot root).toList := by
  have slashed := Path.backslash_not_mem_withSlashes root
  simp only [normalRoot]
  split
  · exact slashed
  · rw [String.toList_append, List.mem_append, not_or]
    exact ⟨slashed, by decide⟩

/-- A root is its own normal form. -/
theorem normalRoot_normalRoot (root : String) : normalRoot (normalRoot root) = normalRoot root := by
  have kept : Path.withSlashes (normalRoot root) = normalRoot root :=
    Path.withSlashes_of_not_mem (backslash_not_mem_normalRoot root)
  rw [normalRoot, kept]
  exact if_pos (getLast?_normalRoot root)

/-- A relative path without a slash in front only gets slashes for its backslashes. -/
theorem normalRelative_eq {rel : String}
    (relative : (Path.withSlashes rel).toList.head? ≠ some Path.separator) :
    normalRelative rel = Path.withSlashes rel := by
  rw [normalRelative]
  cases shape : (Path.withSlashes rel).toList with
  | nil => rw [← String.ofList_toList (s := Path.withSlashes rel), shape]; rfl
  | cons c rest =>
    have own : c ≠ Path.separator := by simpa [shape] using relative
    rw [List.dropWhile_cons_of_neg (by simpa using own), ← shape, String.ofList_toList]

section Changes

variable (directory : Path) (format : Format) (changes : List Change)

/-- A part of the settings that the changes of one kind set, and no others, is as the last of them
has set it. -/
theorem after_last {α β : Type} {part : Settings → β} {give : Change → Option α} {make : α → β}
    (sets : ∀ (s : Settings) change value, give change = some value →
      part (s.changed change) = make value)
    (keeps : ∀ (s : Settings) change, give change = none → part (s.changed change) = part s) :
    part (after directory format changes) =
      ((lastGiven give changes).map make).getD (part (fresh directory format)) := by
  induction changes using List.reverseRecOn with
  | nil => rfl
  | append_singleton changes change ih =>
    rw [after_concat, lastGiven_concat]
    cases given : give change with
    | none => rw [keeps _ _ given, ih, Option.none_or]
    | some value =>
      rw [sets _ _ _ given]
      rfl

/-- The source root is the last one set. -/
theorem src_after : (after directory format changes).src =
    ((lastGiven Change.src? changes).map normalRoot).getD "" := by
  apply after_last directory format changes
  · intro s change value given
    cases change <;> cases given
    rfl
  · intro s change given
    cases change with
    | src => cases given
    | _ => rfl

/-- The destination root is the last one set. -/
theorem dest_after : (after directory format changes).dest =
    ((lastGiven Change.dest? changes).map normalRoot).getD "" := by
  apply after_last directory format changes
  · intro s change value given
    cases change <;> cases given
    rfl
  · intro s change given
    cases change with
    | dest => cases given
    | _ => rfl

/-- The name of the index file is the last one given. -/
theorem indexName_after : (after directory format changes).indexName =
    lastGiven Change.indexName? changes := by
  have last : (after directory format changes).indexName =
      ((lastGiven Change.indexName? changes).map some).getD none := by
    apply after_last directory format changes
    · intro s change value given
      cases change <;> cases given
      rfl
    · intro s change given
      cases change with
      | indexName => cases given
      | _ => rfl
  rw [last]
  cases lastGiven Change.indexName? changes <;> rfl

/-- The arguments are those added, in their order. -/
theorem arguments_after : (after directory format changes).arguments =
    changes.filterMap Change.argument? := by
  induction changes using List.reverseRecOn with
  | nil => rfl
  | append_singleton changes change ih =>
    rw [after_concat, List.filterMap_append, ← ih]
    cases change with
    | argument text => rfl
    | _ => exact (List.append_nil _).symm

/-- Inclusions are looked up in the source root once there is one, and before that in the last
directory given. -/
theorem lookup_after : (after directory format changes).lookup =
    if (after directory format changes).src = "" then
      (lastGiven Change.lookup? changes).getD directory
    else ⟨(after directory format changes).src⟩ := by
  induction changes using List.reverseRecOn with
  | nil => rfl
  | append_singleton changes change ih =>
    rw [after_concat, lastGiven_concat]
    cases change with
    | src root => exact (if_neg (normalRoot_ne_empty root)).symm
    | lookup given => rfl
    | _ => exact ih

end Changes

/-- Settings are consistent, whatever the order of the changes that made them. A source root is in
normal form and is where inclusions are looked up; without one the last directory given counts. The
destination root, the index file and the arguments are as they were given last, and a root that is
set once more to what it is changes nothing. -/
theorem after_consistent (directory : Path) (format : Format) (changes : List Change) :
    let s := after directory format changes
    (∀ root, lastGiven Change.src? changes = some root →
      s.src = normalRoot root ∧ '\\' ∉ s.src.toList ∧ s.src.toList.getLast? = some '/' ∧
        s.lookup = ⟨s.src⟩ ∧ s.withSrc s.src = s) ∧
    (lastGiven Change.src? changes = none →
      s.src = "" ∧ s.lookup = (lastGiven Change.lookup? changes).getD directory) ∧
    s.dest = ((lastGiven Change.dest? changes).map normalRoot).getD "" ∧
    (lastGiven Change.dest? changes ≠ none → s.withDest s.dest = s) ∧
    s.indexFile = ((lastGiven Change.indexName? changes).filter
      fun name => Text.trim name.toList ≠ []).getD defaultIndex ∧
    s.arguments = changes.filterMap Change.argument? ∧
    ∀ i, (∀ h : i < s.arguments.length, s.argument i = .ok s.arguments[i]) ∧
      (¬ i < s.arguments.length → s.argument i = .error ⟨i, s.arguments.length⟩) := by
  intro s
  have src : s.src = ((lastGiven Change.src? changes).map normalRoot).getD "" :=
    src_after directory format changes
  have dest : s.dest = ((lastGiven Change.dest? changes).map normalRoot).getD "" :=
    dest_after directory format changes
  have indexName : s.indexName = lastGiven Change.indexName? changes :=
    indexName_after directory format changes
  have lookup := lookup_after directory format changes
  change s.lookup = if s.src = "" then _ else ⟨s.src⟩ at lookup
  refine ⟨fun root given => ?_, fun none => ?_, dest, fun given => ?_, ?_,
    arguments_after directory format changes, fun i => ⟨fun within => ?_, fun beyond => ?_⟩⟩
  · have own : s.src = normalRoot root := by rw [src, given]; rfl
    have rooted : s.lookup = ⟨s.src⟩ := by
      rw [lookup, if_neg (own ▸ normalRoot_ne_empty root)]
    refine ⟨own, own ▸ backslash_not_mem_normalRoot root, own ▸ getLast?_normalRoot root, rooted, ?_⟩
    have fixed : normalRoot s.src = s.src := by rw [own, normalRoot_normalRoot]
    rw [withSrc, fixed, ← rooted]
  · have unset : s.src = "" := by rw [src, none]; rfl
    exact ⟨unset, by rw [lookup, if_pos unset]⟩
  · obtain ⟨root, last⟩ := Option.ne_none_iff_exists'.1 given
    have fixed : normalRoot s.dest = s.dest := by
      rw [dest, last]
      exact normalRoot_normalRoot root
    rw [withDest, fixed]
  · rw [indexFile, indexName]
    cases lastGiven Change.indexName? changes with
    | none => rfl
    | some name => by_cases blank : Text.trim name.toList = [] <;> simp [Option.filter, blank]
  · rw [argument, List.getElem?_eq_getElem within]
  · rw [argument, List.getElem?_eq_none (by omega)]

/-- Two source roots with a directory for inclusions around each of them, a blank name for the index
and an argument. -/
theorem after_consistent_sample :
    let changes : List Change := [.lookup ⟨"x"⟩, .src "a\\b", .dest "o", .indexName " ",
      .argument "-d", .lookup ⟨"y"⟩, .src "c/"]
    let s := after ⟨""⟩ .wiki changes
    lastGiven Change.src? changes = some "c/" ∧ lastGiven Change.dest? changes = some "o" ∧
      s.src = "c/" ∧ s.lookup = ⟨"c/"⟩ ∧ s.dest = "o/" ∧ s.indexFile = "index.xml" ∧
      s.withSrc s.src = s ∧ s.withDest s.dest = s ∧ s.argument 0 = .ok "-d" ∧
      s.argument 1 = .error ⟨1, 1⟩ := by
  intro changes s
  have src : lastGiven Change.src? changes = some "c/" := by decide
  have dest : lastGiven Change.dest? changes = some "o" := by decide
  obtain ⟨rooted, _, own, again, index, _, argument⟩ := after_consistent ⟨""⟩ .wiki changes
  obtain ⟨normal, _, _, lookup, same⟩ := rooted _ src
  have root : s.src = "c/" := normal.trans (by decide)
  refine ⟨src, dest, root, lookup.trans (congrArg Path.mk root), ?_, ?_, same, again (by simp [dest]),
    (argument 0).1 (by decide), (argument 1).2 (by decide)⟩
  · rw [own, dest]
    decide
  · rw [index]
    decide

end Settings

end WikiPress

import WikiPress.Path
import WikiPress.Source.Error

/-!
# File systems

A file system is a value: what is found at each location of a tree, and the directory in which
relative paths start. A path is walked name by name through directories that have to exist, so it
may be refused although it would mean an existing file on paper. Operations that change the tree
give it back, also where they fail half-way. There are no links: an entry is a file or a directory,
so every location has one path on paper, and whoever asks may read and write everything.
-/

namespace WikiPress

/-- The names from an entry up to the top directory. -/
abbrev Location := List String

/-- What stands at a location. -/
inductive Entry where
  | file (bytes : List UInt8)
  | directory
  deriving DecidableEq

/-- The content of an opened entry; a directory can be opened but not read. -/
def Entry.read : Entry → Except FileError (List UInt8)
  | .file bytes => .ok bytes
  | .directory => .error .isDirectory

/-- A tree of directories and files. -/
structure FileSystem where
  /-- What stands below the top directory; the first entry for a location counts. -/
  entries : List (Location × Entry)
  /-- Where relative paths start. -/
  current : Location

namespace FileSystem

/-- What stands at a location; the top directory is always there. -/
def find? (fs : FileSystem) (location : Location) : Option Entry :=
  if location = [] then some .directory
  else (fs.entries.find? (·.1 == location)).map (·.2)

/-- The tree with an entry put at a location. -/
def set (fs : FileSystem) (location : Location) (entry : Entry) : FileSystem :=
  { fs with entries := (location, entry) :: fs.entries.filter (·.1 != location) }

/-- The contents of the files. -/
def contents (fs : FileSystem) : List (List UInt8) :=
  fs.entries.filterMap fun (_, entry) =>
    match entry with
    | .file bytes => some bytes
    | .directory => none

/-- Putting an entry changes what stands at its location and nowhere else. -/
theorem find?_set (fs : FileSystem) {location : Location} (entry : Entry) (h : location ≠ [])
    (other : Location) :
    (fs.set location entry).find? other = if other = location then some entry
      else fs.find? other := by
  unfold find? set
  by_cases same : other = location
  · subst same
    simp [h]
  · have apart : (location == other) = false := by simp [Ne.symm same]
    have kept : (fun x : Location × Entry => decide ((x.1 != location) = true ∧
        (x.1 == other) = true)) = fun x => x.1 == other := by
      funext x
      by_cases here : x.1 = other
      · simp [here, same]
      · simp [here]
    simp only [same, if_false, List.find?_cons, apart, List.find?_filter, kept]

/-- One step of a walk: an empty name and `.` stay, and each of them asks for a directory. -/
def enter (fs : FileSystem) (location : Location) (name : String) : Except FileError Location :=
  match fs.find? location with
  | none => .error .notFound
  | some (.file _) => .error .notDirectory
  | some .directory =>
    if Path.isIdle name then .ok location
    else if name = ".." then .ok location.tail
    else if (fs.find? (name :: location)).isSome then .ok (name :: location)
    else .error .notFound

/-- A walk along names. -/
def walk (fs : FileSystem) (location : Location) : List String → Except FileError Location
  | [] => .ok location
  | name :: more =>
    match fs.enter location name with
    | .error e => .error e
    | .ok next => fs.walk next more

/-- Where a path starts. -/
def startOf (fs : FileSystem) (p : Path) : Location := if p.isAbsolute then [] else fs.current

/-- A path that no system call takes. -/
def refusal? (p : Path) : Option FileError :=
  if p.text.toList.any (·.toNat = 0) then some .nullInPath
  else if p.text = "" then some .notFound
  else none

/-- The entry that a path leads to. -/
def openEntry (fs : FileSystem) (p : Path) : Except FileError Entry :=
  match refusal? p with
  | some e => .error e
  | none =>
    match fs.walk (fs.startOf p) p.names with
    | .error e => .error e
    | .ok location =>
      match fs.find? location with
      | some entry => .ok entry
      | none => .error .notFound

/-- The content of the file that a path leads to. -/
def bytesAt (fs : FileSystem) (p : Path) : Except FileError (List UInt8) :=
  match fs.openEntry p with
  | .error e => .error e
  | .ok entry => entry.read

/-- The path leads to a directory. -/
def isDirectory (fs : FileSystem) (p : Path) : Bool :=
  match fs.openEntry p with
  | .ok .directory => true
  | _ => false

/-- The path leads to a file. -/
def isFile (fs : FileSystem) (p : Path) : Bool :=
  match fs.openEntry p with
  | .ok (.file _) => true
  | _ => false

/-- Where an entry may be put. -/
inductive Slot where
  /-- The path ends in a step that names no entry and leads to a directory. -/
  | standing
  /-- The path ends in a name; a separator may follow it. -/
  | place (location : Location) (closed : Bool)

/-- The place of the last name of a path. -/
def slot (fs : FileSystem) (p : Path) : Except FileError Slot :=
  match refusal? p with
  | some e => .error e
  | none =>
    let behind := p.names.reverse.takeWhile (· = "")
    match p.names.reverse.dropWhile (· = "") with
    | [] => .ok .standing
    | name :: before =>
      if name = "." ∨ name = ".." then
        match fs.walk (fs.startOf p) p.names with
        | .error e => .error e
        | .ok _ => .ok .standing
      else
        match fs.walk (fs.startOf p) (before.reverse ++ ["."]) with
        | .error e => .error e
        | .ok location => .ok (.place (name :: location) (behind ≠ []))

/-- Make one directory in a directory that is there. -/
def makeDirectory (fs : FileSystem) (p : Path) : Except FileError FileSystem :=
  match fs.slot p with
  | .error e => .error e
  | .ok .standing => .error .alreadyExists
  | .ok (.place location _) =>
    match fs.find? location with
    | some _ => .error .alreadyExists
    | none => .ok (fs.set location .directory)

/-- Make a directory that may be there, given its path and the paths above it: those are made
only when it cannot be made without them. -/
def makeDirectoriesOf (fs : FileSystem) : List Path → Except FileError Unit × FileSystem
  | [] => (.ok (), fs)
  | p :: above =>
    match fs.makeDirectory p with
    | .ok made => (.ok (), made)
    | .error .notFound =>
      match fs.makeDirectoriesOf above with
      | (.error e, changed) => (.error e, changed)
      | (.ok (), changed) =>
        match changed.makeDirectory p with
        | .ok made => (.ok (), made)
        | .error e => if changed.isDirectory p then (.ok (), changed) else (.error e, changed)
    | .error e => if fs.isDirectory p then (.ok (), fs) else (.error e, fs)

/-- Make a directory and all directories above it that are missing. -/
def makeDirectories (fs : FileSystem) (p : Path) : Except FileError Unit × FileSystem :=
  if p.text = "" then (.ok (), fs) else fs.makeDirectoriesOf (p :: p.ancestors)

/-- Write a file, new or in place of another file. -/
def putFile (fs : FileSystem) (p : Path) (bytes : List UInt8) : Except FileError FileSystem :=
  match fs.slot p with
  | .error e => .error e
  | .ok .standing => .error .isDirectory
  | .ok (.place _ true) => .error .isDirectory
  | .ok (.place location false) =>
    match fs.find? location with
    | some .directory => .error .isDirectory
    | _ => .ok (fs.set location (.file bytes))

/-- Write a file, making the directories above it first. -/
def writeNested (fs : FileSystem) (p : Path) (bytes : List UInt8) :
    Except FileError Unit × FileSystem :=
  match fs.makeDirectories (p.parent?.getD ⟨""⟩) with
  | (.error e, changed) => (.error e, changed)
  | (.ok (), changed) =>
    match changed.putFile p bytes with
    | .error e => (.error e, changed)
    | .ok written => (.ok (), written)

end FileSystem

/-- A file system in which every entry stands in a directory, and so does whoever asks. -/
structure FileTree extends FileSystem where
  inside : toFileSystem.find? current = some .directory
  above : ∀ name location, (toFileSystem.find? (name :: location)).isSome →
    toFileSystem.find? location = some .directory

/-- A tree is used as a file system. -/
instance : CoeOut FileTree FileSystem := ⟨FileTree.toFileSystem⟩

/-- The tree of entries each of which stands in a directory. -/
def FileTree.ofEntries (fs : FileSystem) (inside : fs.find? fs.current = some .directory)
    (above : ∀ entry ∈ fs.entries, fs.find? entry.1.tail = some .directory) : FileTree where
  toFileSystem := fs
  inside := inside
  above name location there := by
    rw [FileSystem.find?, if_neg (List.cons_ne_nil _ _), Option.isSome_map, List.find?_isSome] at there
    obtain ⟨entry, member, same⟩ := there
    have stands : entry.1 = name :: location := by simpa using same
    have directory := above entry member
    rwa [stands] at directory

end WikiPress

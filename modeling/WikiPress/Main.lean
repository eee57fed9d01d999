import WikiPress.Command.Reach

/-!
# The program

The command line as a program: the files that a command looks at are loaded from the machine, the
command runs on them as a value, and what it changed is written back.
-/

namespace WikiPress.Main

/-- The name of a location on the machine. -/
def placeName (location : Location) : String := "/" ++ "/".intercalate location.reverse

/-- What stands at a location of the machine. -/
def entryAt (location : Location) : IO (Option Entry) := do
  let place := (← IO.currentDir) / placeName location
  if ← place.isDir then return some .directory
  if ← place.pathExists then return some (.file (← IO.FS.readBinFile place).data.toList)
  return none

/-- Load what stands along a path. -/
def load (fs : FileSystem) (p : Path) : IO FileSystem := do
  let mut known := fs
  let mut location := fs.startOf p
  for name in p.names do
    if name = ".." then location := location.tail
    else if !Path.isIdle name then
      location := name :: location
      if (known.find? location).isNone then
        if let some entry ← entryAt location then known := known.set location entry
  return known

/-- Run a command on the files that it looks at, loading them until none is new. -/
partial def runLoading (command : Command) (loaded : List Path) (fs : FileSystem) :
    IO (FileSystem × Outcome) := do
  let outcome := command.run fs
  let wanted := command.paths fs ++ command.paths outcome.files
  match wanted.filter fun p => !loaded.contains p with
  | [] => return (fs, outcome)
  | missing =>
    let known ← missing.foldlM load fs
    runLoading command (loaded ++ missing) known

/-- Write back what differs from what was loaded, directories before what they hold. -/
def store (before after : FileSystem) : IO Unit := do
  for (location, entry) in after.entries.reverse do
    if before.find? location ≠ some entry then
      let place := (← IO.currentDir) / placeName location
      match entry with
      | .directory => IO.FS.createDirAll place
      | .file bytes => IO.FS.writeBinFile place ⟨bytes.toArray⟩

/-- The directory that the program runs in, with the directories above it. -/
def workingTree : IO FileSystem := do
  let names := ((← IO.currentDir).components.filter (· ≠ "")).reverse
  let above := (List.range names.length).map fun n => (names.drop n, Entry.directory)
  return { entries := above, current := names }

/-- How the program is called. -/
def usage : String :=
  "usage: render FILE [--src DIR] [--keep-includes]\n" ++
  "       tree FILE [--src DIR] [--json]\n" ++
  "       stats FILE [--src DIR] [--json]\n" ++
  "       convert [--config FILE] [--src DIR] [--dest DIR] [--index NAME] FILE... [-- ARG...]"

end WikiPress.Main

open WikiPress in
/-- Run the command of a command line. -/
def main (words : List String) : IO UInt32 := do
  match Command.ofWords? words with
  | none =>
    IO.eprintln Main.usage
    return Command.misuse.toUInt32
  | some command =>
    let (before, outcome) ← Main.runLoading command [] (← Main.workingTree)
    Main.store before outcome.files
    IO.print outcome.output
    if let some failure := outcome.failure then IO.eprintln (Outcome.failureLine failure)
    return outcome.status.toUInt32

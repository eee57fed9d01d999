import WikiPress.Command.Run

/-!
# Paths of a command

The paths that a command may look at or write to, as far as the known files tell. Once the files
at these paths are known and no path is new, the command runs on them as on the whole tree.
-/

namespace WikiPress

/-- The paths of the documents that a document may include at any depth. -/
def Document.inclusionPaths (fs : FileSystem) (d : Document) : List Path :=
  (d.reachable fs).map Reference.path

/-- The paths of a batch. -/
def Settings.paths (s : Settings) (fs : FileSystem) (files : List String) : List Path :=
  s.indexPath :: files.flatMap fun rel =>
    let inclusions := match fs.document s.lookup (s.sourcePath rel) with
      | .ok (.ok d) => d.inclusionPaths fs
      | _ => []
    s.sourcePath rel :: s.outputPath rel :: inclusions

namespace Command

/-- The paths of a command on one document. -/
def filePaths (fs : FileSystem) (file : Path) (src : Option Path) : List Path :=
  match load fs file src with
  | .ok (d, _) => file :: d.inclusionPaths fs
  | .error _ => [file]

/-- The paths of a command. -/
def paths (fs : FileSystem) : Command → List Path
  | .render file src _ => filePaths fs file src
  | .tree file src _ => filePaths fs file src
  | .stats file src _ => filePaths fs file src
  | .convert config src dest index files arguments =>
    let batch :=
      match (findConfig Config.ofText? fs config).bind fun config =>
          settings config src dest index arguments with
      | .ok s => s.paths fs files
      | .error _ => []
    config.getD defaultConfig :: batch

end Command

end WikiPress

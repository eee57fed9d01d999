import WikiPress.Batch.Index
import WikiPress.Command.Arguments
import WikiPress.Config.File
import WikiPress.Json.Document

/-!
# Running commands

A command reads a file system and gives a text to print, the file system it leaves, and, if it
failed, why. A command on one document prints nothing when it fails. A batch names each page it
wrote before it writes the index.
-/

namespace WikiPress

/-- What is said about a failure: a sentence, what caused it, and so on. -/
abbrev Failure := List String

/-- What a command did. -/
structure Outcome where
  /-- The text to print. -/
  output : String := ""
  /-- What went wrong, if anything. -/
  failure : Option Failure := none
  /-- The file system afterwards. -/
  files : FileSystem

namespace Outcome

/-- The line about a failure. -/
def failureLine (failure : Failure) : String := "error: " ++ ": ".intercalate failure

/-- The exit status: zero, or one for a failure. -/
def status (outcome : Outcome) : Nat := if outcome.failure.isSome then 1 else 0

end Outcome

namespace Command

/-- The exit status of a command line that is not understood. -/
def misuse : Nat := 2

/-- The text in the file at a path. -/
def readText (fs : FileSystem) (p : Path) : Except String String :=
  match fs.bytesAt p with
  | .error e => .error e.message
  | .ok bytes =>
    match Utf8.decode bytes with
    | .error _ => .error "stream did not contain valid UTF-8"
    | .ok text => .ok text

/-- A document and its source. Its inclusions are looked up in `src`, or else in the directory of
its file. -/
def load (fs : FileSystem) (file : Path) (src : Option Path) :
    Except Failure (Document × String) :=
  match readText fs file with
  | .error cause => .error ["failed to read '" ++ file.text ++ "'", cause]
  | .ok source =>
    match Document.parse (src.getD (file.parent?.getD ⟨""⟩)) source with
    | .error e => .error (("failed to parse '" ++ file.text ++ "'") :: e.chain)
    | .ok d => .ok (d, source)

/-- The page of a document. -/
def pageText (fs : FileSystem) (file : Path) (src : Option Path) (keep : Bool) :
    Except Failure String :=
  match load fs file src with
  | .error failure => .error failure
  | .ok (d, _) =>
    if keep then .ok (Wiki.page d)
    else
      let expanded := d.expandAt fs file
      match expanded.stopped with
      | some e => .error e.chain
      | none => .ok (Wiki.page expanded.body)

/-- The tree of a document. -/
def treeText (fs : FileSystem) (file : Path) (src : Option Path) (data : Bool) :
    Except Failure String :=
  (load fs file src).map fun (d, _) =>
    if data then (Json.ofDocument d).pretty 0 ++ "\n" else d.outline

/-- The statistics of a document. -/
def statsText (fs : FileSystem) (file : Path) (src : Option Path) (data : Bool) :
    Except Failure String :=
  (load fs file src).map fun (d, source) =>
    let statistics := Statistics.of d source
    if data then (Json.ofStatistics statistics).pretty 0 ++ "\n" else statistics.report d

/-- The configuration file that is used when none is named. -/
def defaultConfig : Path := ⟨"zdoc.toml"⟩

/-- The configuration in a file whose text `parse` reads. -/
def loadConfig (parse : String → Option Config) (fs : FileSystem) (file : Path) :
    Except Failure Config :=
  match readText fs file with
  | .error cause => .error ["failed to read config '" ++ file.text ++ "'", cause]
  | .ok text =>
    match parse text with
    | none => .error ["invalid config '" ++ file.text ++ "'"]
    | some config => .ok config

/-- The configuration in the named file, or in the default file if there is one, or none. -/
def findConfig (parse : String → Option Config) (fs : FileSystem) (file : Option Path) :
    Except Failure Config :=
  match file with
  | some file => loadConfig parse fs file
  | none => if fs.isFile defaultConfig then loadConfig parse fs defaultConfig else .ok {}

/-- The settings of a batch: what the command line says comes before what the configuration says,
and its arguments come behind. -/
def settings (config : Config) (src dest index : Option String) (arguments : List String) :
    Except Failure Settings :=
  match dest.or config.dest with
  | none => .error ["no destination root (use --dest or `dest` in the config file)"]
  | some dest =>
    let base : Settings := {}
    let rooted := (base.withSrc ((src.or config.src).getD ".")).withDest dest
    let named := match index.or config.index with
      | some name => rooted.withIndexName name
      | none => rooted
    .ok ((config.arguments.getD [] ++ arguments).foldl Settings.addArgument named)

/-- The line about a page that was written. -/
def convertedLine (done : Converted) : String :=
  done.source.text ++ " -> " ++ done.output.text ++ "\n"

/-- Convert documents and write the index of their pages. -/
def runBatch (fs : FileSystem) (s : Settings) (files : List String) : Outcome :=
  match s.convertAll fs files with
  | (.error e, changed) => { failure := some e.chain, files := changed }
  | (.ok done, written) =>
    let lines := Text.concat (done.map convertedLine)
    match s.writeIndex written done with
    | (.error e, changed) => { output := lines, failure := some e.chain, files := changed }
    | (.ok index, final) => { output := lines ++ "index: " ++ index.text ++ "\n", files := final }

/-- The outcome of a command that only prints. -/
def printed (fs : FileSystem) : Except Failure String → Outcome
  | .ok output => { output, files := fs }
  | .error failure => { failure := some failure, files := fs }

/-- Run a command, with a reader of the texts of configuration files. -/
def runWith (parse : String → Option Config) (fs : FileSystem) : Command → Outcome
  | .render file src keep => printed fs (pageText fs file src keep)
  | .tree file src data => printed fs (treeText fs file src data)
  | .stats file src data => printed fs (statsText fs file src data)
  | .convert config src dest index files arguments =>
    match (findConfig parse fs config).bind fun config =>
        settings config src dest index arguments with
    | .error failure => { failure := some failure, files := fs }
    | .ok s => runBatch fs s files

/-- Run a command. -/
def run (fs : FileSystem) (command : Command) : Outcome := command.runWith Config.ofText? fs

end Command

end WikiPress

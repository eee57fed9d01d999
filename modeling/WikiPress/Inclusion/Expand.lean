import WikiPress.FileSystem
import WikiPress.Inclusion.Splice
import WikiPress.Source.Parse

/-!
# Expanding inclusions

An inclusion is expanded to the body of the document it names, with the inclusions of that body
expanded in turn. The chain of documents being expanded rules out that a document includes
itself: every reference on it differs from the others, and each comes from an inclusion of the
document at the start or of a file, so the chain cannot grow longer than their number.
-/

namespace WikiPress

/-- Why an inclusion could not be expanded. -/
inductive InclusionError where
  | cannotOpen (target : Reference) (cause : FileError)
  | cannotParse (target : Reference) (cause : ParseError)
  /-- The document is being expanded already. -/
  | cycle (target : Reference)
  deriving DecidableEq

namespace InclusionError

/-- The document that could not be put in place. -/
def target : InclusionError → Reference
  | cannotOpen target _ => target
  | cannotParse target _ => target
  | cycle target => target

/-- The wording of an error, without what caused it. -/
def message : InclusionError → String
  | cannotOpen target _ => "cannot open included document " ++ target.display
  | cannotParse target _ => "cannot parse included document " ++ target.display
  | cycle target => "include cycle through " ++ target.display

/-- The wordings of an error and of what caused it. -/
def chain (e : InclusionError) : List String :=
  match e with
  | cannotOpen _ cause => [e.message, cause.message]
  | cannotParse _ cause => e.message :: cause.chain
  | cycle _ => [e.message]

end InclusionError

/-- The document at the end of a path, read by the rules for inclusions in `root`. An opened
directory fails only when it is read. -/
def FileSystem.document (fs : FileSystem) (root p : Path) :
    Except FileError (Except ParseError Document) :=
  match fs.openEntry p with
  | .error e => .error e
  | .ok entry =>
    match entry.read with
    | .error e => .ok (.error (.unreadable e))
    | .ok bytes => .ok (Document.parseBytes root bytes)

/-- The document that an inclusion names, as it is in its file. -/
def Inclusion.document (fs : FileSystem) (leaf : Inclusion) : Except InclusionError Document :=
  match fs.document leaf.root leaf.target.path with
  | .error e => .error (.cannotOpen leaf.target e)
  | .ok (.error e) => .error (.cannotParse leaf.target e)
  | .ok (.ok d) => .ok d

/-- The locator of a line, if the line is an inclusion. -/
def Line.locator? (line : Line) : Option String :=
  match LineKind.ofLine line with
  | .inclusion locator => some (String.ofList locator)
  | _ => none

/-- The locators of the inclusion lines of a source. -/
def locatorsOf (source : String) : List String :=
  (Line.linesOf source.toList).filterMap Line.locator?

/-- The references that the files name when their inclusions are looked up in `root`. -/
def FileSystem.references (fs : FileSystem) (root : Path) : List Reference :=
  fs.contents.flatMap fun bytes =>
    match Utf8.decode bytes with
    | .error _ => []
    | .ok source => (locatorsOf source).map (Reference.resolve root)

/-- The references that can come up while a document's inclusions are expanded. -/
def Document.reachable (fs : FileSystem) (d : Document) : List Reference :=
  d.inclusions.map (·.target) ++ d.inclusions.flatMap fun leaf => fs.references leaf.root

/-- The expansion of an inclusion under a chain that can still grow by `room` references. Without
room every reference that can come up is on the chain. -/
def expandWithin (fs : FileSystem) : Nat → List Reference → Expansion InclusionError
  | 0, _, leaf => .error (.cycle leaf.target)
  | room + 1, chain, leaf =>
    if leaf.target ∈ chain then .error (.cycle leaf.target)
    else
      match leaf.document fs with
      | .error e => .error e
      | .ok d =>
        let inner := spliceBlocks (expandWithin fs room (leaf.target :: chain)) d.blocks
        match inner.stopped with
        | some e => .error e
        | none => .ok (inner.body, inner.replaced)

namespace Document

/-- Expand all inclusions of a document; `chain` holds the documents that it may not include. -/
def expandFrom (fs : FileSystem) (chain : List Reference) (d : Document) :
    Progress InclusionError Document :=
  let inner := spliceBlocks (expandWithin fs (d.reachable fs).length chain) d.blocks
  ⟨{ d with blocks := inner.body }, inner.replaced, inner.stopped⟩

/-- Expand all inclusions of a document that comes from nowhere. -/
def expand (fs : FileSystem) (d : Document) : Progress InclusionError Document :=
  d.expandFrom fs []

/-- Expand all inclusions of the document read from `origin`, which may not include itself. -/
def expandAt (fs : FileSystem) (origin : Path) (d : Document) : Progress InclusionError Document :=
  d.expandFrom fs [Reference.ofPath origin]

end Document

end WikiPress

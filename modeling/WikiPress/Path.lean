import WikiPress.Text.Split

/-!
# Paths

A path is a text in which `/` separates names. It keeps its spelling, because messages and index
entries show it; `Path.steps` is what the spelling means: repeated and trailing separators and
every `.` but a leading one mean nothing. The other operations are lexical as well and ask no
file system.
-/

namespace WikiPress

/-- A path as it was spelled. -/
structure Path where
  /-- The spelling. -/
  text : String
  deriving DecidableEq

namespace Path

/-- One step of a walk along a path. -/
inductive Step where
  /-- To the top directory. -/
  | top
  /-- Stay. -/
  | here
  /-- To the directory above. -/
  | up
  /-- To the entry of that name. -/
  | name (text : String)
  deriving DecidableEq

/-- The separator of names. -/
def separator : Char := '/'

/-- The names between the separators, empty ones included. -/
def names (p : Path) : List String := (Text.pieces separator p.text.toList).map String.ofList

/-- The path whose names these are. -/
def ofNames (names : List String) : Path :=
  ⟨String.ofList (Text.joined separator (names.map String.toList))⟩

/-- The path starts at the top directory. -/
def isAbsolute (p : Path) : Bool := p.text.toList.head? == some separator

/-- A name that leads nowhere when it is not the first one. -/
def isIdle (name : String) : Bool := name = "" || name = "."

/-- The step that a name stands for. -/
def step? (name : String) : Option Step :=
  if isIdle name then none else if name = ".." then some .up else some (.name name)

/-- The steps that a path stands for. -/
def steps (p : Path) : List Step :=
  match p.names with
  | [] => []
  | first :: rest =>
    let start :=
      if first = "" ∧ rest ≠ [] then [Step.top]
      else if first = "." then [Step.here]
      else (step? first).toList
    start ++ rest.filterMap step?

/-- The second path as seen from the first: an absolute one stands for itself. -/
def join (base p : Path) : Path :=
  if p.isAbsolute then p
  else if base.text = "" ∨ base.text.toList.getLast? = some separator then ⟨base.text ++ p.text⟩
  else ⟨base.text ++ "/" ++ p.text⟩

/-- The path with `/` for every backslash. -/
def withSlashes (text : String) : String :=
  String.ofList (text.toList.map fun c => if c = '\\' then separator else c)

/-- The names without idle ones at the end. -/
def trimIdle (names : List String) : List String := (names.reverse.dropWhile isIdle).reverse

/-- The path that leads to the directory of a path's last step. -/
def parent? (p : Path) : Option Path :=
  match p.names with
  | [] => none
  | first :: rest =>
    if trimIdle rest = [] then
      if first = "" then none else some ⟨""⟩
    else
      let above := trimIdle (trimIdle rest).dropLast
      if first = "" ∧ above = [] then some ⟨"/"⟩ else some (ofNames (first :: above))

/-- The parent, its parent and so on, the empty path left out. -/
def ancestorsWithin : Nat → Path → List Path
  | 0, _ => []
  | n + 1, p =>
    match p.parent? with
    | none => []
    | some q => if q.text = "" then [] else q :: ancestorsWithin n q

/-- All paths above a path, the nearest first, the empty path left out. -/
def ancestors (p : Path) : List Path := ancestorsWithin p.names.length p

/-- Name and extension around the last point of a file name that is not its first character. -/
def cutExtension (name : List Char) : Option (List Char × List Char) :=
  match Text.cut '.' name.reverse with
  | none => none
  | some (extension, stem) =>
    if stem = [] then none else some (stem.reverse, extension.reverse)

/-- The path with another extension on its file name; a path that ends in no name has none and
stays. Taking the extension off happens first: a name of two points and an extension becomes the
step upward, which takes no extension. Idle names behind the file name are lost. -/
def withExtension (p : Path) (extension : String) : Path :=
  let behind := p.names.reverse.takeWhile isIdle
  match p.names.reverse.dropWhile isIdle with
  | [] => p
  | name :: before =>
    if name = ".." then p
    else
      let renamed :=
        match cutExtension name.toList with
        | none => name ++ "." ++ extension
        | some (stem, _) =>
          if stem = ['.'] ∧ behind = [] then ".." else String.ofList stem ++ "." ++ extension
      ofNames (before.reverse ++ [renamed])

/-- The names left when the first steps of a path have been walked. -/
def dropSteps : Nat → List String → List String
  | 0, names => names.dropWhile isIdle
  | _ + 1, [] => []
  | n + 1, name :: rest => if isIdle name then dropSteps (n + 1) rest else dropSteps n rest

/-- The rest of a path behind a base that its steps begin with. -/
def within? (p base : Path) : Option Path :=
  if ¬ base.steps <+: p.steps then none
  else match p.names, base.steps.length with
    | [], _ => some p
    | first :: rest, 0 =>
      let kept := trimIdle rest
      if first = "" ∧ rest ≠ [] ∧ kept = [] then some ⟨"/"⟩ else some (ofNames (first :: kept))
    | first :: rest, n + 1 =>
      let more := if (first = "" ∧ rest ≠ []) ∨ first = "." then dropSteps n rest
        else dropSteps (n + 1) (first :: rest)
      some (ofNames (trimIdle more))

end Path

end WikiPress

import WikiPress.Path

/-!
# Command lines

Words after the program's name become a command. Options stand anywhere among the operands of
their command, each at most once: a long option takes its value behind an equals sign or as the
next word, short flags may share one dash, and behind a bare double dash every word is an operand.
A command line that is not understood is refused as a whole.
-/

namespace WikiPress

/-- What a command line asks for. -/
inductive Command where
  /-- Print the page of a document; `keep` leaves its inclusions as they are. -/
  | render (file : Path) (src : Option Path) (keep : Bool)
  /-- Print the tree of a document, as data if `data` is set. -/
  | tree (file : Path) (src : Option Path) (data : Bool)
  /-- Print the statistics of a document, as data if `data` is set. -/
  | stats (file : Path) (src : Option Path) (data : Bool)
  /-- Convert a batch of documents. -/
  | convert (config : Option Path) (src dest index : Option String) (files arguments : List String)
  deriving DecidableEq

/-- An option of a command. -/
structure OptionSpec where
  /-- The name behind two dashes. -/
  name : String
  /-- The letter behind one dash. -/
  letter : Option Char := none
  takesValue : Bool := false
  /-- The value may be the empty text. -/
  mayBeEmpty : Bool := false

/-- The parts of a command line. -/
structure Words where
  /-- The options, with their values if they take one. -/
  options : List (String × Option String) := []
  /-- The words in front of a bare double dash that belong to no option. -/
  operands : List String := []
  /-- The words behind a bare double dash, if there is one. -/
  trailing : Option (List String) := none

namespace Words

/-- The parts with one more option in front. -/
def withOption (w : Words) (name : String) (value : Option String) : Words :=
  { w with options := (name, value) :: w.options }

/-- The option was given. -/
def has (w : Words) (name : String) : Bool := w.options.any (·.1 = name)

/-- The value that an option was given. -/
def value? (w : Words) (name : String) : Option String :=
  (w.options.find? (·.1 = name)).bind (·.2)

/-- All operands, those behind a bare double dash at the end. -/
def allOperands (w : Words) : List String := w.operands ++ w.trailing.getD []

/-- No option was given twice. -/
def hasNoRepeats (w : Words) : Bool := (w.options.map (·.1)).Nodup

end Words

namespace Command

/-- The option to report what is being done. -/
def verbose : OptionSpec := { name := "verbose", letter := some 'v' }

/-- The option to set the directory of inclusions of a document. -/
def lookup : OptionSpec := { name := "src", takesValue := true }

/-- The option to print data. -/
def asData : OptionSpec := { name := "json", letter := some 'j' }

/-- The options of the commands that print a page. -/
def renderOptions : List OptionSpec := [verbose, lookup, { name := "keep-includes" }]

/-- The options of the commands that inspect a document. -/
def inspectOptions : List OptionSpec := [verbose, lookup, asData]

/-- The options of conversions. -/
def convertOptions : List OptionSpec :=
  [verbose, { name := "config", takesValue := true },
    { name := "src", takesValue := true, mayBeEmpty := true },
    { name := "dest", takesValue := true, mayBeEmpty := true },
    { name := "index", takesValue := true, mayBeEmpty := true }]

/-- What a word is. -/
inductive WordKind where
  | separator
  | operand
  /-- Options that are complete with this word. -/
  | options (given : List (String × Option String))
  /-- An option whose value is the next word. -/
  | waiting (spec : OptionSpec)
  | unknown

/-- The word starts with a dash and is more than a dash. -/
def isDashed (word : String) : Bool :=
  match word.toList with
  | '-' :: _ :: _ => true
  | _ => false

/-- The value is allowed for the option. -/
def allows (spec : OptionSpec) (value : String) : Bool := spec.mayBeEmpty || value ≠ ""

/-- What the text behind two dashes is. -/
def longOption (specs : List OptionSpec) (text : List Char) : WordKind :=
  let (name, value) := match Text.cut '=' text with
    | some (name, value) => (name, some (String.ofList value))
    | none => (text, none)
  match specs.find? (·.name = String.ofList name), value with
  | none, _ => .unknown
  | some spec, none => if spec.takesValue then .waiting spec else .options [(spec.name, none)]
  | some spec, some value =>
    if spec.takesValue ∧ allows spec value then .options [(spec.name, some value)] else .unknown

/-- What the letters behind one dash are. -/
def shortOptions (specs : List OptionSpec) (letters : List Char) : WordKind :=
  match letters.mapM fun c => specs.find? fun spec => spec.letter = some c && !spec.takesValue with
  | some found => .options (found.map fun spec => (spec.name, none))
  | none => .unknown

/-- What a word is among the options of a command. -/
def wordKind (specs : List OptionSpec) (word : String) : WordKind :=
  match word.toList with
  | ['-', '-'] => .separator
  | '-' :: '-' :: text => longOption specs text
  | ['-'] => .operand
  | '-' :: letters => shortOptions specs letters
  | _ => .operand

/-- The parts of the words of a command with the given options. -/
def words? (specs : List OptionSpec) : List String → Option Words
  | [] => some {}
  | word :: more =>
    match wordKind specs word with
    | .separator => some { trailing := some more }
    | .operand => (words? specs more).map fun w => { w with operands := word :: w.operands }
    | .options given =>
      (words? specs more).map fun w => { w with options := given ++ w.options }
    | .unknown => none
    | .waiting spec =>
      match more with
      | [] => none
      | value :: rest =>
        if isDashed value ∨ !allows spec value then none
        else (words? specs rest).map fun w => w.withOption spec.name (some value)

/-- The parts of a command's words, with each option at most once. -/
def distinctWords? (specs : List OptionSpec) (words : List String) : Option Words :=
  (words? specs words).filter Words.hasNoRepeats

/-- The one operand of a command on a document. -/
def oneFile? (w : Words) : Option Path :=
  match w.allOperands with
  | [file] => if file = "" then none else some ⟨file⟩
  | _ => none

/-- The command of a name with its own words. -/
def named? (name : String) (words : List String) : Option Command :=
  match name with
  | "render" => do
    let w ← distinctWords? renderOptions words
    let file ← oneFile? w
    some (.render file ((w.value? "src").map Path.mk) (w.has "keep-includes"))
  | "tree" => do
    let w ← distinctWords? inspectOptions words
    let file ← oneFile? w
    some (.tree file ((w.value? "src").map Path.mk) (w.has "json"))
  | "stats" => do
    let w ← distinctWords? inspectOptions words
    let file ← oneFile? w
    some (.stats file ((w.value? "src").map Path.mk) (w.has "json"))
  | "convert" => do
    let w ← distinctWords? convertOptions words
    if w.operands = [] then none
    else some (.convert ((w.value? "config").map Path.mk) (w.value? "src") (w.value? "dest")
      (w.value? "index") w.operands (w.trailing.getD []))
  | _ => none

/-- The command of a command line. In front of the command's name only the option to be verbose
may stand, once. -/
def ofWords? (words : List String) : Option Command :=
  let leading := words.takeWhile isDashed
  match words.dropWhile isDashed with
  | [] => none
  | name :: more =>
    match distinctWords? [verbose] leading with
    | some { trailing := none, .. } => named? name more
    | _ => none

end Command

end WikiPress

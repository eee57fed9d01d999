import WikiPress.Config.Token

/-!
# Configuration files

A configuration file sets the roots, the index name and the arguments of a batch, each at most
once and nothing else. Every line is empty or sets one key; a value is a text or a list of
texts in brackets, which may go over several lines and end with a comma.
-/

namespace WikiPress

/-- What a configuration file sets. -/
structure Config where
  src : Option String := none
  dest : Option String := none
  index : Option String := none
  arguments : Option (List String) := none
  deriving DecidableEq

namespace Config

/-- A value in a configuration file. -/
inductive Value where
  | text (s : String)
  | list (elements : List String)
  deriving DecidableEq

/-- The text that a token gives as a value. -/
def text? : Token → Option String
  | .quoted text => some (String.ofList text)
  | .lined text => some (String.ofList text)
  | _ => none

/-- The key that a token is. -/
def key? : Token → Option String
  | .bare text => some (String.ofList text)
  | .quoted text => some (String.ofList text)
  | _ => none

mutual

/-- The keys and values of the lines of a file. -/
def settings? : List Token → Option (List (String × Value))
  | [] => some []
  | .lineEnd :: rest => settings? rest
  | key :: .equals :: .opening :: rest =>
    match key? key with
    | none => none
    | some name => elements? name [] rest
  | key :: .equals :: value :: rest =>
    match key? key, text? value with
    | some name, some text => ended? name (.text text) rest
    | _, _ => none
  | _ => none

/-- The end of the line of a setting, and the settings behind it. -/
def ended? (name : String) (value : Value) : List Token → Option (List (String × Value))
  | [] => some [(name, value)]
  | .lineEnd :: rest => (settings? rest).map ((name, value) :: ·)
  | _ => none

/-- An element of a list or the end of the list, and the settings behind it. -/
def elements? (name : String) (soFar : List String) :
    List Token → Option (List (String × Value))
  | .lineEnd :: rest => elements? name soFar rest
  | .closing :: rest => ended? name (.list soFar) rest
  | value :: rest =>
    match text? value with
    | none => none
    | some text => separated? name (soFar ++ [text]) rest
  | [] => none

/-- What follows an element of a list, and the settings behind the list. -/
def separated? (name : String) (soFar : List String) :
    List Token → Option (List (String × Value))
  | .lineEnd :: rest => separated? name soFar rest
  | .comma :: rest => elements? name soFar rest
  | .closing :: rest => ended? name (.list soFar) rest
  | _ => none

end

/-- A configuration with one more key set, if it may be. -/
def put (config : Config) : String × Value → Option Config
  | ("src", .text s) => if config.src = none then some { config with src := some s } else none
  | ("dest", .text s) => if config.dest = none then some { config with dest := some s } else none
  | ("index", .text s) =>
    if config.index = none then some { config with index := some s } else none
  | ("args", .list elements) =>
    if config.arguments = none then some { config with arguments := some elements } else none
  | _ => none

/-- The configuration of a text; a byte order mark in front means nothing. -/
def ofText? (source : String) : Option Config :=
  let text := match source.toList with
    | '\ufeff' :: rest => rest
    | text => text
  ((tokens? text).bind settings?).bind fun settings => settings.foldlM put {}

end Config

end WikiPress

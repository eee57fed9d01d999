import WikiPress.Reference
import WikiPress.Text.Utf8

/-!
# Paths of bytes

The operating system takes any bytes without a null for a path, and a reference may be made of any
path. Cleaning a path looks at separators and points only, so it does not ask whether the names
between them are texts; only a reference that is shown has to be one, and loses what is none.
Locators are texts, and paths that are texts are cleaned as `Reference.ofPath` cleans them.
-/

namespace WikiPress

/-- A path, whether its bytes are a text or not. -/
structure RawPath where
  /-- The spelling. -/
  bytes : List UInt8
  deriving DecidableEq

namespace RawPath

/-- The separator of names. -/
def separator : UInt8 := 0x2F

/-- The name of a directory in itself. -/
def here : List UInt8 := [0x2E]

/-- The name of the directory above, and of a step upward that was kept. -/
def above : List UInt8 := [0x2E, 0x2E]

/-- The names between the separators, empty ones included. -/
def names (p : RawPath) : List (List UInt8) := p.bytes.splitOn separator

/-- The path whose names these are. -/
def ofNames (names : List (List UInt8)) : RawPath := ⟨[separator].intercalate names⟩

/-- The path starts at the top directory. -/
def isAbsolute (p : RawPath) : Bool := p.bytes.head? == some separator

/-- The second path as seen from the first: an absolute one stands for itself. -/
def join (base p : RawPath) : RawPath :=
  if p.isAbsolute then p
  else if base.bytes = [] ∨ base.bytes.getLast? = some separator then ⟨base.bytes ++ p.bytes⟩
  else ⟨base.bytes ++ separator :: p.bytes⟩

end RawPath

/-- The place of a source document, named by bytes. -/
structure RawReference where
  /-- The walk starts at the top directory. -/
  rooted : Bool
  /-- The names entered and not left again. -/
  names : List (List UInt8)
  deriving DecidableEq

namespace RawReference

/-- A reference one name further. -/
def enter (r : RawReference) (name : List UInt8) : RawReference :=
  if name = [] ∨ name = RawPath.here then r
  else if name = RawPath.above then
    if r.names = [] then { r with names := [RawPath.above] }
    else { r with names := r.names.dropLast }
  else { r with names := r.names ++ [name] }

/-- The reference that a path leads to. -/
def ofPath (p : RawPath) : RawReference := p.names.foldl enter ⟨p.isAbsolute, []⟩

/-- The path of a reference. -/
def path (r : RawReference) : RawPath :=
  ⟨(if r.rooted then [RawPath.separator] else []) ++ [RawPath.separator].intercalate r.names⟩

/-- The reference that a locator names in a directory: backslashes separate as well, and white
space around the locator does not belong to it. -/
def resolve (root : RawPath) (locator : String) : RawReference :=
  ofPath (root.join ⟨Utf8.encode (Path.withSlashes (Text.trimmed locator))⟩)

/-- A reference as messages show it. -/
def display (r : RawReference) : String := Path.withSlashes (Utf8.lossy r.path.bytes)

end RawReference

/-- The bytes of a path that is a text. -/
def Path.raw (p : Path) : RawPath := ⟨Utf8.encode p.text⟩

/-- The reference with the bytes of its names. -/
def Reference.raw (r : Reference) : RawReference := ⟨r.rooted, r.names.map Utf8.encode⟩

end WikiPress

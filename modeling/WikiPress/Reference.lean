import WikiPress.Path
import WikiPress.Text.Space

/-!
# References

A reference names a source document. It is a path walked on paper: a name is entered, `.` stays,
and `..` leaves the last name again. Only where there is no name left to leave does `..` become
a name of its own, which the next `..` leaves like any other.
Two spellings of one walk are the same reference.
-/

namespace WikiPress

/-- The place of a source document. -/
structure Reference where
  /-- The walk starts at the top directory. -/
  rooted : Bool
  /-- The names entered and not left again. -/
  names : List String
  deriving DecidableEq

namespace Reference

/-- The starting point of a walk that enters nothing. -/
def start : Reference := ⟨false, []⟩

/-- A reference one step further. -/
def walk (r : Reference) : Path.Step → Reference
  | .top => ⟨true, []⟩
  | .here => r
  | .up => if r.names = [] then { r with names := [".."] } else { r with names := r.names.dropLast }
  | .name n => { r with names := r.names ++ [n] }

/-- The reference that a path leads to. -/
def ofPath (p : Path) : Reference := p.steps.foldl walk start

/-- The reference that a locator names in a directory: backslashes separate as well, and white
space around the locator does not belong to it. -/
def resolve (root : Path) (locator : String) : Reference :=
  ofPath (root.join ⟨Path.withSlashes (Text.trimmed locator)⟩)

/-- The path of a reference. -/
def path (r : Reference) : Path :=
  ⟨(if r.rooted then "/" else "") ++ "/".intercalate r.names⟩

/-- A reference as messages show it. -/
def display (r : Reference) : String := Path.withSlashes r.path.text

end Reference

end WikiPress

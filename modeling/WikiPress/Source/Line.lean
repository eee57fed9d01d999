import WikiPress.Text.Space

/-!
# Lines

A source is read line by line. A line ends at a line feed or at the end of the source; one
carriage return in front of that end belongs to the line break and not to the line. Behind the
last line feed there is a line only if there is text.
-/

namespace WikiPress

/-- A line of a source. -/
structure Line where
  /-- The text, without the line break. -/
  text : List Char
  /-- The number, counted from one. -/
  number : Nat
  deriving DecidableEq

namespace Line

/-- A space or a tab. -/
def isIndent (c : Char) : Bool := c = ' ' || c = '\t'

/-- The line holds spaces and tabs only. -/
def isBlank (line : Line) : Bool := line.text.all isIndent

/-- The text without the white space around it. -/
def trimmed (line : Line) : List Char := Text.trim line.text

/-- The width of a character of indentation. -/
def indentWidth (c : Char) : Nat := if c = '\t' then 2 else 1

/-- The width of the spaces and tabs in front of a text. -/
def indentOf : List Char → Nat
  | [] => 0
  | c :: rest => if isIndent c then indentWidth c + indentOf rest else 0

/-- The width of the spaces and tabs in front. -/
def indent (line : Line) : Nat := indentOf line.text

/-- A text without the carriage return at its end. -/
def withoutReturn (text : List Char) : List Char :=
  if text.getLast? = some '\r' then text.dropLast else text

/-- The text up to the first line feed, and the text behind it. -/
def breakAt (source : List Char) : List Char × List Char :=
  (source.takeWhile (· ≠ '\n'), (source.dropWhile (· ≠ '\n')).drop 1)

/-- The next line of a source whose lines before have been counted, and the text behind it. -/
def next? (count : Nat) (source : List Char) : Option (Line × List Char) :=
  if source = [] then none
  else
    let (text, behind) := breakAt source
    some (⟨withoutReturn text, count + 1⟩, behind)

/-- A line takes characters, its line break if nothing else. -/
theorem length_next? {count : Nat} {source behind : List Char} {line : Line}
    (h : next? count source = some (line, behind)) : behind.length < source.length := by
  unfold next? at h
  split at h
  · simp at h
  · next filled =>
    simp only [breakAt, Option.some.injEq, Prod.mk.injEq] at h
    obtain ⟨_, rfl⟩ := h
    have whole := congrArg List.length
      (List.takeWhile_append_dropWhile (p := (· ≠ '\n')) (l := source))
    have := List.length_pos_iff.2 filled
    rw [List.length_append] at whole
    rw [List.length_drop]
    omega

/-- The lines of a source behind `count` others. -/
def linesFrom (count : Nat) (source : List Char) : List Line :=
  match _found : next? count source with
  | none => []
  | some (line, behind) => line :: linesFrom (count + 1) behind
termination_by source.length
decreasing_by exact length_next? _found

/-- The lines of a source. -/
def linesOf (source : List Char) : List Line := linesFrom 0 source

end Line

end WikiPress

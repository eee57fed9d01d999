import WikiPress.Source.Line

/-!
# Cursor over a source

Reading a source one line at a time, with one line of lookahead. The cursor holds the text not
yet read, so a line is cut from the source only when it is asked for; what it counts are the lines
cut so far, the looked-at line among them.
-/

namespace WikiPress

/-- A position between two lines of a source. -/
structure Cursor where
  /-- The text behind the lines that were cut. -/
  unread : List Char
  /-- The number of lines that were cut. -/
  count : Nat
  /-- The line that was looked at and not taken. -/
  peeked : Option Line

namespace Cursor

/-- The position in front of the first line. -/
def ofText (source : List Char) : Cursor := ⟨source, 0, none⟩

/-- All lines have been taken. -/
def isAtEnd (cursor : Cursor) : Bool := cursor.peeked.isNone && cursor.unread.isEmpty

/-- The number of the last line that was cut. -/
def lineNumber (cursor : Cursor) : Nat := cursor.count

/-- Look at the next line. -/
def peek (cursor : Cursor) : Option Line × Cursor :=
  match cursor.peeked with
  | some line => (some line, cursor)
  | none =>
    match Line.next? cursor.count cursor.unread with
    | none => (none, cursor)
    | some (line, behind) => (some line, ⟨behind, cursor.count + 1, some line⟩)

/-- Take the next line. -/
def next (cursor : Cursor) : Option Line × Cursor :=
  match cursor.peek with
  | (none, cursor) => (none, cursor)
  | (some line, cursor) => (some line, { cursor with peeked := none })

/-- Take blank lines from the text not yet read, counting them; the line that ends them is looked
at. -/
def skipUnread (count : Nat) (source : List Char) : Nat × Cursor :=
  match _found : Line.next? count source with
  | none => (0, ⟨source, count, none⟩)
  | some (line, behind) =>
    if line.isBlank then
      let (skipped, cursor) := skipUnread (count + 1) behind
      (skipped + 1, cursor)
    else (0, ⟨behind, count + 1, some line⟩)
termination_by source.length
decreasing_by exact Line.length_next? _found

/-- Take all blank lines in front, counting them; the line that ends them is looked at. -/
def skipBlank (cursor : Cursor) : Nat × Cursor :=
  match cursor.peeked with
  | none => skipUnread cursor.count cursor.unread
  | some line =>
    if line.isBlank then
      let (skipped, cursor) := skipUnread cursor.count cursor.unread
      (skipped + 1, cursor)
    else (0, cursor)

end Cursor

end WikiPress

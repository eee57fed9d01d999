import WikiPress.Proofs.Source.Readers
import WikiPress.Proofs.Text.Bytes

/-!
# Reading a source by offsets

A source can be read in place: the position is an offset in its bytes, the next line feed is looked
for among the bytes behind it, and the line is the slice in between, without a carriage return at its
end. The byte of a line feed or of a carriage return is no part of another character, so that every
slice begins and ends between characters, and the cursor over the text not yet read gives the same
(`ByteCursor.refines_cursor`). Both read what a bookmark in the list of all lines does, whatever calls
are made (`Cursor.answers_bookmarked`).
-/

namespace WikiPress

/-- A position between two lines of a source, as an offset in its bytes. -/
structure ByteCursor where
  source : List Char
  /-- The number of bytes of the lines that were cut, with their line breaks. -/
  offset : Nat
  /-- The number of lines that were cut. -/
  count : Nat
  /-- The line that was looked at and not taken. -/
  peeked : Option Line

namespace ByteCursor

/-- The position in front of the first line. -/
def ofText (source : List Char) : ByteCursor := ⟨source, 0, 0, none⟩

/-- All lines have been taken. -/
def isAtEnd (cursor : ByteCursor) : Bool :=
  cursor.peeked.isNone && (Text.bytes cursor.source).length ≤ cursor.offset

/-- The offset of the next line feed, or of the end of the source. -/
def lineEnd (cursor : ByteCursor) : Nat :=
  let bytes := Text.bytes cursor.source
  match (bytes.drop cursor.offset).idxOf? (Text.byte '\n') with
  | some n => cursor.offset + n
  | none => bytes.length

/-- The offset of the end of the next line without a carriage return. -/
def textEnd (cursor : ByteCursor) : Nat :=
  if cursor.offset < cursor.lineEnd ∧
      (Text.bytes cursor.source)[cursor.lineEnd - 1]? = some (Text.byte '\r') then
    cursor.lineEnd - 1
  else cursor.lineEnd

/-- The offset behind the next line and its line feed. -/
def nextStart (cursor : ByteCursor) : Nat :=
  if cursor.lineEnd < (Text.bytes cursor.source).length then cursor.lineEnd + 1 else cursor.lineEnd

/-- Cut the next line, if there is one. This fails where the source would be cut inside a
character. -/
def cut (cursor : ByteCursor) : Option (Option Line × ByteCursor) :=
  if (Text.bytes cursor.source).length ≤ cursor.offset then some (none, cursor)
  else (Text.slice? cursor.offset cursor.textEnd cursor.source).map fun text =>
    (some ⟨text, cursor.count + 1⟩,
      { cursor with offset := cursor.nextStart, count := cursor.count + 1 })

/-- Look at the next line. -/
def peek (cursor : ByteCursor) : Option (Option Line × ByteCursor) :=
  match cursor.peeked with
  | some line => some (some line, cursor)
  | none => do
    let (line?, cursor) ← cursor.cut
    some (line?, { cursor with peeked := line? })

/-- Take the next line. -/
def next (cursor : ByteCursor) : Option (Option Line × ByteCursor) :=
  match cursor.peeked with
  | some line => some (some line, { cursor with peeked := none })
  | none => cursor.cut

/-- What is left of the source, in bytes, and one more where a line has been looked at. -/
def size (cursor : ByteCursor) : Nat :=
  (Text.bytes cursor.source).length - cursor.offset + if cursor.peeked.isSome then 1 else 0

/-- The next line ends in front of the place behind it. -/
theorem offset_lt_nextStart {cursor : ByteCursor}
    (more : cursor.offset < (Text.bytes cursor.source).length) :
    cursor.offset < cursor.nextStart := by
  have within : cursor.offset ≤ cursor.lineEnd := by
    simp only [lineEnd]
    split <;> omega
  unfold nextStart
  split <;> omega

/-- Cutting a line moves the offset on. -/
theorem of_cut {cursor after : ByteCursor} {line : Line}
    (found : cursor.cut = some (some line, after)) :
    cursor.offset < (Text.bytes cursor.source).length ∧ cursor.offset < after.offset ∧
      after.source = cursor.source := by
  unfold cut at found
  split at found
  · cases found
  · next inside =>
    obtain ⟨text, _, made⟩ := Option.map_eq_some_iff.1 found
    obtain ⟨_, rfl⟩ := Prod.mk.inj made
    have more := Nat.lt_of_not_le inside
    exact ⟨more, offset_lt_nextStart more, rfl⟩

/-- Taking a line that is looked at leaves less. -/
theorem size_lt {cursor after rest : ByteCursor} {line : Line} {taken : Option Line}
    (looked : cursor.peek = some (some line, after)) (took : after.next = some (taken, rest)) :
    rest.size < cursor.size := by
  unfold peek at looked
  split at looked
  · next held =>
    obtain ⟨_, rfl⟩ := Prod.mk.inj (Option.some.inj looked)
    simp only [next, held, Option.some.injEq, Prod.mk.injEq] at took
    obtain ⟨_, rfl⟩ := took
    simp only [size, held]
    exact Nat.lt_succ_self _
  · next bare =>
    obtain ⟨⟨line?, moved⟩, found, made⟩ := Option.bind_eq_some_iff.1 looked
    obtain ⟨rfl, rfl⟩ := Prod.mk.inj (Option.some.inj made)
    simp only [next, Option.some.injEq, Prod.mk.injEq] at took
    obtain ⟨_, rfl⟩ := took
    obtain ⟨within, further, same⟩ := of_cut found
    simp only [size, same, bare]
    simp only [Option.isSome_none, Bool.false_eq_true, if_false]
    omega

/-- Take all blank lines in front, counting them; the line that ends them is looked at. -/
def skipBlank (cursor : ByteCursor) : Option (Nat × ByteCursor) :=
  match _looked : cursor.peek with
  | none => none
  | some (none, after) => some (0, after)
  | some (some line, after) =>
    if line.isBlank then
      match _took : after.next with
      | none => none
      | some (_, rest) => (skipBlank rest).map fun (count, last) => (count + 1, last)
    else some (0, after)
termination_by cursor.size
decreasing_by exact size_lt _looked _took

/-- Reading by offsets. -/
def reader : LineReader ByteCursor where
  peek := peek
  next := next
  skipBlank := skipBlank
  isAtEnd := isAtEnd
  lineNumber := count

/-- Blank lines are skipped one by one. -/
theorem skipsLines : reader.SkipsLines := by
  intro cursor
  show cursor.skipBlank = _
  rw [skipBlank]
  simp only [reader, Option.bind_eq_bind]
  cases looked : cursor.peek with
  | none => rfl
  | some found =>
    obtain ⟨line?, after⟩ := found
    cases line? with
    | none => rfl
    | some line =>
      by_cases blank : line.isBlank = true
      · simp only [blank, if_true, Option.bind_some]
        cases took : after.next with
        | none => rfl
        | some taken =>
          simp only [Option.bind_some]
          cases skipBlank taken.2 <;> rfl
      · simp only [blank, Option.bind_some]
        rfl

/-- The cursors stand at the same place: the source is the text not yet read behind as many bytes as
the offset says. -/
def At (cursor : ByteCursor) (other : Cursor) : Prop :=
  ∃ front, cursor = ⟨front ++ other.unread, (Text.bytes front).length, other.count, other.peeked⟩

section Ends

variable {front text tail : List Char} {count : Nat} {peeked : Option Line}

/-- The next line ends behind the text up to the next line feed. -/
theorem lineEnd_eq (single : '\n' ∉ text) (ended : tail = [] ∨ ∃ behind, tail = '\n' :: behind) :
    lineEnd ⟨front ++ (text ++ tail), (Text.bytes front).length, count, peeked⟩ =
      (Text.bytes (front ++ text)).length := by
  simp only [lineEnd, Text.bytes_append front, List.drop_left, List.length_append]
  rcases ended with rfl | ⟨behind, rfl⟩
  · rw [List.append_nil, Text.idxOf?_bytes_eq_none (by decide) single]
  · rw [Text.idxOf?_bytes (by decide) single]

/-- The text of the next line ends in front of the carriage return at its end. -/
theorem textEnd_eq (single : '\n' ∉ text) (ended : tail = [] ∨ ∃ behind, tail = '\n' :: behind) :
    textEnd ⟨front ++ (text ++ tail), (Text.bytes front).length, count, peeked⟩ =
      (Text.bytes (front ++ Line.withoutReturn text)).length := by
  have small : '\r'.toNat < 128 := by decide
  simp only [textEnd, lineEnd_eq single ended, Text.getElem?_bytes_before small]
  by_cases returned : text.getLast? = some '\r'
  · obtain ⟨init, rfl⟩ := List.getLast?_eq_some_iff.1 returned
    rw [if_pos returned, Line.withoutReturn_concat, ← List.append_assoc, Text.bytes_append _ ['\r'],
      List.length_append]
    rfl
  · rw [if_neg returned, Line.withoutReturn_eq_self returned]

/-- The place behind the next line is behind its line feed, if it has one. -/
theorem nextStart_eq (single : '\n' ∉ text) (ended : tail = [] ∨ ∃ behind, tail = '\n' :: behind) :
    nextStart ⟨front ++ (text ++ tail), (Text.bytes front).length, count, peeked⟩ =
      (Text.bytes (front ++ (text ++ tail.take 1))).length := by
  simp only [nextStart, lineEnd_eq single ended]
  simp only [← List.append_assoc front, Text.bytes_append (front ++ text), List.length_append]
  rcases ended with rfl | ⟨behind, rfl⟩
  · exact if_neg (Nat.lt_irrefl _)
  · have filled : 0 < (Text.bytes ('\n' :: behind)).length :=
      List.length_pos_iff.2 (mt Text.bytes_eq_nil_iff.1 (List.cons_ne_nil _ _))
    rw [if_pos (Nat.lt_add_right_iff_pos.2 filled)]
    rfl

end Ends

namespace At

variable {cursor : ByteCursor} {other : Cursor}

/-- In front of a source both stand at the start. -/
theorem start (source : List Char) : At (ofText source) (Cursor.ofText source) := ⟨[], rfl⟩

/-- Something is left by the offset where text is left. -/
theorem length_le_iff (same : cursor.At other) :
    (Text.bytes cursor.source).length ≤ cursor.offset ↔ other.unread = [] := by
  obtain ⟨front, rfl⟩ := same
  simp only [Text.bytes_append, List.length_append]
  rw [← Text.bytes_eq_nil_iff, ← List.length_eq_zero_iff]
  omega

/-- Where no line is left, none is cut off. -/
theorem cut_end (same : cursor.At other) (ended : Line.next? other.count other.unread = none) :
    cursor.cut = some (none, cursor) := by
  have empty : other.unread = [] := by
    by_contra filled
    rw [Line.next?, if_neg filled] at ended
    cases ended
  exact if_pos (same.length_le_iff.2 empty)

/-- The next line is cut off, and the cursors stand behind it. -/
theorem cut_line (same : cursor.At other) {line : Line} {behind : List Char}
    (found : Line.next? other.count other.unread = some (line, behind)) :
    ∃ after, cursor.cut = some (some line, after) ∧
      after.At ⟨behind, other.count + 1, other.peeked⟩ := by
  obtain ⟨text, tail, split, single, rfl, ends⟩ := Line.exists_of_next? found
  have filled : ¬ (Text.bytes cursor.source).length ≤ cursor.offset := by
    rw [same.length_le_iff, split, List.append_eq_nil_iff]
    rintro ⟨rfl, rfl⟩
    rcases ends with ends | ends
    · cases ends
    · exact ends.2.2 rfl
  have ended : tail = [] ∨ ∃ behind, tail = '\n' :: behind :=
    ends.elim (fun fed => .inr ⟨behind, fed⟩) (fun bare => .inl bare.1)
  have rest : tail = tail.take 1 ++ behind := by
    rcases ends with rfl | ⟨rfl, rfl, _⟩ <;> rfl
  obtain ⟨front, rfl⟩ := same
  obtain ⟨unread, count, peeked⟩ := other
  obtain rfl : unread = text ++ tail := split
  -- A carriage return that is taken off lies behind the slice, in front of the line feed.
  have slice := Text.slice?_append front (Line.withoutReturn text)
    ((if text.getLast? = some '\r' then ['\r'] else []) ++ tail)
  rw [← List.append_assoc (Line.withoutReturn text), Line.withoutReturn_append] at slice
  refine ⟨⟨front ++ (text ++ tail), (Text.bytes (front ++ (text ++ tail.take 1))).length, count + 1,
    peeked⟩, ?_, front ++ (text ++ tail.take 1), ?_⟩
  · simp only [cut, if_neg filled, textEnd_eq single ended, nextStart_eq single ended, slice,
      Option.map_some]
  · simp only [List.append_assoc, ← rest]

/-- The cursors stay together when the line that was cut off is kept to be taken later. -/
theorem hold (same : cursor.At other) (line? : Option Line) :
    At { cursor with peeked := line? } { other with peeked := line? } := by
  obtain ⟨front, rfl⟩ := same
  exact ⟨front, rfl⟩

/-- Where the cursors stand together they hold the same line. -/
theorem peeked_eq (same : cursor.At other) : cursor.peeked = other.peeked := by
  obtain ⟨front, rfl⟩ := same
  rfl

/-- Both cursors look at the same line. -/
theorem peek (same : cursor.At other) : LineReader.Agree At cursor.peek (some other.peek) := by
  cases held : other.peeked with
  | some line =>
    refine ⟨some line, cursor, other, ?_, ?_, same⟩
    · rw [ByteCursor.peek, same.peeked_eq, held]
    · rw [Cursor.peek, held]
  | none =>
    cases found : Line.next? other.count other.unread with
    | none =>
      refine ⟨none, { cursor with peeked := none }, other, ?_, ?_, ?_⟩
      · rw [ByteCursor.peek, same.peeked_eq, held, same.cut_end found]
        rfl
      · rw [Cursor.peek, held, found]
      · exact held ▸ same.hold none
    | some split =>
      obtain ⟨line, behind⟩ := split
      obtain ⟨after, cutOff, moved⟩ := same.cut_line found
      refine ⟨some line, _, _, ?_, ?_, moved.hold (some line)⟩
      · rw [ByteCursor.peek, same.peeked_eq, held, cutOff]
        rfl
      · rw [Cursor.peek, held, found]

/-- Both cursors take the same line. -/
theorem next (same : cursor.At other) : LineReader.Agree At cursor.next (some other.next) := by
  cases held : other.peeked with
  | some line =>
    refine ⟨some line, _, _, ?_, ?_, same.hold none⟩
    · rw [ByteCursor.next, same.peeked_eq, held]
    · rw [Cursor.next, Cursor.peek, held]
  | none =>
    cases found : Line.next? other.count other.unread with
    | none =>
      refine ⟨none, cursor, other, ?_, ?_, same⟩
      · rw [ByteCursor.next, same.peeked_eq, held, same.cut_end found]
      · rw [Cursor.next, Cursor.peek, held, found]
    | some split =>
      obtain ⟨line, behind⟩ := split
      obtain ⟨after, cutOff, moved⟩ := same.cut_line found
      refine ⟨some line, after, _, ?_, ?_, held ▸ moved⟩
      · rw [ByteCursor.next, same.peeked_eq, held, cutOff]
      · rw [Cursor.next, Cursor.peek, held, found]

end At

/-- Reading by offsets gives the same as reading with a cursor. -/
theorem refines_cursor : LineReader.Refines reader Cursor.reader At := by
  apply LineReader.Refines.of_lines Cursor.size skipsLines Cursor.skipsLines
  · intro cursor line after taken rest looked took
    exact Cursor.size_lt (Option.some.inj looked) (Option.some.inj took)
  · exact At.peek
  · exact At.next
  · intro cursor other same
    rw [Bool.eq_iff_iff]
    show (cursor.peeked.isNone && decide ((Text.bytes cursor.source).length ≤ cursor.offset)) = true ↔
      (other.peeked.isNone && other.unread.isEmpty) = true
    rw [same.peeked_eq, Bool.and_eq_true, Bool.and_eq_true, decide_eq_true_eq, same.length_le_iff,
      List.isEmpty_iff]
  · intro cursor other same
    obtain ⟨front, rfl⟩ := same
    rfl

end ByteCursor

/-- Looking at lines, taking lines and skipping blank lines in any order, a cursor gives line by line
what a bookmark in the list of all lines gives, and so does reading by offsets, which never cuts a
character. -/
theorem Cursor.answers_bookmarked (source : String) (calls : List LineReader.Call) :
    ∃ answers,
      Bookmark.reader.answers (Bookmark.ofText source.toList) calls = some answers ∧
      Cursor.reader.answers (Cursor.ofText source.toList) calls = some answers ∧
      ByteCursor.reader.answers (ByteCursor.ofText source.toList) calls = some answers := by
  obtain ⟨answers, own, listed⟩ :=
    Cursor.refines_bookmark.answers (Cursor.At.start source.toList) calls
  have offsets := ByteCursor.refines_cursor.answers_eq (ByteCursor.At.start source.toList) calls
  exact ⟨answers, listed, own, offsets.trans own⟩

end WikiPress

import WikiPress.Proofs.Source.Building
import WikiPress.Proofs.Source.Readers

/-!
# Reading blocks with a cursor

A source can be read with a cursor in its lines. Each round skips the blank lines in front, looks at
the next line and leaves it to the reader for its kind to take that line: those of tables, lists and
paragraphs look at it again and go on as long as the lines are of the same kind, and that of code
takes all lines up to the one that ends it. The readers see the lines as the round has seen the
first one, so each takes what the part takes that begins there (`Cursor.readPart_eq`), and a round
that does not leave the loop takes a line at least (`Cursor.exists_taken_of_round`). So the reading
ends, and it ends behind the last line or at a mistake (`Cursor.readAll_progresses`).
-/

namespace WikiPress

/-- The lines of a text are the next one and those of the text behind it. -/
theorem Line.linesFrom_eq (count : Nat) (source : List Char) :
    linesFrom count source = match next? count source with
      | none => []
      | some (line, behind) => line :: linesFrom (count + 1) behind := by
  rw [linesFrom]
  split <;> simp_all

/-- What is left behind a part is an end of what was there. -/
theorem Part.suffix_of_read {root : Path} {line : Line} {more rest : List Line} {parts : List Part}
    (found : read root line more = .ok (parts, rest)) : rest <:+ more := by
  have run {α : Type} (give : Line → Option α) : (leading give more).2 <:+ more := by
    rw [leading_eq]
    exact List.dropWhile_suffix _
  unfold read at found
  split at found
  · cases found
    exact List.suffix_refl more
  · cases found
    exact List.suffix_refl more
  · simp only [bind, Except.bind] at found
    split at found
    · cases found
    · cases found
      exact List.suffix_refl more
  · split at found
    · cases found
    · next closing behind code =>
      cases found
      have ending : closing :: rest <:+ more := code ▸ List.dropWhile_suffix _
      exact (List.suffix_cons closing rest).trans ending
  · split at found
    · cases found
    · cases found
      exact List.suffix_refl more
  · cases found
    exact List.suffix_refl more
  · cases found
    exact run row?
  · simp only [bind, Except.bind] at found
    split at found
    · cases found
    · cases found
      exact run item?
  · cases found
    exact run text?

namespace Cursor

/-- The lines that have not been taken. -/
def ahead (cursor : Cursor) : List Line :=
  cursor.peeked.toList ++ Line.linesFrom cursor.count cursor.unread

section Lines

/-- Looking at the next line takes none. -/
theorem peek_eq (cursor : Cursor) :
    cursor.peek.1 = cursor.ahead.head? ∧ cursor.peek.2.ahead = cursor.ahead := by
  obtain ⟨unread, count, peeked⟩ := cursor
  cases peeked with
  | some line => exact ⟨rfl, rfl⟩
  | none =>
    have lines := Line.linesFrom_eq count unread
    cases found : Line.next? count unread <;> simp_all [peek, ahead]

/-- Taking the next line takes the first of those ahead. -/
theorem next_eq (cursor : Cursor) :
    cursor.next.1 = cursor.ahead.head? ∧ cursor.next.2.ahead = cursor.ahead.tail := by
  obtain ⟨unread, count, peeked⟩ := cursor
  cases peeked with
  | some line => exact ⟨rfl, rfl⟩
  | none =>
    have lines := Line.linesFrom_eq count unread
    cases found : Line.next? count unread <;> simp_all [next, peek, ahead]

/-- Blank lines in unread text are taken. -/
theorem ahead_skipUnread (count : Nat) (unread : List Char) :
    (skipUnread count unread).2.ahead =
      (Line.linesFrom count unread).dropWhile Line.isBlank := by
  fun_induction skipUnread count unread with
  | case1 count unread found =>
    have lines := Line.linesFrom_eq count unread
    simp_all [ahead]
  | case2 count unread line behind found blank skipped last behindBlank ih =>
    rw [Line.linesFrom_eq, found, List.dropWhile_cons_of_pos blank, ← ih, behindBlank]
  | case3 count unread line behind found filled =>
    rw [Line.linesFrom_eq, found, List.dropWhile_cons_of_neg filled]
    rfl

/-- The blank lines in front are taken. -/
theorem ahead_skipBlank (cursor : Cursor) :
    cursor.skipBlank.2.ahead = cursor.ahead.dropWhile Line.isBlank := by
  obtain ⟨unread, count, peeked⟩ := cursor
  cases peeked with
  | none => exact ahead_skipUnread count unread
  | some line =>
    show _ = (line :: Line.linesFrom count unread).dropWhile Line.isBlank
    by_cases blank : line.isBlank = true
    · rw [List.dropWhile_cons_of_pos blank, ← ahead_skipUnread, skipBlank]
      simp only [blank, if_true]
    · rw [List.dropWhile_cons_of_neg blank, skipBlank]
      simp only [blank]
      rfl

/-- All lines have been taken where none is ahead. -/
theorem isAtEnd_iff {cursor : Cursor} : cursor.isAtEnd = true ↔ cursor.ahead = [] := by
  rw [ahead, List.append_eq_nil_iff, Line.linesFrom_eq_nil_iff, isAtEnd, Bool.and_eq_true,
    Option.isNone_iff_eq_none, List.isEmpty_iff, Option.toList_eq_nil_iff]

/-- A line that was looked at is the first one ahead, and it is taken next. -/
theorem of_peek {cursor after : Cursor} {line : Line} (looked : cursor.peek = (some line, after)) :
    cursor.ahead = line :: after.next.2.ahead ∧ after.ahead = line :: after.next.2.ahead := by
  obtain ⟨seen, same⟩ := cursor.peek_eq
  rw [looked] at seen same
  obtain ⟨more, lines⟩ := List.head?_eq_some_iff.1 seen.symm
  rw [(next_eq after).2, same, lines]
  exact ⟨rfl, rfl⟩

/-- Where no line is looked at, none is ahead. -/
theorem of_peek_none {cursor after : Cursor} (looked : cursor.peek = (none, after)) :
    cursor.ahead = [] ∧ after.ahead = [] := by
  obtain ⟨seen, same⟩ := cursor.peek_eq
  rw [looked] at seen same
  have nothing := List.head?_eq_none_iff.1 seen.symm
  exact ⟨nothing, same.trans nothing⟩

/-- A line that was taken was the first one ahead. -/
theorem of_next {cursor after : Cursor} {line : Line} (took : cursor.next = (some line, after)) :
    cursor.ahead = line :: after.ahead := by
  obtain ⟨seen, same⟩ := cursor.next_eq
  rw [took] at seen same
  obtain ⟨more, lines⟩ := List.head?_eq_some_iff.1 seen.symm
  rw [same, lines]
  rfl

/-- Where no line was taken, none was ahead. -/
theorem of_next_none {cursor after : Cursor} (took : cursor.next = (none, after)) :
    cursor.ahead = [] := by
  have seen := cursor.next_eq.1
  rw [took] at seen
  exact List.head?_eq_none_iff.1 seen.symm

end Lines

/-- What the lines in front give is taken, as long as they give anything. The line that ends them is
looked at. -/
def takeRun {α : Type} (give : Line → Option α) (cursor : Cursor) : List α × Cursor :=
  match _looked : cursor.peek with
  | (none, after) => ([], after)
  | (some line, after) =>
    match give line with
    | none => ([], after)
    | some a =>
      let (others, last) := takeRun give after.next.2
      (a :: others, last)
termination_by cursor.ahead.length
decreasing_by simp [of_peek _looked]

/-- The item lines in front are taken with their levels in a list that starts at a column, or at the
first of them. A line that has no level ends the reading. -/
def takeEntries (base? : Option Nat) (cursor : Cursor) :
    Except ParseError (List (ItemLine × Nat) × Cursor) :=
  match _looked : cursor.peek with
  | (none, after) => .ok ([], after)
  | (some line, after) =>
    match Part.item? line with
    | none => .ok ([], after)
    | some item =>
      let base := base?.getD item.indent
      match item.level? base with
      | .error e => .error e
      | .ok level =>
        (takeEntries (some base) after.next.2).map fun made => ((item, level) :: made.1, made.2)
termination_by cursor.ahead.length
decreasing_by simp [of_peek _looked]

/-- The lines in front of the one that ends fenced code are taken, and that one as well, if there is
one. -/
def takeCode (cursor : Cursor) : Option (List Line × Cursor) :=
  match _took : cursor.next with
  | (none, _) => none
  | (some line, after) =>
    if line.endsCode then some ([], after)
    else (takeCode after).map fun made => (line :: made.1, made.2)
termination_by cursor.ahead.length
decreasing_by simp [of_next _took]

/-- Fenced code in a language; the cursor stands at the line that begins it. -/
def readCode (language : List Char) (cursor : Cursor) : Except Stop (List Part × Cursor) :=
  let (fence?, cursor) := cursor.next
  let start := match fence? with
    | some fence => fence.number
    | none => cursor.lineNumber
  match cursor.takeCode with
  | none => .error (.refused (.mistake .unclosedCode start))
  | some (lines, last) =>
    let tag := if language = [] then none else some (String.ofList language)
    .ok ([.block (.code tag (Part.codeText lines))], last)

/-- The table of the row lines in front. -/
def readTable (cursor : Cursor) : List Part × Cursor :=
  let (texts, last) := cursor.takeRun Part.row?
  ([.block (.table (Table.rows texts))], last)

/-- The list of the item lines in front. -/
def readList (cursor : Cursor) : Except Stop (List Part × Cursor) := do
  let (entries, last) ← (cursor.takeEntries none).mapError Stop.refused
  let (list, _) ← ItemLine.buildList entries
  .ok ([.block list], last)

/-- The paragraph of the text lines in front. -/
def readParagraph (cursor : Cursor) : List Part × Cursor :=
  let (texts, last) := cursor.takeRun Part.text?
  ([.block (.paragraph (runsOf (Part.flowed texts)))], last)

/-- The part that begins with a line at which the cursor stands. Parts of one line take it here; the
others are left to their readers. -/
def readPart (root : Path) (line : Line) (cursor : Cursor) : Except Stop (List Part × Cursor) :=
  match LineKind.ofLine line with
  | .blank => .ok ([], cursor.next.2)
  | .directive name value =>
    ((Part.ofDirective name value line.number).mapError Stop.refused).map fun part =>
      ([part], cursor.next.2)
  | .fence language => cursor.readCode language
  | .rule => .ok ([.block .rule], cursor.next.2)
  | .inclusion locator =>
    if locator = [] then .error (.refused (.mistake .emptyInclusion line.number))
    else
      let target := Reference.resolve root (String.ofList locator)
      .ok ([.block (.inclusion ⟨target, root⟩)], cursor.next.2)
  | .heading depth text => .ok ([.block (.heading depth (runsOf text) [])], cursor.next.2)
  | .row _ => .ok cursor.readTable
  | .item _ _ _ => cursor.readList
  | .text _ => .ok cursor.readParagraph

/-- What one round of the reading leads to. -/
inductive Round where
  /-- The loop is left with the cursor at a place. -/
  | left (last : Cursor)
  /-- Parts were read, and the reading goes on from a place. -/
  | took (parts : List Part) (after : Cursor)

/-- One round of the reading. -/
def round (root : Path) (cursor : Cursor) : Except Stop Round :=
  if cursor.isAtEnd then .ok (.left cursor)
  else
    match cursor.skipBlank.2.peek with
    | (none, after) => .ok (.left after)
    | (some line, after) => (after.readPart root line).map fun made => .took made.1 made.2

section Readers

variable {cursor after : Cursor} {line : Line} {more : List Line} {root : Path}

/-- A run is taken as far as the lines ahead give anything. -/
theorem takeRun_eq {α : Type} (give : Line → Option α) (cursor : Cursor) :
    ((cursor.takeRun give).1, (cursor.takeRun give).2.ahead) = Part.leading give cursor.ahead := by
  fun_induction takeRun give cursor with
  | case1 cursor after looked =>
    rw [(of_peek_none looked).1, (of_peek_none looked).2]
    rfl
  | case2 cursor line after looked nothing =>
    rw [(of_peek looked).1, (of_peek looked).2, Part.leading, nothing]
  | case3 cursor line after looked a given others last took ih =>
    rw [(of_peek looked).1, Part.leading, given, ← ih, took]

/-- Where the first line gives something, the run begins with it. -/
theorem takeRun_cons {α : Type} {give : Line → Option α} {a : α}
    (here : cursor.ahead = line :: more) (given : give line = some a) :
    ((cursor.takeRun give).1, (cursor.takeRun give).2.ahead) =
      (a :: (Part.leading give more).1, (Part.leading give more).2) := by
  rw [takeRun_eq, here, Part.leading, given]

/-- Such a run is taken up to the first line that gives nothing. -/
theorem exists_takeRun {α : Type} {give : Line → Option α} {a : α}
    (here : cursor.ahead = line :: more) (given : give line = some a) :
    ∃ others last, cursor.takeRun give = (a :: others, last) ∧
      last.ahead = more.dropWhile fun other => (give other).isSome := by
  obtain ⟨taken, behind⟩ := Prod.mk.inj (takeRun_cons here given)
  rw [Part.leading_eq] at behind
  exact ⟨_, _, Prod.ext taken rfl, behind⟩

/-- What is made, and the lines that are ahead then. -/
def leaves {ε α : Type} (made : Except ε (α × Cursor)) : Except ε (α × List Line) :=
  made.map fun both => (both.1, both.2.ahead)

/-- What leaves an error is one. -/
theorem eq_of_leaves_error {ε α : Type} {made : Except ε (α × Cursor)} {e : ε}
    (left : leaves made = .error e) : made = .error e := by
  cases made with
  | error other => exact congrArg Except.error (Except.error.inj left)
  | ok both => cases left

/-- What leaves lines is made with a cursor at them. -/
theorem exists_of_leaves_ok {ε α : Type} {made : Except ε (α × Cursor)} {a : α} {lines : List Line}
    (left : leaves made = .ok (a, lines)) :
    ∃ last, made = .ok (a, last) ∧ last.ahead = lines := by
  cases made with
  | error e => cases left
  | ok both =>
    obtain ⟨rfl, behind⟩ := Prod.mk.inj (Except.ok.inj left)
    exact ⟨both.2, rfl, behind⟩

/-- The entry of an item line is taken, if the line has a level. -/
theorem takeEntries_cons {item : ItemLine} (base? : Option Nat)
    (looked : cursor.peek = (some line, after)) (given : Part.item? line = some item) :
    cursor.takeEntries base? =
      match item.level? (base?.getD item.indent) with
      | .error e => .error e
      | .ok level =>
        (takeEntries (some (base?.getD item.indent)) after.next.2).map fun made =>
          ((item, level) :: made.1, made.2) := by
  rw [takeEntries]
  split
  · next none => cases none.symm.trans looked
  · next some =>
    cases some.symm.trans looked
    simp only [given]

/-- No entry is taken in front of a line that is no item. -/
theorem takeEntries_other (base? : Option Nat) (looked : cursor.peek = (some line, after))
    (nothing : Part.item? line = none) : cursor.takeEntries base? = .ok ([], after) := by
  rw [takeEntries]
  split
  · next none => cases none.symm.trans looked
  · next some =>
    cases some.symm.trans looked
    simp only [nothing]

/-- The entries of the item lines in front are the items with their levels, in a list that starts at
a column. -/
theorem takeEntries_eq (base : Nat) (cursor : Cursor) :
    leaves (cursor.takeEntries (some base)) =
      (ItemLine.levels base (Part.leading Part.item? cursor.ahead).1).map fun entries =>
        (entries, (Part.leading Part.item? cursor.ahead).2) := by
  generalize same : some base = base?
  fun_induction takeEntries base? cursor with
  | case1 base? cursor after looked =>
    rw [(of_peek_none looked).1, leaves, Except.map, (of_peek_none looked).2]
    rfl
  | case2 base? cursor line after looked nothing =>
    rw [(of_peek looked).1, Part.leading, nothing, leaves, Except.map, (of_peek looked).2]
    rfl
  | case3 base? cursor line after looked item given own e failed =>
    subst same
    simp only [(of_peek looked).1, Part.leading, given, ItemLine.levels]
    have refused : item.level? base = .error e := failed
    rw [refused]
    rfl
  | case4 base? cursor line after looked item given own level leveled ih =>
    subst same
    have here : item.level? base = .ok level := leveled
    have shift (made : Except ParseError (List (ItemLine × Nat) × Cursor)) :
        leaves (made.map fun both => ((item, level) :: both.1, both.2)) =
          (leaves made).map fun both => ((item, level) :: both.1, both.2) := by
      cases made <;> rfl
    rw [shift, ih rfl]
    simp only [(of_peek looked).1, Part.leading, given, ItemLine.levels, here]
    cases ItemLine.levels base (Part.leading Part.item? after.next.2.ahead).1 <;> rfl

/-- A list starts at the column of its first item. -/
theorem takeEntries_none {item : ItemLine} (here : cursor.ahead = line :: more)
    (given : Part.item? line = some item) :
    cursor.takeEntries none = cursor.takeEntries (some item.indent) := by
  have looked : cursor.peek = (some line, cursor.peek.2) :=
    Prod.ext (by rw [cursor.peek_eq.1, here, List.head?_cons]) rfl
  rw [takeEntries_cons none looked given, takeEntries_cons (some item.indent) looked given]
  rfl

/-- Code is taken up to the first line that ends it. -/
theorem takeCode_eq (cursor : Cursor) :
    cursor.takeCode.map (fun made => (made.1, made.2.ahead)) =
      match cursor.ahead.dropWhile (!·.endsCode) with
      | [] => none
      | _ :: rest => some (cursor.ahead.takeWhile (!·.endsCode), rest) := by
  fun_induction takeCode cursor with
  | case1 cursor _ took => rw [of_next_none took]; rfl
  | case2 cursor line after took ends =>
    rw [of_next took, List.dropWhile_cons_of_neg (by simp [ends]),
      List.takeWhile_cons_of_neg (by simp [ends])]
    rfl
  | case3 cursor line after took goesOn ih =>
    rw [of_next took, List.dropWhile_cons_of_pos (by simp [goesOn]),
      List.takeWhile_cons_of_pos (by simp [goesOn])]
    have shift (made : Option (List Line × Cursor)) :
        (made.map fun both => (line :: both.1, both.2)).map (fun both => (both.1, both.2.ahead)) =
          (made.map fun both => (both.1, both.2.ahead)).map
            fun both => (line :: both.1, both.2) := by
      cases made <;> rfl
    rw [shift, ih]
    cases after.ahead.dropWhile (!·.endsCode) <;> rfl

/-- Fenced code takes the lines up to its end, or it has none. -/
theorem readCode_eq (language : List Char) (here : cursor.ahead = line :: more) :
    leaves (cursor.readCode language) =
      match more.dropWhile (!·.endsCode) with
      | [] => .error (.refused (.mistake .unclosedCode line.number))
      | _ :: rest =>
        let tag := if language = [] then none else some (String.ofList language)
        .ok ([.block (.code tag (Part.codeText (more.takeWhile (!·.endsCode))))], rest) := by
  obtain ⟨fence, behind⟩ := cursor.next_eq
  rw [here] at fence behind
  have code := cursor.next.2.takeCode_eq
  rw [behind, List.tail_cons] at code
  simp only [readCode, fence, List.head?_cons]
  cases ended : more.dropWhile (!·.endsCode) with
  | nil =>
    rw [ended] at code
    rw [Option.map_eq_none_iff.1 code]
    rfl
  | cons closing rest =>
    rw [ended] at code
    obtain ⟨⟨lines, last⟩, taken, same⟩ := Option.map_eq_some_iff.1 code
    obtain ⟨rfl, rfl⟩ := Prod.mk.inj same
    rw [taken]
    rfl

/-- A table takes the run of row lines. -/
theorem readTable_eq {text : List Char} (here : cursor.ahead = line :: more)
    (given : Part.row? line = some text) :
    (cursor.readTable.1, cursor.readTable.2.ahead) =
      ([.block (.table (Table.rows (text :: (Part.leading Part.row? more).1)))],
        (Part.leading Part.row? more).2) := by
  obtain ⟨texts, behind⟩ := Prod.mk.inj (takeRun_cons here given)
  rw [readTable, ← texts, ← behind]

/-- A paragraph takes the run of text lines. -/
theorem readParagraph_eq {text : List Char} (here : cursor.ahead = line :: more)
    (given : Part.text? line = some text) :
    (cursor.readParagraph.1, cursor.readParagraph.2.ahead) =
      ([.block (.paragraph (runsOf (Part.flowed (text :: (Part.leading Part.text? more).1))))],
        (Part.leading Part.text? more).2) := by
  obtain ⟨texts, behind⟩ := Prod.mk.inj (takeRun_cons here given)
  rw [readParagraph, ← texts, ← behind]

/-- The run of item lines is taken whole and gives entries, all of which the builder takes, or it
finds a mistake; or one of the lines has no level. -/
theorem takeEntries_cases {item : ItemLine} (here : cursor.ahead = line :: more)
    (given : Part.item? line = some item) :
    let run := Part.leading Part.item? more
    (∃ e, cursor.takeEntries none = .error e ∧ listOf (item :: run.1) = .error e) ∨
      ∃ entries last, cursor.takeEntries none = .ok ((item, 1) :: entries, last) ∧
        last.ahead = run.2 ∧
          ((∃ list, ItemLine.buildList ((item, 1) :: entries) = .ok (list, entries.length + 1) ∧
              listOf (item :: run.1) = .ok [list]) ∨
            ∃ e, ItemLine.buildList ((item, 1) :: entries) = .error (.refused e) ∧
              listOf (item :: run.1) = .error e) := by
  intro run
  have taken := takeEntries_eq item.indent cursor
  rw [here, Part.leading, given, ← takeEntries_none here given] at taken
  by_cases fits : ∀ own ∈ item :: run.1, own.HasLevel item.indent
  · rw [ItemLine.levels_of_hasLevel fits] at taken
    obtain ⟨last, made, behind⟩ := exists_of_leaves_ok taken
    have top : item.levelFrom item.indent = 1 := by simp [ItemLine.levelFrom]
    have built := ItemLine.buildList_of_hasLevel fits
    rw [ItemLine.entriesFrom_cons, top] at built
    refine .inr ⟨ItemLine.entriesFrom item.indent run.1, last, ?_, behind, ?_⟩
    · rw [made, List.map_cons, top]
      rfl
    · rwa [ItemLine.entriesFrom, List.length_map]
  · obtain ⟨front, bad, rest, split, before, unfit⟩ := ItemLine.exists_first_not_hasLevel fits
    have refused := ItemLine.levels_of_not_hasLevel before unfit rest
    rw [← split] at refused
    rw [refused] at taken
    refine .inl ⟨_, eq_of_leaves_error taken, ?_⟩
    simp only [listOf, refused, bind, Except.bind]

/-- A list takes the run of item lines. -/
theorem readList_eq {item : ItemLine} (here : cursor.ahead = line :: more)
    (given : Part.item? line = some item) :
    leaves cursor.readList =
      ((listOf (item :: (Part.leading Part.item? more).1)).mapError Stop.refused).map fun list =>
        (list.map Part.block, (Part.leading Part.item? more).2) := by
  rcases takeEntries_cases here given with ⟨e, taken, refused⟩ |
      ⟨entries, last, taken, behind, ⟨list, built, same⟩ | ⟨e, built, refused⟩⟩
  · rw [readList, taken, refused]
    rfl
  · rw [readList, taken, same, ← behind]
    simp only [Except.mapError, bind, Except.bind, built]
    rfl
  · rw [readList, taken, refused]
    simp only [Except.mapError, bind, Except.bind, built]
    rfl

/-- The reader for the kind of a line takes what the part takes that the line begins. -/
theorem readPart_eq (root : Path) (here : cursor.ahead = line :: more) :
    leaves (cursor.readPart root line) = (Part.read root line more).mapError Stop.refused := by
  have behind : cursor.next.2.ahead = more := by rw [cursor.next_eq.2, here, List.tail_cons]
  unfold readPart Part.read
  cases kind : LineKind.ofLine line with
  | blank => simp only [leaves, Except.map, behind]; rfl
  | rule => simp only [leaves, Except.map, behind]; rfl
  | directive name value =>
    simp only [bind, Except.bind]
    cases Part.ofDirective name value line.number with
    | error e => rfl
    | ok part => simp only [leaves, Except.map, Except.mapError, behind]
  | fence language =>
    simp only [readCode_eq language here]
    cases more.dropWhile (!·.endsCode) <;> rfl
  | inclusion locator =>
    simp only
    split
    · rfl
    · simp only [leaves, Except.map, Except.mapError, behind]
  | heading depth text => simp only [leaves, Except.map, Except.mapError, behind]
  | row text =>
    have given : Part.row? line = some text := by rw [Part.row?, kind]
    have table := readTable_eq here given
    simp only [leaves, Except.map, Except.mapError, table]
  | item marker indent text =>
    have given : Part.item? line = some ⟨marker, indent, text, line.number⟩ := by
      rw [Part.item?, kind]
    simp only [readList_eq here given, bind, Except.bind]
    cases listOf (⟨marker, indent, text, line.number⟩ :: (Part.leading Part.item? more).1) <;> rfl
  | text content =>
    have given : Part.text? line = some content := by rw [Part.text?, kind]
    have paragraph := readParagraph_eq here given
    simp only [leaves, Except.map, Except.mapError, paragraph]

/-- The loop is left where only blank lines are ahead. Otherwise a round reads the part that begins
with the next line, or stops at the mistake in it. -/
theorem round_cases (root : Path) (cursor : Cursor) :
    (∃ last, cursor.round root = .ok (.left last) ∧ last.ahead = [] ∧
        cursor.ahead.dropWhile Line.isBlank = []) ∨
      ∃ line more, cursor.ahead.dropWhile Line.isBlank = line :: more ∧
        ((∃ e, cursor.round root = .error (.refused e) ∧ Part.read root line more = .error e) ∨
          ∃ parts after, cursor.round root = .ok (.took parts after) ∧
            Part.read root line more = .ok (parts, after.ahead)) := by
  unfold round
  by_cases ended : cursor.isAtEnd = true
  · have nothing := isAtEnd_iff.1 ended
    exact .inl ⟨cursor, if_pos ended, nothing, by rw [nothing, List.dropWhile_nil]⟩
  · rw [if_neg ended, ← ahead_skipBlank]
    rcases looked : cursor.skipBlank.2.peek with ⟨_ | line, here⟩
    · obtain ⟨nothing, last⟩ := of_peek_none looked
      exact .inl ⟨here, rfl, last, nothing⟩
    · obtain ⟨lines, same⟩ := of_peek looked
      have read := readPart_eq root same
      refine .inr ⟨line, _, lines, ?_⟩
      simp only
      cases found : Part.read root line here.next.2.ahead with
      | error e =>
        rw [found] at read
        exact .inl ⟨e, by rw [eq_of_leaves_error read]; rfl, rfl⟩
      | ok both =>
        rw [found] at read
        obtain ⟨after, made, behind⟩ := exists_of_leaves_ok read
        exact .inr ⟨both.1, after, by rw [made]; rfl, by rw [behind]⟩

/-- A round that does not leave the loop takes a line at least. -/
theorem exists_taken_of_round {parts : List Part}
    (led : cursor.round root = .ok (.took parts after)) :
    ∃ taken, taken ≠ [] ∧ cursor.ahead = taken ++ after.ahead := by
  rcases round_cases root cursor with ⟨last, left, _⟩ | ⟨line, more, filled, ⟨e, failed, _⟩ | read⟩
  · rw [left] at led
    cases led
  · rw [failed] at led
    cases led
  · obtain ⟨_, _, took, found⟩ := read
    rw [took] at led
    cases led
    obtain ⟨own, rest⟩ := Part.suffix_of_read found
    have gap := List.takeWhile_append_dropWhile (p := Line.isBlank) (l := cursor.ahead)
    refine ⟨cursor.ahead.takeWhile Line.isBlank ++ line :: own, by simp, ?_⟩
    rw [List.append_assoc, List.cons_append, rest, ← filled, gap]

end Readers

/-- The parts of the lines ahead, and the cursor behind the last of them. -/
def readAll (root : Path) (cursor : Cursor) : Except Stop (List Part × Cursor) :=
  match _led : cursor.round root with
  | .error e => .error e
  | .ok (.left last) => .ok ([], last)
  | .ok (.took parts after) => (readAll root after).map fun made => (parts ++ made.1, made.2)
termination_by cursor.ahead.length
decreasing_by
  obtain ⟨taken, filled, lines⟩ := exists_taken_of_round _led
  rw [lines, List.length_append]
  exact Nat.lt_add_of_pos_left (List.length_pos_iff.2 filled)

/-- The reading goes on as a round says. -/
theorem readAll_round (root : Path) (cursor : Cursor) : cursor.readAll root =
    match cursor.round root with
    | .error e => .error e
    | .ok (.left last) => .ok ([], last)
    | .ok (.took parts after) =>
      (after.readAll root).map fun made => (parts ++ made.1, made.2) := by
  rw [readAll]
  split
  · next e failed => rw [failed]
  · next last left => rw [left]
  · next parts after took => rw [took]

/-- Reading with a cursor gives the parts of the lines ahead and takes all lines, or it stops at the
same mistake. -/
theorem readAll_eq (root : Path) (cursor : Cursor) :
    leaves (cursor.readAll root) =
      ((Part.ofLines root cursor.ahead).mapError Stop.refused).map fun parts => (parts, []) := by
  induction size : cursor.ahead.length using Nat.strongRecOn generalizing cursor with
  | ind count ih =>
    -- blank lines in front give nothing
    have skipped : Part.ofLines root cursor.ahead =
        Part.ofLines root (cursor.ahead.dropWhile Line.isBlank) := by
      conv_lhs => rw [← List.takeWhile_append_dropWhile (p := Line.isBlank) (l := cursor.ahead)]
      exact ofLines_gap root (fun line member => List.mem_takeWhile_imp member) _
    rw [skipped]
    rcases round_cases root cursor with ⟨last, left, nothing, blank⟩ |
      ⟨line, more, filled, ⟨e, failed, bad⟩ | ⟨parts, after, took, found⟩⟩
    · rw [readAll_round, left, blank, Part.ofLines, leaves, Except.map, nothing]
      rfl
    · rw [readAll_round, failed, filled, ofLines_cons_error bad]
      rfl
    · obtain ⟨taken, some, lines⟩ := exists_taken_of_round took
      have fewer : after.ahead.length < count := by
        rw [← size, lines, List.length_append]
        exact Nat.lt_add_of_pos_left (List.length_pos_iff.2 some)
      have shift (made : Except Stop (List Part × Cursor)) :
          leaves (made.map fun rest => (parts ++ rest.1, rest.2)) =
            (leaves made).map fun rest => (parts ++ rest.1, rest.2) := by
        cases made <;> rfl
      rw [readAll_round, took, filled, ofLines_cons found]
      simp only [shift, ih _ fewer after rfl]
      cases Part.ofLines root after.ahead <;> rfl

/-- The reading of a source ends with its document and behind its last line, or with the mistake for
which there is no document. -/
theorem readAll_source (root : Path) (source : String) :
    (∃ parts last, (ofText source.toList).readAll root = .ok (parts, last) ∧
      last.isAtEnd = true ∧ Document.parse root source = .ok (Document.ofParts parts)) ∨
    ∃ e, (ofText source.toList).readAll root = .error (.refused e) ∧
      Document.parse root source = .error e := by
  have read := readAll_eq root (ofText source.toList)
  have lines : (ofText source.toList).ahead = Line.linesOf source.toList := rfl
  rw [lines] at read
  unfold Document.parse
  cases found : Part.ofLines root (Line.linesOf source.toList) with
  | error e =>
    rw [found] at read
    exact .inr ⟨e, eq_of_leaves_error read, rfl⟩
  | ok parts =>
    rw [found] at read
    obtain ⟨last, made, behind⟩ := exists_of_leaves_ok read
    exact .inl ⟨parts, last, made, isAtEnd_iff.2 behind, rfl⟩

/-- Reading with a cursor goes on in each round and takes all lines. A round that does not leave the
loop takes lines from the front, one at least: a reader for lines of one kind begins with the line
that the round has looked at, seen as the round has seen it, and goes on as long as lines are of
that kind. The builder of a list is given an entry for that line at the front of all entries, and
stands behind the last of them, unless it finds a mistake in them; it asks for none that is not
there. So the reading of a source ends, with its document and behind its last line or with the
mistake for which there is no document. -/
theorem readAll_progresses (root : Path) :
    (∀ (cursor after : Cursor) parts, cursor.round root = .ok (.took parts after) →
      ∃ taken, taken ≠ [] ∧ cursor.ahead = taken ++ after.ahead) ∧
    (∀ (cursor : Cursor) line more, cursor.ahead = line :: more →
      (∀ language, LineKind.ofLine line = .fence language →
        cursor.next.1 = some line ∧ cursor.next.2.ahead = more) ∧
      (∀ text, LineKind.ofLine line = .row text →
        ∃ others last, cursor.takeRun Part.row? = (text :: others, last) ∧
          last.ahead = more.dropWhile fun other => (Part.row? other).isSome) ∧
      (∀ text, LineKind.ofLine line = .text text →
        ∃ others last, cursor.takeRun Part.text? = (text :: others, last) ∧
          last.ahead = more.dropWhile fun other => (Part.text? other).isSome) ∧
      ∀ kind indent text, LineKind.ofLine line = .item kind indent text →
        (∃ e, cursor.takeEntries none = .error e) ∨
          ∃ others last, cursor.takeEntries none =
              .ok ((⟨kind, indent, text, line.number⟩, 1) :: others, last) ∧
            last.ahead = more.dropWhile (fun other => (Part.item? other).isSome) ∧
            ((∃ list, ItemLine.buildList ((⟨kind, indent, text, line.number⟩, 1) :: others) =
                .ok (list, others.length + 1)) ∨
              ∃ e, ItemLine.buildList ((⟨kind, indent, text, line.number⟩, 1) :: others) =
                .error (.refused e))) ∧
    ∀ source : String,
      (∃ parts last, (ofText source.toList).readAll root = .ok (parts, last) ∧
        last.isAtEnd = true ∧ Document.parse root source = .ok (Document.ofParts parts)) ∨
      ∃ e, (ofText source.toList).readAll root = .error (.refused e) ∧
        Document.parse root source = .error e := by
  refine ⟨fun _ _ _ => exists_taken_of_round, fun cursor line more here => ⟨?_, ?_, ?_, ?_⟩,
    readAll_source root⟩
  · intro language _
    rw [cursor.next_eq.1, cursor.next_eq.2, here]
    exact ⟨rfl, rfl⟩
  · exact fun text kind => exists_takeRun here (by rw [Part.row?, kind])
  · exact fun text kind => exists_takeRun here (by rw [Part.text?, kind])
  · intro kind indent text own
    have given : Part.item? line = some ⟨kind, indent, text, line.number⟩ := by
      rw [Part.item?, own]
    rcases takeEntries_cases here given with ⟨e, failed, _⟩ | ⟨others, last, taken, behind, built⟩
    · exact .inl ⟨e, failed⟩
    · rw [Part.leading_eq] at behind
      exact .inr ⟨others, last, taken, behind,
        built.imp (Exists.imp fun _ => And.left) (Exists.imp fun _ => And.left)⟩

/-- A round takes a list of two lines, of which the first had been looked at, and then a rule is
read to the end of the source. -/
theorem readAll_progresses_sample :
    let line : Line := ⟨" - a".toList, 1⟩
    let cursor : Cursor := ⟨"   2. b\n---".toList, 1, some line⟩
    let after : Cursor := ⟨[], 3, some ⟨"---".toList, 3⟩⟩
    (∃ parts, cursor.round ⟨""⟩ = .ok (.took parts after) ∧
      ∃ taken, taken ≠ [] ∧ cursor.ahead = taken ++ after.ahead) ∧
    (LineKind.ofLine line = .item .unordered 1 ['a'] ∧
      ∃ others last,
        cursor.takeEntries none = .ok ((⟨.unordered, 1, ['a'], 1⟩, 1) :: others, last) ∧
          last.ahead = after.ahead) ∧
    ∃ parts last, (ofText "---".toList).readAll ⟨""⟩ = .ok (parts, last) ∧ last.isAtEnd = true := by
  intro line cursor after
  have kind : LineKind.ofLine line = .item .unordered 1 ['a'] := by decide
  have looked : cursor.peek = (some line, cursor) := rfl
  have entries : cursor.takeEntries none =
      .ok ([(⟨.unordered, 1, ['a'], 1⟩, 1), (⟨.ordered, 3, ['b'], 2⟩, 2)], after) := by
    have second : cursor.next.2.peek = (some ⟨"   2. b".toList, 2⟩,
        ⟨"---".toList, 2, some ⟨"   2. b".toList, 2⟩⟩) := rfl
    have third : cursor.next.2.peek.2.next.2.peek = (some ⟨"---".toList, 3⟩, after) := rfl
    have item : Part.item? line = some ⟨.unordered, 1, ['a'], 1⟩ := by decide
    have item' : Part.item? ⟨"   2. b".toList, 2⟩ = some ⟨.ordered, 3, ['b'], 2⟩ := by decide
    have owned := takeEntries_cons (some 1) second item'
    rw [second] at third
    simp only [Option.getD_some, takeEntries_other (some 1) third (by decide)] at owned
    rw [takeEntries_cons none looked item]
    simp only [Option.getD_none, owned]
    rfl
  obtain ⟨list, built⟩ : ∃ list, ItemLine.buildList
      [(⟨.unordered, 1, ['a'], 1⟩, 1), (⟨.ordered, 3, ['b'], 2⟩, 2)] = .ok (list, 2) := ⟨_, rfl⟩
  have led : cursor.round ⟨""⟩ = .ok (.took [.block list] after) := by
    have goesOn : cursor.skipBlank.2.peek = (some line, cursor) := rfl
    rw [round, if_neg (by decide), goesOn]
    simp only [readPart, kind, readList, entries, Except.mapError, bind, Except.bind, built]
    rfl
  have rule : Document.parse ⟨""⟩ "---" = .ok { blocks := [.rule] } := by cbv
  obtain ⟨progresses, agrees, ends⟩ := readAll_progresses ⟨""⟩
  obtain ⟨_, _, _, items⟩ := agrees cursor line _ rfl
  refine ⟨⟨_, led, progresses cursor after _ led⟩, ⟨kind, ?_⟩, ?_⟩
  · rcases items _ _ _ kind with ⟨e, failed⟩ | ⟨others, last, taken, _⟩
    · rw [entries] at failed
      cases failed
    · refine ⟨others, last, taken, ?_⟩
      rw [entries] at taken
      cases taken
      rfl
  · rcases ends "---" with ⟨parts, last, read, stands, _⟩ | ⟨e, _, failed⟩
    · exact ⟨parts, last, read, stands⟩
    · rw [rule] at failed
      cases failed

end Cursor

end WikiPress

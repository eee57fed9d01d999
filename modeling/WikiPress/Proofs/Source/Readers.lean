import WikiPress.Proofs.Source.Lines
import WikiPress.Source.Cursor

/-!
# Readers of lines

A source is read by calls: look at the next line, take it, or skip blank lines. Of two readers one
refines the other if, from related positions, both give the same and stay related
(`LineReader.Refines`). Skipping is a loop of the other calls, so it agrees where they do
(`LineReader.Refines.of_lines`), and then every row of calls has the same answers
(`LineReader.Refines.answers`). The plainest reader is a bookmark in the list of all lines, and the
cursor refines it (`Cursor.refines_bookmark`).
-/

namespace WikiPress

/-- A way to read a source line by line. A call may fail to give anything. -/
structure LineReader (σ : Type) where
  /-- Look at the next line. -/
  peek : σ → Option (Option Line × σ)
  /-- Take the next line. -/
  next : σ → Option (Option Line × σ)
  /-- Take the blank lines in front, counting them. -/
  skipBlank : σ → Option (Nat × σ)
  /-- All lines have been taken. -/
  isAtEnd : σ → Bool
  /-- The number of the last line that was taken or looked at. -/
  lineNumber : σ → Nat

namespace LineReader

/-- What can be asked of a reader. -/
inductive Call where
  | peek
  | next
  | skipBlank
  deriving DecidableEq

/-- What a call gives. -/
inductive Given where
  /-- The next line, if there is one. -/
  | line (line : Option Line)
  /-- A number of blank lines. -/
  | blanks (count : Nat)
  deriving DecidableEq

/-- What a call gives, and what is known behind it. -/
structure Answer where
  given : Given
  atEnd : Bool
  lineNumber : Nat
  deriving DecidableEq

variable {σ τ α β : Type}

/-- One call. -/
def call (m : LineReader σ) (s : σ) : Call → Option (Given × σ)
  | .peek => (m.peek s).map fun (line, s) => (.line line, s)
  | .next => (m.next s).map fun (line, s) => (.line line, s)
  | .skipBlank => (m.skipBlank s).map fun (count, s) => (.blanks count, s)

/-- The answers to calls in a row. -/
def answers (m : LineReader σ) (s : σ) : List Call → Option (List Answer)
  | [] => some []
  | call :: more => do
    let (given, s) ← m.call s call
    let others ← m.answers s more
    some (⟨given, m.isAtEnd s, m.lineNumber s⟩ :: others)

/-- Skipping looks at a line and, if that is blank, takes it and goes on. -/
def SkipsLines (m : LineReader σ) : Prop := ∀ s, m.skipBlank s = do
  let (line?, s) ← m.peek s
  match line? with
  | none => some (0, s)
  | some line =>
    if line.isBlank then do
      let (_, s) ← m.next s
      let (count, s) ← m.skipBlank s
      some (count + 1, s)
    else some (0, s)

/-- Both give the same, and what is behind them is related. -/
def Agree (R : σ → τ → Prop) (x : Option (α × σ)) (y : Option (α × τ)) : Prop :=
  ∃ a s t, x = some (a, s) ∧ y = some (a, t) ∧ R s t

/-- What is given may be put into another form by both. -/
theorem Agree.map {R : σ → τ → Prop} {x : Option (α × σ)} {y : Option (α × τ)}
    (agree : Agree R x y) (f : α → β) :
    Agree R (x.map fun (a, s) => (f a, s)) (y.map fun (a, t) => (f a, t)) := by
  obtain ⟨a, s, t, rfl, rfl, still⟩ := agree
  exact ⟨f a, s, t, rfl, rfl, still⟩

/-- Related positions of two readers give the same and stay related. -/
structure Refines (m : LineReader σ) (n : LineReader τ) (R : σ → τ → Prop) : Prop where
  peek : ∀ {s t}, R s t → Agree R (m.peek s) (n.peek t)
  next : ∀ {s t}, R s t → Agree R (m.next s) (n.next t)
  skipBlank : ∀ {s t}, R s t → Agree R (m.skipBlank s) (n.skipBlank t)
  isAtEnd : ∀ {s t}, R s t → m.isAtEnd s = n.isAtEnd t
  lineNumber : ∀ {s t}, R s t → m.lineNumber s = n.lineNumber t

namespace Refines

variable {m : LineReader σ} {n : LineReader τ} {R : σ → τ → Prop}

/-- Readers that agree on single lines agree on blank ones skipped, if those come to an end. -/
theorem agree_skipBlank (size : τ → Nat) (skips : m.SkipsLines) (skips' : n.SkipsLines)
    (shorter : ∀ {t line t' taken rest}, n.peek t = some (some line, t') →
      n.next t' = some (taken, rest) → size rest < size t)
    (peek : ∀ {s t}, R s t → Agree R (m.peek s) (n.peek t))
    (next : ∀ {s t}, R s t → Agree R (m.next s) (n.next t)) {s : σ} {t : τ} (related : R s t) :
    Agree R (m.skipBlank s) (n.skipBlank t) := by
  -- A blank line that is taken leaves less, and skipping goes on from related positions.
  induction bound : size t using Nat.strongRecOn generalizing s t with
  | ind bound' ih =>
    obtain ⟨line?, s', t', looked, looked', still⟩ := peek related
    rw [skips, skips', looked, looked']
    simp only [Option.bind_eq_bind, Option.bind_some]
    cases line? with
    | none => exact ⟨0, s', t', rfl, rfl, still⟩
    | some line =>
      by_cases blank : line.isBlank = true
      · obtain ⟨taken, rest, rest', took, took', behind⟩ := next still
        have less : size rest' < bound' := bound ▸ shorter looked' took'
        obtain ⟨count, last, last', skipped, skipped', final⟩ := ih _ less behind rfl
        simp only [blank, if_true, took, took', Option.bind_some, skipped, skipped']
        exact ⟨count + 1, last, last', rfl, rfl, final⟩
      · simp only [blank]
        exact ⟨0, s', t', rfl, rfl, still⟩

/-- Readers that skip blank lines one by one agree if they agree on single lines. -/
theorem of_lines (size : τ → Nat) (skips : m.SkipsLines) (skips' : n.SkipsLines)
    (shorter : ∀ {t line t' taken rest}, n.peek t = some (some line, t') →
      n.next t' = some (taken, rest) → size rest < size t)
    (peek : ∀ {s t}, R s t → Agree R (m.peek s) (n.peek t))
    (next : ∀ {s t}, R s t → Agree R (m.next s) (n.next t))
    (isAtEnd : ∀ {s t}, R s t → m.isAtEnd s = n.isAtEnd t)
    (lineNumber : ∀ {s t}, R s t → m.lineNumber s = n.lineNumber t) : Refines m n R where
  peek := peek
  next := next
  skipBlank := agree_skipBlank size skips skips' shorter peek next
  isAtEnd := isAtEnd
  lineNumber := lineNumber

/-- A call from related positions gives the same. -/
theorem agree_call (refines : Refines m n R) {s : σ} {t : τ} (related : R s t) (call : Call) :
    Agree R (m.call s call) (n.call t call) := by
  cases call with
  | peek => exact (refines.peek related).map Given.line
  | next => exact (refines.next related).map Given.line
  | skipBlank => exact (refines.skipBlank related).map Given.blanks

/-- Calls in a row from related positions have the same answers. -/
theorem answers (refines : Refines m n R) {s : σ} {t : τ} (related : R s t) (calls : List Call) :
    ∃ found, m.answers s calls = some found ∧ n.answers t calls = some found := by
  induction calls generalizing s t with
  | nil => exact ⟨[], rfl, rfl⟩
  | cons call more ih =>
    obtain ⟨given, s', t', here, there, still⟩ := refines.agree_call related call
    obtain ⟨others, rest, rest'⟩ := ih still
    refine ⟨⟨given, n.isAtEnd t', n.lineNumber t'⟩ :: others, ?_, ?_⟩
    · rw [LineReader.answers, here, ← refines.isAtEnd still, ← refines.lineNumber still]
      simp only [Option.bind_eq_bind, Option.bind_some, rest]
    · rw [LineReader.answers, there]
      simp only [Option.bind_eq_bind, Option.bind_some, rest']

/-- The answers are the same from related positions. -/
theorem answers_eq (refines : Refines m n R) {s : σ} {t : τ} (related : R s t)
    (calls : List Call) : m.answers s calls = n.answers t calls := by
  obtain ⟨found, here, there⟩ := refines.answers related calls
  rw [here, there]

end Refines

end LineReader

/-- A place in the list of all lines. -/
structure Bookmark where
  lines : List Line
  /-- The number of lines that have been taken. -/
  taken : Nat
  /-- The next line has been looked at. -/
  peeked : Bool

namespace Bookmark

/-- The place in front of the first line. -/
def ofText (source : List Char) : Bookmark := ⟨Line.linesOf source, 0, false⟩

/-- The next line. -/
def line? (mark : Bookmark) : Option Line := mark.lines[mark.taken]?

/-- Look at the next line. -/
def peek (mark : Bookmark) : Option Line × Bookmark :=
  (mark.line?, { mark with peeked := mark.line?.isSome })

/-- Take the next line. -/
def next (mark : Bookmark) : Option Line × Bookmark :=
  match mark.line? with
  | none => (none, { mark with peeked := false })
  | some line => (some line, { mark with taken := mark.taken + 1, peeked := false })

/-- Take all blank lines in front and look at the line that ends them. -/
def skipBlank (mark : Bookmark) : Nat × Bookmark :=
  let count := ((mark.lines.drop mark.taken).takeWhile Line.isBlank).length
  (count, (peek { mark with taken := mark.taken + count }).2)

/-- All lines have been taken. -/
def isAtEnd (mark : Bookmark) : Bool := mark.lines.length ≤ mark.taken

/-- The number of lines that have been taken, and of the line that has been looked at. -/
def lineNumber (mark : Bookmark) : Nat := mark.taken + if mark.peeked then 1 else 0

/-- Reading with a bookmark. -/
def reader : LineReader Bookmark where
  peek mark := some mark.peek
  next mark := some mark.next
  skipBlank mark := some mark.skipBlank
  isAtEnd := isAtEnd
  lineNumber := lineNumber

/-- The lines left begin with the next line. -/
theorem drop_eq_cons {mark : Bookmark} {line : Line} (here : mark.line? = some line) :
    mark.lines.drop mark.taken = line :: mark.lines.drop (mark.taken + 1) := by
  obtain ⟨inside, same⟩ := List.getElem?_eq_some_iff.1 here
  rw [List.drop_eq_getElem_cons inside, same]

/-- No lines are left without a next line. -/
theorem drop_eq_nil {mark : Bookmark} (ended : mark.line? = none) :
    mark.lines.drop mark.taken = [] := List.drop_eq_nil_iff.2 (List.getElem?_eq_none_iff.1 ended)

/-- Taking a line moves the bookmark behind it, looked at or not. -/
theorem next_eq {mark : Bookmark} {line : Line} (here : mark.line? = some line) (looked : Bool) :
    next { mark with peeked := looked } =
      (some line, { mark with taken := mark.taken + 1, peeked := false }) := by
  rw [line?] at here
  simp only [next, line?, here]

/-- A bookmark skips blank lines one by one. -/
theorem skipsLines : reader.SkipsLines := by
  intro mark
  simp only [reader, Option.bind_eq_bind, Option.bind_some]
  cases here : mark.line? with
  | none => simp only [skipBlank, drop_eq_nil here, List.takeWhile_nil, List.length_nil,
      Nat.add_zero, peek, here]
  | some line =>
    by_cases blank : line.isBlank = true
    · have step : mark.taken + (((mark.lines.drop (mark.taken + 1)).takeWhile
          Line.isBlank).length + 1) = mark.taken + 1 +
            ((mark.lines.drop (mark.taken + 1)).takeWhile Line.isBlank).length := by omega
      simp only [peek, here, Option.isSome_some, blank, if_true, next_eq here]
      rw [skipBlank, skipBlank, drop_eq_cons here, List.takeWhile_cons_of_pos blank,
        List.length_cons, step]
      rfl
    · simp only [skipBlank, drop_eq_cons here, List.takeWhile_cons_of_neg blank, List.length_nil,
        Nat.add_zero, peek, here, if_neg blank]

end Bookmark

namespace Line

/-- Only an empty source has no lines. -/
theorem linesFrom_eq_nil_iff {count : Nat} {source : List Char} :
    linesFrom count source = [] ↔ source = [] := by
  constructor
  · intro none
    by_contra filled
    rw [linesFrom, next?, if_neg filled] at none
    cases none
  · rintro rfl
    exact linesFrom_nil count

end Line

namespace Cursor

/-- Reading with a cursor. -/
def reader : LineReader Cursor where
  peek cursor := some cursor.peek
  next cursor := some cursor.next
  skipBlank cursor := some cursor.skipBlank
  isAtEnd := isAtEnd
  lineNumber := lineNumber

/-- A cursor skips blank lines one by one. -/
theorem skipsLines : reader.SkipsLines := by
  intro cursor
  simp only [reader, Option.bind_eq_bind, Option.bind_some]
  obtain ⟨unread, count, peeked⟩ := cursor
  cases peeked with
  | some line => by_cases blank : line.isBlank = true <;> simp [skipBlank, peek, next, blank]
  | none =>
    cases found : Line.next? count unread with
    | none =>
      rw [skipBlank, skipUnread, found]
      simp only [peek, found]
    | some cut =>
      obtain ⟨line, behind⟩ := cut
      rw [skipBlank, skipUnread, found]
      by_cases blank : line.isBlank = true <;> simp [skipBlank, peek, next, found, blank]

/-- What is left of the source, and one more where a line has been looked at. -/
def size (cursor : Cursor) : Nat := cursor.unread.length + if cursor.peeked.isSome then 1 else 0

/-- Taking a line that is looked at leaves less. -/
theorem size_lt {cursor after rest : Cursor} {line : Line} {taken : Option Line}
    (looked : cursor.peek = (some line, after)) (took : after.next = (taken, rest)) :
    rest.size < cursor.size := by
  obtain ⟨unread, count, peeked⟩ := cursor
  cases peeked with
  | some held =>
    cases looked
    cases took
    exact Nat.lt_succ_self _
  | none =>
    cases found : Line.next? count unread with
    | none =>
      rw [peek, found] at looked
      cases looked
    | some split =>
      obtain ⟨line, behind⟩ := split
      rw [peek, found] at looked
      cases looked
      cases took
      exact Line.length_next? found

/-- The cursor stands at the bookmark: the same lines are left, and the next line has been looked at
by both or by none. -/
structure At (cursor : Cursor) (mark : Bookmark) : Prop where
  left : cursor.peeked.toList ++ Line.linesFrom cursor.count cursor.unread =
    mark.lines.drop mark.taken
  peeked : cursor.peeked.isSome = mark.peeked
  count : cursor.count = mark.lineNumber

namespace At

variable {cursor : Cursor} {mark : Bookmark}

/-- A cursor in front of a source stands at the first line. -/
theorem start (source : List Char) : (ofText source).At (Bookmark.ofText source) := ⟨rfl, rfl, rfl⟩

/-- Looking at the next line shows the line at the bookmark, and the cursor stays there. -/
theorem peek (same : cursor.At mark) :
    cursor.peek.1 = mark.line? ∧ cursor.peek.2.peeked = mark.line? ∧
      cursor.peek.2.At mark.peek.2 := by
  obtain ⟨unread, count, peeked⟩ := cursor
  obtain ⟨lines, taken, looked⟩ := mark
  obtain ⟨left, rfl, counted⟩ := same
  have head : lines[taken]? = (peeked.toList ++ Line.linesFrom count unread).head? := by
    rw [← List.head?_drop, ← left]
  simp only [Bookmark.peek, Bookmark.line?, head]
  cases peeked with
  | some line => exact ⟨rfl, rfl, left, rfl, counted⟩
  | none =>
    cases found : Line.next? count unread with
    | none =>
      have none : Line.linesFrom count unread = [] := by rw [Line.linesFrom, found]
      simp only [Cursor.peek, found, none]
      exact ⟨rfl, rfl, left, rfl, counted⟩
    | some cut =>
      obtain ⟨line, behind⟩ := cut
      have more : Line.linesFrom count unread = line :: Line.linesFrom (count + 1) behind := by
        rw [Line.linesFrom, found]
      simp only [Cursor.peek, found, more]
      exact ⟨rfl, rfl, more.symm.trans left, rfl, congrArg (· + 1) counted⟩

/-- Taking the next line gives the line at the bookmark, and the cursor follows behind it. -/
theorem next (same : cursor.At mark) :
    cursor.next.1 = mark.line? ∧ mark.next.1 = mark.line? ∧ cursor.next.2.At mark.next.2 := by
  obtain ⟨given, looked, still⟩ := same.peek
  rcases peeked : cursor.peek with ⟨line?, after⟩
  rw [peeked] at given looked still
  cases here : mark.line? with
  | none =>
    obtain rfl : line? = none := given.trans here
    have own : mark.next = (none, mark.peek.2) := by
      simp only [Bookmark.next, Bookmark.peek, here]
      rfl
    rw [Cursor.next, peeked, own]
    exact ⟨rfl, rfl, still⟩
  | some line =>
    obtain rfl : line? = some line := given.trans here
    have own : mark.next = (some line, { mark with taken := mark.taken + 1, peeked := false }) :=
      Bookmark.next_eq here mark.peeked
    have left := still.left
    rw [looked, here] at left
    have behind : Line.linesFrom after.count after.unread = mark.lines.drop (mark.taken + 1) :=
      (List.cons.inj (left.trans (Bookmark.drop_eq_cons here))).2
    have count : after.count = mark.taken + 1 := by
      rw [still.count, Bookmark.lineNumber, Bookmark.peek, here]
      rfl
    rw [Cursor.next, peeked, own]
    exact ⟨rfl, rfl, behind, rfl, count⟩

end At

/-- A cursor reads like a bookmark in the list of all lines. -/
theorem refines_bookmark : LineReader.Refines reader Bookmark.reader At := by
  apply LineReader.Refines.of_lines (fun mark => mark.lines.length - mark.taken) skipsLines
    Bookmark.skipsLines
  · intro mark line mark' taken rest looked took
    obtain ⟨here, rfl⟩ := Prod.mk.inj (Option.some.inj looked)
    obtain ⟨inside, _⟩ := List.getElem?_eq_some_iff.1 here
    have own := Option.some.inj took
    rw [Bookmark.next_eq here] at own
    obtain ⟨_, rfl⟩ := Prod.mk.inj own
    exact Nat.sub_succ_lt_self _ _ inside
  · intro cursor mark same
    obtain ⟨given, _, still⟩ := same.peek
    exact ⟨mark.line?, cursor.peek.2, mark.peek.2, by rw [← given]; rfl, rfl, still⟩
  · intro cursor mark same
    obtain ⟨given, own, still⟩ := same.next
    exact ⟨mark.line?, cursor.next.2, mark.next.2, by rw [← given]; rfl, by rw [← own]; rfl, still⟩
  · intro cursor mark same
    rw [Bool.eq_iff_iff]
    show (cursor.peeked.isNone && cursor.unread.isEmpty) = true ↔
      decide (mark.lines.length ≤ mark.taken) = true
    rw [decide_eq_true_eq, ← List.drop_eq_nil_iff, ← same.left, List.append_eq_nil_iff,
      Line.linesFrom_eq_nil_iff]
    simp
  · intro cursor mark same
    exact same.count

end Cursor

end WikiPress

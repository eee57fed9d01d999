import WikiPress.Proofs.Inline.Closings

/-!
# Scanning a line in place

A line can be read without taking it apart: a position goes over its bytes from one character that
opens something to the next, closing characters are looked for among the bytes behind it, and text
is taken as slices between positions. Where a slice begins or ends inside a character or outside the
line, the reading fails. Each turn goes on further behind, and a text inside a construct is shorter
than the line (`Scan.isFurther_of_turn`), so that the reading ends.
-/

namespace WikiPress

/-- How far a line has been read. Positions count its bytes. -/
structure Scan where
  /-- The position that is read next. -/
  pos : Nat := 0
  /-- Where the literal text begins that has not been taken. -/
  start : Nat := 0
  /-- The literal text that has been taken and is in no run yet. -/
  pending : List Char := []
  /-- The runs in front. -/
  runs : List Run := []

/-- What one turn of the reading leads to. -/
inductive Turn where
  /-- Nothing opens any more. -/
  | ended
  /-- The reading goes on. -/
  | goesOn (next : Scan)
  /-- A text inside is read under a style of its own, and then the reading goes on. -/
  | nested (inner : Style) (inside : List Char) (next : Scan)

/-- The position of the first two closing brackets in a row that are not in front of a given
position. The outer `none` is for a search outside the line. -/
def bracketsAt? (data : List UInt8) (search : Nat) : Option (Option Nat) :=
  match _sought : Text.seek? (Text.byte ']') search data with
  | none => none
  | some none => some none
  | some (some here) =>
    if data[here + 1]? = some (Text.byte ']') then some (some here)
    else bracketsAt? data (here + 1)
termination_by data.length - search
decreasing_by
  have := Text.of_seek? _sought
  omega

namespace Scan

section Turns

variable (text : List Char) (style : Style) (s : Scan)

/-- The literal text in front of the position is taken. -/
def flush : Option Scan :=
  if s.start < s.pos then
    (Text.slice? s.start s.pos text).map fun literal =>
      { s with start := s.pos, pending := s.pending ++ literal }
  else some { s with start := s.pos }

/-- The literal text that has been taken becomes a run. -/
def emit : Scan := { s with pending := [], runs := s.runs ++ literalRun style s.pending.reverse }

/-- The reading goes on at a position with nothing in front of it left to take. -/
def resume (n : Nat) : Scan := { s with pos := n, start := n }

/-- A backslash makes the character behind it literal. -/
def escape : Option (Option Turn) := do
  match ← Text.slice? (s.pos + 1) (Text.bytes text).length text with
  | [] => some none
  | c :: _ =>
    let flushed ← s.flush text
    some (some (.goesOn { flushed with pos := s.pos + 1 + c.utf8Size, start := s.pos + 1 }))

/-- A marker opens a text that it closes again. -/
def span (m : Marker) : Option (Option Turn) := do
  let data := Text.bytes text
  let sigil := Text.bytes m.sigil
  let opened := s.pos + sigil.length
  if sigil.isPrefixOf (← Text.restAt? s.pos data) then
    if data.length ≤ opened ∨ data[opened]? = some (Text.byte ' ') then some none
    else match ← Marker.closingAt? sigil data opened opened with
      | none => some none
      | some close =>
        let flushed ← s.flush text
        let inside ← Text.slice? opened close text
        some (some (.nested (style.merge m.style) inside
          ((flushed.emit style).resume (close + sigil.length))))
  else some none

/-- Two brackets open a link or an image. -/
def link : Option (Option Turn) := do
  let data := Text.bytes text
  let opened := s.pos + 2
  if data[s.pos + 1]? = some (Text.byte '[') then
    match ← bracketsAt? data opened with
    | none => some none
    | some close =>
      let content := Text.trim (← Text.slice? opened close text)
      if content = [] then some none
      else
        let emitted := (← s.flush text).emit style
        some (some (.goesOn
          { emitted.resume (close + 2) with
            runs := emitted.runs ++ (Construct.ofBrackets content).run style }))
  else some none

/-- A brace opens a coloured text. -/
def color : Option (Option Turn) := do
  let data := Text.bytes text
  match ← Text.seek? (Text.byte '|') (s.pos + 1) data with
  | none => some none
  | some bar =>
    let name ← Text.slice? (s.pos + 1) bar text
    if name = [] ∨ name.all Construct.isColorChar = false then some none
    else match ← Text.seek? (Text.byte '}') (bar + 1) data with
      | none => some none
      | some close =>
        if close = bar + 1 then some none
        else
          let flushed ← s.flush text
          let inside ← Text.slice? (bar + 1) close text
          some (some (.nested (style.merge { color := some (String.ofList name) }) inside
            ((flushed.emit style).resume (close + 1))))

/-- What stands at the position is read by its first byte; the inner `none` is for what opens
nothing. -/
def construct : Option (Option Turn) :=
  let data := Text.bytes text
  match data[s.pos]? with
  | none => none
  | some b =>
    if b = Text.byte '\\' then s.escape text
    else if b = Text.byte '*' then
      s.span text style (if data[s.pos + 1]? = some (Text.byte '*') then .bold else .italic)
    else if b = Text.byte '_' then s.span text style .underline
    else if b = Text.byte '^' then s.span text style .sup
    else if b = Text.byte ',' then s.span text style .sub
    else if b = Text.byte '~' then s.span text style .strike
    else if b = Text.byte '[' then s.link text style
    else if b = Text.byte '{' then s.color text style
    else some none

/-- The next position where something may open. -/
def opening? : Option (Option Nat) :=
  Text.seekAny? (openingChars.map Text.byte) s.pos (Text.bytes text)

/-- One turn of the reading: the next character that opens something is read, or passed over where
it opens nothing. -/
def turn : Option Turn :=
  if (Text.bytes text).length ≤ s.pos then some .ended
  else do
    match ← s.opening? text with
    | none => some .ended
    | some here =>
      match ← construct text style { s with pos := here } with
      | some turn => some turn
      | none => some (.goesOn { s with pos := here + 1 })

/-- The runs of a line that is read to its end. -/
def finish : Option (List Run) :=
  (flush text { s with pos := (Text.bytes text).length }).map fun last => (last.emit style).runs

end Turns

/-- A turn from a position of a line leads further behind, and a text inside has fewer bytes than
the line. -/
def IsFurther (text : List Char) (n : Nat) : Turn → Prop
  | .ended => True
  | .goesOn next => n < next.pos
  | .nested _ inside next =>
    n < next.pos ∧ (Text.bytes inside).length < (Text.bytes text).length

section Progress

variable {text : List Char} {style : Style} {s : Scan} {led : Turn}

/-- Behind an escaped character. -/
theorem isFurther_of_escape (read : s.escape text = some (some led)) :
    IsFurther text s.pos led := by
  obtain ⟨rest, _, read⟩ := Option.bind_eq_some_iff.1 read
  cases rest with
  | nil => cases read
  | cons c more =>
    obtain ⟨flushed, _, read⟩ := Option.bind_eq_some_iff.1 read
    obtain rfl := Option.some.inj (Option.some.inj read)
    exact Nat.lt_of_lt_of_le (Nat.lt_succ_self s.pos) (Nat.le_add_right _ _)

/-- Behind a marked text. -/
theorem isFurther_of_span {m : Marker} (read : s.span text style m = some (some led)) :
    IsFurther text s.pos led := by
  have filled : 0 < (Text.bytes m.sigil).length := by cases m <;> decide
  obtain ⟨rest, _, read⟩ := Option.bind_eq_some_iff.1 read
  split at read
  · split at read
    · cases read
    · obtain ⟨closing?, closed, read⟩ := Option.bind_eq_some_iff.1 read
      cases closing? with
      | none => cases read
      | some close =>
        obtain ⟨flushed, _, read⟩ := Option.bind_eq_some_iff.1 read
        obtain ⟨inside, sliced, read⟩ := Option.bind_eq_some_iff.1 read
        obtain rfl := Option.some.inj (Option.some.inj read)
        have behind := Marker.le_of_closingAt? closed
        refine ⟨?_, Text.length_slice?_lt sliced (by omega)⟩
        show s.pos < close + (Text.bytes m.sigil).length
        omega
  · cases read

/-- Behind a link or an image. -/
theorem isFurther_of_link (read : s.link text style = some (some led)) :
    IsFurther text s.pos led := by
  simp only [link] at read
  split at read
  · obtain ⟨closing?, closed, read⟩ := Option.bind_eq_some_iff.1 read
    cases closing? with
    | none => cases read
    | some close =>
      obtain ⟨content, sliced, read⟩ := Option.bind_eq_some_iff.1 read
      split at read
      · cases read
      · obtain ⟨flushed, _, read⟩ := Option.bind_eq_some_iff.1 read
        obtain rfl := Option.some.inj (Option.some.inj read)
        have behind := (Text.isSome_slice?_iff.1 (Option.isSome_of_eq_some sliced)).1
        show s.pos < close + 2
        omega
  · cases read

/-- Behind a coloured text. -/
theorem isFurther_of_color (read : s.color text style = some (some led)) :
    IsFurther text s.pos led := by
  obtain ⟨bar?, barred, read⟩ := Option.bind_eq_some_iff.1 read
  cases bar? with
  | none => cases read
  | some bar =>
    obtain ⟨name, _, read⟩ := Option.bind_eq_some_iff.1 read
    split at read
    · cases read
    · obtain ⟨closing?, closed, read⟩ := Option.bind_eq_some_iff.1 read
      cases closing? with
      | none => cases read
      | some close =>
        simp only at read
        split at read
        · cases read
        · obtain ⟨flushed, _, read⟩ := Option.bind_eq_some_iff.1 read
          obtain ⟨inside, sliced, read⟩ := Option.bind_eq_some_iff.1 read
          obtain rfl := Option.some.inj (Option.some.inj read)
          have first := Text.of_seek? barred
          have second := Text.of_seek? closed
          refine ⟨?_, Text.length_slice?_lt sliced (Nat.succ_pos bar)⟩
          show s.pos < close + 1
          omega

/-- Behind whatever opens at the position. -/
theorem isFurther_of_construct (read : s.construct text style = some (some led)) :
    IsFurther text s.pos led := by
  simp only [construct] at read
  split at read
  · cases read
  · split at read
    · exact isFurther_of_escape read
    · -- every other byte is read by one of the other readers
      repeat' split at read
      all_goals first
        | exact isFurther_of_span read
        | exact isFurther_of_link read
        | exact isFurther_of_color read
        | cases read

/-- Each turn inside a line goes on further behind, and a text inside is shorter. -/
theorem isFurther_of_turn (turned : s.turn text style = some led) :
    led = .ended ∨ s.pos < (Text.bytes text).length ∧ IsFurther text s.pos led := by
  unfold turn at turned
  split at turned
  · exact .inl (Option.some.inj turned).symm
  · next inside =>
    obtain ⟨opening?, sought, turned⟩ := Option.bind_eq_some_iff.1 turned
    cases opening? with
    | none => exact .inl (Option.some.inj turned).symm
    | some here =>
      have behind := Text.le_of_seekAny? sought
      obtain ⟨read?, read, turned⟩ := Option.bind_eq_some_iff.1 turned
      refine .inr ⟨Nat.lt_of_not_le inside, ?_⟩
      cases read? with
      | none =>
        obtain rfl := Option.some.inj turned
        exact Nat.lt_succ_of_le behind
      | some other =>
        obtain rfl := Option.some.inj turned
        have further := isFurther_of_construct read
        cases other with
        | ended => trivial
        | goesOn next => exact Nat.lt_of_le_of_lt behind further
        | nested inner inside next => exact ⟨Nat.lt_of_le_of_lt behind further.1, further.2⟩

end Progress

/-- The runs of a line under a style, read from some state on. The runs of a text inside come
between those in front of it and those behind. -/
def run (text : List Char) (style : Style) (s : Scan) : Option (List Run) :=
  match _turned : s.turn text style with
  | none => none
  | some .ended => s.finish text style
  | some (.goesOn next) => run text style next
  | some (.nested inner inside next) =>
    match run inside inner {} with
    | none => none
    | some runs => run text style { next with runs := next.runs ++ runs }
termination_by ((Text.bytes text).length, (Text.bytes text).length - s.pos)
decreasing_by
  · rcases isFurther_of_turn _turned with ended | ⟨inside, further⟩
    · cases ended
    · have later : s.pos < next.pos := further
      exact .right _ (by omega)
  · rcases isFurther_of_turn _turned with ended | ⟨_, _, shorter⟩
    · cases ended
    · exact .left _ _ shorter
  · rcases isFurther_of_turn _turned with ended | ⟨inside, later, _⟩
    · cases ended
    · exact .right _ (by show _ - next.pos < _; omega)

/-- The reading of a line, and of the texts inside its constructs, comes to a state at the head of a
turn, over a text and under a style. -/
inductive Reached (line : List Char) : List Char → Style → Scan → Prop
  /-- The line is read from its front, under no style. -/
  | start : Reached line line Style.plain {}
  /-- A turn went on. -/
  | onward {text : List Char} {style : Style} {s next : Scan} (head : Reached line text style s)
      (turned : s.turn text style = some (.goesOn next)) : Reached line text style next
  /-- A turn met a text inside. -/
  | inward {text inside : List Char} {style inner : Style} {s next : Scan}
      (head : Reached line text style s)
      (turned : s.turn text style = some (.nested inner inside next)) :
      Reached line inside inner {}
  /-- The text inside has been read. -/
  | outward {text inside : List Char} {style inner : Style} {s next : Scan} {runs : List Run}
      (head : Reached line text style s)
      (turned : s.turn text style = some (.nested inner inside next))
      (read : run inside inner {} = some runs) :
      Reached line text style { next with runs := next.runs ++ runs }

end Scan

end WikiPress

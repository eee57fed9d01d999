import WikiPress.Proofs.Inline.Scan

/-!
# Reading in place cuts between characters

All positions that a scan of a line comes to are between characters, in order and inside the line,
so that no slice fails (`Scan.runs_in_place`). From such a state each turn leads to another one from
which the same runs come (`Scan.leads_of_means`), and these are the runs that the line has when it
is taken apart.
-/

namespace WikiPress

/-- Brackets are found among the bytes of a line where its text is cut at them. -/
theorem bracketsAt?_bytes (front text : List Char) :
    bracketsAt? (Text.bytes (front ++ text)) (Text.bytes front).length =
      some ((Text.cutPair ']' ']' text).map fun cut => (Text.bytes (front ++ cut.1)).length) := by
  induction size : text.length using Nat.strongRecOn generalizing front text with
  | ind size ih =>
    have small : ']'.toNat < 128 := by decide
    by_cases member : ']' ∈ text
    · obtain ⟨plain, more, rfl, absent⟩ := List.eq_append_cons_of_mem member
      have shape : front ++ (plain ++ ']' :: more) = front ++ plain ++ [']'] ++ more := by simp
      have length := Text.length_bytes_concat small (front ++ plain)
      have sought := Text.seek?_bytes small absent front more
      have follows := Text.getElem?_bytes_behind small (front ++ plain ++ [']']) more
      rw [← shape, length] at follows
      rw [bracketsAt?, Text.cutPair_skip absent, Text.cutPair_first]
      split
      · next failed => rw [sought] at failed; cases failed
      · next missing => rw [sought] at missing; cases missing
      · next here found =>
        obtain rfl := Option.some.inj (Option.some.inj (sought.symm.trans found))
        by_cases second : more.head? = some ']'
        · rw [if_pos (follows.2 second), if_pos second]
          simp
        · have rest := ih more.length (by rw [← size]; simp; omega)
            (front ++ plain ++ [']']) more rfl
          rw [← shape, length] at rest
          rw [if_neg (mt follows.1 second), if_neg second, rest, Option.map_map, Option.map_map]
          simp [Function.comp_def]
    · have missing := Text.seek?_bytes_none small member front
      have uncut : Text.cutPair ']' ']' text = none := by
        rw [← List.append_nil text, Text.cutPair_skip member]
        rfl
      rw [bracketsAt?, uncut]
      split
      · next failed => rw [missing] at failed; cases failed
      · rfl
      · next found => rw [missing] at found; cases found

/-- All characters that open something are of one byte. -/
theorem toNat_lt_of_mem_openingChars : ∀ c ∈ openingChars, c.toNat < 128 := by
  simp [openingChars]

/-- A colour ends at the first bar, and is none where other characters stand in front of that. -/
theorem Construct.colored?_eq (text : List Char) : colored? text =
    match Text.cut '|' text with
    | none => none
    | some (name, rest) =>
      if name = [] ∨ name.all isColorChar = false then none
      else match Text.cut '}' rest with
        | none => none
        | some (inside, behind) =>
          if inside = [] then none
          else some (.styled { color := some (String.ofList name) } inside, behind) := by
  have whole := List.takeWhile_append_dropWhile (p := isColorChar) (l := text)
  have bar : isColorChar '|' = false := by decide
  -- a bar behind colour characters only is the first one
  have first (rest : List Char) (dropped : text.dropWhile isColorChar = '|' :: rest) :
      Text.cut '|' text = some (text.takeWhile isColorChar, rest) := by
    rw [dropped] at whole
    refine Text.cut_eq_some_iff.2 ⟨whole.symm, fun member => ?_⟩
    rw [List.mem_takeWhile_imp member] at bar
    cases bar
  cases found : Text.cut '|' text with
  | none =>
    simp only [colored?]
    split
    · rfl
    · split
      · next rest dropped => rw [first rest dropped] at found; cases found
      · rfl
  | some cut =>
    obtain ⟨name, rest⟩ := cut
    obtain ⟨rfl, absent⟩ := Text.cut_eq_some_iff.1 found
    by_cases valid : ∀ c ∈ name, isColorChar c = true
    · have all : name.all isColorChar = true := List.all_eq_true.2 valid
      have uncolored : ¬ isColorChar '|' = true := by simp [bar]
      simp only [colored?, List.takeWhile_append_of_pos valid, List.dropWhile_append_of_pos valid,
        List.takeWhile_cons_of_neg uncolored, List.dropWhile_cons_of_neg uncolored, List.append_nil]
      exact if_congr (by simp [all]) rfl rfl
    · have other : name.all isColorChar = false := by
        rw [← Bool.not_eq_true, List.all_eq_true]
        exact valid
      simp only [colored?, other, or_true, if_true]
      split
      · rfl
      · split
        · next more dropped =>
          rw [first more dropped] at found
          obtain ⟨same, _⟩ := Prod.mk.inj (Option.some.inj found)
          exact absurd (fun c member => List.mem_takeWhile_imp (same ▸ member)) valid
        · rfl

namespace Scan

/-- The positions of a state are between characters of a line, in order and inside it. -/
structure IsAligned (text : List Char) (s : Scan) : Prop where
  ordered : s.start ≤ s.pos
  inside : s.pos ≤ (Text.bytes text).length
  start : Text.IsBoundary text s.start
  pos : Text.IsBoundary text s.pos

/-- A state between characters of a line: the text in front of the literal text that has not been
taken, that literal text, and the rest of the line. -/
structure At (text : List Char) (s : Scan) (front held rest : List Char) : Prop where
  text : text = front ++ (held ++ rest)
  start : s.start = (Text.bytes front).length
  pos : s.pos = (Text.bytes (front ++ held)).length

/-- The runs that come from a state between characters: those in front and those of the rest, where
the literal text is held that is pending or has not been taken. -/
def Means (text : List Char) (style : Style) (s : Scan) (runs : List Run) : Prop :=
  ∃ front held rest, s.At text front held rest ∧
    runs = s.runs ++ runsFrom style (s.pending ++ held).reverse rest

/-- What a turn leads to gives the runs that come from the state in front of it. -/
def Leads (text : List Char) (style : Style) (s : Scan) (runs : List Run) : Turn → Prop
  | .ended => s.finish text style = some runs
  | .goesOn next => next.Means text style runs
  | .nested inner inside next =>
    ({ next with runs := next.runs ++ runsFrom inner [] inside } : Scan).Means text style runs

/-- What is read at a character does not fail: it leads to the same runs, or the character is
literal. -/
def ReadsAt (text : List Char) (style : Style) (s : Scan) (held : List Char) (c : Char)
    (more : List Char) (found : Option (Option Turn)) : Prop :=
  ∃ read, found = some read ∧ match read with
    | none => ∀ held, runsFrom style held (c :: more) = runsFrom style (c :: held) more
    | some led =>
      s.Leads text style (s.runs ++ runsFrom style (s.pending ++ held).reverse (c :: more)) led

section States

variable {text front held rest : List Char} {style : Style} {s : Scan}

/-- At the front of a line. -/
theorem at_start (text : List Char) : ({} : Scan).At text [] [] text := ⟨rfl, rfl, rfl⟩

/-- From the front of a text its runs come. -/
theorem means_start (text : List Char) (style : Style) :
    ({} : Scan).Means text style (runsFrom style [] text) :=
  ⟨[], [], text, at_start text, rfl⟩

/-- Between characters the positions are aligned. -/
theorem At.isAligned (here : s.At text front held rest) : s.IsAligned text := by
  obtain ⟨rfl, starts, stands⟩ := here
  refine ⟨?_, ?_, ⟨front, held ++ rest, rfl, starts.symm⟩,
    ⟨front ++ held, rest, (List.append_assoc ..).symm, stands.symm⟩⟩
  · rw [starts, stands, Text.length_bytes_append]
    exact Nat.le_add_right _ _
  · rw [stands, ← List.append_assoc, Text.length_bytes_append _ rest]
    exact Nat.le_add_right _ _

/-- Behind more literal text. -/
theorem At.forward (plain : List Char) (here : s.At text front held (plain ++ rest)) {n : Nat}
    (position : n = (Text.bytes (front ++ (held ++ plain))).length) :
    ({ s with pos := n } : Scan).At text front (held ++ plain) rest :=
  ⟨by rw [here.text, List.append_assoc held], here.start, position⟩

/-- Behind the rest of the line. -/
theorem At.at_end (here : s.At text front held rest) :
    ({ s with pos := (Text.bytes text).length } : Scan).At text front (held ++ rest) [] :=
  At.forward rest (by rwa [List.append_nil]) (by rw [here.text])

/-- Between characters the literal text can be taken. -/
theorem At.flush_eq (here : s.At text front held rest) :
    s.flush text = some { s with start := s.pos, pending := s.pending ++ held } := by
  unfold flush
  by_cases empty : held = []
  · have same : s.start = s.pos := by rw [here.start, here.pos, empty, List.append_nil]
    rw [if_neg (Nat.not_lt.2 (Nat.le_of_eq same.symm)), empty, List.append_nil]
  · have behind : s.start < s.pos := by
      rw [here.start, here.pos]
      exact Text.length_bytes_lt_iff.2 empty
    have sliced := Text.slice?_append front held rest
    rw [← here.text, ← here.start, ← here.pos] at sliced
    rw [if_pos behind, sliced]
    rfl

/-- The next character that opens something is found behind text in which nothing does, or there is
none. -/
theorem At.opening?_cases (here : s.At text front held rest) :
    (s.opening? text = some none ∧ ∀ c ∈ rest, c ∉ openingChars) ∨
      ∃ plain c more, rest = plain ++ c :: more ∧ (∀ d ∈ plain, d ∉ openingChars) ∧
        c ∈ openingChars ∧
          s.opening? text = some (some (Text.bytes (front ++ (held ++ plain))).length) := by
  have small := toNat_lt_of_mem_openingChars
  have whole : text = front ++ held ++ rest := by rw [here.text]; simp
  rw [opening?, here.pos, whole]
  cases found : rest.find? (· ∈ openingChars) with
  | none =>
    have plain : ∀ c ∈ rest, c ∉ openingChars := by simpa using found
    exact .inl ⟨Text.seekAny?_bytes_none small plain _, plain⟩
  | some c =>
    obtain ⟨opens, plain, more, rfl, before⟩ := List.find?_eq_some_iff_append.1 found
    have absent : ∀ d ∈ plain, d ∉ openingChars := by simpa using before
    have member : c ∈ openingChars := by simpa using opens
    have sought := Text.seekAny?_bytes small absent member (front ++ held) more
    rw [List.append_assoc front held plain] at sought
    exact .inr ⟨plain, c, more, rfl, absent, member, sought⟩

/-- Where nothing opens in the rest, the line is read to its end. -/
theorem At.finish_eq (here : s.At text front held rest) (plain : ∀ c ∈ rest, c ∉ openingChars) :
    s.finish text style = some (s.runs ++ runsFrom style (s.pending ++ held).reverse rest) := by
  have literal := runsFrom_unopened style (s.pending ++ held).reverse plain []
  rw [List.append_nil, ← List.reverse_append, List.append_assoc, runsFrom] at literal
  rw [finish, here.at_end.flush_eq, literal]
  rfl

/-- The line around a text that stands at the position of a state. -/
theorem At.text_eq (own : List Char) {behind : List Char}
    (here : s.At text front held (own ++ behind)) : text = front ++ (held ++ own) ++ behind := by
  rw [here.text]
  simp

/-- The position behind a text that stands at the position of a state. -/
theorem At.add_length (own : List Char) {behind : List Char}
    (here : s.At text front held (own ++ behind)) :
    s.pos + (Text.bytes own).length = (Text.bytes (front ++ (held ++ own))).length := by
  rw [here.pos, ← List.append_assoc, Text.length_bytes_append _ own]

/-- The position behind a character of one byte that stands at the position of a state. -/
theorem At.succ_pos {c : Char} {more : List Char} (here : s.At text front held (c :: more))
    (small : c.toNat < 128) : s.pos + 1 = (Text.bytes (front ++ (held ++ [c]))).length := by
  rw [here.pos, ← List.append_assoc, Text.length_bytes_concat small]

/-- The character behind the one at the position of a state is looked at by its byte. -/
theorem At.follows_iff {c d : Char} {more : List Char} (small : c.toNat < 128 ∧ d.toNat < 128)
    (here : s.At text front held (c :: more)) :
    (Text.bytes text)[s.pos + 1]? = some (Text.byte d) ↔ more.head? = some d := by
  rw [here.succ_pos small.1, here.text_eq [c]]
  exact Text.getElem?_bytes_behind small.2 _ more

/-- The character behind an opening at the position of a state is looked at by its byte. -/
theorem At.getElem?_behind {mark : Char} {more : List Char} (opening : List Char)
    (small : mark.toNat < 128) (here : s.At text front held (opening ++ more)) :
    (Text.bytes text)[s.pos + (Text.bytes opening).length]? = some (Text.byte mark) ↔
      more.head? = some mark := by
  rw [here.add_length opening, here.text_eq opening]
  exact Text.getElem?_bytes_behind small _ more

/-- A line ends with an opening at the position of a state where nothing is behind that. -/
theorem At.length_le_iff {more : List Char} (opening : List Char)
    (here : s.At text front held (opening ++ more)) :
    (Text.bytes text).length ≤ s.pos + (Text.bytes opening).length ↔ more = [] := by
  rw [here.add_length opening, here.text_eq opening, ← Nat.not_lt, Text.length_bytes_lt_iff,
    not_not]

/-- The text between an opening at the position of a state and what follows can be taken. -/
theorem At.slice?_eq (opening : List Char) {inside behind : List Char}
    (here : s.At text front held (opening ++ (inside ++ behind))) :
    Text.slice? (s.pos + (Text.bytes opening).length)
      (Text.bytes (front ++ (held ++ opening) ++ inside)).length text = some inside := by
  have sliced := Text.slice?_append (front ++ (held ++ opening)) inside behind
  rwa [← here.text_eq opening, ← here.add_length opening] at sliced

/-- A mark is found behind an opening at the position of a state where the text behind that is cut
at it. -/
theorem At.seek?_eq {mark : Char} (opening : List Char) (small : mark.toNat < 128)
    {more : List Char} (here : s.At text front held (opening ++ more)) :
    Text.seek? (Text.byte mark) (s.pos + (Text.bytes opening).length) (Text.bytes text) =
      some ((Text.cut mark more).map fun cut =>
        (Text.bytes (front ++ (held ++ opening) ++ cut.1)).length) := by
  rw [here.add_length opening, here.text_eq opening]
  cases found : Text.cut mark more with
  | none => exact Text.seek?_bytes_none small (Text.cut_eq_none_iff.1 found) _
  | some parts =>
    obtain ⟨before, behind⟩ := parts
    obtain ⟨rfl, absent⟩ := Text.cut_eq_some_iff.1 found
    exact Text.seek?_bytes small absent _ behind

/-- Closing brackets are found behind an opening at the position of a state where the text behind
that is cut at them. -/
theorem At.bracketsAt?_eq (opening : List Char) {more : List Char}
    (here : s.At text front held (opening ++ more)) :
    bracketsAt? (Text.bytes text) (s.pos + (Text.bytes opening).length) =
      some ((Text.cutPair ']' ']' more).map fun cut =>
        (Text.bytes (front ++ (held ++ opening) ++ cut.1)).length) := by
  rw [here.add_length opening, here.text_eq opening]
  exact bracketsAt?_bytes _ more

/-- A marked text is closed behind an opening at the position of a state where the text behind that
is cut. -/
theorem At.closingAt?_eq (m : Marker) {opening more : List Char}
    (here : s.At text front held (opening ++ more)) :
    Marker.closingAt? (Text.bytes m.sigil) (Text.bytes text)
        (s.pos + (Text.bytes opening).length) (s.pos + (Text.bytes opening).length) =
      some ((m.closing? more).map fun cut =>
        (Text.bytes (front ++ (held ++ opening) ++ cut.1)).length) := by
  rw [here.add_length opening, here.text_eq opening]
  exact Marker.closingAt?_bytes m _ more

/-- Behind a construct its runs are in front, and nothing is held. -/
theorem At.means_read {behind : List Char} {k : Construct} {next : Scan}
    (here : s.At text front held rest) (read : Construct.read? rest = some (k, behind))
    (own : List Char) (shape : rest = own ++ behind)
    (stands : next.pos = (Text.bytes (front ++ (held ++ own))).length)
    (starts : next.start = next.pos) (taken : next.pending = [])
    (runs : next.runs = s.runs ++ literalRun style (s.pending ++ held).reverse ++
      (k.run style ++ runsFrom (k.innerStyle style) [] k.inside)) :
    next.Means text style (s.runs ++ runsFrom style (s.pending ++ held).reverse rest) := by
  refine ⟨front ++ (held ++ own), [], behind, ⟨?_, starts.trans stands, ?_⟩, ?_⟩
  · rw [here.text, shape]
    simp
  · rw [stands, List.append_nil]
  · rw [runsFrom_read read, runs, taken]
    simp

/-- A text between an opening and a closing is read under its style, and then the line behind the
closing. -/
theorem At.leads_styled {added : Style} {inside behind : List Char}
    (here : s.At text front held rest)
    (read : Construct.read? rest = some (.styled added inside, behind))
    (opening closing : List Char) (shape : rest = opening ++ (inside ++ (closing ++ behind))) :
    s.Leads text style (s.runs ++ runsFrom style (s.pending ++ held).reverse rest)
      (.nested (style.merge added) inside
        ((emit style { s with start := s.pos, pending := s.pending ++ held }).resume
          ((Text.bytes (front ++ (held ++ opening) ++ inside)).length +
            (Text.bytes closing).length))) := by
  refine here.means_read read (opening ++ (inside ++ closing)) (by rw [shape]; simp) ?_ rfl rfl rfl
  show _ + _ = _
  rw [← Text.length_bytes_append]
  simp

end States

section Readers

variable {text front held more : List Char} {style : Style} {s : Scan} {c : Char}

/-- A character that is no backslash and begins no construct is literal. -/
theorem readsAt_none (unescaped : c ≠ '\\') (unread : Construct.read? (c :: more) = none) :
    ReadsAt text style s held c more (some none) :=
  ⟨none, rfl, fun _ => runsFrom_unread (fun _ _ same => absurd same unescaped) unread⟩

/-- A backslash makes the next character literal, or is literal at the end. -/
theorem readsAt_escape (here : s.At text front held ('\\' :: more)) :
    ReadsAt text style s held '\\' more (s.escape text) := by
  have opened := here.succ_pos (by decide)
  have behind : Text.slice? (s.pos + 1) (Text.bytes text).length text = some more :=
    Text.slice?_eq_some_iff.2 ⟨front ++ (held ++ ['\\']), [], by rw [here.text]; simp,
      opened.symm, by rw [here.text]; simp⟩
  simp only [escape, behind, here.flush_eq, Option.bind_eq_bind, Option.bind_some]
  cases more with
  | nil => exact ⟨none, rfl, fun held => runsFrom_unread (by simp) rfl⟩
  | cons d rest =>
    refine ⟨_, rfl, front ++ (held ++ ['\\']), [d], rest, ⟨?_, opened, ?_⟩, ?_⟩
    · rw [here.text]
      simp
    · rw [Text.length_bytes_append, ← opened, Text.length_bytes_singleton]
    · rw [runsFrom]
      simp

/-- A marker that is the only one that can open here opens a text that ends where it closes. -/
theorem readsAt_span (m : Marker) (here : s.At text front held (c :: more)) (unescaped : c ≠ '\\')
    (opens : ∀ n rest, Marker.opening? (c :: more) = some (n, rest) ↔
      n = m ∧ c :: more = m.sigil ++ rest)
    (marked : Construct.read? (c :: more) = (Marker.enclosed? (c :: more)).map fun found =>
      (.styled found.1.style found.2.1, found.2.2)) :
    ReadsAt text style s held c more (s.span text style m) := by
  have rests : Text.restAt? s.pos (Text.bytes text) = some (Text.bytes (c :: more)) := by
    rw [here.pos, here.text, ← List.append_assoc, Text.restAt?_bytes]
  simp only [span, rests, Option.bind_eq_bind, Option.bind_some,
    Text.isPrefixOf_bytes m.toNat_lt_of_mem_sigil]
  by_cases fits : m.sigil <+: c :: more
  · obtain ⟨rest, shape⟩ := fits
    have begun : s.At text front held (m.sigil ++ rest) := by rwa [shape]
    have opened := (opens m rest).2 ⟨rfl, shape.symm⟩
    have spaced := begun.getElem?_behind m.sigil (by decide : ' '.toNat < 128)
    rw [if_pos ⟨rest, shape⟩]
    simp only [begun.length_le_iff, spaced, begun.closingAt?_eq m]
    -- a marker at the end of the line or in front of a space opens nothing
    by_cases shut : rest = [] ∨ rest.head? = some ' '
    · rw [if_pos shut]
      refine readsAt_none unescaped ?_
      rw [marked, Marker.enclosed?, opened]
      rcases shut with rfl | space
      · rfl
      · obtain ⟨others, rfl⟩ := List.head?_eq_some_iff.1 space
        rfl
    · rw [if_neg shut]
      obtain ⟨filled, visible⟩ := not_or.1 shut
      obtain ⟨d, others, rfl⟩ := List.exists_cons_of_ne_nil filled
      rw [List.head?_cons, Option.some.injEq] at visible
      rw [Marker.enclosed?_opened opened visible, Option.map_map] at marked
      cases closed : m.closing? (d :: others) with
      | none =>
        rw [closed] at marked
        exact readsAt_none unescaped marked
      | some cut =>
        obtain ⟨content, behind⟩ := cut
        rw [closed] at marked
        have parts := Marker.closing?_eq closed
        rw [List.append_assoc] at parts
        rw [parts] at begun
        have sliced := begun.slice?_eq m.sigil
        simp only [Option.map_some, Option.bind_some, here.flush_eq, sliced]
        exact ⟨_, rfl, here.leads_styled marked m.sigil m.sigil (by rw [← shape, parts])⟩
  · have unopened : Marker.opening? (c :: more) = none := by
      by_contra opened
      obtain ⟨⟨n, rest⟩, found⟩ := Option.ne_none_iff_exists'.1 opened
      exact fits ⟨rest, ((opens n rest).1 found).2.symm⟩
    rw [if_neg fits]
    refine readsAt_none unescaped ?_
    rw [marked, Marker.enclosed?, unopened]
    rfl

/-- Two brackets are a link or an image up to the next two. -/
theorem readsAt_link (here : s.At text front held ('[' :: more)) :
    ReadsAt text style s held '[' more (s.link text style) := by
  have second := here.follows_iff (d := '[') (by decide)
  simp only [link, second]
  by_cases twice : more.head? = some '['
  · obtain ⟨rest, rfl⟩ := List.head?_eq_some_iff.1 twice
    have closing : bracketsAt? (Text.bytes text) (s.pos + 2) = _ := here.bracketsAt?_eq ['[', '[']
    have read : Construct.read? ('[' :: '[' :: rest) = Construct.bracketed? rest := rfl
    rw [if_pos twice, closing]
    unfold Construct.bracketed? at read
    cases cut : Text.cutPair ']' ']' rest with
    | none =>
      rw [cut] at read
      exact readsAt_none (by decide) read
    | some parts =>
      obtain ⟨content, behind⟩ := parts
      rw [cut] at read
      have parts := Text.cutPair_eq cut
      have sliced : Text.slice? (s.pos + 2)
          (Text.bytes (front ++ (held ++ ['[', '[']) ++ content)).length text = some content := by
        rw [parts] at here
        exact here.slice?_eq ['[', '[']
      simp only [Option.map_some, Option.bind_eq_bind, Option.bind_some, sliced, here.flush_eq]
      by_cases blank : Text.trim content = []
      · rw [if_pos blank]
        simp only [blank, if_true] at read
        exact readsAt_none (by decide) read
      · rw [if_neg blank]
        simp only [blank, if_false] at read
        refine ⟨_, rfl, here.means_read read ('[' :: '[' :: content ++ [']', ']'])
          (by rw [parts]; simp) ?_ rfl rfl ?_⟩
        · show _ + 2 = _
          have closed := Text.length_bytes_append (front ++ (held ++ ['[', '[']) ++ content)
            [']', ']']
          have two : (Text.bytes [']', ']']).length = 2 := rfl
          rw [← two, ← closed]
          simp
        · rw [Construct.inside_ofBrackets, runsFrom]
          simp [emit, literalRun]
  · rw [if_neg twice]
    refine readsAt_none (by decide) ?_
    unfold Construct.read?
    split
    · next shape => simp_all
    · next shape => simp_all
    · rfl

/-- A brace opens a coloured text up to the next one. -/
theorem readsAt_color (here : s.At text front held ('{' :: more)) :
    ReadsAt text style s held '{' more (s.color text style) := by
  have small : '|'.toNat < 128 ∧ '}'.toNat < 128 := by decide
  have read : Construct.read? ('{' :: more) = Construct.colored? more := rfl
  have bar : Text.seek? (Text.byte '|') (s.pos + 1) (Text.bytes text) = _ :=
    here.seek?_eq ['{'] small.1
  rw [Construct.colored?_eq] at read
  unfold color
  cases barred : Text.cut '|' more with
  | none =>
    rw [barred] at bar read
    simp only [bar, Option.map_none, Option.bind_eq_bind, Option.bind_some]
    exact readsAt_none (by decide) read
  | some parts =>
    obtain ⟨name, rest⟩ := parts
    obtain rfl := Text.cut_eq barred
    have named : Text.slice? (s.pos + 1)
        (Text.bytes (front ++ (held ++ ['{']) ++ name)).length text = some name :=
      here.slice?_eq ['{']
    rw [barred] at bar read
    simp only [bar, named, Option.map_some, Option.bind_eq_bind, Option.bind_some]
    by_cases invalid : name = [] ∨ name.all Construct.isColorChar = false
    · rw [if_pos invalid]
      simp only [invalid, if_true] at read
      exact readsAt_none (by decide) read
    · rw [if_neg invalid]
      simp only [invalid, if_false] at read
      -- from here on, everything up to the bar is the opening
      have begun : s.At text front held ('{' :: (name ++ ['|']) ++ rest) := by simpa using here
      have opened : (Text.bytes (front ++ (held ++ ['{']) ++ name)).length + 1 =
          s.pos + (Text.bytes ('{' :: (name ++ ['|']))).length := by
        rw [begun.add_length, ← Text.length_bytes_concat small.1]
        simp
      have brace := begun.seek?_eq _ small.2
      rw [← opened] at brace
      cases closed : Text.cut '}' rest with
      | none =>
        rw [closed] at brace read
        simp only [brace, Option.map_none, Option.bind_some]
        exact readsAt_none (by decide) read
      | some parts =>
        obtain ⟨inside, behind⟩ := parts
        obtain rfl := Text.cut_eq closed
        have sliced := begun.slice?_eq _
        rw [← opened] at sliced
        have unfilled : (Text.bytes (front ++ (held ++ '{' :: (name ++ ['|'])) ++ inside)).length =
            (Text.bytes (front ++ (held ++ ['{']) ++ name)).length + 1 ↔ inside = [] := by
          rw [opened, begun.add_length, Text.length_bytes_append, Nat.add_eq_left,
            List.length_eq_zero_iff, Text.bytes_eq_nil_iff]
        rw [closed] at brace read
        simp only [brace, Option.map_some, Option.bind_some, unfilled]
        by_cases empty : inside = []
        · subst empty
          exact readsAt_none (by decide) read
        · rw [if_neg empty]
          simp only [empty, if_false] at read
          simp only [here.flush_eq, sliced, Option.bind_some]
          exact ⟨_, rfl, here.leads_styled read ('{' :: (name ++ ['|'])) ['}'] (by simp)⟩

/-- A marker is read at its character, where two stars are not one and another. -/
theorem readsAt_marker {m : Marker} (here : s.At text front held (m.char :: more))
    (stars : m.char = '*' → (m = .bold ↔ more.head? = some '*')) :
    ReadsAt text style s held m.char more (s.span text style m) := by
  refine readsAt_span m here (by cases m <;> decide) (fun n rest => ?_) ?_
  · rw [Marker.opening?_iff]
    constructor
    · rintro ⟨shape, alone⟩
      have same : n.char = m.char := by
        cases n <;> exact (List.cons.inj shape).1.symm
      cases m <;> cases n <;> simp_all [Marker.char, Marker.sigil, Marker.isDoubled]
    · rintro ⟨rfl, shape⟩
      refine ⟨shape, fun italic => ?_⟩
      subst italic
      obtain rfl : more = rest := (List.cons.inj shape).2
      exact fun twice => absurd ((stars rfl).2 twice) (by decide)
  · unfold Construct.read?
    split
    · cases m <;> simp_all [Marker.char]
    · cases m <;> simp_all [Marker.char]
    · rfl

/-- Whatever opens at a character is read. -/
theorem readsAt_construct (style : Style) (here : s.At text front held (c :: more))
    (opens : c ∈ openingChars) :
    ReadsAt text style s held c more (s.construct text style) := by
  have small := toNat_lt_of_mem_openingChars c opens
  have stands : (Text.bytes text)[s.pos]? = some (Text.byte c) :=
    (At.getElem?_behind [] small here).2 rfl
  have stars := here.follows_iff (d := '*') ⟨small, by decide⟩
  simp only [construct, stands, stars]
  simp only [openingChars, List.mem_cons, List.not_mem_nil, or_false] at opens
  rcases opens with rfl | rfl | rfl | rfl | rfl | rfl | rfl | rfl
  · rw [if_neg (by decide), if_pos rfl]
    by_cases twice : more.head? = some '*'
    · rw [if_pos twice]
      exact readsAt_marker (m := .bold) here fun _ => iff_of_true rfl twice
    · rw [if_neg twice]
      exact readsAt_marker (m := .italic) here fun _ => iff_of_false (by decide) twice
  · exact readsAt_marker (m := .underline) here fun star => absurd star (by decide)
  · exact readsAt_marker (m := .sup) here fun star => absurd star (by decide)
  · exact readsAt_marker (m := .sub) here fun star => absurd star (by decide)
  · exact readsAt_marker (m := .strike) here fun star => absurd star (by decide)
  · exact readsAt_link here
  · exact readsAt_color here
  · exact readsAt_escape here

/-- Each turn from between characters leads to the same runs. -/
theorem leads_of_means {runs : List Run} (means : s.Means text style runs) :
    ∃ led, s.turn text style = some led ∧ s.Leads text style runs led := by
  obtain ⟨front, held, rest, here, rfl⟩ := means
  unfold turn
  by_cases ended : (Text.bytes text).length ≤ s.pos
  · obtain rfl := (At.length_le_iff [] here).1 ended
    exact ⟨.ended, if_pos ended, here.finish_eq (by simp)⟩
  · rw [if_neg ended]
    rcases here.opening?_cases with ⟨missing, plain⟩ | ⟨plain, c, more, rfl, absent, opens, found⟩
    · exact ⟨.ended, by rw [missing]; rfl, here.finish_eq plain⟩
    · have there := here.forward plain rfl
      have literal := runsFrom_unopened style (s.pending ++ held).reverse absent (c :: more)
      rw [← List.reverse_append, List.append_assoc] at literal
      obtain ⟨read?, read, leads⟩ := readsAt_construct style there opens
      simp only [found, read, Option.bind_eq_bind, Option.bind_some, literal]
      cases read? with
      | none =>
        have behind := there.succ_pos (toNat_lt_of_mem_openingChars c opens)
        refine ⟨_, rfl, front, held ++ plain ++ [c], more, there.forward [c] behind, ?_⟩
        rw [leads]
        simp
      | some led =>
        refine ⟨led, rfl, ?_⟩
        cases led <;> exact leads

/-- A line is read to its end from between characters, with the runs that come from there. -/
theorem run_of_means {runs : List Run} (means : s.Means text style runs) :
    s.run text style = some runs := by
  fun_induction run text style s generalizing runs with
  | case1 text style s failed =>
    obtain ⟨led, turned, _⟩ := leads_of_means means
    rw [failed] at turned
    cases turned
  | case2 text style s ended =>
    obtain ⟨led, turned, leads⟩ := leads_of_means means
    obtain rfl := Option.some.inj (ended.symm.trans turned)
    exact leads
  | case3 text style s following turned ih =>
    obtain ⟨led, turned', leads⟩ := leads_of_means means
    obtain rfl := Option.some.inj (turned.symm.trans turned')
    exact ih leads
  | case4 text style s inner inside following turned failed ih =>
    have read := ih (means_start inside inner)
    rw [failed] at read
    cases read
  | case5 text style s inner inside following turned within read ih1 ih2 =>
    obtain ⟨led, turned', leads⟩ := leads_of_means means
    obtain rfl := Option.some.inj (turned.symm.trans turned')
    obtain rfl := Option.some.inj (read.symm.trans (ih1 (means_start inside inner)))
    exact ih2 leads

/-- Every state that the reading comes to is between characters. -/
theorem Reached.means {line : List Char} (reached : Reached line text style s) :
    ∃ runs, s.Means text style runs := by
  induction reached with
  | start => exact ⟨_, means_start line Style.plain⟩
  | onward _ turned ih =>
    obtain ⟨runs, means⟩ := ih
    obtain ⟨led, turned', leads⟩ := leads_of_means means
    obtain rfl := Option.some.inj (turned.symm.trans turned')
    exact ⟨runs, leads⟩
  | @inward _ inside _ inner => exact ⟨_, means_start inside inner⟩
  | @outward _ inside _ inner _ _ _ _ turned read ih =>
    obtain ⟨runs, means⟩ := ih
    obtain ⟨led, turned', leads⟩ := leads_of_means means
    obtain rfl := Option.some.inj (turned.symm.trans turned')
    have within := run_of_means (means_start inside inner)
    obtain rfl := Option.some.inj (read.symm.trans within)
    exact ⟨runs, leads⟩

end Readers

/-- A line is read in place without failing, and its runs are those of the line. Slices are taken
between boundaries in order and nowhere else. At the head of each turn, in the line and in the texts
inside its constructs, the position where literal text begins and the position that is read next are
boundaries in order, and still are where the next character opens something, from which all slices
of the turn are taken, and at the end. A turn that does not end the reading leads further behind,
and a text inside has fewer bytes. -/
theorem runs_in_place (line : List Char) :
    run line Style.plain {} = some (runsOf line) ∧
    (∀ (text : List Char) (start stop : Nat), (Text.slice? start stop text).isSome = true ↔
      start ≤ stop ∧ Text.IsBoundary text start ∧ Text.IsBoundary text stop) ∧
    ∀ text style s, Reached line text style s →
      s.IsAligned text ∧
      (∀ here, s.opening? text = some (some here) →
        s.pos ≤ here ∧ ({ s with pos := here } : Scan).IsAligned text) ∧
      ({ s with pos := (Text.bytes text).length } : Scan).IsAligned text ∧
      (∃ led, s.turn text style = some led ∧
        (led = .ended ∨ s.pos < (Text.bytes text).length ∧ IsFurther text s.pos led)) ∧
      ∃ runs, s.run text style = some runs := by
  refine ⟨run_of_means (means_start line Style.plain), fun _ _ _ => Text.isSome_slice?_iff, ?_⟩
  intro text style s reached
  obtain ⟨runs, means⟩ := reached.means
  obtain ⟨led, turned, _⟩ := leads_of_means means
  have read := run_of_means means
  obtain ⟨front, held, rest, here, rfl⟩ := means
  refine ⟨here.isAligned, fun n sought => ?_, here.at_end.isAligned,
    ⟨led, turned, isFurther_of_turn turned⟩, _, read⟩
  rcases here.opening?_cases with ⟨missing, _⟩ | ⟨plain, c, more, rfl, _, _, found⟩
  · rw [missing] at sought
    cases sought
  · obtain rfl := Option.some.inj (Option.some.inj (found.symm.trans sought))
    exact ⟨Text.le_of_seekAny? found, (here.forward plain rfl).isAligned⟩

/-- Behind a letter of two bytes, a colour around another one. -/
theorem runs_in_place_sample :
    let line := "é{a|ü}".toList
    Reached line ['ü'] { color := some "a" } {} ∧
      ({ pos := 2 } : Scan).IsAligned ['ü'] ∧
      ∃ runs, run ['ü'] { color := some "a" } {} = some runs := by
  intro line
  have entered : turn line Style.plain {} = some (.nested { color := some "a" } ['ü']
      { pos := 8, start := 8, runs := [{ text := "é" }] }) := by
    rfl
  have reached : Reached line ['ü'] { color := some "a" } {} := .inward .start entered
  obtain ⟨_, _, last, _, read⟩ := (runs_in_place line).2.2 _ _ _ reached
  exact ⟨reached, last, read⟩

end Scan

end WikiPress

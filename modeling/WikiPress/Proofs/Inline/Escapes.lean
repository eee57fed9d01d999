import WikiPress.Proofs.Inline.Backslashes
import WikiPress.Proofs.Inline.Content
import WikiPress.Proofs.Source.Concatenation

/-!
# Escaped text inside markup

A backslash makes the character behind it literal, so a text with a backslash in front of every
character of markup comes out as it stands (`runsFrom_escaped`). The end of a marker, of a colour
and of a table cell is looked for without regard to backslashes, though, and an escaped character
can be taken for that end. `escaped_phrase_iff` says for each of the three which escaped texts stay
whole: a single mark, a closing brace and a bar end the text wherever it holds one, and a pair of
marks ends it one character early where the text ends with the mark.
-/

namespace WikiPress

/-- The characters of markup and of what stands in brackets and table rows. -/
def escapable : List Char := ']' :: '|' :: markupChars

/-- A text with a backslash in front of each character of markup. -/
def escaped (text : List Char) : List Char :=
  text.flatMap fun c => if c ∈ escapable then ['\\', c] else [c]

/-- The table row of one cell that holds an escaped text between spaces. -/
def escapedRow (text : List Char) : List Char := '|' :: (' ' :: escaped text ++ [' '] ++ ['|'])

/-- A text to be written inside markup: it is not empty, has no white space at its ends and stands
on one line. -/
structure IsPhrase (text : List Char) : Prop where
  filled : text ≠ []
  front : ∀ c ∈ text.head?, Text.isSpace c = false
  back : ∀ c ∈ text.getLast?, Text.isSpace c = false
  single : '\n' ∉ text

instance (text : List Char) : Decidable (IsPhrase text) :=
  have bare (ends : Option Char) : ends.all (!Text.isSpace ·) = true ↔
      ∀ c ∈ ends, Text.isSpace c = false := by
    cases ends <;> simp
  decidable_of_iff (text ≠ [] ∧ text.head?.all (!Text.isSpace ·) = true ∧
      text.getLast?.all (!Text.isSpace ·) = true ∧ '\n' ∉ text)
    ⟨fun ⟨filled, front, back, single⟩ => ⟨filled, (bare _).1 front, (bare _).1 back, single⟩,
      fun ⟨filled, front, back, single⟩ => ⟨filled, (bare _).2 front, (bare _).2 back, single⟩⟩

/-- Nothing in the escaped text ends the marker early: a single mark does not occur in the text, and
a pair of marks does not begin with the last character. -/
def Marker.Spares (m : Marker) (text : List Char) : Prop :=
  if m.isDoubled then text.getLast? ≠ some m.char else m.char ∉ text

instance (m : Marker) (text : List Char) : Decidable (m.Spares text) :=
  inferInstanceAs (Decidable (if m.isDoubled then _ else _))

/-- The text has a dash, and nothing but dashes, colons, spaces and tabs. -/
def IsDividing (text : List Char) : Prop :=
  '-' ∈ text ∧ ∀ c ∈ text, c = '-' ∨ c = ':' ∨ c = ' ' ∨ c = '\t'

section Written

variable {c mark : Char} {text rest : List Char}

/-- Texts are escaped one after the other. -/
theorem escaped_append (text more : List Char) :
    escaped (text ++ more) = escaped text ++ escaped more := List.flatMap_append

/-- A character of markup gets a backslash. -/
theorem escaped_special (special : c ∈ escapable) (rest : List Char) :
    escaped (c :: rest) = '\\' :: c :: escaped rest := by
  rw [escaped, List.flatMap_cons, if_pos special]
  rfl

/-- Any other character stays as it is. -/
theorem escaped_plain (plain : c ∉ escapable) (rest : List Char) :
    escaped (c :: rest) = c :: escaped rest := by
  rw [escaped, List.flatMap_cons, if_neg plain]
  rfl

/-- No character but the backslash is added. -/
theorem mem_escaped (other : c ≠ '\\') : c ∈ escaped text ↔ c ∈ text := by
  have own : ∀ d, c ∈ (if d ∈ escapable then ['\\', d] else [d]) ↔ c = d := by
    intro d
    split <;> simp [other]
  simp only [escaped, List.mem_flatMap, own, exists_eq_right']

/-- Each character of markup brings a backslash. -/
theorem backslash_mem_escaped (special : c ∈ escapable) (member : c ∈ text) :
    '\\' ∈ escaped text := by
  obtain ⟨front, back, rfl⟩ := List.append_of_mem member
  rw [escaped_append, escaped_special special]
  simp

/-- A text without characters of markup needs no backslashes. -/
theorem escaped_of_plain (plain : ∀ c ∈ text, c ∉ escapable) : escaped text = text := by
  induction text with
  | nil => rfl
  | cons c rest ih =>
    rw [List.forall_mem_cons] at plain
    rw [escaped_plain plain.1, ih plain.2]

/-- The last character stays the last one. -/
theorem getLast?_escaped (text : List Char) : (escaped text).getLast? = text.getLast? := by
  induction text with
  | nil => rfl
  | cons c rest ih =>
    by_cases special : c ∈ escapable
    · rw [escaped_special special, List.getLast?_cons, List.getLast?_cons, List.getLast?_cons, ih]
      rfl
    · rw [escaped_plain special, List.getLast?_cons, List.getLast?_cons, ih]

/-- An escaped text begins with a backslash, or with its own first character where that is not of
markup. -/
theorem exists_escaped_cons (c : Char) (rest : List Char) :
    ∃ first more, escaped (c :: rest) = first :: more ∧
      (first = '\\' ∨ first = c ∧ c ∉ escapable) := by
  by_cases special : c ∈ escapable
  · exact ⟨'\\', _, escaped_special special rest, .inl rfl⟩
  · exact ⟨c, _, escaped_plain special rest, .inr ⟨rfl, special⟩⟩

/-- No mark comes first in an escaped text. -/
theorem head?_escaped_append (special : mark ∈ escapable) (other : mark ≠ '\\')
    (behind : text = [] → rest.head? ≠ some mark) :
    (escaped text ++ rest).head? ≠ some mark := by
  cases text with
  | nil => exact behind rfl
  | cons c more =>
    obtain ⟨first, tail, shape, escape | ⟨rfl, plain⟩⟩ := exists_escaped_cons c more
    · rw [shape, escape]
      exact fun same => other (Option.some.inj same).symm
    · rw [shape]
      exact fun same => plain (Option.some.inj same ▸ special)

/-- In an escaped text a backslash stands in front of the first mark. -/
theorem escaped_mark (special : mark ∈ escapable) (front back : List Char) :
    escaped (front ++ mark :: back) = escaped front ++ ['\\'] ++ mark :: escaped back := by
  rw [escaped_append, escaped_special special]
  simp

/-- That backslash is no mark. -/
theorem not_mem_escaped_concat (other : mark ≠ '\\') {front : List Char} (absent : mark ∉ front) :
    mark ∉ escaped front ++ ['\\'] := by
  rw [List.mem_append, mem_escaped other, not_or]
  exact ⟨absent, by simpa using other⟩

/-- White space in an escaped text is its own. -/
theorem IsPhrase.front_escaped (phrase : IsPhrase text) :
    ∀ c ∈ (escaped text).head?, Text.isSpace c = false := by
  cases text with
  | nil => exact absurd rfl phrase.filled
  | cons c more =>
    obtain ⟨first, tail, shape, rfl | ⟨rfl, plain⟩⟩ := exists_escaped_cons c more
    · rw [shape]
      rintro d ⟨⟩
      rfl
    · rw [shape]
      rintro d ⟨⟩
      exact phrase.front _ rfl

/-- A phrase does not end with a space. -/
theorem IsPhrase.getLast?_ne_space (phrase : IsPhrase text) : text.getLast?.getD ' ' ≠ ' ' := by
  cases last : text.getLast? with
  | none => exact absurd (List.getLast?_eq_none_iff.1 last) phrase.filled
  | some c =>
    rintro rfl
    exact absurd (phrase.back ' ' last) (by decide)

end Written

section Runs

variable {text line inside behind : List Char} {added : Style}

/-- An escaped text has a backslash in front of every character that opens something. -/
theorem backslashed_escaped (text : List Char) : Backslashed text (escaped text) := by
  have special : openingChars ⊆ escapable := by decide
  induction text with
  | nil => exact .nil
  | cons c more ih =>
    by_cases marked : c ∈ escapable
    · rw [escaped_special marked]
      exact .escape c ih
    · rw [escaped_plain marked]
      exact .plain (fun member => marked (special member)) ih

/-- Escaped text is held as it is. -/
theorem runsFrom_escaped (style : Style) (held text rest : List Char) :
    runsFrom style held (escaped text ++ rest) = runsFrom style (text.reverse ++ held) rest :=
  runsFrom_backslashed style held (backslashed_escaped text) rest

/-- A construct around an escaped text and nothing else gives the text in one run. -/
theorem runsOf_enclosed (sets : added.isPlain = false) (filled : text ≠ [])
    (read : Construct.read? line = some (.styled added (escaped text), [])) :
    runsOf line = [{ text := String.ofList text, style := some added }] := by
  have inside : runsFrom added [] (escaped text) = literalRun added text.reverse := by
    have held := runsFrom_escaped added [] text []
    rwa [List.append_nil, List.append_nil, runsFrom] at held
  have filled' : text.reverse ≠ [] := by simpa using filled
  rw [runsOf, runsFrom_styled read, Style.plain_merge, inside, runsFrom]
  simp [literalRun, Run.styled, filled', sets]

/-- A construct that does not reach to the end of the line gives more than one run. -/
theorem runsOf_ne_singleton (filled : inside ≠ []) (more : behind ≠ [])
    (read : Construct.read? line = some (.styled added inside, behind)) (run : Run) :
    runsOf line ≠ [run] := by
  intro same
  have inner := runsFrom_ne_nil (Style.plain.merge added) [] inside (.inr filled)
  have outer := runsFrom_ne_nil Style.plain [] behind (.inr more)
  have first := List.length_pos_iff.2 inner
  have second := List.length_pos_iff.2 outer
  have count := congrArg List.length same
  rw [runsOf, runsFrom_styled read, List.length_append, List.length_append,
    List.length_singleton] at count
  omega

/-- Text without constructs has no style. -/
theorem literalRun_ne_styled (held : List Char) (text : String) (style : Style) :
    literalRun Style.plain held ≠ [{ text, style := some style }] := by
  intro same
  unfold literalRun at same
  split at same
  · cases same
  · cases congrArg (List.map Run.style) same

end Runs

namespace Marker

variable {mark : Char} {text rest : List Char}

/-- No pair of marks is in an escaped text, so a closing pair is looked for behind it. -/
theorem closingPair_escaped (special : mark ∈ escapable) (other : mark ≠ '\\')
    (apart : text.getLast? = some mark → rest.head? ≠ some mark) (before : Char) :
    closingPair mark before (escaped text ++ rest) =
      (closingPair mark (text.getLast?.getD before) rest).map fun (inside, behind) =>
        (escaped text ++ inside, behind) := by
  induction text generalizing before with
  | nil => exact Option.map_id'.symm
  | cons c more ih =>
    have inner : more.getLast? = some mark → rest.head? ≠ some mark := by
      intro last
      exact apart (by rw [List.getLast?_cons, last]; rfl)
    have alone : c = mark → (escaped more ++ rest).head? ≠ some mark := by
      intro same
      refine head?_escaped_append special other fun empty => apart ?_
      rw [empty, same]
      rfl
    have last : (c :: more).getLast?.getD before = more.getLast?.getD c := by
      rw [List.getLast?_cons, Option.getD_some]
    rw [last]
    by_cases escape : c ∈ escapable
    · rw [escaped_special escape, List.cons_append, List.cons_append,
        closingPair_cons fun same => absurd same.symm other, closingPair_cons alone, ih inner,
        Option.map_map, Option.map_map]
      rfl
    · rw [escaped_plain escape, List.cons_append, closingPair_cons alone, ih inner,
        Option.map_map]
      rfl

/-- The character of a marker is one of markup. -/
theorem char_escapable (m : Marker) : m.char ∈ escapable ∧ m.char ≠ '\\' := by
  cases m <;> decide

/-- A marker that is spared by an escaped text ends behind it. -/
theorem closing?_escaped {m : Marker} (spares : m.Spares text) (phrase : IsPhrase text) :
    m.closing? (escaped text ++ m.sigil) = some (escaped text, []) := by
  have close := phrase.getLast?_ne_space
  unfold Spares at spares
  unfold closing? sigil
  split at spares
  · next doubled =>
    rw [if_pos doubled, if_pos doubled,
      closingPair_escaped m.char_escapable.1 m.char_escapable.2 fun last => absurd last spares,
      closingPair, if_pos ⟨rfl, rfl, close⟩]
    exact congrArg (fun inside => some (inside, [])) (List.append_nil _)
  · next single =>
    have absent : m.char ∉ escaped text := by rwa [mem_escaped m.char_escapable.2]
    rw [← getLast?_escaped] at close
    rw [if_neg single, if_neg single]
    exact closingSingle_append absent close (by simp)

/-- The last character of an escaped text and the first one of a closing pair make a pair. -/
theorem closingPair_early (special : mark ∈ escapable) (other : mark ≠ '\\') (front : List Char) :
    closingPair mark ' ' (escaped (front ++ [mark]) ++ [mark, mark]) =
      some (escaped front ++ ['\\'], [mark]) := by
  have shape : escaped (front ++ [mark]) ++ [mark, mark] =
      escaped front ++ ['\\', mark, mark, mark] := by
    rw [escaped_mark special]
    simp [escaped]
  have early : closingPair mark (front.getLast?.getD ' ') ['\\', mark, mark, mark] =
      some (['\\'], [mark]) := by
    rw [closingPair_cons fun same => absurd same.symm other, closingPair,
      if_pos ⟨rfl, rfl, by decide⟩]
    rfl
  have apart : front.getLast? = some mark → ['\\', mark, mark, mark].head? ≠ some mark :=
    fun _ same => other (Option.some.inj same).symm
  rw [shape, closingPair_escaped special other apart, early]
  rfl

/-- A marker that is not spared ends inside the escaped text or not at all. -/
theorem closing?_spoiled {m : Marker} (spoiled : ¬ m.Spares text) :
    (∃ inside behind, inside ≠ [] ∧ behind ≠ [] ∧
      m.closing? (escaped text ++ m.sigil) = some (inside, behind)) ∨
    (m.sigil = [m.char] ∧ m.closing? (escaped text ++ m.sigil) = none) := by
  obtain ⟨special, other⟩ := m.char_escapable
  unfold Spares at spoiled
  unfold closing? sigil
  split at spoiled
  · next doubled =>
    obtain ⟨front, rfl⟩ := List.getLast?_eq_some_iff.1 (not_not.1 spoiled)
    left
    refine ⟨escaped front ++ ['\\'], [m.char], by simp, by simp, ?_⟩
    rw [if_pos doubled, if_pos doubled]
    exact closingPair_early special other front
  · next single =>
    obtain ⟨front, back, rfl, absent⟩ := List.eq_append_cons_of_mem (not_not.1 spoiled)
    have clear := not_mem_escaped_concat other absent
    rw [if_neg single, if_neg single, escaped_mark special, List.append_assoc, List.cons_append]
    by_cases last : back = []
    · -- the mark of the text and the one behind it are passed over together
      right
      rw [last]
      exact ⟨rfl, closingSingle_doubled clear []⟩
    · left
      refine ⟨escaped front ++ ['\\'], escaped back ++ [m.char], by simp, by simp, ?_⟩
      refine closingSingle_append clear (by simp) ?_
      exact head?_escaped_append special other fun empty => absurd empty last

end Marker

section Enclosed

variable {text : List Char}

/-- A marker in front of an escaped phrase opens something if it ends. -/
theorem read?_sigil_escaped (m : Marker) (phrase : IsPhrase text) :
    Construct.read? (m.sigil ++ escaped text ++ m.sigil) =
      (m.closing? (escaped text ++ m.sigil)).map fun (inside, behind) =>
        (.styled m.style inside, behind) := by
  have front := phrase.front_escaped
  cases text with
  | nil => exact absurd rfl phrase.filled
  | cons c more =>
    obtain ⟨first, tail, shape, begins⟩ := exists_escaped_cons c more
    have other : first ≠ m.char := by
      obtain ⟨special, unlike⟩ := m.char_escapable
      rcases begins with rfl | ⟨rfl, plain⟩
      · exact unlike.symm
      · exact fun same => plain (same ▸ special)
    have filled : first ≠ ' ' := by
      rw [shape] at front
      rintro rfl
      exact absurd (front ' ' rfl) (by decide)
    rw [List.append_assoc, shape]
    exact Construct.read?_sigil m other filled (tail ++ m.sigil)

/-- A marker around an escaped phrase gives the phrase in its style exactly where it is spared. -/
theorem runsOf_marked_iff (m : Marker) (phrase : IsPhrase text) :
    runsOf (m.sigil ++ escaped text ++ m.sigil) =
      [{ text := String.ofList text, style := some m.style }] ↔ m.Spares text := by
  have sets : m.style.isPlain = false := by cases m <;> rfl
  have read := read?_sigil_escaped m phrase
  by_cases spares : m.Spares text
  · refine iff_of_true ?_ spares
    rw [Marker.closing?_escaped spares phrase] at read
    exact runsOf_enclosed sets phrase.filled read
  · refine iff_of_false ?_ spares
    obtain ⟨inside, behind, filled, more, closed⟩ | ⟨single, unclosed⟩ :=
      Marker.closing?_spoiled spares
    · rw [closed] at read
      exact runsOf_ne_singleton filled more read _
    · -- the opening mark and the closing one are literal then
      have alone : Construct.read? [m.char] = none := by cases m <;> rfl
      rw [unclosed, single] at read
      have unread : Construct.read? (m.char :: (escaped text ++ [m.char])) = none := read
      rw [single, runsOf, List.append_assoc, List.singleton_append,
        runsFrom_unread (fun _ _ same => absurd same m.char_escapable.2) unread, runsFrom_escaped,
        runsFrom_unread (fun _ _ same => absurd same m.char_escapable.2) alone, runsFrom]
      exact literalRun_ne_styled _ _ _

/-- A colour around an escaped phrase gives the phrase in that colour exactly where the colour has a
name and the phrase holds no closing brace. -/
theorem runsOf_colored_iff {code : List Char} (valid : ∀ c ∈ code, Construct.isColorChar c = true)
    (phrase : IsPhrase text) :
    runsOf ('{' :: code ++ '|' :: escaped text ++ ['}']) =
        [{ text := String.ofList text, style := some { color := some (String.ofList code) } }] ↔
      code ≠ [] ∧ '}' ∉ text := by
  have filled : escaped text ≠ [] := by
    intro empty
    have last := getLast?_escaped text
    rw [empty] at last
    exact phrase.filled (List.getLast?_eq_none_iff.1 last.symm)
  by_cases named : code = []
  · refine iff_of_false ?_ fun both => both.1 named
    have unread : Construct.read? ('{' :: '|' :: (escaped text ++ ['}'])) = none := rfl
    have bar : Construct.read? ('|' :: (escaped text ++ ['}'])) = none := rfl
    have brace : Construct.read? ['}'] = none := rfl
    have shape : '{' :: [] ++ '|' :: escaped text ++ ['}'] =
        '{' :: '|' :: (escaped text ++ ['}']) := rfl
    rw [named, shape, runsOf,
      runsFrom_unread (by simp) unread, runsFrom_unread (by simp) bar, runsFrom_escaped,
      runsFrom_unread (by simp) brace, runsFrom]
    exact literalRun_ne_styled _ _ _
  · by_cases closed : '}' ∈ text
    · refine iff_of_false ?_ fun both => both.2 closed
      obtain ⟨front, back, rfl, absent⟩ := List.eq_append_cons_of_mem closed
      have clear := not_mem_escaped_concat (by decide) absent
      have shape : '{' :: code ++ '|' :: escaped (front ++ '}' :: back) ++ ['}'] =
          '{' :: code ++ '|' :: (escaped front ++ ['\\']) ++ '}' :: (escaped back ++ ['}']) := by
        rw [escaped_mark (by decide)]
        simp
      rw [shape]
      exact runsOf_ne_singleton (by simp) (by simp)
        (Construct.read?_colored named valid (by simp) clear) _
    · refine iff_of_true ?_ ⟨named, closed⟩
      have clear : '}' ∉ escaped text := by rwa [mem_escaped (by decide)]
      exact runsOf_enclosed rfl phrase.filled (Construct.read?_colored named valid filled clear)

/-- The row of an escaped phrase divides where the phrase does. -/
theorem isDivider_escaped (text : List Char) :
    Table.isDivider (escapedRow text) = true ↔ IsDividing text := by
  have held : Table.isDivider (escapedRow text) = true ↔
      '-' ∈ escaped text ∧
        ∀ c ∈ escaped text, c = '|' ∨ c = '-' ∨ c = ':' ∨ c = ' ' ∨ c = '\t' := by
    simp [escapedRow, Table.isDivider, or_assoc]
  rw [held, mem_escaped (by decide)]
  refine and_congr_right fun _ => ⟨fun dividing c member => ?_, fun dividing c member => ?_⟩
  · -- markup would bring a backslash, which no dividing row has
    have plain : c ∉ escapable := by
      intro special
      exact absurd (dividing '\\' (backslash_mem_escaped special member)) (by decide)
    have own : c ≠ '\\' := fun same => plain (same ▸ by decide)
    have bar : c ≠ '|' := fun same => plain (same ▸ by decide)
    exact (dividing c ((mem_escaped own).2 member)).resolve_left bar
  · have plain : ∀ d ∈ text, d ∉ escapable := by
      intro d inside
      rcases dividing d inside with rfl | rfl | rfl | rfl <;> decide
    rw [escaped_of_plain plain] at member
    exact .inr (dividing c member)

/-- Between the outer bars of its row stands the escaped text with its spaces. -/
theorem inner_escapedRow (text : List Char) :
    Table.inner (escapedRow text) = ' ' :: escaped text ++ [' '] := by
  show (Text.before? '|' (' ' :: escaped text ++ [' '] ++ ['|'])).getD _ = _
  rw [Text.before?_eq_some_iff.2 rfl, Option.getD_some]

/-- The spaces around an escaped phrase are trimmed, and no more. -/
theorem trim_escaped (phrase : IsPhrase text) :
    Text.trim (' ' :: escaped text ++ [' ']) = escaped text := by
  have back : ∀ c ∈ (escaped text).getLast?, Text.isSpace c = false := by
    rw [getLast?_escaped]
    exact phrase.back
  rw [Text.trim_concat (by decide), Text.trim, Text.trimStart_cons_space (by decide), ← Text.trim,
    Text.trim_eq_self phrase.front_escaped back]

/-- An escaped phrase by itself is one plain run. -/
theorem runsOf_escaped (phrase : IsPhrase text) :
    runsOf (escaped text) = [{ text := String.ofList text }] := by
  have held := runsFrom_escaped Style.plain [] text []
  have filled : text.reverse ≠ [] := by simpa using phrase.filled
  rw [List.append_nil, List.append_nil, runsFrom, literalRun, if_neg filled,
    List.reverse_reverse] at held
  exact held

/-- The cells of the row of an escaped phrase are the phrase exactly where it holds no bar. -/
theorem cells_escaped_iff (phrase : IsPhrase text) :
    Table.cells (escapedRow text) = [[{ text := String.ofList text }]] ↔ '|' ∉ text := by
  rw [Table.cells, inner_escapedRow]
  by_cases bar : '|' ∈ text
  · refine iff_of_false ?_ fun absent => absent bar
    -- the bar divides the row, so there are two cells at least
    have member : '|' ∈ escaped text := (mem_escaped (by decide)).2 bar
    obtain ⟨front, back, split⟩ := List.append_of_mem member
    have shape : ' ' :: escaped text ++ [' '] = (' ' :: front) ++ '|' :: (back ++ [' ']) := by
      rw [split]
      simp
    have first := List.length_pos_iff.2 (Text.pieces_ne_nil '|' (' ' :: front))
    have second := List.length_pos_iff.2 (Text.pieces_ne_nil '|' (back ++ [' ']))
    intro single
    have count := congrArg List.length single
    rw [shape, Text.pieces_break, List.length_map, List.length_append,
      List.length_singleton] at count
    omega
  · refine iff_of_true ?_ bar
    have inside : '|' ∉ escaped text := by rwa [mem_escaped (by decide)]
    have absent : '|' ∉ ' ' :: escaped text ++ [' '] := by simp [inside]
    rw [Text.pieces_of_not_mem absent, List.map_singleton, trim_escaped phrase,
      runsOf_escaped phrase]

/-- The row of an escaped phrase by itself is a source with one table. -/
theorem parse_escapedRow (root : Path) (phrase : IsPhrase text) :
    Document.parse root (String.ofList (escapedRow text)) =
      .ok { blocks := [.table (Table.rows [escapedRow text])] } := by
  have single : '\n' ∉ escapedRow text := by
    have inside : '\n' ∉ escaped text := by
      rw [mem_escaped (by decide)]
      exact phrase.single
    simp [escapedRow, inside]
  have kept : Line.withoutReturn (escapedRow text) = escapedRow text := by
    refine if_neg ?_
    simp [escapedRow, List.getLast?_cons]
  have line : Line.linesOf (escapedRow text) = [⟨escapedRow text, 1⟩] := by
    rw [Line.linesOf, Line.linesFrom_last single (List.cons_ne_nil _ _), kept]
  have read : Part.read root ⟨escapedRow text, 1⟩ [] =
      .ok ([.block (.table (Table.rows [escapedRow text]))], []) := by
    rw [Part.read, escapedRow, LineKind.ofLine_row]
    rfl
  rw [Document.parse, String.toList_ofList, line, ofLines_cons read, Part.ofLines]
  rfl

/-- The row of an escaped phrase is a table with the phrase in its one cell exactly where the phrase
holds no bar and does not divide rows. -/
theorem parse_escapedRow_iff (root : Path) (phrase : IsPhrase text) :
    Document.parse root (String.ofList (escapedRow text)) =
        .ok { blocks := [.table [[[{ text := String.ofList text }]]]] } ↔
      '|' ∉ text ∧ ¬ IsDividing text := by
  have same : Document.parse root (String.ofList (escapedRow text)) =
        .ok { blocks := [.table [[[{ text := String.ofList text }]]]] } ↔
      Table.rows [escapedRow text] = [[[{ text := String.ofList text }]]] := by
    rw [parse_escapedRow root phrase]
    simp
  rw [same, ← cells_escaped_iff phrase]
  by_cases dividing : IsDividing text
  · have none : Table.rows [escapedRow text] = [] := by
      simp [Table.rows, (isDivider_escaped text).2 dividing]
    rw [none]
    exact iff_of_false (by simp) fun both => both.2 dividing
  · have undivided : Table.isDivider (escapedRow text) = false := by
      rw [← Bool.not_eq_true, isDivider_escaped]
      exact dividing
    have one : Table.rows [escapedRow text] = [Table.cells (escapedRow text)] := by
      simp [Table.rows, undivided]
    rw [one, and_iff_left dividing]
    simp

/-- An escaped phrase inside markup comes out whole, in one run, exactly where none of its
characters is taken for the end: inside a marker that it spares, inside a colour that has a name
where the phrase holds no closing brace, and as a table row where it holds no bar and the row has
cells at all. -/
theorem escaped_phrase_iff (phrase : IsPhrase text) :
    (∀ m : Marker, runsOf (m.sigil ++ escaped text ++ m.sigil) =
        [{ text := String.ofList text, style := some m.style }] ↔ m.Spares text) ∧
    (∀ code, (∀ c ∈ code, Construct.isColorChar c = true) →
      (runsOf ('{' :: code ++ '|' :: escaped text ++ ['}']) =
          [{ text := String.ofList text, style := some { color := some (String.ofList code) } }] ↔
        code ≠ [] ∧ '}' ∉ text)) ∧
    ∀ root, Document.parse root (String.ofList (escapedRow text)) =
        .ok { blocks := [.table [[[{ text := String.ofList text }]]]] } ↔
      '|' ∉ text ∧ ¬ IsDividing text :=
  ⟨fun m => runsOf_marked_iff m phrase, fun _ valid => runsOf_colored_iff valid phrase,
    fun root => parse_escapedRow_iff root phrase⟩

end Enclosed

/-- A text with a star and a bar inside comes out whole between pairs of stars and in a colour, and
not between single stars or in a table row. -/
theorem escaped_phrase_iff_sample :
    let run (style : Option Style) : Run := { text := "2*|", style }
    runsOf "**2\\*\\|**".toList = [run (some { bold := true })] ∧
      runsOf "*2\\*\\|*".toList ≠ [run (some { italic := true })] ∧
      runsOf "\x7bred|2\\*\\|\x7d".toList = [run (some { color := some "red" })] ∧
      Document.parse ⟨""⟩ "| 2\\*\\| |" ≠ .ok { blocks := [.table [[[run none]]]] } := by
  intro run
  have phrase : IsPhrase "2*|".toList := by decide
  obtain ⟨marked, colored, cell⟩ := escaped_phrase_iff phrase
  have red : ∀ c ∈ "red".toList, Construct.isColorChar c = true := List.all_eq_true.1 (by decide)
  refine ⟨(marked .bold).2 (by decide), fun same => ?_,
    (colored "red".toList red).2 (by decide), fun same => ?_⟩
  · have spared : Marker.italic.Spares "2*|".toList := (marked .italic).1 same
    exact absurd spared (by decide)
  · have whole : '|' ∉ "2*|".toList := ((cell ⟨""⟩).1 same).1
    exact absurd whole (by decide)

/-- An escaped closing brace ends a colour, a pair of stars that begins with an escaped one ends
bold text, and an escaped bar ends a table cell. -/
theorem escaped_phrase_cut :
    IsPhrase "a\x7db".toList ∧ IsPhrase "a*".toList ∧ IsPhrase "a|b".toList ∧
      runsOf ('{' :: "red".toList ++ '|' :: escaped "a\x7db".toList ++ ['}']) =
        [{ text := "a\\", style := some { color := some "red" } }, { text := "b\x7d" }] ∧
      runsOf (Marker.bold.sigil ++ escaped "a*".toList ++ Marker.bold.sigil) =
        [{ text := "a\\", style := some { bold := true } }, { text := "*" }] ∧
      Document.parse ⟨""⟩ (String.ofList (escapedRow "a|b".toList)) =
        .ok { blocks := [.table [[[{ text := "a\\" }], [{ text := "b" }]]]] } := by
  refine ⟨by decide, by decide, by decide, ?_, ?_, ?_⟩
  · decide +kernel
  · decide +kernel
  · have rows : Table.rows [escapedRow "a|b".toList] =
        [[[{ text := "a\\" }], [{ text := "b" }]]] := by
      decide +kernel
    rw [parse_escapedRow ⟨""⟩ (by decide), rows]

end WikiPress

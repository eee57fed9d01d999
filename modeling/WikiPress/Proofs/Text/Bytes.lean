import Mathlib.Data.List.Basic

/-!
# Texts as bytes

Positions in a text may be counted in the bytes of its UTF-8 form. A position is a place to cut the
text where whole characters stand in front of it, and only there (`Text.cutAt?_eq_some_iff`). A byte
below 128 stands for the character of that code and is part of no other one (`Text.mem_bytes_iff`),
so looking for such a byte finds the character, and finds it between characters
(`Text.idxOf?_bytes`).
-/

namespace WikiPress.Text

/-- The bytes of a text. -/
def bytes (text : List Char) : List UInt8 := text.flatMap String.utf8EncodeChar

/-- The byte of a character that has only one. -/
def byte (c : Char) : UInt8 := UInt8.ofNat c.toNat

/-- The texts in front of a position and behind it; `none` where the position is inside a character
or behind the end. -/
def cutAt? : Nat → List Char → Option (List Char × List Char)
  | 0, text => some ([], text)
  | _ + 1, [] => none
  | n + 1, c :: rest =>
    if c.utf8Size ≤ n + 1 then
      (cutAt? (n + 1 - c.utf8Size) rest).map fun (front, behind) => (c :: front, behind)
    else none

/-- The text from one position to another; `none` where the text cannot be cut at them or they are
out of order. -/
def slice? (start stop : Nat) (text : List Char) : Option (List Char) :=
  if start ≤ stop then do
    let (_, behind) ← cutAt? start text
    let (middle, _) ← cutAt? (stop - start) behind
    some middle
  else none

/-- The bytes from a position on; `none` where the position is behind the end. -/
def restAt? (n : Nat) (data : List UInt8) : Option (List UInt8) :=
  if n ≤ data.length then some (data.drop n) else none

/-- The first position of a byte that is not in front of a given one, if there is such a position.
The outer `none` is for a given position behind the end. -/
def seek? (b : UInt8) (n : Nat) (data : List UInt8) : Option (Option Nat) :=
  (restAt? n data).map fun rest => (rest.idxOf? b).map (n + ·)

/-- The first position of one of some bytes that is not in front of a given one, if there is such a
position. The outer `none` is for a given position behind the end. -/
def seekAny? (marks : List UInt8) (n : Nat) (data : List UInt8) : Option (Option Nat) :=
  (restAt? n data).map fun rest => (rest.findIdx? (· ∈ marks)).map (n + ·)

/-- What is sought is found behind the given position. -/
theorem le_of_seekAny? {marks : List UInt8} {n here : Nat} {data : List UInt8}
    (found : seekAny? marks n data = some (some here)) : n ≤ here := by
  obtain ⟨rest, _, seen⟩ := Option.map_eq_some_iff.1 found
  obtain ⟨k, _, rfl⟩ := Option.map_eq_some_iff.1 seen
  exact Nat.le_add_right n k

/-- The first position of a byte is that of the only one of some. -/
theorem idxOf?_eq (b : UInt8) (data : List UInt8) :
    data.idxOf? b = data.findIdx? (· ∈ [b]) := by
  rw [List.idxOf?]
  refine congrArg (List.findIdx? · data) (funext fun other => ?_)
  rw [Bool.eq_iff_iff, beq_iff_eq, decide_eq_true_iff, List.mem_singleton]

/-- Seeking inside finds the first position of the byte, or there is none. -/
theorem seek?_cases (b : UInt8) {n : Nat} {data : List UInt8} (inside : n ≤ data.length) :
    (seek? b n data = some none ∧ ∀ i, n ≤ i → data[i]? ≠ some b) ∨
      ∃ here, seek? b n data = some (some here) ∧ n ≤ here ∧ data[here]? = some b ∧
        ∀ i, n ≤ i → i < here → data[i]? ≠ some b := by
  have shift (i : Nat) (le : n ≤ i) : data[i]? = (data.drop n)[i - n]? := by
    rw [List.getElem?_drop, Nat.add_sub_cancel' le]
  rw [seek?, restAt?, if_pos inside, Option.map_some]
  cases found : (data.drop n).idxOf? b with
  | none =>
    refine .inl ⟨rfl, fun i le there => ?_⟩
    rw [shift i le] at there
    exact List.idxOf?_eq_none_iff.1 found (List.mem_of_getElem? there)
  | some k =>
    obtain ⟨within, same, before⟩ := List.findIdx?_eq_some_iff_getElem.1 found
    refine .inr ⟨n + k, rfl, Nat.le_add_right n k, ?_, fun i le lt there => ?_⟩
    · rw [shift (n + k) (Nat.le_add_right n k), Nat.add_sub_cancel_left,
        List.getElem?_eq_getElem within, eq_of_beq same]
    · rw [shift i le] at there
      obtain ⟨bound, own⟩ := List.getElem?_eq_some_iff.1 there
      exact before (i - n) (by omega) (beq_iff_eq.2 own)

/-- A byte that is found is one of those behind the given position. -/
theorem of_seek? {b : UInt8} {n here : Nat} {data : List UInt8}
    (found : seek? b n data = some (some here)) : n ≤ here ∧ here < data.length := by
  have inside : n ≤ data.length := by
    by_contra outside
    rw [seek?, restAt?, if_neg outside] at found
    cases found
  rcases seek?_cases b inside with ⟨missing, _⟩ | ⟨first, seen, behind, own, _⟩
  · rw [missing] at found
    cases found
  · obtain rfl := Option.some.inj (Option.some.inj (seen.symm.trans found))
    exact ⟨behind, (List.getElem?_eq_some_iff.1 own).1⟩

/-- The bytes of two texts in a row. -/
theorem bytes_append (front behind : List Char) :
    bytes (front ++ behind) = bytes front ++ bytes behind := List.flatMap_append

/-- Two texts in a row have the bytes of both. -/
theorem length_bytes_append (front behind : List Char) :
    (bytes (front ++ behind)).length = (bytes front).length + (bytes behind).length := by
  rw [bytes_append, List.length_append]

/-- The bytes of a character and the text behind it. -/
theorem bytes_cons (c : Char) (rest : List Char) :
    bytes (c :: rest) = String.utf8EncodeChar c ++ bytes rest := List.flatMap_cons

/-- A character has as many bytes as its size says. -/
theorem length_bytes_singleton (c : Char) : (bytes [c]).length = c.utf8Size := by
  rw [bytes_cons, List.length_append, String.length_utf8EncodeChar]
  rfl

/-- A text has bytes if it has characters. -/
theorem bytes_eq_nil_iff {text : List Char} : bytes text = [] ↔ text = [] := by
  cases text with
  | nil => exact iff_of_true rfl rfl
  | cons c rest => simp [bytes_cons, String.utf8EncodeChar_ne_nil]

/-- A position behind a text and another one is further behind if the other one has characters. -/
theorem length_bytes_lt_iff {front text : List Char} :
    (bytes front).length < (bytes (front ++ text)).length ↔ text ≠ [] := by
  rw [length_bytes_append, Nat.lt_add_right_iff_pos, List.length_pos_iff, Ne, bytes_eq_nil_iff]

/-- The bytes from behind a text on are those of the text that follows. -/
theorem restAt?_bytes (front text : List Char) :
    restAt? (bytes front).length (bytes (front ++ text)) = some (bytes text) := by
  rw [restAt?, bytes_append, List.length_append, if_pos (Nat.le_add_right _ _), List.drop_left]

/-- A text can be cut exactly behind whole characters. -/
theorem cutAt?_eq_some_iff {n : Nat} {text front behind : List Char} :
    cutAt? n text = some (front, behind) ↔ text = front ++ behind ∧ (bytes front).length = n := by
  fun_induction cutAt? n text generalizing front behind with
  | case1 text =>
    rw [Option.some.injEq, Prod.mk.injEq, List.length_eq_zero_iff, bytes_eq_nil_iff]
    constructor
    · rintro ⟨rfl, rfl⟩
      exact ⟨rfl, rfl⟩
    · rintro ⟨rfl, rfl⟩
      exact ⟨rfl, rfl⟩
  | case2 n =>
    simp only [reduceCtorEq, false_iff, not_and]
    intro same
    have none : front = [] := (List.append_eq_nil_iff.1 same.symm).1
    rw [none]
    exact (Nat.succ_ne_zero n).symm
  | case3 n c rest fits ih =>
    simp only [Option.map_eq_some_iff, Prod.exists, Prod.mk.injEq, ih]
    constructor
    · rintro ⟨own, _, ⟨rfl, count⟩, rfl, rfl⟩
      refine ⟨rfl, ?_⟩
      rw [bytes_cons, List.length_append, String.length_utf8EncodeChar, count]
      omega
    · rintro ⟨same, count⟩
      cases front with
      | nil => exact absurd count (Nat.succ_ne_zero n).symm
      | cons first own =>
        obtain ⟨rfl, rfl⟩ := List.cons.inj same
        rw [bytes_cons, List.length_append, String.length_utf8EncodeChar] at count
        exact ⟨own, behind, ⟨rfl, by omega⟩, rfl, rfl⟩
  | case4 n c rest wide =>
    simp only [reduceCtorEq, false_iff, not_and]
    intro same count
    cases front with
    | nil => exact absurd count (Nat.succ_ne_zero n).symm
    | cons first own =>
      obtain ⟨rfl, rfl⟩ := List.cons.inj same
      rw [bytes_cons, List.length_append, String.length_utf8EncodeChar] at count
      omega

/-- A slice stands between two other parts of the text, which end and begin at its positions. -/
theorem slice?_eq_some_iff {start stop : Nat} {text middle : List Char} :
    slice? start stop text = some middle ↔ ∃ front behind, text = front ++ (middle ++ behind) ∧
      (bytes front).length = start ∧ (bytes (front ++ middle)).length = stop := by
  unfold slice?
  constructor
  · intro found
    split at found
    · next ordered =>
      obtain ⟨⟨front, rest⟩, first, found⟩ := Option.bind_eq_some_iff.1 found
      obtain ⟨⟨own, behind⟩, second, found⟩ := Option.bind_eq_some_iff.1 found
      obtain rfl := Option.some.inj found
      obtain ⟨rfl, starts⟩ := cutAt?_eq_some_iff.1 first
      obtain ⟨rfl, stops⟩ := cutAt?_eq_some_iff.1 second
      exact ⟨front, behind, rfl, starts, by rw [length_bytes_append, starts, stops]; omega⟩
    · cases found
  · rintro ⟨front, behind, rfl, rfl, rfl⟩
    have start : cutAt? (bytes front).length (front ++ (middle ++ behind)) =
        some (front, middle ++ behind) := cutAt?_eq_some_iff.2 ⟨rfl, rfl⟩
    have stop : cutAt? (bytes middle).length (middle ++ behind) = some (middle, behind) :=
      cutAt?_eq_some_iff.2 ⟨rfl, rfl⟩
    rw [length_bytes_append, if_pos (Nat.le_add_right _ _), start, Nat.add_sub_cancel_left]
    simp only [Option.bind_eq_bind, Option.bind_some, stop]

/-- The text between the positions behind two fronts of a text. -/
theorem slice?_append (front middle behind : List Char) :
    slice? (bytes front).length (bytes (front ++ middle)).length (front ++ (middle ++ behind)) =
      some middle := slice?_eq_some_iff.2 ⟨front, behind, rfl, rfl, rfl⟩

/-- A slice that does not begin at the front is shorter than the text. -/
theorem length_slice?_lt {start stop : Nat} {text middle : List Char}
    (found : slice? start stop text = some middle) (behind : 0 < start) :
    (bytes middle).length < (bytes text).length := by
  obtain ⟨front, rest, rfl, rfl, _⟩ := slice?_eq_some_iff.1 found
  simp only [length_bytes_append]
  omega

/-- A position between two characters of a text, or at one of its ends. -/
def IsBoundary (text : List Char) (n : Nat) : Prop :=
  ∃ front behind, text = front ++ behind ∧ (bytes front).length = n

/-- A slice can be taken exactly between two boundaries in order. -/
theorem isSome_slice?_iff {start stop : Nat} {text : List Char} :
    (slice? start stop text).isSome = true ↔
      start ≤ stop ∧ IsBoundary text start ∧ IsBoundary text stop := by
  rw [Option.isSome_iff_exists]
  constructor
  · rintro ⟨middle, found⟩
    obtain ⟨front, behind, rfl, rfl, rfl⟩ := slice?_eq_some_iff.1 found
    refine ⟨?_, ⟨front, middle ++ behind, rfl, rfl⟩,
      ⟨front ++ middle, behind, (List.append_assoc ..).symm, rfl⟩⟩
    rw [length_bytes_append]
    exact Nat.le_add_right _ _
  · rintro ⟨ordered, ⟨front, rest, rfl, rfl⟩, ⟨front', behind, same, rfl⟩⟩
    rcases List.append_eq_append_iff.1 same with ⟨middle, rfl, rfl⟩ | ⟨middle, rfl, rfl⟩
    · exact ⟨middle, slice?_append front middle behind⟩
    · -- the fronts are in order, so that nothing stands between them
      have nothing : middle = [] := by
        by_contra filled
        have further : (bytes front').length < (bytes (front' ++ middle)).length :=
          length_bytes_lt_iff.2 filled
        omega
      subst nothing
      exact ⟨[], slice?_eq_some_iff.2 ⟨front', rest, by simp, by simp, by simp⟩⟩

section Marks

variable {mark : Char}

/-- A character of one byte is that byte. -/
theorem utf8EncodeChar_of_small (small : mark.toNat < 128) :
    String.utf8EncodeChar mark = [byte mark] := by
  have le : mark.val.toNat ≤ 127 := Nat.le_of_lt_succ small
  rw [String.utf8EncodeChar, if_pos le]
  rfl

/-- A character of one byte makes a text one byte longer. -/
theorem length_bytes_concat (small : mark.toNat < 128) (front : List Char) :
    (bytes (front ++ [mark])).length = (bytes front).length + 1 := by
  rw [length_bytes_append, bytes_cons, utf8EncodeChar_of_small small]
  rfl

/-- A character of more than one byte has none below 128. -/
theorem le_toNat_of_mem_utf8EncodeChar {c : Char} {b : UInt8} (member : b ∈ String.utf8EncodeChar c)
    (large : 128 ≤ c.toNat) : 128 ≤ b.toNat := by
  have wide : ¬ c.val.toNat ≤ 127 := Nat.not_le.2 large
  rw [String.utf8EncodeChar, if_neg wide] at member
  split at member
  · simp only [List.mem_cons, List.not_mem_nil, or_false] at member
    rcases member with rfl | rfl <;> rw [UInt8.toNat_ofNat'] <;> omega
  split at member
  · simp only [List.mem_cons, List.not_mem_nil, or_false] at member
    rcases member with rfl | rfl | rfl <;> rw [UInt8.toNat_ofNat'] <;> omega
  · simp only [List.mem_cons, List.not_mem_nil, or_false] at member
    rcases member with rfl | rfl | rfl | rfl <;> rw [UInt8.toNat_ofNat'] <;> omega

/-- The byte of a character is part of no other character. -/
theorem mem_utf8EncodeChar_iff (small : mark.toNat < 128) {c : Char} :
    byte mark ∈ String.utf8EncodeChar c ↔ c = mark := by
  have code : (byte mark).toNat = mark.toNat := by
    rw [byte, UInt8.toNat_ofNat', Nat.mod_eq_of_lt (by omega)]
  constructor
  · intro member
    have narrow : c.toNat < 128 := by
      by_contra large
      have bound := le_toNat_of_mem_utf8EncodeChar member (Nat.not_lt.1 large)
      omega
    rw [utf8EncodeChar_of_small narrow, List.mem_singleton] at member
    have same := congrArg UInt8.toNat member
    rw [code, byte, UInt8.toNat_ofNat', Nat.mod_eq_of_lt (by omega)] at same
    exact (Char.toNat_inj.1 same).symm
  · rintro rfl
    rw [utf8EncodeChar_of_small small]
    exact List.mem_singleton_self _

/-- The byte of a character is among those of a text where the character is in the text. -/
theorem mem_bytes_iff (small : mark.toNat < 128) {text : List Char} :
    byte mark ∈ bytes text ↔ mark ∈ text := by
  simp only [bytes, List.mem_flatMap, mem_utf8EncodeChar_iff small, exists_eq_right]

/-- There is no byte of some marks in a text without them. -/
theorem findIdx?_bytes_eq_none {marks text : List Char} (small : ∀ m ∈ marks, m.toNat < 128)
    (absent : ∀ c ∈ text, c ∉ marks) :
    (bytes text).findIdx? (· ∈ marks.map byte) = none := by
  rw [List.findIdx?_eq_none_iff]
  intro b inside
  rw [decide_eq_false_iff_not, List.mem_map]
  rintro ⟨m, member, rfl⟩
  exact absent m ((mem_bytes_iff (small m member)).1 inside) member

/-- The first byte of some marks stands behind the text in front of the first of them. -/
theorem findIdx?_bytes {marks before : List Char} (small : ∀ m ∈ marks, m.toNat < 128)
    (absent : ∀ c ∈ before, c ∉ marks) (member : mark ∈ marks) (behind : List Char) :
    (bytes (before ++ mark :: behind)).findIdx? (· ∈ marks.map byte) =
      some (bytes before).length := by
  have none : (bytes before).findIdx? (· ∈ marks.map byte) = none :=
    findIdx?_bytes_eq_none small absent
  have first : decide (byte mark ∈ marks.map byte) = true :=
    decide_eq_true (List.mem_map_of_mem member)
  rw [bytes_append, bytes_cons, utf8EncodeChar_of_small (small mark member), List.findIdx?_append,
    none, List.singleton_append, List.findIdx?_cons, if_pos first]
  exact congrArg some (Nat.zero_add _)

/-- The first byte of a mark stands behind the text in front of the first mark. -/
theorem idxOf?_bytes (small : mark.toNat < 128) {before : List Char} (absent : mark ∉ before)
    (behind : List Char) :
    (bytes (before ++ mark :: behind)).idxOf? (byte mark) = some (bytes before).length := by
  rw [idxOf?_eq]
  exact findIdx?_bytes (List.forall_mem_singleton.2 small)
    (fun c member => mt List.mem_singleton.1 (ne_of_mem_of_not_mem member absent))
    (List.mem_singleton_self mark) behind

/-- There is no byte of a mark in a text without it. -/
theorem idxOf?_bytes_eq_none (small : mark.toNat < 128) {text : List Char} (absent : mark ∉ text) :
    (bytes text).idxOf? (byte mark) = none := by
  rw [idxOf?_eq]
  exact findIdx?_bytes_eq_none (List.forall_mem_singleton.2 small)
    (fun c member => mt List.mem_singleton.1 (ne_of_mem_of_not_mem member absent))

/-- The last byte of a text is that of a mark where the last character is the mark. -/
theorem getLast?_bytes_iff (small : mark.toNat < 128) {text : List Char} :
    (bytes text).getLast? = some (byte mark) ↔ text.getLast? = some mark := by
  obtain rfl | ⟨init, c, rfl⟩ := List.eq_nil_or_concat' text
  · simp [bytes]
  · have single : bytes [c] = String.utf8EncodeChar c := List.append_nil _
    rw [bytes_append, single, List.getLast?_append, List.getLast?_concat, Option.some.injEq]
    constructor
    · intro last
      apply (mem_utf8EncodeChar_iff small).1
      obtain ⟨b, own⟩ := Option.ne_none_iff_exists'.1
        (mt List.getLast?_eq_none_iff.1 (String.utf8EncodeChar_ne_nil (c := c)))
      rw [own, Option.some_or] at last
      exact Option.some.inj last ▸ List.mem_of_getLast? own
    · rintro rfl
      rw [utf8EncodeChar_of_small small]
      rfl

/-- The first byte of a text is that of a mark where the first character is the mark. -/
theorem head?_bytes_iff (small : mark.toNat < 128) {text : List Char} :
    (bytes text).head? = some (byte mark) ↔ text.head? = some mark := by
  cases text with
  | nil => simp [bytes]
  | cons c rest =>
    rw [bytes_cons, List.head?_append_of_ne_nil _ String.utf8EncodeChar_ne_nil, List.head?_cons,
      Option.some.injEq]
    constructor
    · exact fun first => (mem_utf8EncodeChar_iff small).1 (List.mem_of_head? first)
    · rintro rfl
      rw [utf8EncodeChar_of_small small]
      rfl

/-- The byte at a position behind a text is that of a mark where the mark follows the text. -/
theorem getElem?_bytes_behind (small : mark.toNat < 128) (front behind : List Char) :
    (bytes (front ++ behind))[(bytes front).length]? = some (byte mark) ↔
      behind.head? = some mark := by
  rw [bytes_append, List.getElem?_append_right (Nat.le_refl _), Nat.sub_self,
    ← List.head?_eq_getElem?, head?_bytes_iff small]

/-- The byte in front of a position behind a text is that of a mark where the text ends in the mark;
an empty text has no such byte, whatever stands in front of it. -/
theorem getElem?_bytes_before (small : mark.toNat < 128) (front text tail : List Char) :
    (bytes front).length < (bytes (front ++ text)).length ∧
      (bytes (front ++ (text ++ tail)))[(bytes (front ++ text)).length - 1]? = some (byte mark) ↔
        text.getLast? = some mark := by
  obtain rfl | ⟨init, c, rfl⟩ := List.eq_nil_or_concat' text
  · simp
  · have more : (bytes front).length < (bytes (front ++ (init ++ [c]))).length :=
      length_bytes_lt_iff.2 (List.concat_ne_nil c init)
    rw [← List.append_assoc front (init ++ [c]) tail, bytes_append _ tail,
      List.getElem?_append_left (Nat.sub_one_lt_of_lt more), ← List.getLast?_eq_getElem?,
      getLast?_bytes_iff small, ← List.append_assoc, List.getLast?_concat, List.getLast?_concat]
    exact and_iff_right (by rwa [List.append_assoc])

/-- Seeking some marks from behind a text finds the first one there. -/
theorem seekAny?_bytes {marks before : List Char} (small : ∀ m ∈ marks, m.toNat < 128)
    (absent : ∀ c ∈ before, c ∉ marks) (member : mark ∈ marks) (front behind : List Char) :
    seekAny? (marks.map byte) (bytes front).length (bytes (front ++ (before ++ mark :: behind))) =
      some (some (bytes (front ++ before)).length) := by
  rw [seekAny?, restAt?_bytes, Option.map_some, findIdx?_bytes small absent member, bytes_append,
    List.length_append]
  rfl

/-- Seeking some marks from behind a text finds nothing where none is left. -/
theorem seekAny?_bytes_none {marks text : List Char} (small : ∀ m ∈ marks, m.toNat < 128)
    (absent : ∀ c ∈ text, c ∉ marks) (front : List Char) :
    seekAny? (marks.map byte) (bytes front).length (bytes (front ++ text)) = some none := by
  rw [seekAny?, restAt?_bytes, Option.map_some, findIdx?_bytes_eq_none small absent]
  rfl

/-- Seeking a mark from behind a text finds the first one there. -/
theorem seek?_bytes (small : mark.toNat < 128) {before : List Char} (absent : mark ∉ before)
    (front behind : List Char) :
    seek? (byte mark) (bytes front).length (bytes (front ++ (before ++ mark :: behind))) =
      some (some (bytes (front ++ before)).length) := by
  rw [seek?, restAt?_bytes, Option.map_some, idxOf?_bytes small absent, bytes_append,
    List.length_append]
  rfl

/-- Seeking a mark from behind a text finds nothing where none is left. -/
theorem seek?_bytes_none (small : mark.toNat < 128) {text : List Char} (absent : mark ∉ text)
    (front : List Char) :
    seek? (byte mark) (bytes front).length (bytes (front ++ text)) = some none := by
  rw [seek?, restAt?_bytes, Option.map_some, idxOf?_bytes_eq_none small absent]
  rfl

/-- The bytes of some marks stand at the front of those of a text where the marks do. -/
theorem isPrefixOf_bytes {marks : List Char} (small : ∀ m ∈ marks, m.toNat < 128)
    {text : List Char} : (bytes marks).isPrefixOf (bytes text) = true ↔ marks <+: text := by
  induction marks generalizing text with
  | nil => simp [bytes]
  | cons m more ih =>
    rw [List.forall_mem_cons] at small
    rw [bytes_cons m more, utf8EncodeChar_of_small small.1, List.singleton_append]
    cases text with
    | nil => simp [bytes]
    | cons c rest =>
      have first : (bytes (c :: rest)).head? = some (byte m) ↔ (c :: rest).head? = some m :=
        head?_bytes_iff small.1
      rw [List.head?_cons, Option.some.injEq] at first
      by_cases same : c = m
      · subst same
        rw [bytes_cons, utf8EncodeChar_of_small small.1, List.singleton_append,
          List.isPrefixOf_cons_cons, beq_self_eq_true, Bool.true_and, ih small.2,
          List.cons_prefix_cons]
        exact (and_iff_right rfl).symm
      · have apart : ¬ m :: more <+: c :: rest := fun fits =>
          same (List.cons_prefix_cons.1 fits).1.symm
        refine iff_of_false (fun fits => same (first.1 ?_)) apart
        obtain ⟨others, shape⟩ := List.isPrefixOf_iff_prefix.1 fits
        rw [← shape]
        rfl

end Marks

end WikiPress.Text

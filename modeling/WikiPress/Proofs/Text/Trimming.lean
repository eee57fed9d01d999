import Mathlib.Data.List.DropRight
import WikiPress.Text.Space

/-!
# Trimming from the front

Trimming the end of a text is defined through its reverse. Read from the front it drops a character
exactly where it is white space with nothing left behind it (`trimEnd_cons`), so the trimming of the
two ends can be done in either order and need not be done twice.
-/

namespace WikiPress.Text

/-- A character stays in front of what is left of the text behind it, and of nothing where it is no
white space. -/
theorem trimEnd_cons (c : Char) (rest : List Char) :
    trimEnd (c :: rest) =
      if trimEnd rest = [] then (if isSpace c then [] else [c]) else c :: trimEnd rest := by
  unfold trimEnd
  rw [List.reverse_cons, List.dropWhile_append]
  by_cases empty : rest.reverse.dropWhile isSpace = []
  · rw [if_pos (List.isEmpty_iff.2 empty), empty, List.reverse_nil, if_pos rfl,
      List.dropWhile_cons]
    split <;> rfl
  · rw [if_neg fun none => empty (List.isEmpty_iff.1 none), if_neg (by simpa using empty),
      List.reverse_append]
    rfl

/-- What stands in front of a text that is not all white space is kept. -/
theorem trimEnd_append (before : List Char) {text : List Char} (filled : trimEnd text ≠ []) :
    trimEnd (before ++ text) = before ++ trimEnd text := by
  induction before with
  | nil => rfl
  | cons c rest ih =>
    have more : rest ++ trimEnd text ≠ [] := by simp [filled]
    rw [List.cons_append, trimEnd_cons, ih, if_neg more, List.cons_append]

/-- White space behind a text is dropped. -/
theorem trimEnd_concat {c : Char} (space : isSpace c = true) (text : List Char) :
    trimEnd (text ++ [c]) = trimEnd text := by
  unfold trimEnd
  rw [List.reverse_append, List.reverse_singleton, List.singleton_append,
    List.dropWhile_cons_of_pos space]

/-- White space in front of a text is dropped. -/
theorem trimStart_cons_space {c : Char} (space : isSpace c = true) (rest : List Char) :
    trimStart (c :: rest) = trimStart rest := List.dropWhile_cons_of_pos space

/-- Any other character is where the text starts. -/
theorem trimStart_cons {c : Char} (filled : isSpace c = false) (rest : List Char) :
    trimStart (c :: rest) = c :: rest := List.dropWhile_cons_of_neg (by simp [filled])

/-- The two ends can be trimmed in either order. -/
theorem trimStart_trimEnd (text : List Char) : trimStart (trimEnd text) = trim text := by
  unfold trim
  induction text with
  | nil => rfl
  | cons c rest ih =>
    rw [trimEnd_cons]
    cases space : isSpace c with
    | true =>
      rw [trimStart_cons_space space, ← ih]
      split
      · next empty => rw [empty]; rfl
      · rw [trimStart_cons_space space]
    | false =>
      rw [trimStart_cons space, trimEnd_cons, space, if_neg Bool.false_ne_true]
      split <;> exact trimStart_cons space _

/-- The end need not be trimmed twice. -/
theorem trimEnd_trimEnd (text : List Char) : trimEnd (trimEnd text) = trimEnd text := by
  induction text with
  | nil => rfl
  | cons c rest ih =>
    rw [trimEnd_cons]
    split
    · cases space : isSpace c
      · rw [if_neg Bool.false_ne_true, trimEnd_cons, space]
        rfl
      · rfl
    · next filled => rw [trimEnd_cons, ih, if_neg filled]

/-- A text that is trimmed at its end is trimmed as before. -/
theorem trim_trimEnd (text : List Char) : trim (trimEnd text) = trim text := by
  rw [← trimStart_trimEnd, trimEnd_trimEnd, trimStart_trimEnd]

/-- Trimming a trimmed text leaves it as it is. -/
theorem trim_trim (text : List Char) : trim (trim text) = trim text := by
  have start : trimStart (trim text) = trim text := by
    rw [← trimStart_trimEnd]
    exact List.dropWhile_idempotent _ _
  calc trim (trim text) = trimEnd (trimStart (trim text)) := rfl
    _ = trimEnd (trimEnd (trimStart text)) := by rw [start, trim]
    _ = trim text := trimEnd_trimEnd _

/-- Of a text that is not all white space something is left at either end. -/
theorem trimEnd_ne_nil {text : List Char} (filled : trim text ≠ []) : trimEnd text ≠ [] := by
  intro empty
  rw [← trimStart_trimEnd, empty] at filled
  exact filled rfl

/-- Trimming brings in no characters. -/
theorem trim_subset (text : List Char) : trim text ⊆ text := by
  intro c member
  have back : c ∈ (trimStart text).reverse.dropWhile isSpace := List.mem_reverse.1 member
  have inner := List.mem_reverse.1 ((List.dropWhile_sublist isSpace).subset back)
  exact (List.dropWhile_sublist isSpace).subset inner

/-- A text is what is left of it with white space around. -/
theorem exists_trim (text : List Char) : ∃ front back, text = front ++ trim text ++ back ∧
    (∀ c ∈ front, isSpace c = true) ∧ ∀ c ∈ back, isSpace c = true := by
  have start : text = text.takeWhile isSpace ++ trimStart text :=
    List.takeWhile_append_dropWhile.symm
  have stop : trimStart text =
      trim text ++ ((trimStart text).reverse.takeWhile isSpace).reverse := by
    rw [trim, trimEnd, ← List.reverse_append, List.takeWhile_append_dropWhile, List.reverse_reverse]
  refine ⟨text.takeWhile isSpace, ((trimStart text).reverse.takeWhile isSpace).reverse, ?_, ?_, ?_⟩
  · rw [List.append_assoc, ← stop, ← start]
  · exact fun c member => List.mem_takeWhile_imp member
  · exact fun c member => List.mem_takeWhile_imp (List.mem_reverse.1 member)

/-- Trimming keeps what is no white space. -/
theorem mem_trim_iff {c : Char} (filled : isSpace c = false) {text : List Char} :
    c ∈ trim text ↔ c ∈ text := by
  obtain ⟨front, back, split, before, behind⟩ := exists_trim text
  constructor
  · exact fun member => trim_subset text member
  · intro member
    rw [split, List.mem_append, List.mem_append] at member
    rcases member with (early | inside) | late
    · rw [before c early] at filled
      cases filled
    · exact inside
    · rw [behind c late] at filled
      cases filled

/-- A text that begins with something else than white space begins so when it is trimmed. -/
theorem head?_trim {c : Char} (filled : isSpace c = false) (rest : List Char) :
    (trim (c :: rest)).head? = some c := by
  rw [trim, trimStart_cons filled, trimEnd_cons, filled]
  split <;> rfl

/-- A text without white space at its ends is trimmed already. -/
theorem trim_eq_self {text : List Char} (front : ∀ c ∈ text.head?, isSpace c = false)
    (back : ∀ c ∈ text.getLast?, isSpace c = false) : trim text = text := by
  have start : trimStart text = text := by
    cases text with
    | nil => rfl
    | cons c rest => exact trimStart_cons (front c rfl) rest
  rw [trim, start]
  -- from behind, the last character is the first one met
  cases shape : text.reverse with
  | nil => rw [trimEnd, shape, List.dropWhile_nil, ← shape, List.reverse_reverse]
  | cons last more =>
    have filled : isSpace last = false := by
      apply back
      rw [← List.head?_reverse, shape]
      rfl
    rw [trimEnd, shape, List.dropWhile_cons_of_neg (by simp [filled]), ← shape,
      List.reverse_reverse]

/-- A space behind a text is trimmed. -/
theorem trim_concat {c : Char} (space : isSpace c = true) (text : List Char) :
    trim (text ++ [c]) = trim text := by
  rw [← trimStart_trimEnd, trimEnd_concat space, trimStart_trimEnd]

end WikiPress.Text

import Mathlib.Data.List.TakeWhile
import WikiPress.Proofs.Source.Kinds
import WikiPress.Proofs.Text.Cuts

/-!
# Lines of sources in a row

A source is a text without a line feed, or such a text and a line feed with a source behind it
(`source_induction`), and its lines are read along this shape. A line feed therefore divides the
lines of a source: those before it do not depend on what follows, and those behind it only count on
(`linesFrom_break`). What a line feed adds to a source that stands before it is at most one blank
line (`linesFrom_ended`), and texts without line feeds are the lines of the source that is made of
them (`exists_linesFrom_ended`, `map_text_linesFrom_joined`). A source can also be cut behind a
number of lines, and keeps the lines in front of the cut (`linesFrom_front`).
-/

namespace WikiPress

/-- What holds of texts without a line feed, and of such a text with a line feed and a source for
which it holds behind it, holds of all sources. -/
theorem source_induction {P : List Char → Prop} (last : ∀ text, '\n' ∉ text → P text)
    (line : ∀ text behind, '\n' ∉ text → P behind → P (text ++ '\n' :: behind)) :
    ∀ source, P source := by
  intro source
  induction size : source.length using Nat.strongRecOn generalizing source with
  | ind bound ih =>
    cases cut : Text.cut '\n' source with
    | none => exact last source (Text.cut_eq_none_iff.1 cut)
    | some parts =>
      obtain ⟨same, absent⟩ := Text.cut_eq_some_iff.1 cut
      have shorter : parts.2.length < bound := by
        rw [← size, same, List.length_append, List.length_cons]
        omega
      rw [same]
      exact line _ _ absent (ih _ shorter _ rfl)

namespace Line

/-- No character of a text without a line feed breaks it. -/
theorem unbroken {text : List Char} (single : '\n' ∉ text) :
    ∀ c ∈ text, decide (c ≠ '\n') = true := by
  intro c member
  rw [decide_eq_true_eq]
  rintro rfl
  exact single member

/-- A carriage return at the end is taken off, and no more than one. -/
@[simp]
theorem withoutReturn_concat (text : List Char) : withoutReturn (text ++ ['\r']) = text := by
  rw [withoutReturn, if_pos List.getLast?_concat, List.dropLast_concat]

/-- A text that ends in another character is kept. -/
theorem withoutReturn_eq_self {text : List Char} (bare : text.getLast? ≠ some '\r') :
    withoutReturn text = text := if_neg bare

/-- Nothing but one carriage return at the end is taken off. -/
theorem withoutReturn_append (text : List Char) :
    withoutReturn text ++ (if text.getLast? = some '\r' then ['\r'] else []) = text := by
  by_cases returned : text.getLast? = some '\r'
  · obtain ⟨init, rfl⟩ := List.getLast?_eq_some_iff.1 returned
    rw [withoutReturn_concat, if_pos returned]
  · rw [withoutReturn_eq_self returned, if_neg returned, List.append_nil]

/-- An empty source has no lines. -/
@[simp]
theorem linesFrom_nil (count : Nat) : linesFrom count [] = [] := by
  rw [linesFrom]
  rfl

/-- A text up to a line feed is the next line. -/
theorem next?_line {text : List Char} (single : '\n' ∉ text) (count : Nat) (behind : List Char) :
    next? count (text ++ '\n' :: behind) = some (⟨withoutReturn text, count + 1⟩, behind) := by
  have kept := unbroken single
  rw [next?, if_neg (by simp), breakAt, List.takeWhile_append_of_pos kept,
    List.dropWhile_append_of_pos kept]
  simp

/-- A text without a line feed is the next line, if there is any text. -/
theorem next?_last {text : List Char} (single : '\n' ∉ text) (filled : text ≠ []) (count : Nat) :
    next? count text = some (⟨withoutReturn text, count + 1⟩, []) := by
  have kept := unbroken single
  rw [next?, if_neg filled, breakAt, List.takeWhile_eq_self_iff.2 kept,
    List.dropWhile_eq_nil_iff.2 kept]
  rfl

/-- The next line is a text without a line feed, up to the first one or to the end. -/
theorem exists_of_next? {count : Nat} {source behind : List Char} {line : Line}
    (found : next? count source = some (line, behind)) :
    ∃ text tail, source = text ++ tail ∧ '\n' ∉ text ∧ line = ⟨withoutReturn text, count + 1⟩ ∧
      (tail = '\n' :: behind ∨ tail = [] ∧ behind = [] ∧ text ≠ []) := by
  cases cut : Text.cut '\n' source with
  | some parts =>
    obtain ⟨text, rest⟩ := parts
    obtain ⟨rfl, single⟩ := Text.cut_eq_some_iff.1 cut
    rw [next?_line single] at found
    obtain ⟨rfl, rfl⟩ := Prod.mk.inj (Option.some.inj found)
    exact ⟨text, _, rfl, single, rfl, .inl rfl⟩
  | none =>
    have single : '\n' ∉ source := Text.cut_eq_none_iff.1 cut
    have filled : source ≠ [] := by
      rintro rfl
      cases found
    rw [next?_last single filled] at found
    obtain ⟨rfl, rfl⟩ := Prod.mk.inj (Option.some.inj found)
    exact ⟨source, [], (List.append_nil _).symm, single, rfl, .inr ⟨rfl, rfl, filled⟩⟩

/-- A text up to a line feed is the first line. -/
theorem linesFrom_line {text : List Char} (single : '\n' ∉ text) (count : Nat)
    (behind : List Char) : linesFrom count (text ++ '\n' :: behind) =
      ⟨withoutReturn text, count + 1⟩ :: linesFrom (count + 1) behind := by
  rw [linesFrom, next?_line single]

/-- A text without a line feed is the last line, if there is any text. -/
theorem linesFrom_last {text : List Char} (single : '\n' ∉ text) (filled : text ≠ [])
    (count : Nat) : linesFrom count text = [⟨withoutReturn text, count + 1⟩] := by
  rw [linesFrom, next?_last single filled]
  exact congrArg _ (linesFrom_nil _)

/-- No line of a source holds a line feed. -/
theorem single_of_mem {source : List Char} {count : Nat} {line : Line}
    (member : line ∈ linesFrom count source) : '\n' ∉ line.text := by
  have kept : ∀ text : List Char, withoutReturn text ⊆ text := by
    intro text
    unfold withoutReturn
    split
    · exact (List.dropLast_sublist text).subset
    · exact List.Subset.refl text
  induction source using source_induction generalizing count with
  | last text single =>
    by_cases empty : text = []
    · rw [empty, linesFrom_nil] at member
      cases member
    · rw [linesFrom_last single empty, List.mem_singleton] at member
      rw [member]
      exact fun inside => single (kept text inside)
  | line text behind single ih =>
    rw [linesFrom_line single, List.mem_cons] at member
    rcases member with rfl | later
    · exact fun inside => single (kept text inside)
    · exact ih later

/-- A line feed divides the lines of a source; those behind it count on. -/
theorem linesFrom_break (before behind : List Char) (count : Nat) :
    linesFrom count (before ++ '\n' :: behind) = linesFrom count (before ++ ['\n']) ++
      linesFrom (count + (linesFrom count (before ++ ['\n'])).length) behind := by
  induction before using source_induction generalizing count with
  | last text single =>
    rw [linesFrom_line single, linesFrom_line single, linesFrom_nil]
    rfl
  | line text rest single ih =>
    have moved : count + 1 + (linesFrom (count + 1) (rest ++ ['\n'])).length =
        count + ((linesFrom (count + 1) (rest ++ ['\n'])).length + 1) := by omega
    simp only [List.append_assoc, List.cons_append]
    rw [linesFrom_line single, linesFrom_line single, ih, List.cons_append, List.length_cons,
      moved]

/-- A line feed behind a source adds at most one line, and that is blank. -/
theorem linesFrom_ended (source : List Char) (count : Nat) :
    ∃ added, (∀ line ∈ added, line.isBlank = true) ∧
      linesFrom count (source ++ ['\n']) = linesFrom count source ++ added := by
  induction source using source_induction generalizing count with
  | last text single =>
    rw [linesFrom_line single, linesFrom_nil]
    by_cases empty : text = []
    · refine ⟨[⟨[], count + 1⟩], by simp [isBlank], ?_⟩
      rw [empty, linesFrom_nil]
      rfl
    · refine ⟨[], by simp, ?_⟩
      rw [linesFrom_last single empty]
      rfl
  | line text behind single ih =>
    obtain ⟨added, blank, rest⟩ := ih (count + 1)
    refine ⟨added, blank, ?_⟩
    simp only [List.append_assoc, List.cons_append]
    rw [linesFrom_line single, linesFrom_line single, rest, List.cons_append]

/-- Texts with a line feed behind each are the first lines of a source. -/
theorem exists_linesFrom_ended {texts : List (List Char)} (single : ∀ text ∈ texts, '\n' ∉ text)
    (count : Nat) (behind : List Char) :
    ∃ first, first.map Line.text = texts.map withoutReturn ∧
      linesFrom count (texts.flatMap (· ++ ['\n']) ++ behind) =
        first ++ linesFrom (count + texts.length) behind := by
  induction texts generalizing count with
  | nil => exact ⟨[], rfl, rfl⟩
  | cons text more ih =>
    rw [List.forall_mem_cons] at single
    obtain ⟨first, own, rest⟩ := ih single.2 (count + 1)
    refine ⟨⟨withoutReturn text, count + 1⟩ :: first, by rw [List.map_cons, own, List.map_cons], ?_⟩
    rw [List.flatMap_cons, List.append_assoc, List.append_assoc, List.singleton_append,
      linesFrom_line single.1, rest, List.cons_append, List.length_cons, Nat.add_assoc,
      Nat.add_comm 1]

/-- Texts with line feeds between them are the lines of a source, if none is empty. -/
theorem map_text_linesFrom_joined {texts : List (List Char)}
    (single : ∀ text ∈ texts, '\n' ∉ text) (filled : ∀ text ∈ texts, text ≠ []) (count : Nat) :
    (linesFrom count (Text.joined '\n' texts)).map Line.text = texts.map withoutReturn := by
  induction texts generalizing count with
  | nil => rw [Text.joined, linesFrom_nil, List.map_nil, List.map_nil]
  | cons text more ih =>
    rw [List.forall_mem_cons] at single filled
    cases more with
    | nil =>
      rw [Text.joined, linesFrom_last single.1 filled.1, List.map_singleton, List.map_singleton]
    | cons next others =>
      have step : Text.joined '\n' (text :: next :: others) =
          text ++ '\n' :: Text.joined '\n' (next :: others) := rfl
      rw [step, linesFrom_line single.1, List.map_cons, ih single.2 filled.2]
      rfl

/-- The line with `count` lines more in front of it. -/
def moved (count : Nat) (line : Line) : Line := { line with number := line.number + count }

/-- Lines that are counted on are the lines of the source by itself, moved. -/
theorem linesFrom_moved (source : List Char) (count more : Nat) :
    linesFrom (count + more) source = (linesFrom count source).map (moved more) := by
  have next : count + more + 1 = count + 1 + more := by omega
  induction source using source_induction generalizing count with
  | last text single =>
    by_cases empty : text = []
    · simp only [empty, linesFrom_nil, List.map_nil]
    · simp only [linesFrom_last single empty, List.map_cons, List.map_nil, moved, next]
  | line text behind single ih =>
    simp only [linesFrom_line single, List.map_cons, moved, next, ih (count + 1) (by omega)]

/-- The lines of a source are numbered one after the other. -/
theorem map_number_linesFrom (source : List Char) (count : Nat) :
    (linesFrom count source).map (·.number) =
      List.range' (count + 1) (linesFrom count source).length := by
  induction source using source_induction generalizing count with
  | last text single =>
    by_cases empty : text = []
    · rw [empty, linesFrom_nil]
      rfl
    · rw [linesFrom_last single empty]
      rfl
  | line text behind single ih =>
    rw [linesFrom_line single, List.map_cons, List.length_cons, ih (count + 1)]
    rfl

/-- The number of a line of a source is that of the lines in front of it and one more. -/
theorem number_of_linesOf {source : List Char} {before behind : List Line} {line : Line}
    (split : linesOf source = before ++ line :: behind) : line.number = before.length + 1 := by
  have numbers := map_number_linesFrom source 0
  change (linesOf source).map (·.number) = List.range' 1 (linesOf source).length at numbers
  have here := congrArg (·[before.length]?) numbers
  rw [split] at here
  simp at here
  omega

/-- The first `n` lines of a source, with their line breaks. -/
def front : Nat → List Char → List Char
  | 0, _ => []
  | n + 1, source =>
    source.takeWhile (· ≠ '\n') ++ (source.dropWhile (· ≠ '\n')).take 1 ++
      front n (breakAt source).2

/-- Nothing is in front of an empty source. -/
@[simp]
theorem front_nil (n : Nat) : front n [] = [] := by
  induction n with
  | zero => rfl
  | succ n ih =>
    rw [front]
    exact ih

/-- A text up to a line feed is the first of the front lines. -/
theorem front_line {text : List Char} (single : '\n' ∉ text) (n : Nat) (behind : List Char) :
    front (n + 1) (text ++ '\n' :: behind) = text ++ '\n' :: front n behind := by
  have kept := unbroken single
  rw [front, breakAt, List.takeWhile_append_of_pos kept, List.dropWhile_append_of_pos kept]
  simp

/-- A text without a line feed is no more than one line. -/
theorem front_last {text : List Char} (single : '\n' ∉ text) (n : Nat) :
    front (n + 1) text = text := by
  have kept := unbroken single
  rw [front, breakAt, List.takeWhile_eq_self_iff.2 kept, List.dropWhile_eq_nil_iff.2 kept]
  simp

/-- The lines of the front of a source are its first lines. -/
theorem linesFrom_front (n : Nat) (source : List Char) (count : Nat) :
    linesFrom count (front n source) = (linesFrom count source).take n := by
  induction source using source_induction generalizing n count with
  | last text single =>
    cases n with
    | zero => exact linesFrom_nil count
    | succ n =>
      rw [front_last single]
      by_cases empty : text = []
      · rw [empty, linesFrom_nil]
        rfl
      · rw [linesFrom_last single empty, List.take_succ_cons, List.take_nil]
  | line text behind single ih =>
    cases n with
    | zero => exact linesFrom_nil count
    | succ n =>
      rw [front_line single, linesFrom_line single, linesFrom_line single, ih, List.take_succ_cons]

/-- Two line feeds put blank lines between the lines of two sources, at least one. -/
theorem linesOf_gap (before behind : List Char) :
    ∃ gap, gap ≠ [] ∧ (∀ line ∈ gap, line.isBlank = true) ∧
      linesOf (before ++ ['\n', '\n']) = linesOf before ++ gap ∧
      linesOf (before ++ '\n' :: '\n' :: behind) = linesOf before ++ gap ++
        (linesOf behind).map (moved (linesOf (before ++ ['\n', '\n'])).length) := by
  obtain ⟨added, blank, ended⟩ := linesFrom_ended before 0
  have empty : ∀ (count : Nat) (rest : List Char), linesFrom count ('\n' :: rest) =
      ⟨[], count + 1⟩ :: linesFrom (count + 1) rest :=
    fun count rest => linesFrom_line List.not_mem_nil count rest
  have first := linesFrom_break before ['\n'] 0
  have whole := linesFrom_break before ('\n' :: behind) 0
  rw [empty, linesFrom_nil, ended] at first
  rw [empty, ended] at whole
  refine ⟨added ++ [⟨[], (linesFrom 0 before ++ added).length + 1⟩], by simp, ?_, ?_, ?_⟩
  · rw [List.forall_mem_append, List.forall_mem_singleton]
    exact ⟨blank, rfl⟩
  · show linesFrom 0 _ = linesFrom 0 before ++ _
    rw [first, List.append_assoc, Nat.zero_add]
  · show linesFrom 0 _ = linesFrom 0 before ++ _ ++ (linesFrom 0 behind).map (moved
      (linesFrom 0 _).length)
    rw [whole, first, ← linesFrom_moved]
    simp only [List.append_assoc, List.cons_append, List.nil_append, List.length_append,
      List.length_singleton, Nat.zero_add, Nat.add_assoc]

/-- A line between two sources stands behind the lines of the first, with at most a blank line
before it, and the lines of the second follow it. -/
theorem linesOf_between {text : List Char} (single : '\n' ∉ text) (before behind : List Char) :
    ∃ (added : List Line) (count more : Nat), (∀ line ∈ added, line.isBlank = true) ∧
      linesOf (before ++ '\n' :: (text ++ '\n' :: behind)) = linesOf before ++
        (added ++ ⟨withoutReturn text, count⟩ :: (linesOf behind).map (moved more)) := by
  obtain ⟨added, blank, ended⟩ := linesFrom_ended before 0
  have whole := linesFrom_break before (text ++ '\n' :: behind) 0
  rw [linesFrom_line single, ended, List.append_assoc] at whole
  rw [← Nat.zero_add (0 + _ + 1), linesFrom_moved] at whole
  exact ⟨added, _, _, blank, whole⟩

end Line

end WikiPress

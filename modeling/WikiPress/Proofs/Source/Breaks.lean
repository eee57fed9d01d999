import WikiPress.Proofs.Source.Mistakes
import WikiPress.Proofs.Source.Offsets
import WikiPress.Statistics

/-!
# Line breaks

The lines of a source and how each of them ends make up the source again (`Line.exists_endings`): a
line is what stands in front of a line feed or of the end of the source, and at most one carriage
return at its end is not of its text. Counting the lines is therefore counting the line feeds, with
one more for a text behind the last of them (`Line.length_linesFrom`), and gives what counting the
lines of the text gives (`Line.length_linesFrom_eq`). Because a carriage return in
front of a line feed is of no line, a document does not depend on whether line feeds have one
(`Document.parse_withReturns`).
-/

namespace WikiPress

/-- What stands behind the text of a line: a carriage return or none, and a line feed or none. -/
structure Ending where
  returned : Bool
  fed : Bool
  deriving DecidableEq

namespace Ending

/-- The text of a line and the carriage return behind it. -/
def content (ending : Ending) (line : Line) : List Char :=
  line.text ++ if ending.returned then ['\r'] else []

/-- A line with its ending. -/
def written (ending : Ending) (line : Line) : List Char :=
  ending.content line ++ if ending.fed then ['\n'] else []

/-- The ending of a line with the given content. -/
def ofContent (content : List Char) (fed : Bool) : Ending :=
  ⟨content.getLast? = some '\r', fed⟩

/-- The ending of a line puts back what was taken off its content. -/
theorem content_ofContent (content : List Char) (fed : Bool) (number : Nat) :
    (ofContent content fed).content ⟨Line.withoutReturn content, number⟩ = content := by
  rw [Ending.content, ofContent]
  simp only [decide_eq_true_eq]
  exact Line.withoutReturn_append content

end Ending

namespace Line

/-- The endings belong to the lines of a source: with them the lines make up the source, all but the
last end in a line feed, and a line has no carriage return at the end of its content other than the
one that is of its ending. -/
structure EndWith (lines : List Line) (endings : List Ending) (source : List Char) : Prop where
  length : endings.length = lines.length
  whole : source = (List.zipWith Ending.written endings lines).flatten
  fed : ∀ ending ∈ endings.dropLast, ending.fed = true
  returned : ∀ pair ∈ endings.zip lines,
    (pair.1.content pair.2).getLast? = some '\r' ↔ pair.1.returned = true

/-- A source without lines is empty. -/
theorem EndWith.nil : EndWith [] [] [] := ⟨rfl, rfl, by simp, by simp⟩

/-- A line can be put in front of a source, with a line feed behind it where the source has lines. -/
theorem EndWith.cons {lines : List Line} {endings : List Ending} {source : List Char}
    (rest : EndWith lines endings source) (text : List Char) (number : Nat) (fed : Bool)
    (last : fed = false → lines = []) :
    EndWith (⟨withoutReturn text, number⟩ :: lines) (.ofContent text fed :: endings)
      (text ++ (if fed then ['\n'] else []) ++ source) where
  length := congrArg (· + 1) rest.length
  whole := by
    rw [List.zipWith_cons_cons, List.flatten_cons, ← rest.whole, Ending.written,
      Ending.content_ofContent]
    rfl
  fed := by
    intro ending member
    cases endings with
    | nil => cases member
    | cons next others =>
      rw [List.dropLast_cons_of_ne_nil (List.cons_ne_nil _ _), List.mem_cons] at member
      rcases member with rfl | later
      · by_contra unfed
        have none := rest.length
        rw [last (Bool.eq_false_iff.2 unfed)] at none
        cases none
      · exact rest.fed ending later
  returned := by
    rw [List.zip_cons_cons, List.forall_mem_cons]
    refine ⟨?_, rest.returned⟩
    rw [Ending.content_ofContent, Ending.ofContent, decide_eq_true_eq]

/-- The lines of a source have endings that make up the source with them. -/
theorem exists_endings (source : List Char) (count : Nat) :
    ∃ endings, EndWith (linesFrom count source) endings source := by
  induction source using source_induction generalizing count with
  | last text single =>
    by_cases empty : text = []
    · rw [empty, linesFrom_nil]
      exact ⟨[], EndWith.nil⟩
    · have one := EndWith.nil.cons text (count + 1) false (fun _ => rfl)
      rw [if_neg Bool.false_ne_true, List.append_nil, List.append_nil] at one
      rw [linesFrom_last single empty]
      exact ⟨_, one⟩
  | line text behind single ih =>
    obtain ⟨endings, rest⟩ := ih (count + 1)
    have more := rest.cons text (count + 1) true nofun
    rw [if_pos rfl, List.append_assoc, List.singleton_append] at more
    rw [linesFrom_line single]
    exact ⟨_, more⟩

/-- There are as many lines as line feeds, and one more if there is text behind the last. -/
theorem length_linesFrom (source : List Char) (count : Nat) :
    (linesFrom count source).length = source.count '\n' +
      if source = [] ∨ source.getLast? = some '\n' then 0 else 1 := by
  induction source using source_induction generalizing count with
  | last text single =>
    by_cases empty : text = []
    · rw [empty, linesFrom_nil]
      rfl
    · have unended : ¬ (text = [] ∨ text.getLast? = some '\n') := by
        rintro (none | ended)
        · exact empty none
        · exact single (List.mem_of_getLast? ended)
      rw [linesFrom_last single empty, List.count_eq_zero_of_not_mem single, if_neg unended]
      rfl
  | line text behind single ih =>
    have ends : (text ++ '\n' :: behind = [] ∨
        (text ++ '\n' :: behind).getLast? = some '\n') ↔
          (behind = [] ∨ behind.getLast? = some '\n') := by
      cases behind with
      | nil => simp
      | cons c rest => simp [List.getLast?_append, List.getLast?_cons_cons]
    simp only [ends]
    rw [linesFrom_line single, List.length_cons, ih, List.count_append,
      List.count_eq_zero_of_not_mem single, List.count_cons_self]
    omega

/-- The lines that are read are as many as those of the text: at the end of the last line, reading
takes off a carriage return where the text keeps it. -/
theorem length_linesFrom_eq (source : List Char) (count : Nat) :
    (linesFrom count source).length = (Text.lines source).length := by
  induction source using source_induction generalizing count with
  | last text single =>
    rw [Text.lines, Text.pieces_of_not_mem single]
    by_cases empty : text = []
    · rw [empty, linesFrom_nil]
      rfl
    · rw [linesFrom_last single empty]
      simp [empty]
  | line text behind single ih =>
    have more := Text.pieces_ne_nil '\n' behind
    rw [linesFrom_line single, List.length_cons, ih, Text.lines, Text.lines,
      Text.pieces_append single, List.dropLast_cons_of_ne_nil more, List.getLast?_cons,
      List.getLast?_eq_some_getLast more, List.map_cons, List.cons_append, List.length_cons]
    rfl

end Line

/-- A bookmark gives the lines that are left, one for each call, and then none. -/
theorem Bookmark.answers_next {mark : Bookmark} {lines : List Line}
    (left : mark.lines.drop mark.taken = lines) :
    ∃ answers, Bookmark.reader.answers mark (List.replicate (lines.length + 1) .next) =
        some answers ∧
      answers.map LineReader.Answer.given =
        lines.map (fun line => LineReader.Given.line (some line)) ++ [.line none] := by
  have here : mark.line? = lines.head? := by rw [Bookmark.line?, ← List.head?_drop, left]
  induction lines generalizing mark with
  | nil =>
    have ended : mark.next = (none, { mark with peeked := false }) := by
      rw [Bookmark.next, here]
      rfl
    refine ⟨[⟨.line mark.next.1, mark.next.2.isAtEnd, mark.next.2.lineNumber⟩], rfl, ?_⟩
    rw [ended]
    rfl
  | cons line more ih =>
    have taken : mark.next = (some line, { mark with taken := mark.taken + 1, peeked := false }) :=
      Bookmark.next_eq here mark.peeked
    have behind : mark.lines.drop (mark.taken + 1) = more :=
      (List.cons.inj ((Bookmark.drop_eq_cons here).symm.trans left)).2
    obtain ⟨others, rest, given⟩ := @ih { mark with taken := mark.taken + 1, peeked := false }
      behind (by rw [Bookmark.line?, ← List.head?_drop, behind])
    refine ⟨⟨.line (some line), mark.next.2.isAtEnd, mark.next.2.lineNumber⟩ :: others, ?_, ?_⟩
    · rw [List.length_cons, List.replicate_succ]
      show ((Bookmark.reader.answers mark.next.2 _).bind fun others => some
        (⟨.line mark.next.1, mark.next.2.isAtEnd, mark.next.2.lineNumber⟩ :: others)) = _
      rw [taken, rest]
      rfl
    · rw [List.map_cons, given]
      rfl

/-- The lines of a source, as they are read one by one by offsets until there is none, are numbered
from one on, hold no line feed, and make up the source with their endings. There are as many as line
feeds, and one more for a text behind the last, and this is the number of lines in the statistics. -/
theorem Line.linesOf_lossless (source : String) :
    (∃ answers, ByteCursor.reader.answers (ByteCursor.ofText source.toList)
        (List.replicate ((Line.linesOf source.toList).length + 1) .next) = some answers ∧
      answers.map LineReader.Answer.given =
        (Line.linesOf source.toList).map (fun line => LineReader.Given.line (some line)) ++
          [.line none]) ∧
    (Line.linesOf source.toList).map (·.number) =
      List.range' 1 (Line.linesOf source.toList).length ∧
    (∀ line ∈ Line.linesOf source.toList, '\n' ∉ line.text) ∧
    (∃ endings, Line.EndWith (Line.linesOf source.toList) endings source.toList) ∧
    (Line.linesOf source.toList).length = source.toList.count '\n' +
      (if source.toList = [] ∨ source.toList.getLast? = some '\n' then 0 else 1) ∧
    ∀ d, (Statistics.of d source).lines = (Line.linesOf source.toList).length := by
  refine ⟨?_, map_number_linesFrom source.toList 0, fun line => single_of_mem,
    exists_endings source.toList 0, length_linesFrom source.toList 0,
    fun d => (length_linesFrom_eq source.toList 0).symm⟩
  rw [ByteCursor.refines_cursor.answers_eq (ByteCursor.At.start source.toList),
    Cursor.refines_bookmark.answers_eq (Cursor.At.start source.toList)]
  exact Bookmark.answers_next rfl

example : (Line.linesOf ['a', '\r', '\r', '\n', '\n', '\r']).map (·.text) =
    [['a', '\r'], [], []] := by decide +kernel

/-- The text with a carriage return in front of the line feeds that are chosen; they are counted
from zero. -/
def withReturns : (Nat → Bool) → List Char → List Char
  | _, [] => []
  | chosen, c :: rest =>
    if c = '\n' then
      (if chosen 0 then ['\r'] else []) ++ '\n' :: withReturns (fun n => chosen (n + 1)) rest
    else c :: withReturns chosen rest

section Returns

variable {text : List Char}

/-- Nothing is put into a text without line feeds. -/
theorem withReturns_last (single : '\n' ∉ text) (chosen : Nat → Bool) :
    withReturns chosen text = text := by
  induction text with
  | nil => rfl
  | cons c rest ih =>
    rw [List.mem_cons, not_or] at single
    rw [withReturns, if_neg (Ne.symm single.1), ih single.2]

/-- The first line feed has a carriage return in front of it where it is chosen. -/
theorem withReturns_line (single : '\n' ∉ text) (chosen : Nat → Bool) (behind : List Char) :
    withReturns chosen (text ++ '\n' :: behind) = text ++ (if chosen 0 then ['\r'] else []) ++
      '\n' :: withReturns (fun n => chosen (n + 1)) behind := by
  induction text with
  | nil => rw [List.nil_append, withReturns, if_pos rfl, List.nil_append]
  | cons c rest ih =>
    rw [List.mem_cons, not_or] at single
    rw [List.cons_append, withReturns, if_neg (Ne.symm single.1), ih single.2]
    rfl

end Returns

namespace Line

/-- The lines of a source do not tell which of its line feeds have a carriage return in front. -/
theorem linesFrom_withReturns {source : List Char} (bare : '\r' ∉ source) (chosen : Nat → Bool)
    (count : Nat) : linesFrom count (withReturns chosen source) = linesFrom count source := by
  induction source using source_induction generalizing chosen count with
  | last text single => rw [withReturns_last single]
  | line text behind single ih =>
    rw [List.mem_append, List.mem_cons, not_or, not_or] at bare
    obtain ⟨clean, _, rest⟩ := bare
    have kept : withoutReturn text = text :=
      withoutReturn_eq_self fun returned => clean (List.mem_of_getLast? returned)
    have unfed : '\n' ∉ text ++ if chosen 0 then ['\r'] else [] := by
      split <;> simp [single]
    have cut : withoutReturn (text ++ if chosen 0 then ['\r'] else []) = text := by
      split
      · exact withoutReturn_concat text
      · rw [List.append_nil, kept]
    rw [withReturns_line single, linesFrom_line unfed, linesFrom_line single, cut, kept, ih rest]

end Line

namespace Document

/-- Carriage returns in front of line feeds, whichever are chosen, change nothing: the document is
the same, or the mistake and its line are. -/
theorem parse_withReturns {source : String} (bare : '\r' ∉ source.toList) (root : Path)
    (chosen : Nat → Bool) :
    parse root (String.ofList (withReturns chosen source.toList)) = parse root source := by
  rw [parse, parse, String.toList_ofList, Line.linesOf, Line.linesFrom_withReturns bare]
  rfl

/-- Code with a carriage return at the end of every second line, and a list that is indented too far
with one behind the item in front. -/
theorem parse_withReturns_sample :
    ('\r' ∉ "```\n b\n\n```".toList ∧ ∃ d, parse ⟨""⟩ "```\r\n b\n\r\n```" = .ok d ∧
      (d.blocks.filterMap fun | .code _ text => some text | _ => none) = [" b\n\n"]) ∧
    '\r' ∉ "- i\n    - j".toList ∧
      parse ⟨""⟩ "- i\r\n    - j" = .error (.mistake .listIndentation 2) := by
  have code : '\r' ∉ "```\n b\n\n```".toList := by decide
  have list : '\r' ∉ "- i\n    - j".toList := by decide
  refine ⟨⟨code, ?_⟩, list, ?_⟩
  · have same : parse ⟨""⟩ "```\r\n b\n\r\n```" = parse ⟨""⟩ "```\n b\n\n```" :=
      parse_withReturns code ⟨""⟩ (fun n => n % 2 = 0)
    rw [same]
    exact exists_of_seen (by decide +kernel)
  · have same : parse ⟨""⟩ "- i\r\n    - j" = parse ⟨""⟩ "- i\n    - j" :=
      parse_withReturns list ⟨""⟩ (fun _ => true)
    rw [same]
    exact error_of_seen (by decide +kernel)

end Document

end WikiPress

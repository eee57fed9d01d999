import WikiPress.Proofs.Document.Gathering
import WikiPress.Proofs.Inline.Spaces
import WikiPress.Proofs.Source.White

/-!
# Paragraphs

The paragraphs of a document are the runs of text lines of its source, in order and each read as the
texts of its lines with spaces between them (`Document.paragraphs_of_parse`). White lines separate
paragraphs and give nothing (`WhiteSeparates`) exactly as far as they are blank: a white line that
is not blank is a text line, and only in front of all text of its run it makes no difference
(`Document.white_separates_iff`).
-/

namespace WikiPress

/-- The runs of paragraphs. -/
def paragraphRuns : Gathering (List Run) where
  heading _ _ := []
  item _ _ _ := []
  leaf
    | .paragraph runs => [runs]
    | _ => []

/-- The runs of the paragraphs of a document, in their order. -/
def Document.paragraphs (d : Document) : List (List Run) := gatherBlocks paragraphRuns d.blocks

/-- The runs of the paragraphs that parts give to a document. -/
def Part.paragraphs (parts : List Part) : List (List Run) :=
  gatherBlocks paragraphRuns (parts.filterMap Part.block?)

/-- The paragraphs of a document are those of its parts. -/
theorem Document.paragraphs_ofParts (parts : List Part) :
    (ofParts parts).paragraphs = Part.paragraphs parts := gatherBlocks_nestHeadings _ _

/-- The paragraphs of parts in a row. -/
theorem Part.paragraphs_append (own others : List Part) :
    paragraphs (own ++ others) = paragraphs own ++ paragraphs others := by
  rw [paragraphs, List.filterMap_append, gatherBlocks_append]
  rfl

/-- The runs that text lines in a row make. -/
def runsOfLines (run : List Line) : List Run := runsOf (Part.flowed (run.map Line.trimmed))

/-- Only a text line begins a paragraph. -/
theorem Part.paragraphs_of_read {root : Path} {line : Line} {more rest : List Line}
    {own : List Part} (other : line.flow? ≠ some .text)
    (made : read root line more = .ok (own, rest)) : paragraphs own = [] := by
  unfold read at made
  cases kind : LineKind.ofLine line with
  | text content => simp [Line.flow?, kind] at other
  | blank | rule | heading | row =>
    simp only [kind, Except.ok.injEq, Prod.mk.injEq] at made
    rw [← made.1]
    rfl
  | fence language =>
    simp only [kind] at made
    split at made
    · cases made
    · obtain ⟨rfl, _⟩ := Prod.mk.inj (Except.ok.inj made)
      rfl
  | inclusion locator =>
    simp only [kind] at made
    split at made
    · cases made
    · obtain ⟨rfl, _⟩ := Prod.mk.inj (Except.ok.inj made)
      rfl
  | directive name value =>
    simp only [kind, bind, Except.bind] at made
    cases given : ofDirective name value line.number with
    | error e => simp [given] at made
    | ok part =>
      simp only [given, Except.ok.injEq, Prod.mk.injEq] at made
      rw [← made.1]
      obtain ⟨_, rfl⟩ | ⟨_, rfl⟩ | ⟨_, rfl⟩ | ⟨_, rfl⟩ := ofDirective_cases given <;> rfl
  | item marker indent text =>
    simp only [kind, bind, Except.bind] at made
    split at made
    · cases made
    · next blocks listed =>
      obtain ⟨rfl, _⟩ := Prod.mk.inj (Except.ok.inj made)
      obtain ⟨_, gathered⟩ := (gathers_gatherBlocks paragraphRuns).listOf listed
      rw [paragraphs, filterMap_block?, gathered]
      exact List.flatMap_eq_nil_iff.2 fun _ _ => rfl

/-- What is read from a group has one paragraph if the group is a run of text lines, and else
none. -/
theorem paragraphs_readGroup {root : Path} {group : List Region} {own : List Part}
    (shape : IsGroup group) (made : readGroup root group = .ok own) :
    Part.paragraphs own = if group.all Region.isText then
      [runsOfLines (group.flatMap Region.lines)] else [] := by
  split
  · next texts =>
    obtain ⟨same, flows⟩ := run_of_isText texts
    rw [same, readGroup_texts root shape.lines_ne_nil flows] at made
    obtain rfl := Except.ok.inj made
    rfl
  · next other =>
    rw [Bool.not_eq_true] at other
    -- what is read from a group begins with its first line, and that is no text line
    have first : ∃ line more, group.flatMap Region.lines = line :: more ∧
        line.flow? ≠ some .text := by
      cases shape with
      | code opens =>
        obtain ⟨language, kind⟩ := Line.fence_of_opensCode opens
        exact ⟨_, _, by rw [List.flatMap_singleton, Region.lines], by simp [Line.flow?, kind]⟩
      | @run line taken _ joined =>
        refine ⟨line, taken, ?_, flow?_of_not_isText joined other⟩
        rw [List.flatMap_map]
        exact List.flatMap_singleton' _
    obtain ⟨line, more, lines, apart⟩ := first
    cases read : Part.read root line more with
    | error e => simp [readGroup, lines, read, Except.map] at made
    | ok found =>
      simp only [readGroup, lines, read] at made
      obtain rfl := Except.ok.inj made
      exact Part.paragraphs_of_read apart read

/-- What runs of text lines give is what groups give that are such runs. -/
theorem flatMap_textRunsOf {α : Type} (give : List Line → α) (lines : List Line) :
    ((groupsOf lines).flatMap fun group => if group.all Region.isText then
      [give (group.flatMap Region.lines)] else []) = (textRunsOf lines).map give := by
  unfold textRunsOf
  induction groupsOf lines with
  | nil => rfl
  | cons group more ih =>
    rw [List.flatMap_cons, ih, List.filter_cons]
    split <;> rfl

/-- The paragraphs of lines are their runs of text lines. -/
theorem paragraphs_of_ofLines {root : Path} {lines : List Line} {parts : List Part}
    (made : Part.ofLines root lines = .ok parts) :
    Part.paragraphs parts = (textRunsOf lines).map runsOfLines := by
  rw [ofLines_eq_readGroups] at made
  rw [← flatMap_textRunsOf]
  exact readGroups_flatMap rfl Part.paragraphs_append
    (fun group member own given => paragraphs_readGroup (isGroup_of_mem member) given) made

/-- Nothing is left of the texts of white lines. -/
theorem trimmed_of_white {lines : List Line} (white : ∀ line ∈ lines, line.isWhite = true) :
    ∀ text ∈ lines.map Line.trimmed, text = [] :=
  List.forall_mem_map.2 fun line member => of_decide_eq_true (white line member)

/-- White lines alone have no runs. -/
theorem runsOfLines_white {run : List Line} (white : ∀ line ∈ run, line.isWhite = true) :
    runsOfLines run = [] := by
  have empty : (run.map Line.trimmed).dropWhile (· = []) = [] :=
    List.dropWhile_eq_nil_iff.2 fun text member => decide_eq_true (trimmed_of_white white text member)
  rw [runsOfLines, Part.flowed, empty, runsOf, runsFrom]
  rfl

/-- Empty texts behind a text are a space each. -/
theorem flatMap_empty {texts : List (List Char)} (empty : ∀ text ∈ texts, text = []) :
    texts.flatMap (' ' :: ·) = List.replicate texts.length ' ' := by
  induction texts with
  | nil => rfl
  | cons text more ih =>
    rw [List.forall_mem_cons] at empty
    rw [List.flatMap_cons, ih empty.2, empty.1]
    rfl

namespace Framed

variable {front filled back : List Line}

/-- The place begins with a line that has a text. -/
theorem exists_first (framed : Framed front filled back) :
    ∃ first more, filled = first :: more ∧ first.trimmed ≠ [] := by
  obtain ⟨first, more, rfl⟩ := List.exists_cons_of_ne_nil framed.some
  exact ⟨first, more, rfl, of_decide_eq_false (framed.filled first List.mem_cons_self)⟩

/-- White lines in front of a text change nothing about it, and each behind it is a space. -/
theorem flowed (framed : Framed front filled back) :
    Part.flowed ((front ++ filled ++ back).map Line.trimmed) =
      Part.flowed (filled.map Line.trimmed) ++ List.replicate back.length ' ' := by
  obtain ⟨first, more, rfl, text⟩ := framed.exists_first
  have early : ∀ text ∈ front.map Line.trimmed, decide (text = []) = true :=
    fun text member => decide_eq_true (trimmed_of_white framed.front text member)
  have late : (back.map Line.trimmed).flatMap (' ' :: ·) = List.replicate back.length ' ' := by
    rw [flatMap_empty (trimmed_of_white framed.back), List.length_map]
  rw [Part.flowed, Part.flowed, List.append_assoc, List.map_append,
    List.dropWhile_append_of_pos early, List.cons_append, List.map_cons, List.map_cons,
    List.dropWhile_cons_of_neg (by simpa using text),
    List.dropWhile_cons_of_neg (by simpa using text)]
  simp only [List.map_append, List.flatMap_append, late, List.append_assoc]

/-- The lines that are not white are those of the one place. -/
theorem filter_eq (framed : Framed front filled back) :
    (front ++ filled ++ back).filter (!·.isWhite) = filled := by
  have none : ∀ lines : List Line, (∀ line ∈ lines, line.isWhite = true) →
      lines.filter (!·.isWhite) = [] := by
    intro lines white
    exact List.filter_eq_nil_iff.2 fun line member => by simp [white line member]
  have all : filled.filter (!·.isWhite) = filled :=
    List.filter_eq_self.2 fun line member => by simp [framed.filled line member]
  rw [List.filter_append, List.filter_append, none front framed.front, none back framed.back, all,
    List.nil_append, List.append_nil]

/-- The lines from the first one with a text are those of the place and behind it. -/
theorem dropWhile_eq (framed : Framed front filled back) :
    (front ++ filled ++ back).dropWhile Line.isWhite = filled ++ back := by
  obtain ⟨first, more, rfl⟩ := List.exists_cons_of_ne_nil framed.some
  rw [List.append_assoc, List.dropWhile_append_of_pos framed.front, List.cons_append,
    List.dropWhile_cons_of_neg (by simp [framed.filled first List.mem_cons_self])]

/-- Lines with a text in one place have runs. -/
theorem runsOfLines_ne_nil (framed : Framed front filled back) :
    runsOfLines (front ++ filled ++ back) ≠ [] := by
  apply runsFrom_ne_nil
  right
  obtain ⟨first, more, rfl, text⟩ := framed.exists_first
  rw [framed.flowed, Part.flowed, List.map_cons, List.dropWhile_cons_of_neg (by simpa using text)]
  simp [text]

/-- Lines whose white ones stand in front are framed. -/
theorem of_dropWhile {run : List Line} (some : run.dropWhile Line.isWhite ≠ [])
    (filled : ∀ line ∈ run.dropWhile Line.isWhite, line.isWhite = false) :
    Framed (run.takeWhile Line.isWhite) (run.dropWhile Line.isWhite) [] :=
  ⟨fun _ member => List.mem_takeWhile_imp member, by simp, some, filled⟩

/-- Lines that have a text, and no white line between two texts, are framed. -/
theorem exists_of_apart {run : List Line} (some : run.dropWhile Line.isWhite ≠ [])
    (apart : ∀ front line behind, run = front ++ line :: behind → line.isWhite = true →
      (∀ other ∈ front, other.isWhite = true) ∨ ∀ other ∈ behind, other.isWhite = true) :
    ∃ front filled back, run = front ++ filled ++ back ∧ Framed front filled back := by
  let rest := run.dropWhile Line.isWhite
  have whole : run = run.takeWhile Line.isWhite ++ rest.takeWhile (!·.isWhite) ++
      rest.dropWhile (!·.isWhite) := by
    rw [List.append_assoc, List.takeWhile_append_dropWhile, List.takeWhile_append_dropWhile]
  obtain ⟨first, more, shape⟩ := List.exists_cons_of_ne_nil some
  have text : first.isWhite = false := by
    have stops := List.head?_dropWhile_not Line.isWhite run
    rw [shape] at stops
    exact stops
  have inside : first ∈ rest.takeWhile (!·.isWhite) := by
    show first ∈ (run.dropWhile Line.isWhite).takeWhile (!·.isWhite)
    rw [shape, List.takeWhile_cons_of_pos (by simp [text])]
    exact List.mem_cons_self
  refine ⟨_, _, _, whole, fun _ member => List.mem_takeWhile_imp member, ?_,
    List.ne_nil_of_mem inside, fun line member => ?_⟩
  · cases back : rest.dropWhile (!·.isWhite) with
    | nil => simp
    | cons line behind =>
      have white : line.isWhite = true := by
        have stops := List.head?_dropWhile_not (!·.isWhite) rest
        rw [back] at stops
        simpa using stops
      rw [back] at whole
      rcases apart _ line behind whole white with early | late
      · have contrary := early first (List.mem_append_right _ inside)
        rw [text] at contrary
        cases contrary
      · exact List.forall_mem_cons.2 ⟨white, late⟩
  · simpa using List.mem_takeWhile_imp (p := fun l => !Line.isWhite l) member

end Framed

/-- White lines separate paragraphs, and give nothing themselves. -/
structure WhiteSeparates (root : Path) (source : String) (d : Document) : Prop where
  /-- Where there is nothing in the white lines outside code, the document is the same. -/
  idle : (Part.ofLines root (emptiedLines (Line.linesOf source.toList))).map Document.ofParts =
    .ok d
  /-- No paragraph is without runs. -/
  filled : ∀ runs ∈ d.paragraphs, runs ≠ []
  /-- Two lines with a text are not in one paragraph where a white line stands between them. -/
  apart : ∀ run ∈ textRunsOf (Line.linesOf source.toList), ∀ front line behind,
    run = front ++ line :: behind → line.isWhite = true →
      (∀ other ∈ front, other.isWhite = true) ∨ ∀ other ∈ behind, other.isWhite = true

/-- A run of text lines is a group. -/
theorem group_of_textRun {lines run : List Line} (member : run ∈ textRunsOf lines) :
    run ≠ [] ∧ run.map Region.line ∈ groupsOf lines ∧ ∀ line ∈ run, line.flow? = some .text := by
  obtain ⟨group, inside, rfl⟩ := List.mem_map.1 member
  obtain ⟨present, texts⟩ := List.mem_filter.1 inside
  obtain ⟨same, flows⟩ := run_of_isText texts
  exact ⟨(isGroup_of_mem present).lines_ne_nil, same ▸ present, flows⟩

/-- A run of text lines is one where its group is. -/
theorem textRun_of_group {lines : List Line} {group : List Region} (present : group ∈ groupsOf lines)
    (texts : group.all Region.isText = true) : group.flatMap Region.lines ∈ textRunsOf lines :=
  List.mem_map.2 ⟨group, List.mem_filter.2 ⟨present, texts⟩, rfl⟩

/-- Where all runs of text lines have text in one place, and that is at their end, emptied lines are
read as they were. -/
theorem ofLines_emptiedLines (root : Path) {lines : List Line}
    (placed : ∀ run ∈ textRunsOf lines, ∃ front filled, run = front ++ filled ++ [] ∧
      Framed front filled []) :
    Part.ofLines root (emptiedLines lines) = Part.ofLines root lines := by
  rw [ofLines_eq_readGroups, ofLines_eq_readGroups, groupsOf_emptiedLines]
  apply readGroups_divided
  intro group present
  cases texts : group.all Region.isText with
  | false => exact readGroups_unframed root (isGroup_of_mem present) texts
  | true =>
    obtain ⟨same, flows⟩ := run_of_isText texts
    obtain ⟨front, filled, shape, framed⟩ := placed _ (textRun_of_group present texts)
    obtain ⟨some, _⟩ := group_of_textRun (textRun_of_group present texts)
    rw [same, readGroup_texts root some flows]
    rw [shape] at flows ⊢
    rw [readGroups_framed root framed fun line member => flows line (by simp [member]),
      framed.flowed]
    simp

/-- Where all runs of text lines have text in one place, the paragraphs of the emptied lines are
those of the texts. -/
theorem paragraphs_of_emptiedLines {root : Path} {lines : List Line} {parts : List Part}
    (placed : ∀ run ∈ textRunsOf lines, ∃ front filled back, run = front ++ filled ++ back ∧
      Framed front filled back)
    (made : Part.ofLines root (emptiedLines lines) = .ok parts) : Part.paragraphs parts =
      (textRunsOf lines).map fun run => runsOfLines (run.filter (!·.isWhite)) := by
  rw [ofLines_eq_readGroups, groupsOf_emptiedLines] at made
  rw [← flatMap_textRunsOf]
  refine readGroups_divided_flatMap rfl Part.paragraphs_append
    (fun group present own given => ?_) made
  cases texts : group.all Region.isText with
  | false =>
    rw [readGroups_unframed root (isGroup_of_mem present) texts] at given
    rw [paragraphs_readGroup (isGroup_of_mem present) given, texts]
    rfl
  | true =>
    obtain ⟨same, flows⟩ := run_of_isText texts
    obtain ⟨front, filled, back, shape, framed⟩ := placed _ (textRun_of_group present texts)
    rw [same] at given
    rw [shape] at flows given ⊢
    rw [readGroups_framed root framed fun line member => flows line (by simp [member])] at given
    obtain rfl := Except.ok.inj given
    rw [framed.filter_eq]
    rfl

namespace Document

variable {root : Path} {source : String} {d : Document}

/-- The paragraphs of a document are the runs of text lines of its source. -/
theorem paragraphs_of_parse (read : parse root source = .ok d) :
    d.paragraphs = (textRunsOf (Line.linesOf source.toList)).map runsOfLines := by
  obtain ⟨_, parts, made, rfl, _⟩ := parts_of_parse read
  rw [paragraphs_ofParts, paragraphs_of_ofLines made]

/-- White lines that stand in front of all text of their run separate paragraphs. -/
theorem separates_of_placed (read : parse root source = .ok d)
    (placed : ∀ run ∈ textRunsOf (Line.linesOf source.toList), run.dropWhile Line.isWhite ≠ [] ∧
      ∀ line ∈ run.dropWhile Line.isWhite, line.isWhite = false) :
    WhiteSeparates root source d := by
  have framed : ∀ run ∈ textRunsOf (Line.linesOf source.toList), ∃ front filled,
      run = front ++ filled ++ [] ∧ Framed front filled [] := by
    intro run member
    obtain ⟨some, filled⟩ := placed run member
    exact ⟨_, _, by simp, Framed.of_dropWhile some filled⟩
  refine ⟨?_, fun runs member => ?_, fun run member front line behind split white => ?_⟩
  · rw [ofLines_emptiedLines root framed]
    exact read
  · rw [paragraphs_of_parse read] at member
    obtain ⟨run, inside, rfl⟩ := List.mem_map.1 member
    obtain ⟨front, filled, rfl, framed⟩ := framed run inside
    exact framed.runsOfLines_ne_nil
  · left
    by_contra mixed
    obtain ⟨_, filled⟩ := placed run member
    have some : front.dropWhile Line.isWhite ≠ [] := mt List.dropWhile_eq_nil_iff.1 mixed
    have contrary : line.isWhite = false := by
      apply filled
      rw [split, List.dropWhile_append, if_neg (by simpa using some)]
      simp
    rw [white] at contrary
    cases contrary

/-- Where white lines separate paragraphs, they stand in front of all text of their run. -/
theorem placed_of_separates (read : parse root source = .ok d)
    (separates : WhiteSeparates root source d) {run : List Line}
    (member : run ∈ textRunsOf (Line.linesOf source.toList)) :
    run.dropWhile Line.isWhite ≠ [] ∧
      ∀ line ∈ run.dropWhile Line.isWhite, line.isWhite = false := by
  have own := paragraphs_of_parse read
  have framed : ∀ run ∈ textRunsOf (Line.linesOf source.toList), ∃ front filled back,
      run = front ++ filled ++ back ∧ Framed front filled back := by
    intro run member
    refine Framed.exists_of_apart (fun white => ?_) (separates.apart run member)
    have given : runsOfLines run ∈ d.paragraphs := own ▸ List.mem_map_of_mem member
    exact separates.filled _ given (runsOfLines_white (List.dropWhile_eq_nil_iff.1 white))
  obtain ⟨front, filled, back, rfl, place⟩ := framed run member
  cases made : Part.ofLines root (emptiedLines (Line.linesOf source.toList)) with
  | error e =>
    have idle := separates.idle
    rw [made] at idle
    cases idle
  | ok parts =>
    have idle := separates.idle
    rw [made] at idle
    obtain rfl := Except.ok.inj idle
    have emptied := paragraphs_of_emptiedLines framed made
    rw [← paragraphs_ofParts, own] at emptied
    -- every line behind the place would show one more space
    have same := List.map_inj_left.1 emptied _ member
    rw [place.filter_eq, runsOfLines, place.flowed] at same
    have spaces := congrArg spacesOf same
    rw [spacesOf_replicate, runsOfLines, Nat.add_eq_left, List.length_eq_zero_iff] at spaces
    subst spaces
    rw [place.dropWhile_eq, List.append_nil]
    exact ⟨place.some, place.filled⟩

/-- A document has one paragraph for each run of text lines in its source. White lines separate
paragraphs exactly if, in each of these runs, white lines stand only in front of all text and some
text follows; so they do where every white line outside code is blank. -/
theorem white_separates_iff (read : parse root source = .ok d) :
    d.paragraphs = (textRunsOf (Line.linesOf source.toList)).map runsOfLines ∧
    (WhiteSeparates root source d ↔ ∀ run ∈ textRunsOf (Line.linesOf source.toList),
      run.dropWhile Line.isWhite ≠ [] ∧
        ∀ line ∈ run.dropWhile Line.isWhite, line.isWhite = false) ∧
    ((∀ line, Region.line line ∈ regionsOf (Line.linesOf source.toList) →
      line.isWhite = true → line.isBlank = true) → WhiteSeparates root source d) := by
  refine ⟨paragraphs_of_parse read, ⟨fun separates run member =>
    placed_of_separates read separates member, separates_of_placed read⟩, fun blank => ?_⟩
  apply separates_of_placed read
  intro run member
  obtain ⟨some, present, flows⟩ := group_of_textRun member
  have filled : ∀ line ∈ run, line.isWhite = false := by
    intro line inside
    by_contra white
    have region : Region.line line ∈ regionsOf (Line.linesOf source.toList) := by
      rw [← flatten_groupsOf]
      exact List.mem_flatten.2 ⟨_, present, List.mem_map_of_mem inside⟩
    have flowing := flows line inside
    rw [Line.flow?_of_isBlank (blank line region (by simpa using white))] at flowing
    cases flowing
  have kept : run.dropWhile Line.isWhite = run := by
    cases run with
    | nil => exact absurd rfl some
    | cons first more =>
      exact List.dropWhile_cons_of_neg (by simp [filled first List.mem_cons_self])
  rw [kept]
  exact ⟨some, filled⟩

/-- A line of a tab and a space between two lines, and an em space in front of the second one. -/
theorem white_separates_iff_sample :
    ∃ d, parse ⟨""⟩ "a\n\t \n\u2003\n b\n" = .ok d ∧ d.paragraphs = [runsOf ['a'], runsOf ['b']] ∧
      WhiteSeparates ⟨""⟩ "a\n\t \n\u2003\n b\n" d := by
  obtain ⟨d, read, _⟩ : ∃ d, parse ⟨""⟩ "a\n\t \n\u2003\n b\n" = .ok d ∧ d.title = "" :=
    exists_of_seen (by decide +kernel)
  obtain ⟨paragraphs, exactly, _⟩ := white_separates_iff read
  have texts : textRunsOf (Line.linesOf "a\n\t \n\u2003\n b\n".toList) =
      [[⟨['a'], 1⟩], [⟨['\u2003'], 3⟩, ⟨[' ', 'b'], 4⟩]] := by decide +kernel
  rw [texts] at paragraphs exactly
  exact ⟨d, read, paragraphs, exactly.2 (by decide +kernel)⟩

/-- A no-break space alone in a line joins the lines around it, and alone in a source it makes a
paragraph without runs. -/
theorem white_joins :
    (∃ d, parse ⟨""⟩ "a\n\u00a0\nb" = .ok d ∧ d.paragraphs = [runsOf ['a', ' ', ' ', 'b']] ∧
      ¬ WhiteSeparates ⟨""⟩ "a\n\u00a0\nb" d) ∧
    ∃ d, parse ⟨""⟩ "\u00a0" = .ok d ∧ d.paragraphs = [[]] ∧ ¬ WhiteSeparates ⟨""⟩ "\u00a0" d := by
  have between : (⟨['\u00a0'], 2⟩ : Line).isWhite = true := by decide
  constructor
  · obtain ⟨d, read, joined⟩ : ∃ d, parse ⟨""⟩ "a\n\u00a0\nb" = .ok d ∧
        d.paragraphs = [runsOf ['a', ' ', ' ', 'b']] := exists_of_seen (by decide +kernel)
    refine ⟨d, read, joined, fun separates => ?_⟩
    have texts : textRunsOf (Line.linesOf "a\n\u00a0\nb".toList) =
        [[⟨['a'], 1⟩, ⟨['\u00a0'], 2⟩, ⟨['b'], 3⟩]] := by decide +kernel
    have apart := separates.apart
    rw [texts, List.forall_mem_singleton] at apart
    exact absurd (apart [⟨['a'], 1⟩] _ [⟨['b'], 3⟩] rfl between) (by decide)
  · obtain ⟨d, read, empty⟩ : ∃ d, parse ⟨""⟩ "\u00a0" = .ok d ∧ d.paragraphs = [[]] :=
      exists_of_seen (by decide +kernel)
    refine ⟨d, read, empty, fun separates => separates.filled [] ?_ rfl⟩
    rw [empty]
    exact List.mem_singleton_self []

end Document

end WikiPress

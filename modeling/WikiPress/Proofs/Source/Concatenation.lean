import WikiPress.Proofs.Source.Acceptance
import WikiPress.Proofs.Source.Lines

/-!
# Sources in a row

Nothing that was read is left open behind a source that can be read: its code is closed, and a line
of no flow joins nothing. What follows such a line is therefore read as if it stood alone
(`ofLines_append`), with the lines of its mistakes counted on (`ofLines_moved`), and blank lines
give nothing (`ofLines_gap`). Together these say what two sources with two line feeds between them give
(`parse_concatenated`).
-/

namespace WikiPress

/-- The regions of lines whose code is closed do not depend on what follows. -/
theorem regionsOf_append_closed {lines : List Line}
    (closed : ∀ opening inner, Region.code opening inner none ∉ regionsOf lines)
    (more : List Line) : regionsOf (lines ++ more) = regionsOf lines ++ regionsOf more := by
  fun_induction regionsOf lines with
  | case1 => rfl
  | case2 line behind opens ih =>
    have inner : ∀ other ∈ behind.takeWhile (!·.endsCode), (!other.endsCode) = true :=
      fun other member => List.mem_takeWhile_imp (p := fun l => !Line.endsCode l) member
    have whole := List.takeWhile_append_dropWhile (p := fun l => !Line.endsCode l) (l := behind)
    cases rest : behind.dropWhile (!·.endsCode) with
    | nil =>
      rw [rest] at closed
      exact absurd List.mem_cons_self (closed _ _)
    | cons closing after =>
      have ends : (!closing.endsCode) = false := by
        have first := List.head?_dropWhile_not (!·.endsCode) behind
        simpa only [rest, List.head?_cons] using first
      rw [rest] at whole closed ih
      have taken : (behind ++ more).takeWhile (!·.endsCode) = behind.takeWhile (!·.endsCode) := by
        conv_lhs => rw [← whole]
        rw [List.append_assoc, List.takeWhile_append_of_pos inner, List.cons_append,
          List.takeWhile_cons, ends, if_neg Bool.false_ne_true, List.append_nil]
      have left : (behind ++ more).dropWhile (!·.endsCode) = closing :: (after ++ more) := by
        conv_lhs => rw [← whole]
        rw [List.append_assoc, List.dropWhile_append_of_pos inner, List.cons_append,
          List.dropWhile_cons, ends, if_neg Bool.false_ne_true]
      have others := ih fun opening text member =>
        closed opening text (List.mem_cons_of_mem _ member)
      rw [List.cons_append, regionsOf, if_pos opens, taken, left, List.tail_cons, List.cons_append]
      exact congrArg _ others
  | case3 line behind outside ih =>
    have others := ih fun opening text member => closed opening text (List.mem_cons_of_mem _ member)
    rw [List.cons_append, regionsOf, if_neg outside, others, List.cons_append]

/-- The groups of lines whose code is closed end at a line of no flow. -/
theorem groupsOf_append {lines more : List Line}
    (closed : ∀ opening inner, Region.code opening inner none ∉ regionsOf lines)
    (apart : ∀ line ∈ more.head?, line.flow? = none) :
    groupsOf (lines ++ more) = groupsOf lines ++ groupsOf more := by
  rw [groupsOf, regionsOf_append_closed closed, List.splitBy_append, ← groupsOf, ← groupsOf]
  intro last ended next begun
  obtain ⟨line, first, shape⟩ := head?_regionsOf begun
  rcases shape with rfl | ⟨inner, closing, rfl⟩
  · exact Region.joins_alone (apart line first) last
  · cases last <;> rfl

/-- What follows lines that can be read is read as if it stood alone, where it begins with a line
of no flow. -/
theorem ofLines_append {root : Path} {lines more : List Line} {parts : List Part}
    (made : Part.ofLines root lines = .ok parts)
    (apart : ∀ line ∈ more.head?, line.flow? = none) :
    Part.ofLines root (lines ++ more) = (Part.ofLines root more).map (parts ++ ·) := by
  have closed : ∀ opening inner, Region.code opening inner none ∉ regionsOf lines := by
    intro opening inner member
    rcases ofLines_exactly root lines with ⟨good, _⟩ | ⟨_, e, failed⟩
    · rw [← flatten_groupsOf] at member
      obtain ⟨group, there, inside⟩ := List.mem_flatten.1 member
      exact good.closed group there opening inner inside
    · rw [failed] at made
      cases made
  rw [ofLines_eq_readGroups] at made
  rw [ofLines_eq_readGroups, groupsOf_append closed apart, readGroups_append, made,
    ← ofLines_eq_readGroups]
  rfl

/-- Reading goes on behind what could be read. -/
theorem ofLines_cons {root : Path} {line : Line} {more rest : List Line} {parts : List Part}
    (read : Part.read root line more = .ok (parts, rest)) :
    Part.ofLines root (line :: more) = (Part.ofLines root rest).map (parts ++ ·) := by
  rw [Part.ofLines]
  split
  · next e failed =>
    rw [read] at failed
    cases failed
  · next parts' rest' found =>
    rw [read] at found
    obtain ⟨rfl, rfl⟩ := Prod.mk.inj (Except.ok.inj found)
    rfl

/-- Reading ends at a mistake. -/
theorem ofLines_cons_error {root : Path} {line : Line} {more : List Line} {e : ParseError}
    (failed : Part.read root line more = .error e) :
    Part.ofLines root (line :: more) = .error e := by
  rw [Part.ofLines]
  split
  · next other failed' =>
    rw [failed] at failed'
    rw [Except.error.inj failed']
  · next parts rest found =>
    rw [failed] at found
    cases found

/-- Blank lines give nothing. -/
theorem ofLines_gap (root : Path) {gap : List Line} (blank : ∀ line ∈ gap, line.isBlank = true)
    (more : List Line) : Part.ofLines root (gap ++ more) = Part.ofLines root more := by
  induction gap with
  | nil => rfl
  | cons line rest ih =>
    rw [List.forall_mem_cons] at blank
    have kind : LineKind.ofLine line = .blank := by rw [LineKind.ofLine, if_pos blank.1]
    have read : Part.read root line (rest ++ more) = .ok ([], rest ++ more) := by
      simp only [Part.read, kind]
    rw [List.cons_append, ofLines_cons read, ih blank.2]
    cases Part.ofLines root more <;> rfl

section Moved

variable (count : Nat)

/-- The error with `count` lines more in front of its own. -/
def ParseError.moved : ParseError → ParseError
  | .mistake cause line => .mistake cause (line + count)
  | other => other

/-- The item line with `count` lines more in front of it. -/
def ItemLine.moved (line : ItemLine) : ItemLine := { line with number := line.number + count }

/-- The level of an item line does not depend on where it stands. -/
theorem ItemLine.level?_moved (base : Nat) (line : ItemLine) :
    (line.moved count).level? base = (line.level? base).mapError (ParseError.moved count) := by
  unfold level?
  show (if line.indent < base ∨ deepest < (line.indent - base) / 2 + 1 then _ else _) = _
  split <;> rfl

/-- The levels of item lines do not depend on where they stand. -/
theorem ItemLine.levels_moved (base : Nat) (lines : List ItemLine) :
    levels base (lines.map (moved count)) =
      ((levels base lines).map (List.map fun made => (made.1.moved count, made.2))).mapError
        (ParseError.moved count) := by
  induction lines with
  | nil => rfl
  | cons line more ih =>
    rw [List.map_cons, levels, levels, level?_moved, ih]
    cases line.level? base with
    | error e => rfl
    | ok level => cases levels base more <;> rfl

/-- Steps between levels do not depend on where the lines stand. -/
theorem ItemLine.checkSteps_moved (above : Nat) (leveled : List (ItemLine × Nat)) :
    checkSteps above (leveled.map fun made => (made.1.moved count, made.2)) =
      (checkSteps above leveled).mapError (ParseError.moved count) := by
  induction leveled generalizing above with
  | nil => rfl
  | cons first more ih =>
    obtain ⟨line, level⟩ := first
    rw [List.map_cons, checkSteps, checkSteps, ih level]
    split <;> rfl

/-- A list does not depend on where its lines stand. -/
theorem listOf_moved (lines : List ItemLine) :
    listOf (lines.map (ItemLine.moved count)) =
      (listOf lines).mapError (ParseError.moved count) := by
  cases lines with
  | nil => rfl
  | cons first more =>
    have leveled := ItemLine.levels_moved count first.indent (first :: more)
    rw [List.map_cons] at leveled ⊢
    simp only [listOf]
    show (ItemLine.levels first.indent _ >>= _) = _
    rw [leveled]
    cases ItemLine.levels first.indent (first :: more) with
    | error e => rfl
    | ok made =>
      have steps := ItemLine.checkSteps_moved count 0 made
      show (ItemLine.checkSteps 0 _ >>= _) = _
      rw [steps]
      cases checked : ItemLine.checkSteps 0 made with
      | error e => simp only [bind, Except.bind, checked, Except.mapError]
      | ok _ =>
        simp only [bind, Except.bind, checked, Except.mapError, List.map_map]
        rfl

/-- The first lines give the same where they stand elsewhere. -/
theorem leading_moved {α : Type} (give : Line → Option α) (shift : α → α)
    (same : ∀ line, give (line.moved count) = (give line).map shift) (lines : List Line) :
    Part.leading give (lines.map (Line.moved count)) =
      ((Part.leading give lines).1.map shift,
        (Part.leading give lines).2.map (Line.moved count)) := by
  induction lines with
  | nil => rfl
  | cons line more ih =>
    rw [List.map_cons, Part.leading, Part.leading, same line]
    cases give line with
    | none => rfl
    | some a =>
      simp only [Option.map_some, ih]
      rfl

/-- A directive does not depend on where it stands. -/
theorem ofDirective_moved (name value : List Char) (line : Nat) :
    Part.ofDirective name value (line + count) =
      (Part.ofDirective name value line).mapError (ParseError.moved count) := by
  unfold Part.ofDirective
  cases Author.ofValue? value <;> cases DepthRange.ofValue? value <;>
    · simp only
      split <;> rfl

/-- What is read from a line does not depend on where it stands. -/
theorem read_moved (root : Path) (line : Line) (more : List Line) :
    Part.read root (line.moved count) (more.map (Line.moved count)) =
      ((Part.read root line more).map fun made =>
        (made.1, made.2.map (Line.moved count))).mapError (ParseError.moved count) := by
  have same : LineKind.ofLine (line.moved count) = LineKind.ofLine line := rfl
  cases kind : LineKind.ofLine line with
  | blank => simp only [Part.read, same, kind]; rfl
  | rule => simp only [Part.read, same, kind]; rfl
  | heading depth title => simp only [Part.read, same, kind]; rfl
  | inclusion locator =>
    simp only [Part.read, same, kind]
    split <;> rfl
  | directive name value =>
    have made : Part.ofDirective name value (line.moved count).number =
        (Part.ofDirective name value line.number).mapError (ParseError.moved count) :=
      ofDirective_moved count name value line.number
    simp only [Part.read, same, kind, made]
    cases Part.ofDirective name value line.number <;> rfl
  | fence language =>
    have ends : (fun l => !Line.endsCode l) ∘ Line.moved count = fun l => !Line.endsCode l := rfl
    have texts : ∀ lines : List Line,
        Part.codeText (lines.map (Line.moved count)) = Part.codeText lines := by
      intro lines
      rw [Part.codeText, List.flatMap_map]
      rfl
    simp only [Part.read, same, kind, List.dropWhile_map, List.takeWhile_map, ends, texts]
    cases more.dropWhile (!·.endsCode) <;> rfl
  | row text =>
    have rows := leading_moved count Part.row? id (fun other => by rw [Option.map_id]; rfl) more
    simp only [Part.read, same, kind, rows, List.map_id]
    rfl
  | item marker indent text =>
    have give : ∀ other, Part.item? (other.moved count) =
        (Part.item? other).map (ItemLine.moved count) := by
      intro other
      have alike : LineKind.ofLine (other.moved count) = LineKind.ofLine other := rfl
      unfold Part.item?
      rw [alike]
      cases LineKind.ofLine other <;> rfl
    have items := leading_moved count Part.item? (ItemLine.moved count) give more
    have list := listOf_moved count
      (⟨marker, indent, text, line.number⟩ :: (Part.leading Part.item? more).1)
    change listOf (⟨marker, indent, text, (line.moved count).number⟩ :: _) = _ at list
    simp only [Part.read, same, kind, items, list]
    cases listOf (⟨marker, indent, text, line.number⟩ :: (Part.leading Part.item? more).1) <;> rfl
  | text content =>
    have texts := leading_moved count Part.text? id (fun other => by rw [Option.map_id]; rfl) more
    simp only [Part.read, same, kind, texts, List.map_id]
    rfl

/-- What lines give does not depend on where they stand, and their mistakes move with them. -/
theorem ofLines_moved (root : Path) (lines : List Line) :
    Part.ofLines root (lines.map (Line.moved count)) =
      (Part.ofLines root lines).mapError (ParseError.moved count) := by
  fun_induction Part.ofLines root lines with
  | case1 => rw [List.map_nil, Part.ofLines]; rfl
  | case2 line more e failed =>
    have read := read_moved count root line more
    rw [failed] at read
    rw [List.map_cons, ofLines_cons_error read]
    rfl
  | case3 line more parts rest found ih =>
    have read := read_moved count root line more
    rw [found] at read
    rw [List.map_cons, ofLines_cons read, ih]
    cases Part.ofLines root rest <;> rfl

end Moved

/-- Behind a source that can be read, with two line feeds between them, another one gives what it
gives alone, with the lines of its mistakes counted on. -/
theorem ofLines_concatenated {root : Path} {first : String} {parts : List Part}
    (made : Part.ofLines root (Line.linesOf first.toList) = .ok parts) (second : String) :
    Part.ofLines root (Line.linesOf (first ++ "\n\n" ++ second).toList) =
      ((Part.ofLines root (Line.linesOf second.toList)).mapError (ParseError.moved
        (Line.linesOf (first ++ "\n\n").toList).length)).map (parts ++ ·) := by
  obtain ⟨gap, filled, blank, before, whole⟩ := Line.linesOf_gap first.toList second.toList
  have text : (first ++ "\n\n").toList = first.toList ++ ['\n', '\n'] := String.toList_append
  have both : (first ++ "\n\n" ++ second).toList =
      first.toList ++ '\n' :: '\n' :: second.toList := by
    rw [String.toList_append, text, List.append_assoc]
    rfl
  have apart : ∀ line ∈ (gap ++ (Line.linesOf second.toList).map (Line.moved
      (Line.linesOf (first.toList ++ ['\n', '\n'])).length)).head?, line.flow? = none := by
    obtain ⟨line, rest, rfl⟩ := List.exists_cons_of_ne_nil filled
    intro other member
    obtain rfl : line = other := Option.some.inj member
    exact Line.flow?_of_isBlank (blank line List.mem_cons_self)
  rw [both, text, whole, List.append_assoc, ofLines_append made apart, ofLines_gap root blank,
    ofLines_moved]

namespace Document

/-- Parts in a row make the blocks of both in a row, with the people of both; the title is the last
one there is. -/
theorem ofParts_append (parts more : List Part) :
    flattenBlocks (ofParts (parts ++ more)).blocks =
        flattenBlocks (ofParts parts).blocks ++ flattenBlocks (ofParts more).blocks ∧
      (ofParts (parts ++ more)).authors = (ofParts parts).authors ++ (ofParts more).authors ∧
      (ofParts (parts ++ more)).verifiers =
        (ofParts parts).verifiers ++ (ofParts more).verifiers ∧
      (ofParts (parts ++ more)).title =
        if more.filterMap Part.title? = [] then (ofParts parts).title
        else (ofParts more).title := by
  refine ⟨?_, List.filterMap_append, List.filterMap_append, ?_⟩
  · show flattenBlocks (nestHeadings _) = flattenBlocks (nestHeadings _) ++
      flattenBlocks (nestHeadings _)
    rw [flattenBlocks_nestHeadings, flattenBlocks_nestHeadings, flattenBlocks_nestHeadings,
      List.filterMap_append, flattenBlocks_append]
  · show (List.getLast? _).getD "" = ite _ ((List.getLast? _).getD "") ((List.getLast? _).getD "")
    rw [List.filterMap_append, List.getLast?_append]
    split
    · next none => rw [none, List.getLast?_nil, Option.none_or]
    · next some =>
      rw [List.getLast?_eq_some_getLast some, Option.some_or]

/-- Two sources with two line feeds between them, of which the first can be read, give what both
give, one after the other. The title is that of the second where it has one outside code. A mistake
of the second is the mistake of both, with the lines before it counted on. -/
theorem parse_concatenated {root : Path} {first : String} {a : Document}
    (read : parse root first = .ok a) (second : String) :
    (∀ b, parse root second = .ok b → ∃ d, parse root (first ++ "\n\n" ++ second) = .ok d ∧
      flattenBlocks d.blocks = flattenBlocks a.blocks ++ flattenBlocks b.blocks ∧
      d.authors = a.authors ++ b.authors ∧ d.verifiers = a.verifiers ++ b.verifiers ∧
      d.title = if directivesIn "title" second = [] then a.title else b.title) ∧
    ∀ cause line, parse root second = .error (.mistake cause line) →
      parse root (first ++ "\n\n" ++ second) = .error (.mistake cause
        (line + (Line.linesOf (first ++ "\n\n").toList).length)) := by
  obtain ⟨_, parts, made, rfl, _⟩ := parts_of_parse read
  have whole := ofLines_concatenated made second
  constructor
  · intro b readSecond
    obtain ⟨_, others, behind, rfl, gives⟩ := parts_of_parse readSecond
    obtain ⟨blocks, authors, verifiers, title⟩ := ofParts_append parts others
    have titles : directivesIn "title" second = [] ↔ others.filterMap Part.title? = [] := by
      rw [gives.titles, directivesIn_eq, List.map_eq_nil_iff]
    rw [behind] at whole
    refine ⟨ofParts (parts ++ others), by rw [parse, whole]; rfl, blocks, authors, verifiers, ?_⟩
    rw [title]
    simp only [titles]
  · intro cause line failed
    have behind : Part.ofLines root (Line.linesOf second.toList) =
        .error (.mistake cause line) := by
      rw [parse] at failed
      cases given : Part.ofLines root (Line.linesOf second.toList) with
      | error e =>
        rw [given] at failed
        rw [Except.error.inj failed]
      | ok others =>
        rw [given] at failed
        cases failed
    rw [parse, whole, behind]
    rfl

/-- A title and a heading, which are kept in front of a text and a heading, and in front of a list
that is indented too far. -/
theorem parse_concatenated_sample :
    (∃ d, parse ⟨""⟩ ("#title: T\n# a" ++ "\n\n" ++ "x\n## b") = .ok d ∧ d.title = "T" ∧
      (flattenBlocks d.blocks).map Block.kindName = ["heading", "paragraph", "heading"]) ∧
    parse ⟨""⟩ ("#title: T\n# a" ++ "\n\n" ++ "- i\n    - j") =
      .error (.mistake .listIndentation 5) := by
  obtain ⟨a, first, seen⟩ : ∃ a, parse ⟨""⟩ "#title: T\n# a" = .ok a ∧
      (a.title, (flattenBlocks a.blocks).map Block.kindName) = ("T", ["heading"]) :=
    exists_of_seen (by decide +kernel)
  obtain ⟨title, blocks⟩ := Prod.mk.inj seen
  constructor
  · obtain ⟨b, second, others⟩ : ∃ b, parse ⟨""⟩ "x\n## b" = .ok b ∧
        (flattenBlocks b.blocks).map Block.kindName = ["paragraph", "heading"] :=
      exists_of_seen (by decide +kernel)
    obtain ⟨d, both, whole, _, _, given⟩ := (parse_concatenated first "x\n## b").1 b second
    have untitled : directivesIn "title" "x\n## b" = [] := by decide +kernel
    rw [if_pos untitled, title] at given
    refine ⟨d, both, given, ?_⟩
    rw [whole, List.map_append, blocks, others]
    rfl
  · have failed : parse ⟨""⟩ "- i\n    - j" = .error (.mistake .listIndentation 2) := by
      have refused : (match parse ⟨""⟩ "- i\n    - j" with
          | .ok _ => none
          | .error e => some e) = some (.mistake .listIndentation 2) := by decide +kernel
      cases read : parse ⟨""⟩ "- i\n    - j" with
      | ok d =>
        rw [read] at refused
        cases refused
      | error e =>
        rw [read] at refused
        rw [Option.some.inj refused]
    have count : (Line.linesOf ("#title: T\n# a" ++ "\n\n").toList).length = 3 := by
      decide +kernel
    have moved := (parse_concatenated first "- i\n    - j").2 .listIndentation 2 failed
    rw [count] at moved
    exact moved

end Document

end WikiPress

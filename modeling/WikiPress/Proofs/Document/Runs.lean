import WikiPress.Proofs.Inline.Soundness
import WikiPress.Proofs.Source.Acceptance

/-!
# Lines of runs

The runs of a document stand in lines: the title of a heading, a paragraph, the content of an item
and a cell of a table are one line each. The lines of a document that was read are those of its
source, in the order of the source and each read by itself (`Document.runLines_of_parse`). So what
holds of every run that is read holds all over the document, and a line without runs has no text in
the source (`runs_sound`).
-/

namespace WikiPress

/-- The lines of runs of headings, items, paragraphs and table cells. -/
def runLines : Gathering (List Run) where
  heading _ title := [title]
  item _ _ runs := [runs]
  leaf
    | .paragraph runs => [runs]
    | .table rows => rows.flatten
    | _ => []

/-- The lines of runs of a document, in their order. -/
def Document.runLines (d : Document) : List (List Run) := gatherBlocks WikiPress.runLines d.blocks

/-- The texts of the cells of a row. -/
def Table.cellTexts (row : List Char) : List (List Char) :=
  (Text.pieces '|' (Table.inner row)).map Text.trim

/-- The texts of markup in a group: the title of a heading, the text lines of a paragraph as one
text, the contents of item lines, and the cells of the rows that do not divide. -/
def markupOf (group : List Region) : List (List Char) :=
  match group with
  | .line line :: _ =>
    match LineKind.ofLine line with
    | .heading _ title => [title]
    | .text _ => [Part.flowed (group.filterMap Region.text?)]
    | .item .. => (group.filterMap Region.item?).map ItemLine.text
    | .row _ =>
      ((group.filterMap Region.row?).filter (!Table.isDivider ·)).flatMap Table.cellTexts
    | _ => []
  | _ => []

/-- The texts of markup in a source, in their order. -/
def markupIn (source : String) : List (List Char) := (groupsIn source).flatMap markupOf

/-- The cells of rows are read from their texts. -/
theorem Table.flatten_rows (lines : List (List Char)) : (Table.rows lines).flatten =
    ((lines.filter (!Table.isDivider ·)).flatMap Table.cellTexts).map runsOf := by
  have cells : Table.cells = fun row => (Table.cellTexts row).map runsOf := by
    funext row
    rw [Table.cells, Table.cellTexts, List.map_map]
    rfl
  rw [Table.rows, ← List.flatMap_def, List.map_flatMap, cells]

/-- The lines of the list that item lines make are read from their contents. -/
theorem runLines_listOf {lines : List ItemLine} {blocks : List Block}
    (made : listOf lines = .ok blocks) :
    gatherBlocks runLines blocks = (lines.map ItemLine.text).map runsOf := by
  obtain ⟨_, gathered⟩ := (gathers_gatherBlocks runLines).listOf made
  rw [gathered, List.map_map, List.map_eq_flatMap]
  rfl

/-- The lines that parts give to a document. -/
def Part.runLines (parts : List Part) : List (List Run) :=
  gatherBlocks WikiPress.runLines (parts.filterMap Part.block?)

section Groups

variable {root : Path} {line : Line} {taken : List Line} {own : List Part} {flow : Flow}

/-- A line of no flow gives the title of a heading or nothing. -/
theorem runLines_alone (none : line.flow? = none) (outside : line.opensCode = false)
    (made : readGroup root [.line line] = .ok own) :
    Part.runLines own = (markupOf [.line line]).map runsOf := by
  have read := readGroup_lines root line []
  rw [List.map_singleton, made] at read
  unfold Part.read at read
  cases kind : LineKind.ofLine line with
  | fence language => simp [Line.opensCode, kind] at outside
  | row | item | text => simp [Line.flow?, kind] at none
  | blank | rule | heading =>
    simp only [kind, Except.map, Except.ok.injEq] at read
    rw [read]
    simp only [markupOf, kind]
    rfl
  | inclusion locator =>
    simp only [kind] at read
    split at read
    · cases read
    · obtain rfl := Except.ok.inj read
      simp only [markupOf, kind]
      rfl
  | directive name value =>
    simp only [kind, bind, Except.bind] at read
    cases given : Part.ofDirective name value line.number with
    | error e =>
      rw [given] at read
      cases read
    | ok part =>
      rw [given] at read
      obtain rfl := Except.ok.inj read
      simp only [markupOf, kind]
      obtain ⟨_, rfl⟩ | ⟨_, rfl⟩ | ⟨_, rfl⟩ | ⟨_, rfl⟩ := Part.ofDirective_cases given <;> rfl

/-- The lines of a flow give the lines of their paragraph, their table or their list. -/
theorem runLines_flow (flowing : line.flow? = some flow)
    (joined : ∀ other ∈ taken, line.joins other = true)
    (made : readGroup root ((line :: taken).map .line) = .ok own) :
    Part.runLines own = (markupOf ((line :: taken).map .line)).map runsOf := by
  rw [readGroup_lines, Part.read] at made
  cases kind : LineKind.ofLine line with
  | blank | fence | rule | inclusion | directive | heading => simp [Line.flow?, kind] at flowing
  | row text =>
    obtain rfl : flow = .rows := by simpa [Line.flow?, kind] using flowing.symm
    have whole := leading_joined flowing Part.isSome_row? joined
    have rows : ((line :: taken).map Region.line).filterMap Region.row? =
        text :: taken.filterMap Part.row? :=
      filterMap_run Region.row? (Region.row?_of_kind kind)
    simp only [kind, whole, Except.map, Except.ok.injEq] at made
    rw [← made]
    simp only [List.map_cons] at rows ⊢
    simp only [markupOf, kind, rows, ← Table.flatten_rows]
    exact List.append_nil _
  | item marker indent text =>
    obtain rfl : flow = .items := by simpa [Line.flow?, kind] using flowing.symm
    have whole := leading_joined flowing Part.isSome_item? joined
    have items : ((line :: taken).map Region.line).filterMap Region.item? =
        ⟨marker, indent, text, line.number⟩ :: taken.filterMap Part.item? :=
      filterMap_run Region.item? (Region.item?_of_kind kind)
    simp only [kind, whole, bind, Except.bind] at made
    cases listed : listOf (⟨marker, indent, text, line.number⟩ :: taken.filterMap Part.item?) with
    | error e => simp [listed, Except.map] at made
    | ok blocks =>
      simp only [listed, Except.map, Except.ok.injEq] at made
      rw [← made, Part.runLines, Part.filterMap_block?, runLines_listOf listed]
      simp only [List.map_cons] at items ⊢
      simp only [markupOf, kind, items, List.map_cons]
  | text content =>
    obtain rfl : flow = .text := by simpa [Line.flow?, kind] using flowing.symm
    have whole := leading_joined flowing Part.isSome_text? joined
    have texts : ((line :: taken).map Region.line).filterMap Region.text? =
        content :: taken.filterMap Part.text? :=
      filterMap_run Region.text? (Region.text?_of_kind kind)
    simp only [kind, whole, Except.map, Except.ok.injEq] at made
    rw [← made]
    simp only [List.map_cons] at texts ⊢
    simp only [markupOf, kind, texts]
    rfl

/-- What is read from a group has the lines of the group. -/
theorem runLines_readGroup {group : List Region} (shape : IsGroup group)
    (made : readGroup root group = .ok own) :
    Part.runLines own = (markupOf group).map runsOf := by
  cases shape with
  | @code opening inner closing opens _ _ =>
    obtain ⟨language, kind⟩ := Line.fence_of_opensCode opens
    simp only [readGroup, List.flatMap_singleton, Region.lines, Part.read, kind] at made
    split at made
    · cases made
    · obtain rfl := Except.ok.inj made
      rfl
  | @run line taken outside joined =>
    cases flowing : line.flow? with
    | none =>
      obtain rfl := alone_of_flow flowing joined
      exact runLines_alone flowing outside made
    | some flow => exact runLines_flow flowing joined made

end Groups

/-- The lines of runs of a document are those of the texts of markup in its source. -/
theorem Document.runLines_of_parse {root : Path} {source : String} {d : Document}
    (read : Document.parse root source = .ok d) :
    d.runLines = (markupIn source).map runsOf := by
  obtain ⟨_, parts, made, rfl, _⟩ := Document.parts_of_parse read
  rw [ofLines_eq_readGroups] at made
  have append (own others : List Part) : Part.runLines (own ++ others) =
      Part.runLines own ++ Part.runLines others := by
    rw [Part.runLines, List.filterMap_append, gatherBlocks_append]
    rfl
  -- groups give their lines one after the other, and nesting headings changes nothing about it
  have gathered := readGroups_flatMap rfl append
    (fun group member own given => runLines_readGroup (isGroup_of_mem member) given) made
  calc gatherBlocks WikiPress.runLines (nestHeadings (parts.filterMap Part.block?))
      = Part.runLines parts := gatherBlocks_nestHeadings _ _
    _ = (groupsIn source).flatMap fun group => (markupOf group).map runsOf := gathered
    _ = (markupIn source).map runsOf := by rw [markupIn, List.map_flatMap]

/-- Only an empty text has no runs, and every run of a text is sound. A document that was read has
one line of runs for each text of markup in its source, in the order of the source: these are the
runs of that text, so they are sound, and there are none only where the text is empty. -/
theorem runs_sound :
    (∀ text, (runsOf text = [] ↔ text = []) ∧ ∀ run ∈ runsOf text, run.IsSound) ∧
      ∀ root source d, Document.parse root source = .ok d →
        List.Forall₂ (fun runs text => runs = runsOf text ∧ (runs = [] ↔ text = []) ∧
          ∀ run ∈ runs, run.IsSound) d.runLines (markupIn source) := by
  have own (text : List Char) :
      (runsOf text = [] ↔ text = []) ∧ ∀ run ∈ runsOf text, run.IsSound := by
    refine ⟨⟨fun empty => ?_, fun empty => ?_⟩, fun run member => isSound_of_mem_runsOf member⟩
    · by_contra filled
      exact runsFrom_ne_nil Style.plain [] text (.inr filled) empty
    · rw [empty, runsOf, runsFrom]
      rfl
  refine ⟨own, fun root source d read => ?_⟩
  rw [Document.runLines_of_parse read, List.forall₂_map_left_iff, List.forall₂_same]
  exact fun text _ => ⟨rfl, own text⟩

/-- A title, a paragraph of two lines with a colour in it, an item and a row with an empty cell: five
lines of runs, each for its text. -/
theorem runs_sound_sample :
    ∃ d, Document.parse ⟨""⟩ "# A\na \x7bred|b\x7d\n c\n- **i**\n| d | |\n" = .ok d ∧
      List.Forall₂
        (fun runs text => runs = runsOf text.toList ∧ (runs = [] ↔ text = "") ∧
          ∀ run ∈ runs, run.IsSound)
        d.runLines ["A", "a \x7bred|b\x7d c", "**i**", "d", ""] := by
  obtain ⟨d, read, _⟩ : ∃ d, Document.parse ⟨""⟩
      "# A\na \x7bred|b\x7d\n c\n- **i**\n| d | |\n" = .ok d ∧ d.title = "" :=
    Document.exists_of_seen (by decide +kernel)
  have texts : markupIn "# A\na \x7bred|b\x7d\n c\n- **i**\n| d | |\n" =
      ["A", "a \x7bred|b\x7d c", "**i**", "d", ""].map String.toList := by decide +kernel
  have lines := runs_sound.2 ⟨""⟩ _ d read
  rw [texts, List.forall₂_map_right_iff] at lines
  refine ⟨d, read, lines.imp fun runs text own => ?_⟩
  rw [String.toList_eq_nil_iff] at own
  exact own

end WikiPress

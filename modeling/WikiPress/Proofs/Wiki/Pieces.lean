import WikiPress.Proofs.Source.Acceptance
import WikiPress.Proofs.Source.Lines
import WikiPress.Proofs.Wiki.Lines
import WikiPress.Proofs.Wiki.Nesting

/-!
# Pages piece by piece

A page is its header and one piece for each block that was read from the source, in the order of the
source (`page_of_parse`). Nesting does not show: a heading adds its own lines and nothing for what it
owns, and a list adds one line for each of its item lines, set in by the level of that line
(`ofItems_nestItems`).
-/

namespace WikiPress

/-- The runs of item lines in a source, each the lines of one list. -/
def itemRunsIn (source : String) : List (List ItemLine) :=
  ((groupsIn source).map fun group => group.filterMap Region.item?).filter (· ≠ [])

/-- These runs hold all item lines outside code, in their order. -/
theorem flatten_itemRunsIn (source : String) : (itemRunsIn source).flatten =
    (regionsOf (Line.linesOf source.toList)).filterMap Region.item? := by
  rw [itemRunsIn, List.flatten_filter_ne_nil, ← List.filterMap_flatten, groupsIn, flatten_groupsOf]

/-- No item line of a source holds a line feed. -/
theorem single_of_itemRunsIn {source : String} {run : List ItemLine} {line : ItemLine}
    (inside : run ∈ itemRunsIn source) (member : line ∈ run) : '\n' ∉ line.text := by
  have listed : line ∈ (itemRunsIn source).flatten := List.mem_flatten.2 ⟨run, inside, member⟩
  rw [flatten_itemRunsIn] at listed
  obtain ⟨region, found, given⟩ := List.mem_filterMap.1 listed
  cases region with
  | code => cases given
  | line own =>
    have single := Line.single_of_mem (mem_of_region found)
    cases kind : LineKind.ofLine own with
    | item marker indent content =>
      have made : (⟨marker, indent, content, own.number⟩ : ItemLine) = line := by
        simpa [Region.item?, Part.item?, kind] using given
      rw [← made]
      exact fun feed => single (LineKind.ofLine_item kind feed)
    | _ => simp [Region.item?, Part.item?, kind] at given

namespace Wiki

/-- What a block adds to a page as one of a flat list: a heading only its own lines. -/
def piece : Block → String
  | .heading depth title _ => headingLines depth title
  | block => ofBlock block

/-- The text of a list on a page. -/
def listText? : Block → Option String
  | .list _ items => some (ofItems items)
  | _ => none

/-- The line on a page for an item line of a list that starts at the column `base`: two spaces for
each level above the first, the marker of its kind and its content. -/
def lineFor (base : Nat) (line : ItemLine) : String :=
  Text.repeated "  " ((line.indent - base) / 2) ++ "  " ++ line.kind.bullet ++ " " ++
    ofRuns (runsOf line.text) ++ "\n"

/-- The lines on a page for the item lines of a list. -/
def linesFor : List ItemLine → List String
  | [] => []
  | first :: more => (first :: more).map (lineFor first.indent)

/-- A list shows its items. -/
theorem ofBlock_list (kind : ListKind) (items : List Item) :
    ofBlock (.list kind items) = ofItems items := rfl

/-- The first item comes first. -/
theorem ofItems_cons (item : Item) (more : List Item) :
    ofItems (item :: more) = ofItem item ++ ofItems more := rfl

/-- What an item owns comes behind it. -/
theorem ofItem_mk (kind : ListKind) (depth : Nat) (runs : List Run) (children : List Block) :
    ofItem ⟨kind, depth, runs, children⟩ = itemLine kind depth runs ++ ofBlocks children := rfl

/-- The item of a line shows the line that is made for it. -/
theorem ofItem_item (base : Nat) (line : ItemLine) :
    ofItem (line.item ((line.indent - base) / 2 + 1)) = lineFor base line := String.append_empty

/-- The items of two lists in a row come one after the other. -/
theorem ofItems_append (items more : List Item) :
    ofItems (items ++ more) = ofItems items ++ ofItems more := by
  induction items with
  | nil => exact String.empty_append.symm
  | cons item rest ih =>
    rw [List.cons_append, ofItems_cons, ofItems_cons, ih, String.append_assoc]

/-- Items show in the same way in a list of their own. -/
theorem ofBlocks_sublist (items : List Item) : ofBlocks (sublist items) = ofItems items := by
  cases items with
  | nil => rfl
  | cons first more =>
    rw [sublist, ofBlocks_cons, ofBlocks_nil, String.append_empty, ofBlock_list]

/-- An item in front of nested ones comes first, whatever it takes over. -/
theorem ofItems_consNested (item : Item) (behind : List Item) :
    ofItems (item.consNested behind) = ofItem item ++ ofItems behind := by
  obtain ⟨kind, depth, runs, children⟩ := item
  have whole := List.takeWhile_append_dropWhile (p := fun other => decide (depth < other.depth))
    (l := behind)
  calc ofItems (Item.consNested ⟨kind, depth, runs, children⟩ behind)
      = ofItem ⟨kind, depth, runs, children ++
            sublist (behind.takeWhile fun other => decide (depth < other.depth))⟩ ++
          ofItems (behind.dropWhile fun other => decide (depth < other.depth)) := rfl
    _ = itemLine kind depth runs ++ (ofBlocks children ++
          ofItems (behind.takeWhile (fun other => decide (depth < other.depth)) ++
            behind.dropWhile fun other => decide (depth < other.depth))) := by
        rw [ofItem_mk, ofBlocks_append, ofBlocks_sublist, ofItems_append, String.append_assoc,
          String.append_assoc]
    _ = ofItem ⟨kind, depth, runs, children⟩ ++ ofItems behind := by
        rw [whole, ofItem_mk, String.append_assoc]

/-- Nested items come out as the flat ones do. -/
theorem ofItems_nestItems (flat : List Item) : ofItems (nestItems flat) = ofItems flat := by
  induction flat with
  | nil => rfl
  | cons item more ih =>
    show ofItems (item.consNested (nestItems more)) = _
    rw [ofItems_consNested, ih, ofItems_cons]

/-- Nested blocks come out as the flat ones do. -/
theorem ofBlocks_nestHeadings (flat : List Block) :
    ofBlocks (nestHeadings flat) = ofBlocks flat := by
  have same := ofBlocks_substitute_nestHeadings (fun leaf => [.inclusion leaf]) flat
  rwa [substituteBlocks_self, substituteBlocks_self] at same

/-- The items of lines show the lines that are made for these. -/
theorem ofItems_lines (base : Nat) (lines : List ItemLine) :
    ofItems (lines.map fun line => line.item ((line.indent - base) / 2 + 1)) =
      Text.concat (lines.map (lineFor base)) := by
  induction lines with
  | nil => rfl
  | cons line rest ih =>
    rw [List.map_cons, ofItems_cons, ih, ofItem_item, List.map_cons, Text.concat]

/-- A list shows one line for each of its item lines, in their order. -/
theorem ofItems_listOf {lines : List ItemLine} {kind : ListKind} {items : List Item}
    (made : listOf lines = .ok [.list kind items]) :
    ofItems items = Text.concat (linesFor lines) := by
  cases lines with
  | nil => cases made
  | cons first more =>
    calc ofItems items = ofBlocks [.list kind items] := String.append_empty.symm
      _ = ofItems ((first :: more).map fun line =>
            line.item ((line.indent - first.indent) / 2 + 1)) := by
          rw [listOf_eq_ok made, ofBlocks_sublist, ofItems_nestItems]
      _ = Text.concat (linesFor (first :: more)) := ofItems_lines first.indent (first :: more)

/-- Blocks that own nothing as headings show their pieces in their order. -/
theorem ofBlocks_bare {blocks : List Block} (bare : ∀ block ∈ blocks, block.isBare = true) :
    ofBlocks blocks = Text.concat (blocks.map piece) := by
  induction blocks with
  | nil => rfl
  | cons block more ih =>
    rw [List.forall_mem_cons] at bare
    have own : ofBlock block = piece block := by
      cases block with
      | heading depth title children =>
        obtain rfl : children = [] := List.isEmpty_iff.1 bare.1
        exact String.append_empty
      | _ => rfl
    rw [ofBlocks_cons, ih bare.2, own, List.map_cons, Text.concat]

/-- Reading gives a list only at an item line. -/
theorem lists_read {root : Path} {line : Line} {more rest : List Line} {parts : List Part}
    (read : Part.read root line more = .ok (parts, rest)) (other : Part.item? line = none) :
    (parts.filterMap Part.block?).filterMap listText? = [] := by
  unfold Part.read at read
  cases kind : LineKind.ofLine line with
  | item => simp [Part.item?, kind] at other
  | directive name value =>
    simp only [kind, bind, Except.bind] at read
    cases made : Part.ofDirective name value line.number with
    | error e => simp [made] at read
    | ok part =>
      simp only [made, Except.ok.injEq, Prod.mk.injEq] at read
      obtain ⟨rfl, _⟩ := read
      obtain ⟨_, rfl⟩ | ⟨_, rfl⟩ | ⟨_, rfl⟩ | ⟨_, rfl⟩ := Part.ofDirective_cases made <;> rfl
  | fence language =>
    simp only [kind] at read
    split at read
    · cases read
    · obtain ⟨rfl, _⟩ := Prod.mk.inj (Except.ok.inj read)
      rfl
  | inclusion locator =>
    simp only [kind] at read
    split at read
    · cases read
    · obtain ⟨rfl, _⟩ := Prod.mk.inj (Except.ok.inj read)
      rfl
  | blank | rule | heading | row | text =>
    simp only [kind] at read
    obtain ⟨rfl, _⟩ := Prod.mk.inj (Except.ok.inj read)
    rfl

/-- A group without item lines begins with a line of another kind. -/
theorem first_of_itemless {group : List Region} (shape : IsGroup group)
    (empty : group.filterMap Region.item? = []) :
    ∃ line more, group.flatMap Region.lines = line :: more ∧ Part.item? line = none := by
  cases shape with
  | @code opening inner closing opens unended ends =>
    obtain ⟨language, kind⟩ := Line.fence_of_opensCode opens
    exact ⟨opening, _, rfl, by rw [Part.item?, kind]⟩
  | @run line taken outside joined =>
    refine ⟨line, taken, ?_, ?_⟩
    · rw [List.flatMap_map]
      exact List.flatMap_singleton' _
    · rw [List.map_cons] at empty
      cases given : Part.item? line with
      | none => rfl
      | some item => simp [Region.item?, given] at empty

/-- A run with item lines gives the list of these. -/
theorem lists_readRun {root : Path} {line : Line} {taken : List Line} {own : List Part}
    (joined : ∀ other ∈ taken, line.joins other = true)
    (filled : ((line :: taken).map Region.line).filterMap Region.item? ≠ [])
    (made : readGroup root ((line :: taken).map Region.line) = .ok own) :
    (own.filterMap Part.block?).filterMap listText? =
      [Text.concat (linesFor (((line :: taken).map Region.line).filterMap Region.item?))] := by
  have flowing := flow?_of_items joined filled
  cases kind : LineKind.ofLine line with
  | item marker indent text =>
    have whole := leading_joined flowing Part.isSome_item? joined
    have items : ((line :: taken).map Region.line).filterMap Region.item? =
        ⟨marker, indent, text, line.number⟩ :: taken.filterMap Part.item? :=
      filterMap_run Region.item? (Region.item?_of_kind kind)
    simp only [readGroup_lines, Part.read, kind, whole, bind, Except.bind] at made
    cases listed : listOf (⟨marker, indent, text, line.number⟩ :: taken.filterMap Part.item?) with
    | error e => simp [listed, Except.map] at made
    | ok blocks =>
      obtain ⟨listKind, nested, rfl, _⟩ := listOf_cons listed
      simp only [listed, Except.map, List.map_cons, List.map_nil, Except.ok.injEq] at made
      rw [← made, items]
      simp only [List.filterMap_cons, Part.block?, listText?, List.filterMap_nil,
        ofItems_listOf listed]
  | _ => simp [Line.flow?, kind] at flowing

/-- A group gives a list where it is made of item lines, and then it is the list of these. -/
theorem lists_readGroup {root : Path} {group : List Region} {own : List Part}
    (shape : IsGroup group) (made : readGroup root group = .ok own) :
    (own.filterMap Part.block?).filterMap listText? =
      ([group.filterMap Region.item?].filter (· ≠ [])).map fun run =>
        Text.concat (linesFor run) := by
  by_cases empty : group.filterMap Region.item? = []
  · -- the first line of the group decides, and it is no item line
    obtain ⟨line, more, lines, other⟩ := first_of_itemless shape empty
    rw [readGroup, lines] at made
    cases read : Part.read root line more with
    | error e => simp [read, Except.map] at made
    | ok result =>
      simp only [read, Except.map, Except.ok.injEq] at made
      rw [← made, lists_read read other, empty]
      rfl
  · cases shape with
    | code => simp [Region.item?] at empty
    | run outside joined =>
      rw [lists_readRun joined empty made, List.filter_singleton]
      simp only [ne_eq, empty, not_false_eq_true, decide_true, cond_true]
      rfl

/-- The lists that groups give are those of the item lines. -/
theorem lists_readGroups {root : Path} {groups : List (List Region)} {parts : List Part}
    (shapes : ∀ group ∈ groups, IsGroup group) (made : readGroups root groups = .ok parts) :
    (parts.filterMap Part.block?).filterMap listText? =
      ((groups.map fun group => group.filterMap Region.item?).filter (· ≠ [])).map fun run =>
        Text.concat (linesFor run) := by
  have append (own others : List Part) :
      ((own ++ others).filterMap Part.block?).filterMap listText? =
        (own.filterMap Part.block?).filterMap listText? ++
          (others.filterMap Part.block?).filterMap listText? := by
    rw [List.filterMap_append, List.filterMap_append]
  have gathered := readGroups_flatMap rfl append
    (fun group member _ read => lists_readGroup (shapes group member) read) made
  have runs : groups.map (fun group => group.filterMap Region.item?) =
      groups.flatMap fun group => [group.filterMap Region.item?] := List.map_eq_flatMap
  rw [gathered, runs, List.filter_flatMap, List.map_flatMap]

/-- The page of a document that was read from a source is its header and the pieces of the blocks in
the order in which they were read, though headings have taken over what follows them. The lists among
the blocks show, in their order, a line for each item line of their runs; the runs hold all item
lines of the source, and the content of such a line stays on it. -/
theorem page_of_parse {root : Path} {source : String} {d : Document}
    (read : Document.parse root source = .ok d) :
    ∃ parts, Part.ofLines root (Line.linesOf source.toList) = .ok parts ∧
      d.blocks = nestHeadings (parts.filterMap Part.block?) ∧
      page d = header d ++ Text.concat ((parts.filterMap Part.block?).map piece) ∧
      (parts.filterMap Part.block?).filterMap listText? =
        ((itemRunsIn source).map fun run => Text.concat (linesFor run)) ∧
      (itemRunsIn source).flatten =
        (regionsOf (Line.linesOf source.toList)).filterMap Region.item? ∧
      ∀ run ∈ itemRunsIn source, ∀ line ∈ run, '\n' ∉ (ofRuns (runsOf line.text)).toList := by
  obtain ⟨_, parts, made, rfl, gives⟩ := Document.parts_of_parse read
  refine ⟨parts, made, rfl, ?_, ?_, flatten_itemRunsIn source, fun run inside line member => ?_⟩
  · show header _ ++ ofBlocks (nestHeadings _) = _
    rw [ofBlocks_nestHeadings, ofBlocks_bare gives.bare]
  · rw [ofLines_eq_readGroups] at made
    exact lists_readGroups (fun group member => isGroup_of_mem member) made
  · exact IsLine.ofRuns (single_of_itemRunsIn inside member)

/-- Items of two kinds on two levels below a heading, and a section inside its section. -/
theorem page_of_parse_sample :
    ∃ d, Document.parse ⟨""⟩ "# A\n- i\n  1. j\n- k\n## B\nx\n" = .ok d ∧
      page d = header d ++ "\n<p align=\"right\">[#Top]</p>\n=`A`=\n  * i\n    # j\n  * k\n" ++
        "\n<p align=\"right\">[#Top]</p>\n==`B`==\nx\n\n" := by
  obtain ⟨d, read, _⟩ : ∃ d, Document.parse ⟨""⟩ "# A\n- i\n  1. j\n- k\n## B\nx\n" = .ok d ∧
      d.title = "" := Document.exists_of_seen (by decide +kernel)
  obtain ⟨parts, made, _, shown, _⟩ := page_of_parse read
  have pieces : (Part.ofLines ⟨""⟩ (Line.linesOf
      "# A\n- i\n  1. j\n- k\n## B\nx\n".toList)).toOption.map (fun parts =>
        Text.concat ((parts.filterMap Part.block?).map piece)) =
      some ("\n<p align=\"right\">[#Top]</p>\n=`A`=\n  * i\n    # j\n  * k\n" ++
        "\n<p align=\"right\">[#Top]</p>\n==`B`==\nx\n\n") := by decide +kernel
  rw [made] at pieces
  have whole : Text.concat ((parts.filterMap Part.block?).map piece) = _ := Option.some.inj pieces
  exact ⟨d, read, by rw [shown, whole, String.append_assoc]⟩

end Wiki

end WikiPress

import WikiPress.Proofs.Source.Grammar
import WikiPress.Proofs.Source.Kinds

/-!
# What reading accepts

A group is read exactly where it is grammatical, and then it gives its own block or header entry
(`readGroup_exactly`, with one lemma for code, one for a line of no flow and one for the lines of a
flow). The text of code and the rows of a table are what the lines say, put together apart from the
reader (`Part.codeText_eq`, `Table.rows_eq_standing`). Since reading is local to groups, the same
holds of whole sources (`parse_grammatical`).
-/

namespace WikiPress

/-- A line that opens code is a fence. -/
theorem Line.fence_of_opensCode {line : Line} (opens : line.opensCode = true) :
    ∃ language, LineKind.ofLine line = .fence language := by
  unfold opensCode at opens
  split at opens
  · next language kind => exact ⟨language, kind⟩
  · simp at opens

/-- A header line gives its entry and no block. -/
theorem Gives.of_header {root : Path} {line : Line} {part : Part}
    (blockless : part.block? = none) (silent : Region.inclusion? root (.line line) = none)
    (unmade : blockOf root [.line line] = none)
    (titles : part.title?.toList =
      (Region.directive? "title" (.line line)).toList.map String.ofList)
    (authors : part.author?.toList =
      (Region.directive? "author" (.line line)).toList.filterMap Author.ofValue?)
    (verifiers : part.verifier?.toList =
      (Region.directive? "verifier" (.line line)).toList.filterMap Author.ofValue?) :
    Gives root [[.line line]] [part] := by
  have empty : [part].filterMap Part.block? = [] := by
    rw [List.filterMap_cons_none blockless, List.filterMap_nil]
  have single : ∀ {α β : Type} (give : α → Option β) (a : α),
      [a].filterMap give = (give a).toList := by
    intro α β give a
    cases given : give a <;> simp [given]
  constructor
  · rw [List.flatten_singleton, single, single, titles]
  · rw [List.flatten_singleton, single, single, authors]
  · rw [List.flatten_singleton, single, single, verifiers]
  · rw [empty, List.flatten_singleton, single, silent]
    rfl
  · simp [empty]
  · intro _
    rw [empty, single, unmade]
    rfl

/-- A directive line gives an entry of the header or the contents. -/
theorem Part.ofDirective_cases {name value : List Char} {number : Nat} {part : Part}
    (made : Part.ofDirective name value number = .ok part) :
    (∃ text, part = .title text) ∨ (∃ person, part = .author person) ∨
      (∃ person, part = .verifier person) ∨ ∃ range, part = .block (.contents range) := by
  unfold Part.ofDirective at made
  cases person : Author.ofValue? value <;> cases range : DepthRange.ofValue? value <;>
    simp only [person, range] at made <;> split at made <;> cases made <;> simp

/-- A directive line is read exactly where it is a directive, and gives what its name says. -/
theorem ofDirective_spec (root : Path) {line : Line} {name value : List Char}
    (kind : LineKind.ofLine line = .directive name value) :
    (IsDirective name value ∧ ∃ part, Part.ofDirective name value line.number = .ok part ∧
        Gives root [[.line line]] [part]) ∨
      (¬ IsDirective name value ∧ ∃ e, Part.ofDirective name value line.number = .error e) := by
  have given : ∀ other, Region.directive? other (.line line) =
      if String.ofList name = other then some value else none := by
    intro other
    simp only [Region.directive?, kind]
  have silent : Region.inclusion? root (.line line) = none := by
    simp only [Region.inclusion?, kind]
  -- the names are tried in the order in which they are read
  by_cases title : String.ofList name = "title"
  · refine .inl ⟨.inl title, .title (String.ofList value), ?_, ?_⟩
    · simp only [Part.ofDirective, title]
    · refine Gives.of_header rfl silent ?_ ?_ ?_ ?_ <;>
        simp [given, title, blockOf, kind, Part.title?, Part.author?, Part.verifier?]
  by_cases person : String.ofList name = "author" ∨ String.ofList name = "verifier"
  · have named := Author.isSome_ofValue? value
    cases read : Author.ofValue? value with
    | none =>
      refine .inr ⟨?_, .mistake (.badPerson (String.ofList name)) line.number, ?_⟩
      · rcases person with own | own <;> simp [IsDirective, own, ← named, read]
      · rcases person with own | own <;> simp only [Part.ofDirective, own, read]
    | some made =>
      refine .inl ⟨.inr (.inl ⟨person, named.1 (by rw [read]; rfl)⟩), ?_⟩
      rcases person with own | own
      · refine ⟨.author made, by simp only [Part.ofDirective, own, read], ?_⟩
        refine Gives.of_header rfl silent ?_ ?_ ?_ ?_ <;>
          simp [given, own, read, blockOf, kind, Part.title?, Part.author?, Part.verifier?]
      · refine ⟨.verifier made, by simp only [Part.ofDirective, own, read], ?_⟩
        refine Gives.of_header rfl silent ?_ ?_ ?_ ?_ <;>
          simp [given, own, read, blockOf, kind, Part.title?, Part.author?, Part.verifier?]
  rw [not_or] at person
  by_cases index : String.ofList name = "index"
  · have range := DepthRange.isSome_ofValue? value
    cases read : DepthRange.ofValue? value with
    | none =>
      refine .inr ⟨?_, .mistake .badContents line.number, ?_⟩
      · simp [IsDirective, index, ← range, read]
      · simp only [Part.ofDirective, index, read]
    | some made =>
      refine .inl ⟨.inr (.inr ⟨index, range.1 (by rw [read]; rfl)⟩), .block (.contents made), ?_⟩
      refine ⟨by simp only [Part.ofDirective, index, read], ?_⟩
      constructor <;>
        simp [given, index, read, silent, inclusionsOf, Block.inclusions, Part.title?,
          Part.author?, Part.verifier?, Part.block?, blockOf, kind, Block.isBare]
  · refine .inr ⟨?_, .mistake (.unknownDirective (String.ofList name)) line.number, ?_⟩
    · simp [IsDirective, title, person, index]
    · unfold Part.ofDirective
      split <;> simp_all

/-- Texts that are not empty are joined by single spaces. -/
theorem Part.flowed_eq_joined {texts : List (List Char)} (filled : ∀ text ∈ texts, text ≠ []) :
    Part.flowed texts = Text.joined ' ' texts := by
  have spaced : ∀ (first : List Char) (more : List (List Char)),
      first ++ more.flatMap (' ' :: ·) = Text.joined ' ' (first :: more) := by
    intro first more
    induction more generalizing first with
    | nil => simp [Text.joined]
    | cons next rest ih =>
      rw [List.flatMap_cons, Text.joined, ← ih next, List.cons_append]
      exact List.cons_ne_nil next rest
  cases texts with
  | nil => rfl
  | cons first more =>
    have nonempty := filled first List.mem_cons_self
    rw [Part.flowed, List.dropWhile_cons, if_neg (by simpa using nonempty)]
    exact spaced first more

/-- The text of code is that of its lines, one after another. -/
theorem Part.codeText_eq (inner : List Line) : Part.codeText inner = fencedText inner := by
  rw [← String.toList_inj, fencedText, Text.toList_concat, List.flatMap_map, Part.codeText,
    String.toList_ofList]
  refine List.flatMap_congr fun line _ => ?_
  simp

/-- Rows are dropped where they divide. -/
theorem Table.isDivider_iff (row : List Char) : isDivider row = true ↔ Divides row := by
  simp [isDivider, Divides, or_assoc, or_left_comm]

/-- Behind the bar that opens a row, a bar at the end of the row closes the last cell; otherwise the
row ends with that cell. -/
theorem Table.pieces_inner (rest : List Char) :
    Text.pieces '|' (inner ('|' :: rest)) = between ('|' :: rest) := by
  have opened : (('|' :: rest).splitOn '|').tail = Text.pieces '|' rest := by
    rw [← Text.pieces_eq_splitOn, Text.pieces, if_pos rfl, List.tail_cons]
  simp only [inner, between, opened]
  cases closed : Text.before? '|' rest with
  | some start =>
    have whole : Text.pieces '|' rest = Text.pieces '|' start ++ [[]] := by
      rw [Text.before?_eq_some_iff.1 closed, Text.pieces_break]
      rfl
    have several : 1 < (Text.pieces '|' start ++ [[]]).length := by
      have some := List.length_pos_iff.2 (Text.pieces_ne_nil '|' start)
      rw [List.length_append, List.length_singleton]
      omega
    rw [whole, if_pos ⟨several, List.getLast?_concat⟩, List.dropLast_concat, Option.getD_some]
  | none =>
    rw [Option.getD_none, if_neg]
    rintro ⟨several, last⟩
    obtain ⟨before, split⟩ := List.getLast?_eq_some_iff.1 last
    have some : before ≠ [] := by
      rintro rfl
      simp [split] at several
    have absent : ∀ piece ∈ before, '|' ∉ piece := fun piece member =>
      Text.not_mem_of_mem_pieces (split ▸ List.mem_append_left _ member)
    -- an empty cell behind others stands behind a bar, and that bar ends the row
    have ended : rest = Text.joined '|' before ++ ['|'] := by
      have again := Text.pieces_ended absent []
      rw [List.append_nil, Text.flatMap_ended some] at again
      calc rest = Text.joined '|' (Text.pieces '|' rest) := (Text.joined_pieces '|' rest).symm
        _ = Text.joined '|' (Text.pieces '|' (Text.joined '|' before ++ ['|'])) := by
          rw [split, again, Text.pieces]
        _ = Text.joined '|' before ++ ['|'] := Text.joined_pieces '|' _
    rw [Text.before?_eq_some_iff.2 ended] at closed
    cases closed

/-- The text of a row line starts with a bar. -/
theorem Part.head?_of_row? {line : Line} {content : List Char}
    (given : Part.row? line = some content) : content.head? = some '|' := by
  unfold Part.row? at given
  split at given
  · next kind => exact LineKind.head?_of_row (Option.some.inj given ▸ kind)
  · cases given

/-- Rows that start with a bar are read as they stand. -/
theorem Table.rows_eq_standing {texts : List (List Char)}
    (opened : ∀ text ∈ texts, text.head? = some '|') : Table.rows texts = standing texts := by
  have kept : (texts.filter fun row => !isDivider row) =
      texts.filter fun row => ¬ Divides row := by
    refine List.filter_congr fun row _ => ?_
    rw [Bool.eq_iff_iff, decide_eq_true_iff, ← isDivider_iff, Bool.not_eq_true', Bool.not_eq_true]
  rw [Table.rows, standing, kept]
  refine List.map_congr_left fun row member => ?_
  obtain ⟨rest, rfl⟩ := List.head?_eq_some_iff.1 (opened row (List.mem_of_mem_filter member))
  rw [cells, pieces_inner]

/-- The group is read where it is grammatical, and gives what it has to; anything else is
refused. -/
def ReadExactly (root : Path) (group : List Region) : Prop :=
  (Grammatical [group] ∧ ∃ own, readGroup root group = .ok own ∧ Gives root [group] own) ∨
    (¬ Grammatical [group] ∧ ∃ e, readGroup root group = .error e)

/-- Code is read where it is closed. -/
theorem readGroup_code (root : Path) {opening : Line} {inner : List Line} {closing : Option Line}
    (opens : opening.opensCode = true) (unended : ∀ line ∈ inner, line.endsCode = false)
    (ends : ∀ line ∈ closing, line.endsCode = true) :
    ReadExactly root [.code opening inner closing] := by
  have unended' : ∀ other ∈ inner, (!other.endsCode) = true := by simpa using unended
  have all := List.dropWhile_eq_nil_iff.2 unended'
  obtain ⟨language, kind⟩ := Line.fence_of_opensCode opens
  rw [ReadExactly, readGroup, List.flatMap_singleton, Region.lines]
  cases closing with
  | none =>
    refine .inr ⟨fun grammatical => ?_, .mistake .unclosedCode opening.number, ?_⟩
    · exact grammatical.closed _ List.mem_cons_self opening inner List.mem_cons_self
    · simp [Part.read, kind, all, Except.map]
  | some last =>
    have stop : (!last.endsCode) = false := by simp [ends last rfl]
    refine .inl ⟨by constructor <;> simp [Region.item?],
      [.block (.code (languageOf opening) (Part.codeText inner))], ?_, Gives.of_block ?_ ?_ ?_ ?_⟩
    · simp only [Part.read, kind, Option.toList_some, List.dropWhile_append_of_pos unended',
        List.takeWhile_append_of_pos unended', List.dropWhile_cons, List.takeWhile_cons, stop,
        Bool.false_eq_true, if_false, List.append_nil, Except.map, languageOf]
    · intro name
      rfl
    · rfl
    · rfl
    · intro _
      rw [Part.codeText_eq]
      rfl

/-- Reading a run begins with its first line. -/
theorem readGroup_lines (root : Path) (line : Line) (taken : List Line) :
    readGroup root ((line :: taken).map .line) = (Part.read root line taken).map (·.1) := by
  have lines : ((line :: taken).map Region.line).flatMap Region.lines = line :: taken := by
    rw [List.flatMap_map]
    exact List.flatMap_singleton' _
  rw [readGroup, lines]

/-- A line of no flow that opens no code is read where it is in order. -/
theorem readGroup_alone (root : Path) {line : Line} (outside : line.opensCode = false)
    (none : line.flow? = none) : ReadExactly root [.line line] := by
  have joined : ∀ other ∈ ([] : List Line), line.joins other = true := by simp
  have itemless := itemless_of_alone none
  have grammatical := grammatical_run joined
  have lines := readGroup_lines root line []
  rw [List.map_singleton] at grammatical lines
  simp only [itemless, ne_eq, not_true_eq_false, false_implies, and_true] at grammatical
  rw [ReadExactly, grammatical, lines]
  cases kind : LineKind.ofLine line with
  | fence language => simp [Line.opensCode, kind] at outside
  | row | item | text => simp [Line.flow?, kind] at none
  | blank =>
    refine .inl ⟨by simp, [], by simp only [Part.read, kind, Except.map], ?_⟩
    constructor <;> simp [Region.directive?, Region.inclusion?, blockOf, kind, inclusionsOf]
  | rule =>
    refine .inl ⟨by simp, [.block .rule], by simp only [Part.read, kind, Except.map], ?_⟩
    refine Gives.of_block ?_ ?_ rfl ?_ <;>
      simp [Region.directive?, Region.inclusion?, blockOf, kind, Block.inclusions]
  | heading depth title =>
    refine .inl ⟨by simp, [.block (.heading depth (runsOf title) [])],
      by simp only [Part.read, kind, Except.map], ?_⟩
    refine Gives.of_block ?_ ?_ rfl ?_ <;>
      simp [Region.directive?, Region.inclusion?, blockOf, kind, Block.inclusions, inclusionsOf]
  | inclusion locator =>
    by_cases empty : locator = []
    · refine .inr ⟨by simp [empty], .mistake .emptyInclusion line.number, ?_⟩
      simp only [Part.read, kind, empty, if_true, Except.map]
    · refine .inl ⟨by simp [empty],
        [.block (.inclusion ⟨Reference.resolve root (String.ofList locator), root⟩)], ?_, ?_⟩
      · simp only [Part.read, kind, empty, if_false, Except.map]
      · refine Gives.of_block ?_ ?_ rfl ?_ <;>
          simp [Region.directive?, Region.inclusion?, blockOf, kind, Block.inclusions]
  | directive name value =>
    rcases ofDirective_spec root kind with ⟨good, part, made, gives⟩ | ⟨bad, e, failed⟩
    · refine .inl ⟨by simpa using good, [part], ?_, gives⟩
      simp only [Part.read, kind, made, bind, Except.bind, Except.map]
    · refine .inr ⟨by simpa using bad, e, ?_⟩
      simp only [Part.read, kind, failed, bind, Except.bind, Except.map]

/-- The lines of a flow are read where, if they are item lines, they are a list. -/
theorem readGroup_flow (root : Path) {line : Line} {taken : List Line} {flow : Flow}
    (own : line.flow? = some flow) (joined : ∀ other ∈ taken, line.joins other = true) :
    ReadExactly root ((line :: taken).map .line) := by
  obtain ⟨headless, silent⟩ := quiet_of_flow own joined
  rw [ReadExactly, grammatical_run joined, readGroup_lines]
  cases kind : LineKind.ofLine line with
  | blank | fence | rule | inclusion | directive | heading => simp [Line.flow?, kind] at own
  | row text =>
    obtain rfl : flow = .rows := by simpa [Line.flow?, kind] using own.symm
    have itemless := itemless_of_flow own (by decide) joined
    have whole := leading_joined own Part.isSome_row? joined
    have rows : ((line :: taken).map Region.line).filterMap Region.row? =
        text :: taken.filterMap Part.row? :=
      filterMap_run Region.row? (Region.row?_of_kind kind)
    refine .inl ⟨⟨by simp, by simp, fun filled => absurd itemless filled⟩,
      [.block (.table (Table.rows (text :: taken.filterMap Part.row?)))], ?_, ?_⟩
    · simp only [Part.read, kind, whole, Except.map]
    · refine Gives.of_block headless (silent root).symm rfl fun _ => ?_
      have opened : ∀ content ∈ text :: taken.filterMap Part.row?, content.head? = some '|' := by
        rw [List.forall_mem_cons]
        refine ⟨LineKind.head?_of_row kind, fun content member => ?_⟩
        obtain ⟨other, _, given⟩ := List.mem_filterMap.1 member
        exact Part.head?_of_row? given
      rw [Table.rows_eq_standing opened, ← rows]
      simp only [List.map_cons, blockOf, kind]
  | item marker indent text =>
    obtain rfl : flow = .items := by simpa [Line.flow?, kind] using own.symm
    have whole := leading_joined own Part.isSome_item? joined
    have items : ((line :: taken).map Region.line).filterMap Region.item? =
        ⟨marker, indent, text, line.number⟩ :: taken.filterMap Part.item? :=
      filterMap_run Region.item? (Region.item?_of_kind kind)
    rw [items]
    cases made : listOf (⟨marker, indent, text, line.number⟩ :: taken.filterMap Part.item?) with
    | error e =>
      refine .inr ⟨by simp, e, ?_⟩
      simp only [Part.read, kind, whole, made, bind, Except.bind, Except.map]
    | ok blocks =>
      obtain ⟨listed, nested, rfl, empty⟩ := listOf_cons made
      refine .inl ⟨by simp, [.block (.list listed nested)], ?_, ?_⟩
      · simp only [Part.read, kind, whole, made, bind, Except.bind, Except.map, List.map_cons,
          List.map_nil]
      · refine Gives.of_block headless ?_ rfl fun _ => ?_
        · rw [silent root]
          exact empty
        · rw [List.map_cons] at items ⊢
          simp only [blockOf, kind, items, made, List.head?_cons]
  | text content =>
    obtain rfl : flow = .text := by simpa [Line.flow?, kind] using own.symm
    have itemless := itemless_of_flow own (by decide) joined
    have whole := leading_joined own Part.isSome_text? joined
    have texts : ((line :: taken).map Region.line).filterMap Region.text? =
        content :: taken.filterMap Part.text? :=
      filterMap_run Region.text? (Region.text?_of_kind kind)
    refine .inl ⟨⟨by simp, by simp, fun filled => absurd itemless filled⟩,
      [.block (.paragraph (runsOf (Part.flowed (content :: taken.filterMap Part.text?))))], ?_, ?_⟩
    · simp only [Part.read, kind, whole, Except.map]
    · refine Gives.of_block headless (silent root).symm rfl fun filled => ?_
      rw [texts] at filled
      rw [Part.flowed_eq_joined filled, ← texts]
      simp only [List.map_cons, blockOf, kind]

/-- A group is read exactly where it is grammatical. -/
theorem readGroup_exactly (root : Path) {group : List Region} (shape : IsGroup group) :
    ReadExactly root group := by
  cases shape with
  | code opens unended ends => exact readGroup_code root opens unended ends
  | @run line taken outside joined =>
    cases own : line.flow? with
    | none =>
      obtain rfl := alone_of_flow own joined
      exact readGroup_alone root outside own
    | some flow => exact readGroup_flow root own joined

/-- Groups are read exactly where they are grammatical, and give what they have to. -/
theorem readGroups_exactly (root : Path) {groups : List (List Region)}
    (shapes : ∀ group ∈ groups, IsGroup group) :
    (Grammatical groups ∧ ∃ parts, readGroups root groups = .ok parts ∧ Gives root groups parts) ∨
      (¬ Grammatical groups ∧ ∃ e, readGroups root groups = .error e) := by
  induction groups with
  | nil => exact .inl ⟨Grammatical.nil, [], rfl, Gives.nil root⟩
  | cons group more ih =>
    rw [List.forall_mem_cons] at shapes
    rw [Grammatical.cons_iff, readGroups]
    rcases readGroup_exactly root shapes.1 with ⟨good, own, made, gives⟩ | ⟨bad, e, failed⟩
    · rcases ih shapes.2 with ⟨rest, parts, others, behind⟩ | ⟨bad, e, failed⟩
      · refine .inl ⟨⟨good, rest⟩, own ++ parts, ?_, gives.append behind⟩
        simp only [made, others, bind, Except.bind]
      · refine .inr ⟨fun whole => bad whole.2, e, ?_⟩
        simp only [made, failed, bind, Except.bind]
    · refine .inr ⟨fun whole => bad whole.1, e, ?_⟩
      simp only [failed, bind, Except.bind]

/-- Lines are read exactly where their groups are grammatical, and give what these have to. -/
theorem ofLines_exactly (root : Path) (lines : List Line) :
    (Grammatical (groupsOf lines) ∧ ∃ parts, Part.ofLines root lines = .ok parts ∧
        Gives root (groupsOf lines) parts) ∨
      (¬ Grammatical (groupsOf lines) ∧ ∃ e, Part.ofLines root lines = .error e) := by
  rw [ofLines_eq_readGroups]
  exact readGroups_exactly root fun group member => isGroup_of_mem member

/-- The groups of a source. -/
def groupsIn (source : String) : List (List Region) := groupsOf (Line.linesOf source.toList)

/-- The values of the directive lines of a name that stand outside code in a source, in their
order. -/
def directivesIn (name : String) (source : String) : List (List Char) :=
  (regionsOf (Line.linesOf source.toList)).filterMap (Region.directive? name)

/-- These values are those of the groups of the source. -/
theorem directivesIn_eq (name source : String) :
    directivesIn name source = (groupsIn source).flatten.filterMap (Region.directive? name) := by
  rw [directivesIn, groupsIn, flatten_groupsOf]

namespace Document

/-- A document that was read is made of what the groups of its source give. -/
theorem parts_of_parse {root : Path} {source : String} {d : Document}
    (read : parse root source = .ok d) :
    Grammatical (groupsIn source) ∧ ∃ parts,
      Part.ofLines root (Line.linesOf source.toList) = .ok parts ∧ d = ofParts parts ∧
        Gives root (groupsIn source) parts := by
  rw [parse] at read
  rcases ofLines_exactly root (Line.linesOf source.toList) with
    ⟨good, parts, made, gives⟩ | ⟨_, e, failed⟩
  · rw [made] at read
    exact ⟨good, parts, made, (Except.ok.inj read).symm, gives⟩
  · rw [failed] at read
    cases read

/-- A source has a document where something can be seen of it. -/
theorem exists_of_seen {α : Type} {root : Path} {source : String} {see : Document → α} {value : α}
    (seen : (parse root source).toOption.map see = some value) :
    ∃ d, parse root source = .ok d ∧ see d = value := by
  cases read : parse root source with
  | error e =>
    rw [read] at seen
    cases seen
  | ok d =>
    rw [read] at seen
    exact ⟨d, rfl, Option.some.inj seen⟩

end Document

end WikiPress

import WikiPress.Proofs.Source.Lists
import WikiPress.Proofs.Source.Regions
import WikiPress.Proofs.Text.Cuts

/-!
# The grammar of sources

Whether a source is a document is a matter of its regions and groups: code has to be closed,
directives and inclusions outside code have to be well formed, and each run of item lines has to be
a list (`Grammatical`). Then each group makes one block or none (`blockOf`), and directives make the
header (`Gives`).
-/

namespace WikiPress

/-- The value names a person: a name, with an address in angle brackets behind it or without. -/
def Author.IsValue (value : List Char) : Prop :=
  (value ≠ [] ∧ '<' ∉ value) ∨
    ∃ name address, value = name ++ '<' :: (address ++ ['>']) ∧ '<' ∉ name ∧ Text.trim name ≠ []

/-- The value gives a range of levels: the deepest, or the highest and the deepest in order. -/
def DepthRange.IsValue (value : List Char) : Prop :=
  (',' ∉ value ∧ ∃ max, byteValue? (Text.trim value) = some max) ∨
    ∃ first last min max, value = first ++ ',' :: last ∧ ',' ∉ first ∧
      byteValue? (Text.trim first) = some min ∧ byteValue? (Text.trim last) = some max ∧ min ≤ max

/-- The name and the value make a directive. -/
def IsDirective (name value : List Char) : Prop :=
  String.ofList name = "title" ∨
    (String.ofList name = "author" ∨ String.ofList name = "verifier") ∧ Author.IsValue value ∨
    String.ofList name = "index" ∧ DepthRange.IsValue value

namespace Region

/-- The text of a text line outside code. -/
def text? : Region → Option (List Char)
  | .line single => Part.text? single
  | .code .. => none

/-- The text of a table row outside code. -/
def row? : Region → Option (List Char)
  | .line single => Part.row? single
  | .code .. => none

/-- The item of an item line outside code. -/
def item? : Region → Option ItemLine
  | .line single => Part.item? single
  | .code .. => none

/-- A text line outside code gives its text. -/
theorem text?_of_kind {line : Line} {content : List Char}
    (kind : LineKind.ofLine line = .text content) : text? (.line line) = some content := by
  simp only [text?, Part.text?, kind]

/-- A table row outside code gives its text. -/
theorem row?_of_kind {line : Line} {text : List Char} (kind : LineKind.ofLine line = .row text) :
    row? (.line line) = some text := by
  simp only [row?, Part.row?, kind]

/-- An item line outside code gives its item. -/
theorem item?_of_kind {line : Line} {marker : ListKind} {indent : Nat} {text : List Char}
    (kind : LineKind.ofLine line = .item marker indent text) :
    item? (.line line) = some ⟨marker, indent, text, line.number⟩ := by
  simp only [item?, Part.item?, kind]

/-- The value of a directive line of the given name outside code. -/
def directive? (name : String) : Region → Option (List Char)
  | .line single =>
    match LineKind.ofLine single with
    | .directive given value => if String.ofList given = name then some value else none
    | _ => none
  | .code .. => none

/-- The inclusion that a line outside code asks for. -/
def inclusion? (root : Path) : Region → Option Inclusion
  | .line single =>
    match LineKind.ofLine single with
    | .inclusion locator => some ⟨Reference.resolve root (String.ofList locator), root⟩
    | _ => none
  | .code .. => none

end Region

/-- The language that the opening line of code names. -/
def languageOf (opening : Line) : Option String :=
  match LineKind.ofLine opening with
  | .fence language => if language = [] then none else some (String.ofList language)
  | _ => none

/-- The texts of code lines, each with a line feed behind it. -/
def fencedText (inner : List Line) : String :=
  Text.concat (inner.map fun line => String.ofList line.text ++ "\n")

/-- A row that only divides: there is a dash in it, and it is made of dashes, bars, colons, spaces
and tabs. -/
def Table.Divides (row : List Char) : Prop :=
  '-' ∈ row ∧ ∀ c ∈ row, c ∈ ['-', '|', ':', ' ', '\t']

/-- Whether a row divides can be seen from its characters. -/
instance Table.decidableDivides (row : List Char) : Decidable (Table.Divides row) :=
  @instDecidableAnd _ _ _ (List.decidableBAll _ row)

/-- The texts between the bars of a row, the first of which opens it: what follows the last bar is a
cell as well, unless it is empty and not the only one. -/
def Table.between (row : List Char) : List (List Char) :=
  let texts := (row.splitOn '|').tail
  if 1 < texts.length ∧ texts.getLast? = some [] then texts.dropLast else texts

/-- The rows of runs that the texts of row lines stand for. -/
def Table.standing (texts : List (List Char)) : List (List (List Run)) :=
  (texts.filter fun row => ¬ Table.Divides row).map fun row =>
    (Table.between row).map fun cell => runsOf (Text.trim cell)

/-- The block that a group makes, if it makes one: code, a table of the rows, a list of the items, a
paragraph of the texts with single spaces between them, or the block of a single line. -/
def blockOf (root : Path) (group : List Region) : Option Block :=
  match group with
  | [] => none
  | .code opening inner _ :: _ => some (.code (languageOf opening) (fencedText inner))
  | .line line :: _ =>
    match LineKind.ofLine line with
    | .blank => none
    | .fence _ => none
    | .rule => some .rule
    | .inclusion locator => some (.inclusion ⟨Reference.resolve root (String.ofList locator), root⟩)
    | .directive name value =>
      if String.ofList name = "index" then (DepthRange.ofValue? value).map .contents else none
    | .heading depth title => some (.heading depth (runsOf title) [])
    | .row _ => some (.table (Table.standing (group.filterMap Region.row?)))
    | .item .. =>
      match listOf (group.filterMap Region.item?) with
      | .ok list => list.head?
      | .error _ => none
    | .text _ => some (.paragraph (runsOf (Text.joined ' ' (group.filterMap Region.text?))))

/-- What the groups of a source have to satisfy. -/
structure Grammatical (groups : List (List Region)) : Prop where
  /-- Code is closed. -/
  closed : ∀ group ∈ groups, ∀ opening inner, .code opening inner none ∉ group
  /-- Directive lines are directives. -/
  directives : ∀ group ∈ groups, ∀ line name value, .line line ∈ group →
    LineKind.ofLine line = .directive name value → IsDirective name value
  /-- Inclusion lines name a document. -/
  inclusions : ∀ group ∈ groups, ∀ line locator, .line line ∈ group →
    LineKind.ofLine line = .inclusion locator → locator ≠ []
  /-- Item lines in a row are a list. -/
  lists : ∀ group ∈ groups, group.filterMap Region.item? ≠ [] →
    ∃ list, listOf (group.filterMap Region.item?) = .ok list

/-- No group has to satisfy anything. -/
theorem Grammatical.nil : Grammatical [] := by
  constructor <;> simp

/-- Each group has to satisfy its own part. -/
theorem Grammatical.cons_iff {group : List Region} {groups : List (List Region)} :
    Grammatical (group :: groups) ↔ Grammatical [group] ∧ Grammatical groups := by
  constructor
  · rintro ⟨closed, directives, inclusions, lists⟩
    rw [List.forall_mem_cons] at closed directives inclusions lists
    exact ⟨⟨List.forall_mem_singleton.2 closed.1, List.forall_mem_singleton.2 directives.1,
      List.forall_mem_singleton.2 inclusions.1, List.forall_mem_singleton.2 lists.1⟩,
      closed.2, directives.2, inclusions.2, lists.2⟩
  · rintro ⟨⟨closed, directives, inclusions, lists⟩, rest⟩
    rw [List.forall_mem_singleton] at closed directives inclusions lists
    exact ⟨List.forall_mem_cons.2 ⟨closed, rest.closed⟩,
      List.forall_mem_cons.2 ⟨directives, rest.directives⟩,
      List.forall_mem_cons.2 ⟨inclusions, rest.inclusions⟩,
      List.forall_mem_cons.2 ⟨lists, rest.lists⟩⟩

/-- A value is read as a person where it names one. -/
theorem Author.isSome_ofValue? (value : List Char) :
    (Author.ofValue? value).isSome = true ↔ Author.IsValue value := by
  unfold Author.ofValue? Author.IsValue
  cases found : Text.cut '<' value with
  | none =>
    have absent := Text.cut_eq_none_iff.1 found
    have uncut : ∀ name address, value ≠ name ++ '<' :: (address ++ ['>']) := by
      rintro name address rfl
      simp at absent
    by_cases empty : value = []
    · simp [empty]
    · simp [empty, absent]
  | some parts =>
    obtain ⟨name, rest⟩ := parts
    obtain ⟨rfl, absent⟩ := Text.cut_eq_some_iff.1 found
    constructor
    · intro read
      cases address : Text.before? '>' rest with
      | none => simp [address] at read
      | some text =>
        by_cases empty : Text.trim name = []
        · simp [address, empty] at read
        · exact .inr ⟨name, text, by rw [Text.before?_eq_some_iff.1 address], absent, empty⟩
    · rintro (⟨_, uncut⟩ | ⟨other, address, same, other_absent, named⟩)
      · simp at uncut
      · have again := Text.cut_append other_absent (address ++ ['>'])
        rw [← same, found] at again
        obtain ⟨rfl, rfl⟩ := Prod.mk.inj (Option.some.inj again)
        simp [Text.before?_eq_some_iff.2 rfl, named]

/-- A value is read as a range of levels where it gives one. -/
theorem DepthRange.isSome_ofValue? (value : List Char) :
    (DepthRange.ofValue? value).isSome = true ↔ DepthRange.IsValue value := by
  unfold DepthRange.ofValue? DepthRange.IsValue
  cases found : Text.cut ',' value with
  | none =>
    have absent := Text.cut_eq_none_iff.1 found
    have uncut : ∀ first last, value ≠ first ++ ',' :: last := by
      rintro first last rfl
      simp at absent
    cases byteValue? (Text.trim value) <;> simp [absent, uncut]
  | some parts =>
    obtain ⟨first, last⟩ := parts
    obtain ⟨rfl, absent⟩ := Text.cut_eq_some_iff.1 found
    constructor
    · intro read
      cases low : byteValue? (Text.trim first) with
      | none => simp [low] at read
      | some min =>
        cases high : byteValue? (Text.trim last) with
        | none => simp [low, high] at read
        | some max =>
          simp only [low, high, Option.bind_some, Option.map_some, Option.isSome_filter] at read
          exact .inr ⟨first, last, min, max, rfl, absent, low, high, by simpa using read⟩
    · rintro (⟨uncut, _⟩ | ⟨other, rest, min, max, same, other_absent, low, high, ordered⟩)
      · simp at uncut
      · have again := Text.cut_append other_absent rest
        rw [← same, found] at again
        obtain ⟨rfl, rfl⟩ := Prod.mk.inj (Option.some.inj again)
        simp [low, high, ordered]

/-- What groups give to the document. -/
structure Gives (root : Path) (groups : List (List Region)) (parts : List Part) : Prop where
  /-- The titles are the values of the title lines. -/
  titles : parts.filterMap Part.title? =
    (groups.flatten.filterMap (Region.directive? "title")).map String.ofList
  /-- The authors are those of the author lines. -/
  authors : parts.filterMap Part.author? =
    (groups.flatten.filterMap (Region.directive? "author")).filterMap Author.ofValue?
  /-- The verifiers are those of the verifier lines. -/
  verifiers : parts.filterMap Part.verifier? =
    (groups.flatten.filterMap (Region.directive? "verifier")).filterMap Author.ofValue?
  /-- The inclusions are those of the inclusion lines. -/
  inclusions : inclusionsOf (parts.filterMap Part.block?) =
    groups.flatten.filterMap (Region.inclusion? root)
  /-- No heading owns anything yet. -/
  bare : ∀ block ∈ parts.filterMap Part.block?, block.isBare = true
  /-- The blocks are those of the groups. -/
  blocks : (∀ text ∈ groups.flatten.filterMap Region.text?, text ≠ []) →
    parts.filterMap Part.block? = groups.filterMap (blockOf root)

/-- No groups give nothing. -/
theorem Gives.nil (root : Path) : Gives root [] [] := by
  constructor <;> simp [inclusionsOf]

/-- What a group gives stands in front of what the groups behind it give. -/
theorem Gives.append {root : Path} {group : List Region} {groups : List (List Region)}
    {own parts : List Part} (first : Gives root [group] own) (rest : Gives root groups parts) :
    Gives root (group :: groups) (own ++ parts) := by
  obtain ⟨titles, authors, verifiers, inclusions, bare, blocks⟩ := first
  simp only [List.flatten_singleton] at titles authors verifiers inclusions blocks
  constructor
  · simp only [List.filterMap_append, List.flatten_cons, List.map_append, titles, rest.titles]
  · simp only [List.filterMap_append, List.flatten_cons, authors, rest.authors]
  · simp only [List.filterMap_append, List.flatten_cons, verifiers, rest.verifiers]
  · simp only [List.filterMap_append, List.flatten_cons, inclusionsOf_append, inclusions,
      rest.inclusions]
  · rw [List.filterMap_append, List.forall_mem_append]
    exact ⟨bare, rest.bare⟩
  · intro filled
    rw [List.flatten_cons, List.filterMap_append, List.forall_mem_append] at filled
    rw [List.filterMap_append, blocks filled.1, rest.blocks filled.2, ← List.filterMap_append,
      List.singleton_append]

/-- A group without directives gives its block. -/
theorem Gives.of_block {root : Path} {group : List Region} {block : Block}
    (headless : ∀ name, group.filterMap (Region.directive? name) = [])
    (inclusions : block.inclusions = group.filterMap (Region.inclusion? root))
    (bare : block.isBare = true)
    (made : (∀ text ∈ group.filterMap Region.text?, text ≠ []) → blockOf root group = some block) :
    Gives root [group] [.block block] := by
  constructor
  · simp [headless, Part.title?]
  · simp [headless, Part.author?]
  · simp [headless, Part.verifier?]
  · simp [inclusionsOf, Part.block?, inclusions]
  · simpa [Part.block?] using bare
  · intro filled
    rw [List.flatten_singleton] at filled
    simp [Part.block?, made filled]

/-- Parts that are blocks give these blocks. -/
theorem Part.filterMap_block? (blocks : List Block) :
    (blocks.map Part.block).filterMap Part.block? = blocks := by
  rw [List.filterMap_map]
  exact List.filterMap_some

section Runs

variable {line : Line} {taken : List Line} {flow : Flow}

/-- All lines of a run are of the flow of the first. -/
theorem flow?_of_run (own : line.flow? = some flow)
    (joined : ∀ other ∈ taken, line.joins other = true) :
    ∀ other ∈ line :: taken, other.flow? = some flow := by
  rw [List.forall_mem_cons]
  refine ⟨own, fun other member => ?_⟩
  simpa [Line.joins_of_flow own] using joined other member

/-- Lines of a flow are no directives and no inclusions. -/
theorem quiet_of_flow (own : line.flow? = some flow)
    (joined : ∀ other ∈ taken, line.joins other = true) :
    (∀ name, ((line :: taken).map Region.line).filterMap (Region.directive? name) = []) ∧
      ∀ root, ((line :: taken).map Region.line).filterMap (Region.inclusion? root) = [] := by
  have flows := flow?_of_run own joined
  have apart : ∀ other, other.flow? = some flow → (∀ name, Region.directive? name (.line other) =
      none) ∧ ∀ root, Region.inclusion? root (.line other) = none := by
    intro other same
    unfold Line.flow? at same
    unfold Region.directive? Region.inclusion?
    cases kind : LineKind.ofLine other <;> simp_all
  constructor
  · intro name
    rw [List.filterMap_eq_nil_iff, List.forall_mem_map]
    exact fun other member => (apart other (flows other member)).1 name
  · intro root
    rw [List.filterMap_eq_nil_iff, List.forall_mem_map]
    exact fun other member => (apart other (flows other member)).2 root

/-- A line of no flow is no item line. -/
theorem itemless_of_alone (none : line.flow? = none) :
    [Region.line line].filterMap Region.item? = [] := by
  have given := Part.isSome_item? line
  rw [none] at given
  simpa [Region.item?] using given

/-- Lines of another flow are no item lines. -/
theorem itemless_of_flow (own : line.flow? = some flow) (other : flow ≠ .items)
    (joined : ∀ other ∈ taken, line.joins other = true) :
    ((line :: taken).map Region.line).filterMap Region.item? = [] := by
  rw [List.filterMap_eq_nil_iff, List.forall_mem_map]
  intro single member
  have given := Part.isSome_item? single
  rw [flow?_of_run own joined single member] at given
  simpa [Region.item?, other] using given

/-- What the first line of a run gives comes first. -/
theorem filterMap_run {α : Type} (give : Region → Option α) {a : α}
    (first : give (.line line) = some a) : ((line :: taken).map Region.line).filterMap give =
      a :: taken.filterMap fun other => give (.line other) := by
  rw [List.map_cons, List.filterMap_cons_some first, List.filterMap_map]
  rfl

/-- A line of no flow is a group of its own. -/
theorem alone_of_flow (none : line.flow? = none)
    (joined : ∀ other ∈ taken, line.joins other = true) : taken = [] := by
  rw [Line.joins_of_alone none] at joined
  exact List.eq_nil_iff_forall_not_mem.2 fun other member => by simpa using joined other member

/-- A run with an item line in it is a run of item lines. -/
theorem flow?_of_items (joined : ∀ other ∈ taken, line.joins other = true)
    (items : ((line :: taken).map Region.line).filterMap Region.item? ≠ []) :
    line.flow? = some .items := by
  cases own : line.flow? with
  | none =>
    obtain rfl := alone_of_flow own joined
    exact absurd (itemless_of_alone own) items
  | some flow =>
    by_contra other
    exact items (itemless_of_flow own (by simpa using other) joined)

/-- All lines of a run are taken together. -/
theorem leading_joined {α : Type} {give : Line → Option α} (own : line.flow? = some flow)
    (gives : ∀ other, (give other).isSome = decide (other.flow? = some flow))
    (joined : ∀ other ∈ taken, line.joins other = true) :
    Part.leading give taken = (taken.filterMap give, []) := by
  have all : ∀ other ∈ taken, (give other).isSome = true := by
    intro other member
    rw [gives, ← Line.joins_of_flow own]
    exact joined other member
  rw [Part.leading_eq, List.takeWhile_eq_self_iff.2 all, List.dropWhile_eq_nil_iff.2 all]

/-- Whether a run is grammatical is a matter of its first line and, where that is an item line, of
the list. -/
theorem grammatical_run (joined : ∀ other ∈ taken, line.joins other = true) :
    Grammatical [(line :: taken).map .line] ↔
      (∀ name value, LineKind.ofLine line = .directive name value → IsDirective name value) ∧
      (∀ locator, LineKind.ofLine line = .inclusion locator → locator ≠ []) ∧
      (((line :: taken).map Region.line).filterMap Region.item? ≠ [] →
        ∃ list, listOf (((line :: taken).map Region.line).filterMap Region.item?) = .ok list) := by
  have follow : ∀ other, Region.line other ∈ (line :: taken).map Region.line →
      other = line ∨ other.flow?.isSome = true := by
    intro other member
    obtain ⟨same, found, shape⟩ := List.mem_map.1 member
    obtain rfl := Region.line.inj shape
    rcases List.mem_cons.1 found with rfl | behind
    · exact .inl rfl
    · have both := joined same behind
      simp only [Line.joins, Bool.and_eq_true, decide_eq_true_eq] at both
      exact .inr (both.2 ▸ both.1)
  constructor
  · rintro ⟨closed, directives, inclusions, lists⟩
    rw [List.forall_mem_singleton] at directives inclusions lists
    exact ⟨fun name value => directives line name value (by simp),
      fun locator => inclusions line locator (by simp), lists⟩
  · rintro ⟨directive, inclusion, lists⟩
    constructor <;> rw [List.forall_mem_singleton]
    · simp
    · intro other name value member kind
      rcases follow other member with rfl | flowing
      · exact directive name value kind
      · simp [Line.flow?, kind] at flowing
    · intro other locator member kind
      rcases follow other member with rfl | flowing
      · exact inclusion locator kind
      · simp [Line.flow?, kind] at flowing
    · exact lists

end Runs

end WikiPress

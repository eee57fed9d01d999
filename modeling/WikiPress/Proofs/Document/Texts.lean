import WikiPress.Proofs.Path.Below
import WikiPress.Proofs.Source.Mistakes
import WikiPress.Proofs.Source.Tables
import WikiPress.Proofs.Wiki.Lines

/-!
# Stored texts

A document stores texts in its header, in runs, with code and with inclusions. Nesting moves them
about and loses none (`textsOf_nestHeadings`). All but the text of code come from one line of the
source each, from lines that are joined by spaces, or from the directory of inclusions, so none of
them holds a line feed if that directory does not (`Document.areLines_of_parse`).
-/

namespace WikiPress

/-- The texts that a run stores. -/
def Run.texts (run : Run) : List String :=
  run.text :: (run.href.toList ++ run.src.toList ++ (run.style.bind Style.color).toList)

/-- The texts that an inclusion stores. -/
def Inclusion.texts (leaf : Inclusion) : List String := leaf.root.text :: leaf.target.names

/-- The texts that are stored with a person. -/
def Author.texts (author : Author) : List String := author.name :: author.email.toList

mutual

/-- The texts that a block stores with all that it owns, the text of code apart. -/
def Block.texts : Block → List String
  | .paragraph runs => runs.flatMap Run.texts
  | .heading _ title children => title.flatMap Run.texts ++ textsOf children
  | .list _ items => textsOfItems items
  | .table rows => rows.flatten.flatten.flatMap Run.texts
  | .code language _ => language.toList
  | .rule => []
  | .contents _ => []
  | .inclusion leaf => leaf.texts

/-- The texts that blocks store. -/
def textsOf : List Block → List String
  | [] => []
  | block :: more => block.texts ++ textsOf more

/-- The texts that items store. -/
def textsOfItems : List Item → List String
  | [] => []
  | item :: more => item.texts ++ textsOfItems more

/-- The texts that an item stores with all that it owns. -/
def Item.texts : Item → List String
  | ⟨_, _, runs, children⟩ => runs.flatMap Run.texts ++ textsOf children

end

/-- The texts that a document stores, the text of code apart. -/
def Document.texts (d : Document) : List String :=
  d.title :: (d.authors.flatMap Author.texts ++ d.verifiers.flatMap Author.texts ++ textsOf d.blocks)

/-- The texts that a part stores. -/
def Part.texts : Part → List String
  | .block b => b.texts
  | .title t => [t]
  | .author a => a.texts
  | .verifier a => a.texts

section Nesting

/-- Blocks store what each of them stores. -/
theorem textsOf_eq_flatMap (blocks : List Block) : textsOf blocks = blocks.flatMap Block.texts := by
  induction blocks with
  | nil => rfl
  | cons block rest ih => rw [textsOf, ih, List.flatMap_cons]

/-- Items store what each of them stores. -/
theorem textsOfItems_eq_flatMap (items : List Item) :
    textsOfItems items = items.flatMap Item.texts := by
  induction items with
  | nil => rfl
  | cons item rest ih => rw [textsOfItems, ih, List.flatMap_cons]

/-- The texts of a tree. -/
def textGathering : Gathering String where
  heading _ title := title.flatMap Run.texts
  item _ _ runs := runs.flatMap Run.texts
  leaf := Block.texts

/-- Texts are gathered. -/
theorem gathers_textsOf : Gathers textGathering textsOf textsOfItems := by
  constructor <;> intros <;> rfl

/-- Nesting keeps the texts of blocks and their order. -/
theorem textsOf_nestHeadings (flat : List Block) : textsOf (nestHeadings flat) = textsOf flat :=
  gathers_textsOf.nestHeadings flat

end Nesting

section Lines

open Wiki

/-- Every text is of one line. -/
def AreLines (texts : List String) : Prop := ∀ text ∈ texts, IsLine text

variable {texts more : List String}

/-- Texts in a row are lines where they all are. -/
theorem areLines_append : AreLines (texts ++ more) ↔ AreLines texts ∧ AreLines more :=
  List.forall_mem_append

/-- A text and those behind it are lines where they all are. -/
theorem areLines_cons {text : String} : AreLines (text :: more) ↔ IsLine text ∧ AreLines more :=
  List.forall_mem_cons

/-- Texts of many are lines where those of each one are. -/
theorem areLines_flatMap {α : Type} {give : α → List String} {many : List α} :
    AreLines (many.flatMap give) ↔ ∀ a ∈ many, AreLines (give a) := by
  unfold AreLines
  simp only [List.mem_flatMap]
  constructor
  · exact fun all a member text inside => all text ⟨a, member, inside⟩
  · rintro all text ⟨a, member, inside⟩
    exact all a member text inside

/-- A text of characters without a line feed is a line. -/
theorem isLine_ofList {chars : List Char} (single : '\n' ∉ chars) : IsLine (String.ofList chars) := by
  rwa [IsLine, String.toList_ofList]

/-- The texts of a run without line feeds are lines. -/
theorem Run.areLines {run : Run} (single : '\n' ∉ run.characters) : AreLines run.texts := by
  have stored : ∀ text : Option String, '\n' ∉ charactersOf text → AreLines text.toList := by
    intro text absent
    cases text with
    | none => exact fun _ member => absurd member List.not_mem_nil
    | some own => exact areLines_cons.2 ⟨absent, fun _ member => absurd member List.not_mem_nil⟩
  simp only [Run.characters, List.mem_append, not_or] at single
  obtain ⟨⟨⟨own, target⟩, source⟩, color⟩ := single
  rw [Run.texts, areLines_cons, areLines_append, areLines_append]
  exact ⟨own, ⟨stored _ target, stored _ source⟩, stored _ color⟩

/-- The texts of the runs of a line without line feeds are lines. -/
theorem areLines_runsOf {line : List Char} (single : '\n' ∉ line) :
    AreLines ((runsOf line).flatMap Run.texts) := by
  rw [areLines_flatMap]
  intro run member
  exact Run.areLines fun inside => single (characters_runsOf member inside)

/-- The texts of a person that a value without line feeds names are lines. -/
theorem Author.areLines {value : List Char} {author : Author}
    (read : Author.ofValue? value = some author) (single : '\n' ∉ value) :
    AreLines author.texts := by
  have empty : AreLines [] := fun _ member => absurd member List.not_mem_nil
  unfold Author.ofValue? at read
  split at read
  · split at read
    · cases read
    · obtain rfl := Option.some.inj read
      exact areLines_cons.2 ⟨isLine_ofList single, empty⟩
  · next name rest cut =>
    split at read
    · cases read
    · next address closed =>
      have parts := List.append_subset.1 (Text.cut_subset cut)
      have inner : address ⊆ rest := by
        rw [Text.before?_eq_some_iff.1 closed]
        exact List.subset_append_left _ _
      have named : IsLine (String.ofList (Text.trim name)) :=
        isLine_ofList fun feed => single (parts.1 (Text.trim_subset _ feed))
      have addressed : IsLine (String.ofList (Text.trim address)) :=
        isLine_ofList fun feed => single (parts.2 (inner (Text.trim_subset _ feed)))
      simp only at read
      split at read
      · cases read
      · obtain rfl := Option.some.inj read
        refine areLines_cons.2 ⟨named, ?_⟩
        by_cases none : Text.trim address = []
        · rw [if_pos none]
          exact empty
        · rw [if_neg none]
          exact areLines_cons.2 ⟨addressed, empty⟩

/-- What a directive makes of a value without line feeds stores lines. -/
theorem Part.areLines_ofDirective {name value : List Char} {number : Nat} {part : Part}
    (made : Part.ofDirective name value number = .ok part) (single : '\n' ∉ value) :
    AreLines part.texts := by
  have empty : AreLines [] := fun _ member => absurd member List.not_mem_nil
  unfold Part.ofDirective at made
  simp only at made
  split at made
  · obtain rfl := Except.ok.inj made
    exact areLines_cons.2 ⟨isLine_ofList single, empty⟩
  · split at made
    · next author read =>
      obtain rfl := Except.ok.inj made
      exact Author.areLines read single
    · cases made
  · split at made
    · next author read =>
      obtain rfl := Except.ok.inj made
      exact Author.areLines read single
    · cases made
  · split at made
    · obtain rfl := Except.ok.inj made
      exact empty
    · cases made
  · cases made

/-- The names of a reference that a path of one line leads to are lines. -/
theorem Reference.areLines_ofPath {p : Path} (line : IsLine p.text) :
    AreLines (Reference.ofPath p).names := by
  have entered : ∀ n, Path.Step.name n ∈ p.steps → IsLine n := by
    intro n member feed
    obtain ⟨name, inside, step⟩ := Path.exists_name_of_mem_steps member
    obtain ⟨rfl, _⟩ := Path.of_step?_eq_name step
    exact line ((Path.mem_text_iff (by decide)).2 ⟨n, inside, feed⟩)
  have walked : ∀ (steps : List Path.Step) (r : Reference),
      (∀ n, Path.Step.name n ∈ steps → IsLine n) → AreLines r.names →
      AreLines (steps.foldl Reference.walk r).names := by
    intro steps
    induction steps with
    | nil => exact fun r _ named => named
    | cons step more ih =>
      intro r entered named
      apply ih _ fun n member => entered n (List.mem_cons_of_mem _ member)
      cases step with
      | top => exact fun _ member => absurd member List.not_mem_nil
      | here => exact named
      | up =>
        rw [Reference.walk]
        split
        · exact List.forall_mem_singleton.2 (by decide)
        · exact fun name member => named name ((List.dropLast_sublist _).subset member)
      | name n =>
        have own := entered n List.mem_cons_self
        exact areLines_append.2 ⟨named, List.forall_mem_singleton.2 own⟩
  exact walked p.steps Reference.start entered fun _ member => absurd member List.not_mem_nil

/-- A line has no line feed with slashes for its backslashes either. -/
theorem isLine_withSlashes {text : String} (line : IsLine text) : IsLine (Path.withSlashes text) := by
  intro feed
  rw [Path.withSlashes, String.toList_ofList, List.mem_map] at feed
  obtain ⟨c, member, same⟩ := feed
  split at same
  · exact absurd same (by decide)
  · exact line (same ▸ member)

/-- The names of a reference that a locator of one line names in a directory of one line are lines. -/
theorem Reference.areLines_resolve {root : Path} {locator : String} (rooted : IsLine root.text)
    (line : IsLine locator) : AreLines (Reference.resolve root locator).names := by
  have slashed := isLine_withSlashes line.trimmed
  apply Reference.areLines_ofPath
  unfold Path.join
  split
  · exact slashed
  split
  · exact rooted.append slashed
  · exact (rooted.append (by decide)).append slashed

/-- What the first lines give is given by one of them. -/
theorem Part.exists_of_leading {α : Type} {give : Line → Option α} {lines : List Line} {a : α}
    (member : a ∈ (Part.leading give lines).1) : ∃ line ∈ lines, give line = some a := by
  rw [Part.leading_eq, List.mem_filterMap] at member
  obtain ⟨line, taken, given⟩ := member
  exact ⟨line, (List.takeWhile_sublist _).subset taken, given⟩

/-- What the kind of a line without line feeds holds is without them. -/
theorem LineKind.single {line : Line} {kind : LineKind} (own : LineKind.ofLine line = kind)
    (single : '\n' ∉ line.text) : '\n' ∉ kind.characters := by
  rw [← own]
  exact fun feed => single (LineKind.characters_ofLine line feed)

/-- The texts of the table that row lines without line feeds make are lines. -/
theorem Table.areLines_rows {lines : List (List Char)} (single : ∀ line ∈ lines, '\n' ∉ line) :
    AreLines (Block.table (Table.rows lines)).texts := by
  rw [Block.texts, areLines_flatMap]
  intro run member
  obtain ⟨cell, inside, own⟩ := List.mem_flatten.1 member
  obtain ⟨row, listed, held⟩ := List.mem_flatten.1 inside
  obtain ⟨line, kept, text, rfl, _, within⟩ := Table.exists_text_of_mem listed held
  apply Run.areLines
  exact fun feed => single line kept (within (characters_runsOf own feed))

/-- The texts of the list that item lines without line feeds make are lines. -/
theorem areLines_listOf {lines : List ItemLine} {blocks : List Block}
    (made : listOf lines = .ok blocks) (single : ∀ line ∈ lines, '\n' ∉ line.text) :
    AreLines (textsOf blocks) := by
  obtain ⟨_, gathered⟩ := gathers_textsOf.listOf made
  rw [gathered, areLines_flatMap]
  exact fun line member => areLines_runsOf (single line member)

/-- The text of a row line is of the line. -/
theorem Part.row?_subset {line : Line} {row : List Char} (given : Part.row? line = some row) :
    row ⊆ line.text := by
  unfold Part.row? at given
  split at given
  · next kind =>
    obtain rfl := Option.some.inj given
    have held := LineKind.characters_ofLine line
    rwa [kind] at held
  · cases given

/-- The text of a text line is of the line. -/
theorem Part.text?_subset {line : Line} {text : List Char} (given : Part.text? line = some text) :
    text ⊆ line.text := by
  unfold Part.text? at given
  split at given
  · next kind =>
    obtain rfl := Option.some.inj given
    have held := LineKind.characters_ofLine line
    rwa [kind] at held
  · cases given

/-- The text of an item line is of the line. -/
theorem Part.item?_subset {line : Line} {item : ItemLine} (given : Part.item? line = some item) :
    item.text ⊆ line.text := by
  unfold Part.item? at given
  split at given
  · next kind =>
    obtain rfl := Option.some.inj given
    exact LineKind.ofLine_item kind
  · cases given

/-- Lines without line feeds give no line feed. -/
theorem Part.single_of_leading {α : Type} {give : Line → Option α} (held : α → List Char)
    (given : ∀ {line a}, give line = some a → held a ⊆ line.text) {more : List Line}
    (behind : ∀ other ∈ more, '\n' ∉ other.text) :
    ∀ a ∈ (Part.leading give more).1, '\n' ∉ held a := by
  intro a member feed
  obtain ⟨line, inside, own⟩ := Part.exists_of_leading member
  exact behind line inside (given own feed)

/-- Texts that are joined with spaces bring in no line feed. -/
theorem Part.single_flowed {texts : List (List Char)} (single : ∀ text ∈ texts, '\n' ∉ text) :
    '\n' ∉ Part.flowed texts := by
  have kept : ∀ text ∈ texts.dropWhile (· = []), '\n' ∉ text :=
    fun text member => single text ((List.dropWhile_sublist _).subset member)
  unfold Part.flowed
  split
  · exact List.not_mem_nil
  · next first more shape =>
    rw [shape, List.forall_mem_cons] at kept
    rw [List.mem_append, not_or, List.mem_flatMap]
    refine ⟨kept.1, ?_⟩
    rintro ⟨text, member, feed⟩
    rcases List.mem_cons.1 feed with space | inside
    · exact absurd space (by decide)
    · exact kept.2 text member inside

/-- What is read from lines without line feeds, in a directory of inclusions without them, stores
lines. -/
theorem Part.areLines_read {root : Path} (rooted : IsLine root.text) {line : Line}
    {more rest : List Line} {parts : List Part}
    (found : Part.read root line more = .ok (parts, rest)) (own : '\n' ∉ line.text)
    (behind : ∀ other ∈ more, '\n' ∉ other.text) : AreLines (parts.flatMap Part.texts) := by
  have empty : AreLines [] := fun _ member => absurd member List.not_mem_nil
  cases kind : LineKind.ofLine line with
  | blank =>
    simp only [Part.read, kind] at found
    obtain ⟨rfl, _⟩ := Prod.mk.inj (Except.ok.inj found)
    exact empty
  | rule =>
    simp only [Part.read, kind] at found
    obtain ⟨rfl, _⟩ := Prod.mk.inj (Except.ok.inj found)
    exact empty
  | directive name value =>
    simp only [Part.read, kind] at found
    cases made : Part.ofDirective name value line.number with
    | error e =>
      rw [made] at found
      cases found
    | ok part =>
      rw [made] at found
      obtain ⟨rfl, _⟩ := Prod.mk.inj (Except.ok.inj found)
      rw [List.flatMap_singleton]
      exact Part.areLines_ofDirective made (LineKind.single kind own)
  | fence language =>
    simp only [Part.read, kind] at found
    split at found
    · cases found
    · obtain ⟨rfl, _⟩ := Prod.mk.inj (Except.ok.inj found)
      rw [List.flatMap_singleton, Part.texts, Block.texts]
      by_cases none : language = []
      · rw [if_pos none]
        exact empty
      · rw [if_neg none]
        exact areLines_cons.2 ⟨isLine_ofList (LineKind.single kind own), empty⟩
  | inclusion locator =>
    have named : IsLine (String.ofList locator) := isLine_ofList (LineKind.single kind own)
    have target := Reference.areLines_resolve rooted named
    simp only [Part.read, kind] at found
    split at found
    · cases found
    · obtain ⟨rfl, _⟩ := Prod.mk.inj (Except.ok.inj found)
      rw [List.flatMap_singleton, Part.texts, Block.texts, Inclusion.texts]
      exact areLines_cons.2 ⟨rooted, target⟩
  | heading depth title =>
    simp only [Part.read, kind] at found
    obtain ⟨rfl, _⟩ := Prod.mk.inj (Except.ok.inj found)
    rw [List.flatMap_singleton, Part.texts, Block.texts]
    exact areLines_append.2 ⟨areLines_runsOf (LineKind.single kind own), empty⟩
  | row text =>
    have rows := Part.single_of_leading id Part.row?_subset behind
    simp only [Part.read, kind] at found
    obtain ⟨rfl, _⟩ := Prod.mk.inj (Except.ok.inj found)
    rw [List.flatMap_singleton, Part.texts]
    apply Table.areLines_rows
    rw [List.forall_mem_cons]
    exact ⟨LineKind.single kind own, rows⟩
  | item marker indent text =>
    have items := Part.single_of_leading ItemLine.text Part.item?_subset behind
    simp only [Part.read, kind] at found
    cases made : listOf (⟨marker, indent, text, line.number⟩ ::
        (Part.leading Part.item? more).1) with
    | error e =>
      rw [made] at found
      cases found
    | ok list =>
      rw [made] at found
      obtain ⟨rfl, _⟩ := Prod.mk.inj (Except.ok.inj found)
      have lines := areLines_listOf made
        (List.forall_mem_cons.2 ⟨LineKind.single kind own, items⟩)
      have same : (list.map Part.block).flatMap Part.texts = textsOf list := by
        rw [textsOf_eq_flatMap, List.flatMap_map]
        rfl
      rwa [same]
  | text content =>
    have texts := Part.single_of_leading id Part.text?_subset behind
    simp only [Part.read, kind] at found
    obtain ⟨rfl, _⟩ := Prod.mk.inj (Except.ok.inj found)
    rw [List.flatMap_singleton, Part.texts, Block.texts]
    apply areLines_runsOf
    apply Part.single_flowed
    rw [List.forall_mem_cons]
    exact ⟨LineKind.single kind own, texts⟩

/-- What lines without line feeds give stores lines. -/
theorem Part.areLines_ofLines {root : Path} (rooted : IsLine root.text) {lines : List Line}
    {parts : List Part} (made : Part.ofLines root lines = .ok parts)
    (single : ∀ line ∈ lines, '\n' ∉ line.text) : AreLines (parts.flatMap Part.texts) := by
  fun_induction Part.ofLines root lines generalizing parts with
  | case1 =>
    obtain rfl := Except.ok.inj made
    exact fun _ member => absurd member List.not_mem_nil
  | case2 => cases made
  | case3 line more own rest found ih =>
    cases behind : Part.ofLines root rest with
    | error e =>
      rw [behind] at made
      cases made
    | ok others =>
      rw [behind] at made
      obtain rfl := Except.ok.inj made
      rw [List.forall_mem_cons] at single
      obtain ⟨taken, split, _⟩ := Part.read_cut found
      have left : ∀ other ∈ rest, '\n' ∉ other.text := by
        intro other member
        apply single.2 other
        rw [split]
        exact List.mem_append_right _ member
      rw [List.flatMap_append, areLines_append]
      exact ⟨Part.areLines_read rooted found single.1 single.2, ih behind left⟩

/-- A document stores what its parts store. -/
theorem Document.areLines_ofParts {parts : List Part} (lines : AreLines (parts.flatMap Part.texts)) :
    AreLines (Document.ofParts parts).texts := by
  rw [areLines_flatMap] at lines
  have titled : IsLine (Document.ofParts parts).title := by
    show IsLine ((parts.filterMap Part.title?).getLast?.getD "")
    cases last : (parts.filterMap Part.title?).getLast? with
    | none => decide
    | some text =>
      obtain ⟨part, member, given⟩ := List.mem_filterMap.1 (List.mem_of_getLast? last)
      cases part <;> cases given
      exact lines _ member text List.mem_cons_self
  rw [Document.texts, areLines_cons, areLines_append, areLines_append, areLines_flatMap,
    areLines_flatMap]
  refine ⟨titled, ⟨?_, ?_⟩, ?_⟩
  · intro author listed
    obtain ⟨part, member, given⟩ := List.mem_filterMap.1 listed
    cases part <;> cases given
    exact lines _ member
  · intro verifier listed
    obtain ⟨part, member, given⟩ := List.mem_filterMap.1 listed
    cases part <;> cases given
    exact lines _ member
  · show AreLines (textsOf (nestHeadings (parts.filterMap Part.block?)))
    rw [textsOf_nestHeadings, textsOf_eq_flatMap, areLines_flatMap]
    intro block listed
    obtain ⟨part, member, given⟩ := List.mem_filterMap.1 listed
    cases part <;> cases given
    exact lines _ member

/-- No text that a document stores holds a line feed, the text of code apart, if the directory of its
inclusions does not. -/
theorem Document.areLines_of_parse {root : Path} {source : String} {d : Document}
    (rooted : IsLine root.text) (read : Document.parse root source = .ok d) :
    AreLines d.texts := by
  obtain ⟨_, parts, made, rfl, _⟩ := Document.parts_of_parse read
  apply Document.areLines_ofParts
  exact Part.areLines_ofLines rooted made fun line member => Line.single_of_mem member

end Lines

end WikiPress

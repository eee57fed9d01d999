import WikiPress.Proofs.Document.Texts
import WikiPress.Statistics

/-!
# Outlines and statistics

What an outline shows line by line are the nodes of a tree: the blocks of a document, the items of
its lists and the rows of its tables. The outline has one line for each node, in the order of the
tree and set in by its level (`outlineLines_listed`), and the statistics count the same nodes
(`tally_listed`). Since no stored text holds a line feed, these lines are those of the text as well
(`Document.outline_of_parse`).
-/

namespace WikiPress

open Wiki

section Labels

/-- The text is a line that does not begin with a space. -/
def IsLabel (text : String) : Prop := IsLine text ∧ text.toList.head?.any (· ≠ ' ') = true

instance (text : String) : Decidable (IsLabel text) :=
  inferInstanceAs (Decidable (IsLine text ∧ text.toList.head?.any (· ≠ ' ') = true))

variable {text more : String}

/-- What begins with a label is one, if it stays on the line. -/
theorem IsLabel.append (label : IsLabel text) (line : IsLine more) : IsLabel (text ++ more) := by
  refine ⟨label.1.append line, ?_⟩
  rw [String.toList_append]
  cases shape : text.toList with
  | nil =>
    have first := label.2
    rw [shape] at first
    cases first
  | cons c rest =>
    have first := label.2
    rw [shape] at first
    exact first

/-- Lines with a line between them are one line. -/
theorem isLine_intercalate {texts : List String} (between : IsLine text) (lines : AreLines texts) :
    IsLine (text.intercalate texts) := by
  have inner : ∀ texts, AreLines texts → '\n' ∉ text.toList.intercalate (texts.map String.toList) := by
    intro texts
    induction texts with
    | nil => simp
    | cons first more ih =>
      intro lines
      rw [areLines_cons] at lines
      cases more with
      | nil =>
        rw [List.map_singleton, List.intercalate_singleton]
        exact lines.1
      | cons next others =>
        rw [List.map_cons, List.map_cons, List.intercalate_cons_cons, List.mem_append,
          List.mem_append, not_or, not_or]
        exact ⟨⟨lines.1, between⟩, ih lines.2⟩
  rw [IsLine, String.toList_intercalate]
  exact inner texts lines

/-- A number is written on one line. -/
theorem isLine_toString (n : Nat) : IsLine (toString n) := by
  intro feed
  have digit := Nat.isDigit_of_mem_toDigits (by decide) (by decide) (Nat.toList_repr ▸ feed)
  revert digit
  decide

/-- Runs without markup are on one line where they store lines. -/
theorem isLine_plainText {runs : List Run} (lines : AreLines (runs.flatMap Run.texts)) :
    IsLine (plainText runs) := by
  rw [areLines_flatMap] at lines
  apply IsLine.concat
  rw [List.forall_mem_map]
  intro run member
  have own := lines run member
  unfold Run.plainText
  cases image : run.src with
  | none => exact own _ List.mem_cons_self
  | some src =>
    have source : IsLine src := own src (by simp [Run.texts, image])
    have opening : IsLine "[img " := by decide
    exact (opening.append source).append (by decide)

/-- A person is written on one line where their texts are lines. -/
theorem Author.isLine_written {author : Author} (lines : AreLines author.texts) :
    IsLine author.written := by
  have named : IsLine author.name := lines _ List.mem_cons_self
  unfold Author.written
  cases given : author.email with
  | none => exact named
  | some email =>
    have address : IsLine email := lines email (by simp [Author.texts, given])
    exact ((named.append (by decide)).append address).append (by decide)

/-- A text in quotes is on one line. -/
theorem isLine_quoted (text : String) : IsLine (Text.quoted text) := by
  have digit : ∀ n < 16, Text.hexDigit n ≠ '\n' := by decide
  have digits : ∀ n, '\n' ∉ Text.hexDigits n := by
    intro n
    fun_induction Text.hexDigits n with
    | case1 n small => simpa using (digit n small).symm
    | case2 n large ih =>
      have last := digit (n % 16) (Nat.mod_lt _ (by decide))
      rw [List.mem_append, List.mem_singleton, not_or]
      exact ⟨ih, last.symm⟩
  have own : ∀ c, '\n' ∉ Text.quotedChar c := by
    intro c
    unfold Text.quotedChar
    split
    · decide
    split
    · decide
    split
    · decide
    split
    · decide
    split
    · decide
    split
    · decide
    split
    · next other _ _ _ => exact fun feed => other (List.mem_singleton.1 feed).symm
    · rw [List.mem_append, List.mem_append, not_or, not_or]
      exact ⟨⟨by decide, digits _⟩, by decide⟩
  have inner : IsLine (String.ofList (text.toList.flatMap Text.quotedChar)) := by
    apply isLine_ofList
    rw [List.mem_flatMap]
    rintro ⟨c, _, feed⟩
    exact own c feed
  have opening : IsLine "\"" := by decide
  exact (opening.append inner).append (by decide)

end Labels

/-- What stands in a line of its own in an outline. -/
inductive Node where
  | block (block : Block)
  | item (item : Item)
  | row (cells : List (List Run))

namespace Node

/-- The nodes that stand below a node, one level deeper. -/
def owned : Node → List Node
  | .block (.heading _ _ children) => children.map .block
  | .block (.list _ items) => items.map .item
  | .block (.table rows) => rows.map .row
  | .block _ => []
  | .item i => i.children.map .block
  | .row _ => []

/-- The list holds the nodes of a forest with their levels: each one in front of those below it, and
those in front of the next one. -/
inductive Listed : Nat → List Node → List (Nat × Node) → Prop
  | nil (level : Nat) : Listed level [] []
  | cons {level : Nat} {node : Node} {more : List Node} {below behind : List (Nat × Node)}
      (own : Listed (level + 1) node.owned below) (rest : Listed level more behind) :
      Listed level (node :: more) ((level, node) :: (below ++ behind))

/-- The node is a block. -/
def isBlock : Node → Bool
  | .block _ => true
  | _ => false

/-- The node is an item of a list. -/
def isItem : Node → Bool
  | .item _ => true
  | _ => false

/-- The node is a row of a table. -/
def isRow : Node → Bool
  | .row _ => true
  | _ => false

/-- The lines of a node and of those below it. -/
def outlineLines (level : Nat) : Node → List OutlineLine
  | .block b => b.outlineLines level
  | .item i => i.outlineLines level
  | .row cells => [⟨level, rowText cells⟩]

/-- What the line of a node says. -/
def label (node : Node) : String := ((node.outlineLines 0).head?.map (·.text)).getD ""

/-- The texts that a node and those below it store, the text of code apart. -/
def texts : Node → List String
  | .block b => b.texts
  | .item i => i.texts
  | .row cells => cells.flatten.flatMap Run.texts

/-- The tally of a node and of those below it. -/
def tally : Node → Tally
  | .block b => b.tally
  | .item i => i.tally
  | .row _ => {}

end Node

/-- Blocks show one after the other. -/
theorem outlineLinesOf_eq_flatMap (level : Nat) (blocks : List Block) :
    outlineLinesOf level blocks = (blocks.map Node.block).flatMap (Node.outlineLines level) := by
  induction blocks with
  | nil => rfl
  | cons block more ih => rw [outlineLinesOf, ih, List.map_cons, List.flatMap_cons]; rfl

/-- Items show one after the other. -/
theorem outlineLinesOfItems_eq_flatMap (level : Nat) (items : List Item) :
    outlineLinesOfItems level items = (items.map Node.item).flatMap (Node.outlineLines level) := by
  induction items with
  | nil => rfl
  | cons item more ih => rw [outlineLinesOfItems, ih, List.map_cons, List.flatMap_cons]; rfl

namespace Node

/-- A node shows in a line, and the nodes below it one level deeper. -/
theorem outlineLines_eq (level : Nat) (node : Node) : node.outlineLines level =
    ⟨level, node.label⟩ :: node.owned.flatMap (outlineLines (level + 1)) := by
  cases node with
  | block b =>
    cases b with
    | heading depth title children =>
      show _ :: outlineLinesOf (level + 1) children = _
      rw [outlineLinesOf_eq_flatMap]
      rfl
    | list kind items =>
      show _ :: outlineLinesOfItems (level + 1) items = _
      rw [outlineLinesOfItems_eq_flatMap]
      rfl
    | table rows =>
      show _ :: rows.map (fun cells => (⟨level + 1, rowText cells⟩ : OutlineLine)) = _
      have shown : (rows.map Node.row).flatMap (outlineLines (level + 1)) =
          rows.map fun cells => (⟨level + 1, rowText cells⟩ : OutlineLine) := by
        rw [List.flatMap_map, List.map_eq_flatMap]
        rfl
      rw [← shown]
      rfl
    | _ => rfl
  | item i =>
    obtain ⟨kind, depth, runs, children⟩ := i
    show _ :: outlineLinesOf (level + 1) children = _
    rw [outlineLinesOf_eq_flatMap]
    rfl
  | row cells => rfl

variable {level : Nat} {roots : List Node} {nodes : List (Nat × Node)}

/-- The lines of a forest are those of its nodes, set in by their levels. -/
theorem outlineLines_listed (listed : Listed level roots nodes) :
    roots.flatMap (outlineLines level) =
      nodes.map fun entry => ⟨entry.1, entry.2.label⟩ := by
  induction listed with
  | nil => rfl
  | @cons level node more below behind _ _ own rest =>
    rw [List.flatMap_cons, outlineLines_eq, own, rest, List.map_cons, List.map_append,
      List.cons_append]

section Counts

/-- What is counted in the tallies of nodes. -/
def counted (count : Tally → Nat) : List Node → Nat
  | [] => 0
  | node :: more => count node.tally + counted count more

variable (count : Tally → Nat) (none : count {} = 0)
include none

/-- Nothing is counted in rows. -/
theorem count_rows (rows : List (List (List Run))) :
    0 = counted count (rows.map Node.row) := by
  induction rows with
  | nil => rfl
  | cons first more ih =>
    rw [List.map_cons, counted, ← ih]
    exact none.symm

variable (both : ∀ s t : Tally, count (s + t) = count s + count t)
include both

/-- What is counted in blocks is counted in each of them. -/
theorem count_tallyBlocks (blocks : List Block) :
    count (tallyBlocks blocks) = counted count (blocks.map Node.block) := by
  induction blocks with
  | nil => exact none
  | cons first more ih =>
    rw [tallyBlocks, both, ih, List.map_cons, counted]
    rfl

/-- What is counted in items is counted in each of them. -/
theorem count_tallyItems (items : List Item) :
    count (tallyItems items) = counted count (items.map Node.item) := by
  induction items with
  | nil => exact none
  | cons first more ih =>
    rw [tallyItems, both, ih, List.map_cons, counted]
    rfl

end Counts

/-- The tally of a node counts the node itself and what is counted below it. -/
theorem tally_eq (node : Node) :
    node.tally.blocks = (if node.isBlock then 1 else 0) + counted Tally.blocks node.owned ∧
      node.tally.items = (if node.isItem then 1 else 0) + counted Tally.items node.owned := by
  have blocks := count_tallyBlocks Tally.blocks rfl fun _ _ => rfl
  have items := count_tallyBlocks Tally.items rfl fun _ _ => rfl
  cases node with
  | block b =>
    cases b with
    | heading depth title children =>
      exact ⟨congrArg (1 + ·) (blocks children), congrArg (0 + ·) (items children)⟩
    | list kind listed =>
      exact ⟨congrArg (1 + ·) (count_tallyItems Tally.blocks rfl (fun _ _ => rfl) listed),
        congrArg (0 + ·) (count_tallyItems Tally.items rfl (fun _ _ => rfl) listed)⟩
    | table rows =>
      exact ⟨congrArg (1 + ·) (count_rows Tally.blocks rfl rows),
        congrArg (0 + ·) (count_rows Tally.items rfl rows)⟩
    | _ => exact ⟨rfl, rfl⟩
  | item i =>
    obtain ⟨kind, depth, runs, children⟩ := i
    exact ⟨congrArg (0 + ·) (blocks children), congrArg (1 + ·) (items children)⟩
  | row cells => exact ⟨rfl, rfl⟩

/-- The tallies of a forest count its blocks and its items. -/
theorem tally_listed (listed : Listed level roots nodes) :
    counted Tally.blocks roots = nodes.countP (·.2.isBlock) ∧
      counted Tally.items roots = nodes.countP (·.2.isItem) := by
  induction listed with
  | nil => exact ⟨rfl, rfl⟩
  | @cons level node more below behind _ _ own rest =>
    obtain ⟨blocks, items⟩ := node.tally_eq
    rw [own.1] at blocks
    rw [own.2] at items
    simp only [counted, rest.1, rest.2, blocks, items, List.countP_cons, List.countP_append]
    constructor <;> omega

/-- The rows of a table have nothing below them. -/
theorem listed_rows (level : Nat) (rows : List (List (List Run))) :
    Listed level (rows.map Node.row) (rows.map fun cells => (level, Node.row cells)) := by
  induction rows with
  | nil => exact .nil level
  | cons cells more ih =>
    have bare : Listed (level + 1) (Node.row cells).owned [] := .nil (level + 1)
    exact .cons bare ih

/-- The nodes of blocks can be listed, at whatever level they stand. -/
theorem exists_listed (blocks : List Block) :
    ∀ level, ∃ nodes, Listed level (blocks.map Node.block) nodes := by
  refine blocks_induction (P := fun blocks => ∀ level, ∃ nodes, Listed level (blocks.map .block) nodes)
    (Q := fun items => ∀ level, ∃ nodes, Listed level (items.map .item) nodes)
    ?_ ?_ ?_ ?_ ?_ ?_ ?_ blocks
  · exact fun level => ⟨[], .nil level⟩
  · intro leaf more rest level
    obtain ⟨behind, listed⟩ := rest level
    have bare : Listed (level + 1) (Node.block (.inclusion leaf)).owned [] := .nil (level + 1)
    exact ⟨_, .cons bare listed⟩
  · intro depth title children more own rest level
    obtain ⟨below, inner⟩ := own (level + 1)
    obtain ⟨behind, listed⟩ := rest level
    have owned : Listed (level + 1) (Node.block (.heading depth title children)).owned below := inner
    exact ⟨_, .cons owned listed⟩
  · intro kind items more own rest level
    obtain ⟨below, inner⟩ := own (level + 1)
    obtain ⟨behind, listed⟩ := rest level
    have owned : Listed (level + 1) (Node.block (.list kind items)).owned below := inner
    exact ⟨_, .cons owned listed⟩
  · intro block more plain rest level
    obtain ⟨behind, listed⟩ := rest level
    have owned : ∃ below, Listed (level + 1) (Node.block block).owned below := by
      cases block with
      | table rows => exact ⟨_, listed_rows (level + 1) rows⟩
      | heading | list | inclusion => cases plain
      | _ => exact ⟨[], .nil (level + 1)⟩
    obtain ⟨below, inner⟩ := owned
    exact ⟨_, .cons inner listed⟩
  · exact fun level => ⟨[], .nil level⟩
  · intro kind depth runs children more own rest level
    obtain ⟨below, inner⟩ := own (level + 1)
    obtain ⟨behind, listed⟩ := rest level
    have owned : Listed (level + 1) (Node.item ⟨kind, depth, runs, children⟩).owned below := inner
    exact ⟨_, .cons owned listed⟩

/-- The line of a node does not begin with a space, and what it stores does not break it. -/
theorem isLabel_label {node : Node} (lines : AreLines node.texts) : IsLabel node.label := by
  cases node with
  | block b =>
    cases b with
    | paragraph runs =>
      have opening : IsLabel "paragraph: " := by decide
      exact opening.append (isLine_plainText lines)
    | heading depth title children =>
      have opening : IsLabel "heading(" := by decide
      have titled := isLine_plainText (areLines_append.1 lines).1
      have marked := (opening.append (isLine_toString depth)).append (by decide : IsLine "): ")
      exact marked.append titled.trimmed
    | list kind items =>
      have named : IsLabel (kind.name ++ "-list") := by cases kind <;> decide
      exact named
    | table rows => exact (by decide : IsLabel "table")
    | code language text =>
      have opening : IsLabel "code (" := by decide
      exact (opening.append (isLine_toString _)).append (by decide)
    | rule => exact (by decide : IsLabel "rule")
    | contents range =>
      have opening : IsLabel "toc " := by decide
      have first := (opening.append (isLine_toString range.min)).append (by decide : IsLine "..=")
      exact first.append (isLine_toString range.max)
    | inclusion leaf =>
      have opening : IsLabel "@>include: " := by decide
      have names := isLine_intercalate (by decide : IsLine "/") (areLines_cons.1 lines).2
      have path : IsLine leaf.target.path.text :=
        (IsLine.ite _ (by decide) (by decide)).append names
      exact opening.append (isLine_withSlashes path)
  | item i =>
    obtain ⟨kind, depth, runs, children⟩ := i
    have opening : IsLabel (kind.bullet ++ " ") := by cases kind <;> decide
    exact opening.append (isLine_plainText (areLines_append.1 lines).1)
  | row cells =>
    have opening : IsLabel "| " := by decide
    have shown : AreLines (cells.map plainText) := by
      unfold AreLines
      rw [List.forall_mem_map]
      intro cell member
      apply isLine_plainText
      rw [texts, areLines_flatMap] at lines
      rw [areLines_flatMap]
      exact fun run inside => lines run (List.mem_flatten.2 ⟨cell, member, inside⟩)
    have inner := isLine_intercalate (by decide : IsLine " | ") shown
    exact (opening.append inner).append (by decide)

/-- Below a node that stores lines there are nodes that do. -/
theorem areLines_owned {node : Node} (lines : AreLines node.texts) :
    ∀ below ∈ node.owned, AreLines below.texts := by
  have blocks : ∀ children : List Block, AreLines (textsOf children) →
      ∀ below ∈ children.map Node.block, AreLines below.texts := by
    intro children lines
    rw [textsOf_eq_flatMap, areLines_flatMap] at lines
    rwa [List.forall_mem_map]
  have none : ∀ below ∈ ([] : List Node), AreLines below.texts :=
    fun _ member => absurd member List.not_mem_nil
  cases node with
  | block b =>
    cases b with
    | heading depth title children => exact blocks children (areLines_append.1 lines).2
    | list kind items =>
      have inner : AreLines (textsOfItems items) := lines
      rw [textsOfItems_eq_flatMap, areLines_flatMap] at inner
      rw [owned, List.forall_mem_map]
      exact inner
    | table rows =>
      have inner : AreLines (rows.flatten.flatten.flatMap Run.texts) := lines
      rw [areLines_flatMap] at inner
      rw [owned, List.forall_mem_map]
      intro cells member
      rw [texts, areLines_flatMap]
      intro run inside
      obtain ⟨cell, listed, own⟩ := List.mem_flatten.1 inside
      have held := List.mem_flatten.2 ⟨cells, member, listed⟩
      exact inner run (List.mem_flatten.2 ⟨cell, held, own⟩)
    | _ => exact none
  | item i =>
    obtain ⟨kind, depth, runs, children⟩ := i
    exact blocks children (areLines_append.1 lines).2
  | row cells => exact none

/-- In a forest that stores lines, the line of every node is one. -/
theorem isLabel_listed (listed : Listed level roots nodes)
    (lines : ∀ root ∈ roots, AreLines root.texts) : ∀ entry ∈ nodes, IsLabel entry.2.label := by
  induction listed with
  | nil => exact fun _ member => absurd member List.not_mem_nil
  | cons _ _ own rest =>
    rw [List.forall_mem_cons] at lines
    rw [List.forall_mem_cons, List.forall_mem_append]
    exact ⟨isLabel_label lines.1, own (areLines_owned lines.1), rest lines.2⟩

/-- Every node is a block, an item or a row. -/
theorem length_nodes (nodes : List (Nat × Node)) : nodes.length =
    nodes.countP (·.2.isBlock) + nodes.countP (·.2.isItem) + nodes.countP (·.2.isRow) := by
  induction nodes with
  | nil => rfl
  | cons entry more ih =>
    obtain ⟨level, node⟩ := entry
    have one : 1 = (if node.isBlock then 1 else 0) + (if node.isItem then 1 else 0) +
        if node.isRow then 1 else 0 := by cases node <;> rfl
    simp only [List.length_cons, List.countP_cons]
    omega

end Node

section Written

/-- The indentation of a level is two spaces for each. -/
theorem toList_repeated (level : Nat) :
    (Text.repeated "  " level).toList = List.replicate (2 * level) ' ' := by
  induction level with
  | zero => rfl
  | succ n ih =>
    have longer : 2 * (n + 1) = 2 + 2 * n := by omega
    rw [Text.repeated, String.toList_append, ih, longer, List.replicate_add]
    rfl

/-- A line of an outline, set in, without its line feed. -/
def OutlineLine.shown (line : OutlineLine) : List Char :=
  List.replicate (2 * line.level) ' ' ++ line.text.toList

variable {lines : List OutlineLine}

/-- The text of an outline is its lines, each with a line feed behind it. -/
theorem toList_written (lines : List OutlineLine) :
    (Text.concat (lines.map OutlineLine.written)).toList =
      (lines.map OutlineLine.shown).flatMap (· ++ ['\n']) := by
  have own (line : OutlineLine) : line.written.toList = line.shown ++ ['\n'] := by
    rw [OutlineLine.written, OutlineLine.shown, String.toList_append, String.toList_append,
      toList_repeated]
    rfl
  rw [Text.toList_concat, List.flatMap_map, List.flatMap_map]
  simp only [own]

/-- A line of an outline that its text does not break is a line. -/
theorem single_shown {line : OutlineLine} (single : IsLine line.text) : '\n' ∉ line.shown := by
  rw [OutlineLine.shown, List.mem_append, not_or]
  exact ⟨fun feed => absurd (List.eq_of_mem_replicate feed) (by decide), single⟩

/-- Between its line feeds, an outline has its lines. -/
theorem pieces_written (single : ∀ line ∈ lines, IsLine line.text) :
    Text.pieces '\n' (Text.concat (lines.map OutlineLine.written)).toList =
      lines.map OutlineLine.shown ++ [[]] := by
  rw [toList_written, ← List.append_nil (List.flatMap _ _), Text.pieces_ended]
  · rfl
  · rw [List.forall_mem_map]
    exact fun line member => single_shown (single line member)

/-- An outline has as many lines as it was made of. -/
theorem lineCount_written (single : ∀ line ∈ lines, IsLine line.text) :
    lineCount (Text.concat (lines.map OutlineLine.written)) = lines.length := by
  rw [lineCount, Text.lines, pieces_written single, List.dropLast_concat, List.getLast?_concat,
    List.length_append, List.length_map, List.length_map]
  rfl

end Written

namespace Document

/-- The lines in front of the tree: the title, and those for the people there are. -/
def headLines (d : Document) : List OutlineLine :=
  ⟨0, "Document " ++ Text.quoted d.title⟩ ::
    (peopleLines "authors" d.authors ++ peopleLines "verifiers" d.verifiers)

/-- There is one line for the title and one for each kind of people, if there are any. -/
theorem length_headLines (d : Document) : d.headLines.length =
    1 + (if d.authors = [] then 0 else 1) + (if d.verifiers = [] then 0 else 1) := by
  have people : ∀ (label : String) (listed : List Author),
      (peopleLines label listed).length = if listed = [] then 0 else 1 := by
    intro label listed
    unfold peopleLines
    split <;> rfl
  rw [headLines, List.length_cons, List.length_append, people, people]
  omega

/-- The lines in front of the tree are lines if the stored texts are. -/
theorem isLine_headLines {d : Document} (lines : AreLines d.texts) :
    ∀ line ∈ d.headLines, IsLine line.text := by
  have people : ∀ (label : String) (listed : List Author), IsLine label →
      AreLines (listed.flatMap Author.texts) →
      ∀ line ∈ peopleLines label listed, IsLine line.text := by
    intro label listed labelled stored line member
    unfold peopleLines at member
    split at member
    · cases member
    · obtain rfl := List.mem_singleton.1 member
      have written : AreLines (listed.map Author.written) := by
        unfold AreLines
        rw [areLines_flatMap] at stored
        rw [List.forall_mem_map]
        exact fun author inside => Author.isLine_written (stored author inside)
      have between : IsLine ", " := by decide
      exact (labelled.append (by decide)).append (isLine_intercalate between written)
  rw [texts, areLines_cons, areLines_append, areLines_append] at lines
  obtain ⟨_, ⟨authors, verifiers⟩, _⟩ := lines
  have opening : IsLine "Document " := by decide
  rw [headLines, List.forall_mem_cons, List.forall_mem_append]
  exact ⟨opening.append (isLine_quoted d.title),
    people "authors" d.authors (by decide) authors,
    people "verifiers" d.verifiers (by decide) verifiers⟩

/-- The outline of a document shows it line by line, and the statistics count what it shows. No text
that the document stores holds a line feed, the text of code apart, if the directory of its
inclusions does not. Behind one line for the title and one for authors and verifiers each, if there
are any, there is one line for each block, item and row, in the order of the tree, set in by two
spaces for each level; there are as many of them as the statistics count blocks and items and the
tables have rows. -/
theorem outline_of_parse {root : Path} {source : String} {d : Document}
    (rooted : '\n' ∉ root.text.toList) (read : parse root source = .ok d) :
    (∀ text ∈ d.texts, '\n' ∉ text.toList) ∧
    ∃ nodes, Node.Listed 1 (d.blocks.map .block) nodes ∧
      nodes.countP (·.2.isBlock) = (Statistics.of d source).tally.blocks ∧
      nodes.countP (·.2.isItem) = (Statistics.of d source).tally.items ∧
      lineCount d.outline =
        1 + (if d.authors = [] then 0 else 1) + (if d.verifiers = [] then 0 else 1) +
          (Statistics.of d source).tally.blocks + (Statistics.of d source).tally.items +
          nodes.countP (·.2.isRow) ∧
      (∃ head : List (List Char),
        head.length = 1 + (if d.authors = [] then 0 else 1) + (if d.verifiers = [] then 0 else 1) ∧
        Text.pieces '\n' d.outline.toList = head ++ (nodes.map fun (level, node) =>
          List.replicate (2 * level) ' ' ++ node.label.toList) ++ [[]]) ∧
      ∀ entry ∈ nodes, entry.2.label.toList.head?.any (· ≠ ' ') = true := by
  have stored := areLines_of_parse rooted read
  obtain ⟨nodes, listed⟩ := Node.exists_listed d.blocks 1
  have roots : ∀ node ∈ d.blocks.map Node.block, AreLines node.texts := by
    have blocks := (areLines_append.1 (areLines_cons.1 stored).2).2
    rw [textsOf_eq_flatMap, areLines_flatMap] at blocks
    rwa [List.forall_mem_map]
  have labels := Node.isLabel_listed listed roots
  have shown : d.outlineLines =
      d.headLines ++ nodes.map fun entry => ⟨entry.1, entry.2.label⟩ := by
    rw [outlineLines, headLines, outlineLinesOf_eq_flatMap, Node.outlineLines_listed listed,
      List.cons_append]
  have single : ∀ line ∈ d.outlineLines, IsLine line.text := by
    rw [shown, List.forall_mem_append, List.forall_mem_map]
    exact ⟨isLine_headLines stored, fun entry member => (labels entry member).1⟩
  obtain ⟨blocks, items⟩ := Node.tally_listed listed
  have tally : ∀ count : Tally → Nat, count {} = 0 →
      (∀ s t : Tally, count (s + t) = count s + count t) →
      count (Statistics.of d source).tally = Node.counted count (d.blocks.map Node.block) :=
    fun count none both => Node.count_tallyBlocks count none both d.blocks
  rw [← tally Tally.blocks rfl fun _ _ => rfl] at blocks
  rw [← tally Tally.items rfl fun _ _ => rfl] at items
  refine ⟨stored, nodes, listed, blocks.symm, items.symm, ?_,
    ⟨d.headLines.map OutlineLine.shown, ?_, ?_⟩, ?_⟩
  · rw [outline, lineCount_written single, shown, List.length_append, List.length_map,
      length_headLines, Node.length_nodes, blocks, items]
    omega
  · rw [List.length_map, length_headLines]
  · rw [outline, pieces_written single, shown, List.map_append, List.map_map]
    rfl
  · exact fun entry member => (labels entry member).2

/-- A section that owns a list with a list in it and a table of two rows. -/
theorem outline_of_parse_sample :
    ∃ d nodes, parse ⟨""⟩ "#author: A\n# h\n- i\n  - j\n| r |\n| s |" = .ok d ∧
      Node.Listed 1 (d.blocks.map .block) nodes ∧ lineCount d.outline = 10 ∧
      nodes.countP (·.2.isBlock) = 4 ∧ nodes.countP (·.2.isItem) = 2 ∧
      nodes.countP (·.2.isRow) = 2 := by
  let source := "#author: A\n# h\n- i\n  - j\n| r |\n| s |"
  obtain ⟨d, read, seen⟩ : ∃ d, parse ⟨""⟩ source = .ok d ∧
      (lineCount d.outline, (Statistics.of d source).tally.blocks,
        (Statistics.of d source).tally.items, d.authors.length, d.verifiers.length) =
          (10, 4, 2, 1, 0) := exists_of_seen (by decide +kernel)
  simp only [Prod.mk.injEq] at seen
  obtain ⟨lines, total, listItems, authors, verifiers⟩ := seen
  obtain ⟨_, nodes, listed, blocks, items, count, _⟩ := outline_of_parse (by decide) read
  have authored : d.authors ≠ [] := by
    intro none
    rw [none] at authors
    cases authors
  have unverified : d.verifiers = [] := List.length_eq_zero_iff.1 verifiers
  rw [if_neg authored, if_pos unverified] at count
  exact ⟨d, nodes, read, listed, lines, by omega, by omega, by omega⟩

end Document

end WikiPress

import WikiPress.Proofs.Source.Concatenation
import WikiPress.Proofs.Source.Kinds

/-!
# White lines

A line that holds nothing but white space has no text, but only one of spaces and tabs is blank: any
other one is a text line and belongs to the run of text lines that it stands in. To see what it does
there, every white line outside code is emptied (`emptiedLines`). Each group of the emptied lines is
of one group of the lines as they were (`groupsOf_emptiedLines`). A run of text lines with text in one
place is then read as the lines of that place are (`readGroups_framed`), and any other group is read
as before (`readGroups_unframed`).
-/

namespace WikiPress

namespace Line

/-- The line holds white space only, of any kind. -/
def isWhite (line : Line) : Bool := line.trimmed = []

/-- The line with nothing in it, if it is white. -/
def emptied (line : Line) : Line := if line.isWhite then { line with text := [] } else line

variable {line : Line}

/-- A white line is blank or a text line without a text. -/
theorem kind_of_isWhite (white : line.isWhite = true) :
    LineKind.ofLine line = if line.isBlank then .blank else .text [] := by
  have nothing : line.trimmed = [] := of_decide_eq_true white
  rw [LineKind.ofLine, nothing]
  rfl

/-- A white line that is emptied is blank. -/
theorem isBlank_emptied (white : line.isWhite = true) : line.emptied.isBlank = true := by
  rw [emptied, if_pos white]
  rfl

/-- Any other line is kept. -/
theorem emptied_of_not_isWhite (filled : line.isWhite = false) : line.emptied = line := by
  rw [emptied, if_neg (by simp [filled])]

/-- A white line that is emptied is of no flow. -/
theorem flow?_emptied (white : line.isWhite = true) : line.emptied.flow? = none :=
  flow?_of_isBlank (isBlank_emptied white)

/-- A line of another flow than text is not white. -/
theorem not_isWhite_of_flow {flow : Flow} (own : line.flow? = some flow)
    (apart : some flow ≠ some .text) : line.isWhite = false := by
  by_contra white
  have kind := kind_of_isWhite (Bool.not_eq_false _ ▸ white)
  cases blank : line.isBlank <;> simp_all [flow?]

/-- A white line opens no code, emptied or not. -/
theorem opensCode_emptied (line : Line) : line.emptied.opensCode = line.opensCode := by
  cases white : line.isWhite with
  | false => rw [emptied_of_not_isWhite white]
  | true =>
    have own : line.opensCode = false := by
      unfold opensCode
      rw [kind_of_isWhite white]
      cases line.isBlank <;> rfl
    have blank : line.emptied.opensCode = false := by
      unfold opensCode
      rw [LineKind.ofLine, if_pos (isBlank_emptied white)]
    rw [own, blank]

/-- Lines that join when they are emptied join as they are. -/
theorem joins_of_emptied {first second : Line}
    (joined : first.emptied.joins second.emptied = true) : first.joins second = true := by
  have both : first.emptied.flow?.isSome = true ∧
      first.emptied.flow? = second.emptied.flow? := by simpa [joins] using joined
  have filled : ∀ line : Line, line.emptied.flow?.isSome = true → line.emptied = line := by
    intro line flowing
    apply emptied_of_not_isWhite
    by_contra white
    simp [flow?_emptied (Bool.not_eq_false _ ▸ white)] at flowing
  rwa [filled first both.1, filled second (both.2 ▸ both.1)] at joined

end Line

namespace Region

/-- The region with nothing in it, if it is a white line. -/
def emptied : Region → Region
  | .line single => .line single.emptied
  | .code opening inner closing => .code opening inner closing

/-- Regions that join when they are emptied join as they are. -/
theorem joins_of_emptied {first second : Region}
    (joined : first.emptied.joins second.emptied = true) : first.joins second = true := by
  cases first with
  | code => simp [emptied, joins] at joined
  | line one =>
    cases second with
    | code => simp [emptied, joins] at joined
    | line other => exact Line.joins_of_emptied joined

/-- The region is a text line. -/
def isText : Region → Bool
  | .line single => single.flow? = some .text
  | .code .. => false

end Region

/-- The lines with nothing in the white ones outside code. -/
def emptiedLines (lines : List Line) : List Line :=
  ((regionsOf lines).map Region.emptied).flatMap Region.lines

/-- Code in front of lines is a region, whatever follows the line that closes it. -/
theorem regionsOf_code {opening : Line} {inner : List Line} {closing : Option Line}
    (opens : opening.opensCode = true) (unended : ∀ line ∈ inner, (!line.endsCode) = true)
    (ends : ∀ line ∈ closing, (!line.endsCode) = false) {more : List Line}
    (last : closing = none → more = []) :
    regionsOf ((Region.code opening inner closing).lines ++ more) =
      .code opening inner closing :: regionsOf more := by
  rw [Region.lines, List.cons_append, List.append_assoc, regionsOf, if_pos opens,
    List.takeWhile_append_of_pos unended, List.dropWhile_append_of_pos unended]
  cases closing with
  | none =>
    obtain rfl := last rfl
    simp
  | some line =>
    have stop : (!line.endsCode) = false := ends line rfl
    simp [stop]

/-- Emptying white lines leaves the division into regions as it is. -/
theorem regionsOf_emptiedLines (lines : List Line) :
    regionsOf (emptiedLines lines) = (regionsOf lines).map Region.emptied := by
  unfold emptiedLines
  fun_induction regionsOf lines with
  | case1 => rw [List.map_nil, List.flatMap_nil, regionsOf]
  | case2 line more opens ih =>
    rw [List.map_cons, List.flatMap_cons, Region.emptied, regionsOf_code opens, ih]
    · exact fun other member => List.mem_takeWhile_imp (p := fun l => !Line.endsCode l) member
    · intro closing first
      have stops := List.head?_dropWhile_not (!·.endsCode) more
      rw [Option.mem_def.1 first] at stops
      exact stops
    · intro none
      rw [List.head?_eq_none_iff.1 none, List.tail_nil, regionsOf]
      rfl
  | case3 line more outside ih =>
    have first : ¬ line.emptied.opensCode = true := by rwa [Line.opensCode_emptied]
    show regionsOf (line.emptied :: ((regionsOf more).map Region.emptied).flatMap Region.lines) = _
    rw [regionsOf, if_neg first, ih]
    rfl

/-- Where things that are put in the place of others join only if those do, each run of the old
ones is divided by itself. -/
theorem splitBy_map {α : Type} {joins : α → α → Bool} {change : α → α}
    (apart : ∀ a b, joins (change a) (change b) = true → joins a b = true) (own : List α) :
    (own.map change).splitBy joins =
      (own.splitBy joins).flatMap fun group => (group.map change).splitBy joins := by
  have chain := List.isChain_getLast_head_splitBy joins own
  conv_lhs => rw [← List.flatten_splitBy joins own]
  generalize own.splitBy joins = groups at chain
  induction groups with
  | nil => rfl
  | cons group more ih =>
    rw [List.flatten_cons, List.map_append, List.flatMap_cons, List.splitBy_append, ih chain.tail]
    intro last ended next begun
    cases more with
    | nil => cases begun
    | cons behind others =>
      obtain ⟨filled, filled', divided⟩ := chain.rel
      rw [List.getLast?_map, List.getLast?_eq_some_getLast filled] at ended
      rw [List.head?_map, List.flatten_cons, List.head?_append_of_ne_nil _ filled',
        List.head?_eq_some_head filled'] at begun
      obtain rfl := Option.some.inj ended
      obtain rfl := Option.some.inj begun
      rw [← Bool.not_eq_true] at divided ⊢
      exact mt (apart _ _) divided

/-- Each group of emptied lines is of one group of the lines as they are. -/
theorem groupsOf_emptiedLines (lines : List Line) : groupsOf (emptiedLines lines) =
    (groupsOf lines).flatMap fun group => (group.map Region.emptied).splitBy Region.joins := by
  rw [groupsOf, regionsOf_emptiedLines]
  exact splitBy_map (fun _ _ => Region.joins_of_emptied) _

/-- The longest runs of text lines. -/
def textRunsOf (lines : List Line) : List (List Line) :=
  ((groupsOf lines).filter (·.all Region.isText)).map (·.flatMap Region.lines)

/-- A group of text lines is these lines. -/
theorem run_of_isText {group : List Region} (texts : group.all Region.isText = true) :
    group = (group.flatMap Region.lines).map .line ∧
      ∀ line ∈ group.flatMap Region.lines, line.flow? = some .text := by
  induction group with
  | nil => exact ⟨rfl, by simp⟩
  | cons region more ih =>
    rw [List.all_cons, Bool.and_eq_true] at texts
    obtain ⟨same, flows⟩ := ih texts.2
    cases region with
    | code => cases texts.1
    | line single =>
      refine ⟨?_, ?_⟩
      · conv_lhs => rw [same]
        rfl
      · show ∀ line ∈ single :: more.flatMap Region.lines, line.flow? = some .text
        exact List.forall_mem_cons.2 ⟨of_decide_eq_true texts.1, flows⟩

/-- A text line is its trimmed text. -/
theorem text?_of_flow {line : Line} (flowing : line.flow? = some .text) :
    Part.text? line = some line.trimmed ∧ LineKind.ofLine line = .text line.trimmed := by
  cases kind : LineKind.ofLine line with
  | text content =>
    obtain ⟨_, rfl⟩ := LineKind.ofLine_text kind
    simp [Part.text?, kind]
  | _ => simp [Line.flow?, kind] at flowing

/-- The first of some text lines joins the others. -/
theorem joins_of_texts {line : Line} {taken : List Line}
    (texts : ∀ other ∈ line :: taken, other.flow? = some .text) :
    ∀ other ∈ taken, line.joins other = true := by
  rw [List.forall_mem_cons] at texts
  intro other member
  rw [Line.joins_of_flow texts.1, texts.2 other member]
  rfl

/-- A run of text lines makes one paragraph of their texts. -/
theorem readGroup_texts (root : Path) {run : List Line} (filled : run ≠ [])
    (texts : ∀ line ∈ run, line.flow? = some .text) :
    readGroup root (run.map .line) =
      .ok [.block (.paragraph (runsOf (Part.flowed (run.map Line.trimmed))))] := by
  obtain ⟨line, taken, rfl⟩ := List.exists_cons_of_ne_nil filled
  have joined := joins_of_texts texts
  rw [List.forall_mem_cons] at texts
  have behind : taken.filterMap Part.text? = taken.map Line.trimmed := by
    rw [← List.filterMap_eq_map]
    exact List.filterMap_congr fun other member => (text?_of_flow (texts.2 other member)).1
  rw [readGroup_lines, Part.read]
  simp only [(text?_of_flow texts.1).2, leading_joined texts.1 Part.isSome_text? joined, behind]
  rfl

/-- A group that is no run of text lines begins with another line. -/
theorem flow?_of_not_isText {line : Line} {taken : List Line}
    (joined : ∀ other ∈ taken, line.joins other = true)
    (other : ((line :: taken).map Region.line).all Region.isText = false) :
    line.flow? ≠ some .text := by
  intro own
  rw [← Bool.not_eq_true, List.all_eq_true, List.forall_mem_map] at other
  exact other fun single member => decide_eq_true (flow?_of_run own joined single member)

/-- The lines have text in one place, with white lines around it. -/
structure Framed (front filled back : List Line) : Prop where
  front : ∀ line ∈ front, line.isWhite = true
  back : ∀ line ∈ back, line.isWhite = true
  some : filled ≠ []
  filled : ∀ line ∈ filled, line.isWhite = false

/-- Lines that are not white are kept. -/
theorem map_emptied {lines : List Line} (filled : ∀ line ∈ lines, line.isWhite = false) :
    (lines.map Region.line).map Region.emptied = lines.map .line := by
  rw [List.map_map]
  apply List.map_congr_left
  intro line member
  exact congrArg Region.line (Line.emptied_of_not_isWhite (filled line member))

/-- Emptied white lines in front are groups of their own. -/
theorem splitBy_white {lines : List Line} (white : ∀ line ∈ lines, line.isWhite = true)
    (more : List Region) :
    ((lines.map Region.line).map Region.emptied ++ more).splitBy Region.joins =
      lines.map (fun line => [.line line.emptied]) ++ more.splitBy Region.joins := by
  induction lines with
  | nil => rfl
  | cons line rest ih =>
    rw [List.forall_mem_cons] at white
    have apart : ∀ region, (Region.line line.emptied).joins region = false := by
      intro region
      cases region with
      | code => rfl
      | line other =>
        show line.emptied.joins other = false
        rw [Line.joins_of_alone (Line.flow?_emptied white.1)]
    have split := List.splitBy_append (r := Region.joins) (l := [Region.line line.emptied])
      (m := (rest.map Region.line).map Region.emptied ++ more) (by simp [apart])
    rw [ih white.2] at split
    exact split

/-- Emptied white lines give nothing. -/
theorem readGroups_white (root : Path) {lines : List Line}
    (white : ∀ line ∈ lines, line.isWhite = true) (more : List (List Region)) :
    readGroups root (lines.map (fun line => [.line line.emptied]) ++ more) =
      readGroups root more := by
  induction lines with
  | nil => rfl
  | cons line rest ih =>
    rw [List.forall_mem_cons] at white
    have nothing : readGroup root [.line line.emptied] = .ok [] := by
      have read := readGroup_lines root line.emptied []
      simp only [Part.read, LineKind.ofLine, if_pos (Line.isBlank_emptied white.1)] at read
      exact read
    rw [List.map_cons, List.cons_append, readGroups, nothing, ih white.2]
    cases readGroups root more <;> rfl

/-- A run of text lines with text in one place is read, once it is emptied, as the lines of that
place are. -/
theorem readGroups_framed (root : Path) {front filled back : List Line}
    (framed : Framed front filled back) (texts : ∀ line ∈ filled, line.flow? = some .text) :
    readGroups root ((((front ++ filled ++ back).map Region.line).map Region.emptied).splitBy
        Region.joins) =
      .ok [.block (.paragraph (runsOf (Part.flowed (filled.map Line.trimmed))))] := by
  have behind := splitBy_white framed.back []
  have last := readGroups_white root framed.back []
  rw [List.append_nil, List.splitBy_nil, List.append_nil] at behind
  rw [List.append_nil] at last
  rw [List.map_append, List.map_append, List.map_append, List.map_append, map_emptied framed.filled,
    List.append_assoc, splitBy_white framed.front, readGroups_white root framed.front,
    List.splitBy_append, behind]
  · have whole : (filled.map Region.line).splitBy Region.joins = [filled.map .line] := by
      obtain ⟨line, taken, rfl⟩ := List.exists_cons_of_ne_nil framed.some
      exact List.splitBy_of_isChain (by simp) (isChain_run (joins_of_texts texts))
    rw [whole, List.singleton_append, readGroups, readGroup_texts root framed.some texts]
    show (readGroups root (back.map fun line => [.line line.emptied])).bind _ = _
    rw [last]
    rfl
  · -- the first line behind the place is blank by now
    intro region _ next begun
    rw [List.head?_map, List.head?_map] at begun
    obtain ⟨_, rest, rfl⟩ := Option.map_eq_some_iff.1 begun
    obtain ⟨line, first, rfl⟩ := Option.map_eq_some_iff.1 rest
    exact Region.joins_alone (Line.flow?_emptied (framed.back line (List.mem_of_head? first))) region

/-- A line of no flow is read as it is when it is emptied. -/
theorem readGroup_emptied (root : Path) {line : Line} (alone : line.flow? = none) :
    readGroup root [.line line.emptied] = readGroup root [.line line] := by
  cases white : line.isWhite with
  | false => rw [Line.emptied_of_not_isWhite white]
  | true =>
    have kind := Line.kind_of_isWhite white
    have blank : LineKind.ofLine line = .blank := by
      cases blank : line.isBlank with
      | true => rw [kind, blank]; rfl
      | false => simp [Line.flow?, kind, blank] at alone
    have read := readGroup_lines root line []
    simp only [Part.read, blank] at read
    have emptied := readGroups_white root (List.forall_mem_singleton.2 white) []
    rw [List.map_singleton, List.append_nil, readGroups_singleton] at emptied
    exact emptied.trans read.symm

/-- A group of any other lines is read as it is when it is emptied. -/
theorem readGroups_unframed (root : Path) {group : List Region} (shape : IsGroup group)
    (other : group.all Region.isText = false) :
    readGroups root ((group.map Region.emptied).splitBy Region.joins) = readGroup root group := by
  cases shape with
  | code => exact readGroups_singleton root _
  | @run line taken outside joined =>
    cases own : line.flow? with
    | none =>
      obtain rfl := alone_of_flow own joined
      exact (readGroups_singleton root _).trans (readGroup_emptied root own)
    | some flow =>
      have apart := flow?_of_not_isText joined other
      have filled : ∀ single ∈ line :: taken, single.isWhite = false := fun single member =>
        Line.not_isWhite_of_flow (flow?_of_run own joined single member) (own ▸ apart)
      rw [map_emptied filled, List.splitBy_of_isChain (by simp) (isChain_run joined),
        readGroups_singleton]

/-- Groups that are divided are read as before, if each of them is. -/
theorem readGroups_divided (root : Path) {divide : List Region → List (List Region)}
    {groups : List (List Region)}
    (same : ∀ group ∈ groups, readGroups root (divide group) = readGroup root group) :
    readGroups root (groups.flatMap divide) = readGroups root groups := by
  induction groups with
  | nil => rfl
  | cons group more ih =>
    rw [List.forall_mem_cons] at same
    rw [List.flatMap_cons, readGroups_append, same.1, ih same.2, readGroups]
    cases readGroup root group with
    | error e => rfl
    | ok own => cases readGroups root more <;> rfl

end WikiPress

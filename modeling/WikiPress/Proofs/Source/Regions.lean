import Mathlib.Data.List.SplitBy
import Mathlib.Data.List.TakeWhile
import WikiPress.Source.Parse

/-!
# Regions of a source

A source falls into regions: fenced code, from the line that opens it to the line that closes it,
and single lines outside code. Consecutive outside lines that are text, table rows or list items
belong together as long as they are of one flow; the groups of a source are its regions in maximal
runs of one flow. Reading is local to groups: what a source gives is what its groups give, each read
by itself and in their order (`ofLines_eq_readGroups`).
-/

namespace WikiPress

/-- What consecutive lines can make together. -/
inductive Flow where
  | text
  | rows
  | items
  deriving DecidableEq

namespace Line

/-- The flow that a line belongs to, if it can belong to one. -/
def flow? (line : Line) : Option Flow :=
  match LineKind.ofLine line with
  | .text _ => some .text
  | .row _ => some .rows
  | .item .. => some .items
  | _ => none

/-- The lines are of one flow. -/
def joins (line other : Line) : Bool := line.flow?.isSome && line.flow? = other.flow?

/-- The line opens fenced code where it stands outside code. -/
def opensCode (line : Line) : Bool :=
  match LineKind.ofLine line with
  | .fence _ => true
  | _ => false

/-- A line that can belong to a flow opens no code. -/
theorem not_opensCode_of_flow {line : Line} (flowing : line.flow?.isSome = true) :
    line.opensCode = false := by
  unfold flow? at flowing
  unfold opensCode
  split <;> simp_all

/-- A blank line is of no flow. -/
theorem flow?_of_isBlank {line : Line} (blank : line.isBlank = true) : line.flow? = none := by
  rw [flow?, LineKind.ofLine, if_pos blank]

/-- A line of no flow joins no line. -/
theorem joins_of_alone {line : Line} (alone : line.flow? = none) : line.joins = fun _ => false := by
  funext other
  simp only [joins, alone, Option.isSome_none, Bool.false_and]

/-- A line of a flow joins exactly the lines of that flow. -/
theorem joins_of_flow {line : Line} {flow : Flow} (own : line.flow? = some flow) (other : Line) :
    line.joins other = decide (other.flow? = some flow) := by
  simp only [joins, own, Option.isSome_some, Bool.true_and, eq_comm]

/-- Lines that are both of the flow of a third are of one flow. -/
theorem joins_of_joins {line first second : Line} (one : line.joins first = true)
    (two : line.joins second = true) : first.joins second = true := by
  simp only [joins, Bool.and_eq_true, decide_eq_true_eq] at one two ⊢
  rw [← one.2, ← two.2]
  exact ⟨one.1, rfl⟩

/-- Lines of one flow join the same lines. -/
theorem joins_trans {line first second : Line} (one : line.joins first = true)
    (two : first.joins second = true) : line.joins second = true := by
  simp only [joins, Bool.and_eq_true, decide_eq_true_eq] at one two ⊢
  exact ⟨one.1, one.2.trans two.2⟩

end Line

/-- A part of a source that is read as a whole or not at all. -/
inductive Region where
  /-- A line outside code. -/
  | line (line : Line)
  /-- Code between its fences; the closing one is missing where the source ends before it. -/
  | code (opening : Line) (inner : List Line) (closing : Option Line)

namespace Region

/-- The lines of a region. -/
def lines : Region → List Line
  | .line single => [single]
  | .code opening inner closing => opening :: (inner ++ closing.toList)

/-- The regions are lines of one flow. -/
def joins : Region → Region → Bool
  | .line first, .line second => first.joins second
  | _, _ => false

/-- Nothing joins a line of no flow. -/
theorem joins_alone {single : Line} (alone : single.flow? = none) (region : Region) :
    region.joins (.line single) = false := by
  cases region with
  | code => rfl
  | line other =>
    show (other.flow?.isSome && decide (other.flow? = single.flow?)) = false
    rw [alone]
    cases other.flow? <;> rfl

end Region

/-- The regions of lines that do not begin inside code. -/
def regionsOf : List Line → List Region
  | [] => []
  | line :: more =>
    if line.opensCode then
      .code line (more.takeWhile (!·.endsCode)) (more.dropWhile (!·.endsCode)).head? ::
        regionsOf (more.dropWhile (!·.endsCode)).tail
    else .line line :: regionsOf more
termination_by lines => lines.length
decreasing_by
  · have := (List.dropWhile_sublist (!·.endsCode) (l := more)).length_le
    simp only [List.length_tail, List.length_cons]
    omega
  · simp

/-- The maximal runs of regions of one flow; a region of no flow is a group of its own. -/
def groupsOf (lines : List Line) : List (List Region) := (regionsOf lines).splitBy Region.joins

/-- The regions of lines are these lines, in their order. -/
theorem lines_regionsOf (lines : List Line) : (regionsOf lines).flatMap Region.lines = lines := by
  fun_induction regionsOf lines with
  | case1 => rfl
  | case2 line more opens ih =>
    have whole := List.takeWhile_append_dropWhile (p := fun l => !Line.endsCode l) (l := more)
    have rest : (more.dropWhile (!·.endsCode)).head?.toList ++ (more.dropWhile (!·.endsCode)).tail =
        more.dropWhile (!·.endsCode) := by
      cases more.dropWhile (!·.endsCode) <;> rfl
    rw [List.flatMap_cons, ih, Region.lines, List.cons_append, List.append_assoc, rest, whole]
  | case3 line more opens ih =>
    rw [List.flatMap_cons, ih]
    rfl

/-- The groups of lines are their regions, in their order. -/
theorem flatten_groupsOf (lines : List Line) : (groupsOf lines).flatten = regionsOf lines :=
  List.flatten_splitBy _ _

/-- A region that is a line is one of the lines. -/
theorem mem_of_region {lines : List Line} {line : Line}
    (inside : Region.line line ∈ regionsOf lines) : line ∈ lines := by
  rw [← lines_regionsOf lines]
  exact List.mem_flatMap.2 ⟨_, inside, List.mem_singleton_self line⟩

/-- Lines that open no code are regions of their own. -/
theorem regionsOf_append {lines : List Line} (outside : ∀ line ∈ lines, line.opensCode = false)
    (more : List Line) : regionsOf (lines ++ more) = lines.map .line ++ regionsOf more := by
  induction lines with
  | nil => rfl
  | cons line rest ih =>
    have behind := ih fun other member => outside other (List.mem_cons_of_mem _ member)
    have first : ¬ line.opensCode = true := by simp [outside line List.mem_cons_self]
    rw [List.cons_append, regionsOf, if_neg first, behind]
    rfl

namespace Part

/-- Lines are taken as long as they give something. -/
theorem leading_eq {α : Type} (give : Line → Option α) (lines : List Line) :
    leading give lines = ((lines.takeWhile fun l => (give l).isSome).filterMap give,
      lines.dropWhile fun l => (give l).isSome) := by
  induction lines with
  | nil => rfl
  | cons line more ih =>
    rw [leading, List.takeWhile_cons, List.dropWhile_cons, ih]
    cases given : give line with
    | none => simp
    | some a => simp [given]

/-- Where exactly the lines of a flow give something, they are the ones taken, whether the lines
behind the run are there or not. -/
theorem leading_run {α : Type} {give : Line → Option α} {line : Line}
    (flow : ∀ other, (give other).isSome = line.joins other) (more : List Line) :
    leading give more =
        ((more.takeWhile line.joins).filterMap give, more.dropWhile line.joins) ∧
      leading give (more.takeWhile line.joins) =
        ((more.takeWhile line.joins).filterMap give, []) := by
  have same : (fun l => (give l).isSome) = line.joins := funext flow
  have taken : (more.takeWhile line.joins).dropWhile line.joins = [] :=
    List.dropWhile_eq_nil_iff.2 fun other member => List.mem_takeWhile_imp member
  rw [leading_eq, leading_eq, same, List.takeWhile_idem, taken]
  exact ⟨rfl, rfl⟩

/-- A line gives a text where it belongs to the flow of texts. -/
theorem isSome_text? (line : Line) : (text? line).isSome = decide (line.flow? = some .text) := by
  unfold text? Line.flow?
  cases LineKind.ofLine line <;> rfl

/-- A line gives a row where it belongs to the flow of rows. -/
theorem isSome_row? (line : Line) : (row? line).isSome = decide (line.flow? = some .rows) := by
  unfold row? Line.flow?
  cases LineKind.ofLine line <;> rfl

/-- A line gives an item where it belongs to the flow of items. -/
theorem isSome_item? (line : Line) : (item? line).isSome = decide (line.flow? = some .items) := by
  unfold item? Line.flow?
  cases LineKind.ofLine line <;> rfl

/-- Outside code, what is read from a line depends on the run of its flow and on nothing behind. -/
theorem read_run (root : Path) {line : Line} (outside : line.opensCode = false)
    (more : List Line) :
    read root line more = (read root line (more.takeWhile line.joins)).map fun made =>
      (made.1, more.dropWhile line.joins) := by
  have single : line.flow? = none →
      more.takeWhile line.joins = [] ∧ more.dropWhile line.joins = more := by
    intro alone
    rw [Line.joins_of_alone alone]
    cases more <;> exact ⟨rfl, rfl⟩
  cases kind : LineKind.ofLine line with
  | fence language => simp [Line.opensCode, kind] at outside
  | text content =>
    have own : line.flow? = some .text := by rw [Line.flow?, kind]
    have flow : ∀ other, (text? other).isSome = line.joins other :=
      fun other => (isSome_text? other).trans (Line.joins_of_flow own other).symm
    obtain ⟨all, run⟩ := leading_run flow more
    simp only [read, kind, all, run]
    rfl
  | row text =>
    have own : line.flow? = some .rows := by rw [Line.flow?, kind]
    have flow : ∀ other, (row? other).isSome = line.joins other :=
      fun other => (isSome_row? other).trans (Line.joins_of_flow own other).symm
    obtain ⟨all, run⟩ := leading_run flow more
    simp only [read, kind, all, run]
    rfl
  | item marker indent text =>
    have own : line.flow? = some .items := by rw [Line.flow?, kind]
    have flow : ∀ other, (item? other).isSome = line.joins other :=
      fun other => (isSome_item? other).trans (Line.joins_of_flow own other).symm
    obtain ⟨all, run⟩ := leading_run flow more
    simp only [read, kind, all, run]
    cases listOf (⟨marker, indent, text, line.number⟩ ::
      (more.takeWhile line.joins).filterMap item?) <;> rfl
  | blank | rule | heading =>
    obtain ⟨none, all⟩ := single (by simp [Line.flow?, kind])
    simp only [read, kind, none, all]
    rfl
  | inclusion locator =>
    obtain ⟨none, all⟩ := single (by simp [Line.flow?, kind])
    simp only [read, kind, none, all]
    split <;> rfl
  | directive name value =>
    obtain ⟨none, all⟩ := single (by simp [Line.flow?, kind])
    simp only [read, kind, none, all]
    cases ofDirective name value line.number <;> rfl

/-- Where code opens, what is read from a line depends on the lines up to the end of the code and
on nothing behind. -/
theorem read_code (root : Path) {line : Line} (opens : line.opensCode = true)
    (more : List Line) :
    read root line more =
      (read root line (more.takeWhile (!·.endsCode) ++
        (more.dropWhile (!·.endsCode)).head?.toList)).map fun made =>
          (made.1, (more.dropWhile (!·.endsCode)).tail) := by
  have inner : ∀ other ∈ more.takeWhile (!·.endsCode), (!other.endsCode) = true :=
    fun other member => List.mem_takeWhile_imp (p := fun l => !Line.endsCode l) member
  cases kind : LineKind.ofLine line with
  | fence language =>
    simp only [read, kind]
    cases behind : more.dropWhile (!·.endsCode) with
    | nil =>
      have none := List.dropWhile_eq_nil_iff.2 inner
      simp only [List.head?_nil, Option.toList_none, List.append_nil, none]
      rfl
    | cons closing rest =>
      have ends : (!closing.endsCode) = false := by
        have first := List.head?_dropWhile_not (!·.endsCode) more
        simpa only [behind, List.head?_cons] using first
      simp only [List.head?_cons, Option.toList_some, List.dropWhile_append_of_pos inner,
        List.takeWhile_append_of_pos inner, List.dropWhile_cons, List.takeWhile_cons, ends,
        Bool.false_eq_true, if_false, List.append_nil]
      rfl
  | blank | rule | inclusion | directive | heading | row | item | text =>
    simp [Line.opensCode, kind] at opens

end Part

/-- The parts that a group gives when it is read by itself. -/
def readGroup (root : Path) (group : List Region) : Except ParseError (List Part) :=
  match group.flatMap Region.lines with
  | [] => .ok []
  | line :: more => (Part.read root line more).map (·.1)

/-- The parts that groups give in their order; the first mistake ends the reading. -/
def readGroups (root : Path) : List (List Region) → Except ParseError (List Part)
  | [] => .ok []
  | group :: more => do
    let parts ← readGroup root group
    let others ← readGroups root more
    .ok (parts ++ others)

/-- What a group consists of: one region of code, or lines outside code that are all of the flow
of the first one. -/
inductive IsGroup : List Region → Prop
  /-- Code up to the first line that ends it. -/
  | code {opening : Line} {inner : List Line} {closing : Option Line}
      (opens : opening.opensCode = true) (unended : ∀ line ∈ inner, line.endsCode = false)
      (ends : ∀ line ∈ closing, line.endsCode = true) : IsGroup [.code opening inner closing]
  /-- A line and the lines that follow it in its flow. -/
  | run {line : Line} {taken : List Line} (outside : line.opensCode = false)
      (joined : ∀ other ∈ taken, line.joins other = true) : IsGroup ((line :: taken).map .line)

/-- A group has a line. -/
theorem IsGroup.lines_ne_nil {group : List Region} (shape : IsGroup group) :
    group.flatMap Region.lines ≠ [] := by
  cases shape <;> exact List.cons_ne_nil _ _

/-- The region at the front of lines begins with the first of them. -/
theorem head?_regionsOf {lines : List Line} {region : Region}
    (first : (regionsOf lines).head? = some region) :
    ∃ line, lines.head? = some line ∧ (region = .line line ∨ ∃ inner closing,
      region = .code line inner closing) := by
  cases lines with
  | nil => simp [regionsOf] at first
  | cons line more =>
    rw [regionsOf] at first
    split at first
    · exact ⟨line, rfl, .inr ⟨_, _, (Option.some.inj first).symm⟩⟩
    · exact ⟨line, rfl, .inl (Option.some.inj first).symm⟩

/-- Lines that the first of them joins are a run. -/
theorem isChain_run {line : Line} {taken : List Line}
    (joined : ∀ other ∈ taken, line.joins other = true) :
    ((line :: taken).map Region.line).IsChain
      fun first second => Region.joins first second = true := by
  apply List.Pairwise.isChain
  rw [List.pairwise_map, List.pairwise_cons]
  refine ⟨joined, ?_⟩
  apply List.pairwise_of_forall_mem_list
  intro first member second later
  exact Line.joins_of_joins (joined first member) (joined second later)

/-- A line outside code and the run of its flow behind it are the first group. -/
theorem groupsOf_run {line : Line} (outside : line.opensCode = false) (more : List Line) :
    groupsOf (line :: more) =
      (line :: more.takeWhile line.joins).map .line :: groupsOf (more.dropWhile line.joins) := by
  have joined : ∀ other ∈ more.takeWhile line.joins, line.joins other = true :=
    fun other member => List.mem_takeWhile_imp member
  have outsideAll : ∀ other ∈ line :: more.takeWhile line.joins, other.opensCode = false := by
    intro other member
    rcases List.mem_cons.1 member with rfl | taken
    · exact outside
    · have both := joined other taken
      simp only [Line.joins, Bool.and_eq_true, decide_eq_true_eq] at both
      exact Line.not_opensCode_of_flow (both.2 ▸ both.1)
  have regions : regionsOf (line :: more) =
      (line :: more.takeWhile line.joins).map .line ++ regionsOf (more.dropWhile line.joins) := by
    rw [← regionsOf_append outsideAll, List.cons_append, List.takeWhile_append_dropWhile]
  -- the run is maximal: what follows joins none of its lines
  have apart : ∀ last ∈ ((line :: more.takeWhile line.joins).map Region.line).getLast?,
      ∀ next ∈ (regionsOf (more.dropWhile line.joins)).head?, Region.joins last next = false := by
    intro last ended next begun
    obtain ⟨end_, member, rfl⟩ := List.mem_map.1 (List.mem_of_getLast? ended)
    obtain ⟨start, first, shape⟩ := head?_regionsOf begun
    have stops := List.head?_dropWhile_not line.joins more
    rw [first] at stops
    rcases shape with rfl | ⟨inner, closing, rfl⟩
    · show end_.joins start = false
      rcases List.mem_cons.1 member with rfl | taken
      · exact stops
      · by_contra both
        simp only [Bool.not_eq_false] at both
        simp [Line.joins_trans (joined end_ taken) both] at stops
    · rfl
  rw [groupsOf, regions, List.splitBy_append apart,
    List.splitBy_of_isChain (by simp) (isChain_run joined), List.singleton_append, groupsOf]

/-- Code is a group by itself. -/
theorem groupsOf_code {line : Line} (opens : line.opensCode = true) (more : List Line) :
    groupsOf (line :: more) =
      [.code line (more.takeWhile (!·.endsCode)) (more.dropWhile (!·.endsCode)).head?] ::
        groupsOf (more.dropWhile (!·.endsCode)).tail := by
  rw [groupsOf, regionsOf, if_pos opens, ← List.singleton_append, List.splitBy_append]
  · rfl
  · intro last ended next begun
    simp only [List.getLast?_singleton, Option.mem_some_iff] at ended
    subst ended
    rfl

/-- What is read from the front of lines is read from their first group alone; the lines behind it
are left. -/
theorem groupsOf_cons (line : Line) (more : List Line) :
    ∃ group rest, IsGroup group ∧ groupsOf (line :: more) = group :: groupsOf rest ∧
      rest.length ≤ more.length ∧ ∀ root, Part.read root line more =
        (readGroup root group).map fun parts => (parts, rest) := by
  have twice : ∀ (made : Except ParseError (List Part × List Line)) (rest : List Line),
      made.map (fun m => (m.1, rest)) = (made.map (·.1)).map fun parts => (parts, rest) := by
    intro made rest
    cases made <;> rfl
  cases opens : line.opensCode with
  | true =>
    refine ⟨_, _, .code opens ?_ ?_, groupsOf_code opens more, ?_, fun root => ?_⟩
    · intro other member
      simpa using List.mem_takeWhile_imp (p := fun l => !Line.endsCode l) member
    · intro closing first
      have stops := List.head?_dropWhile_not (!·.endsCode) more
      rw [Option.mem_def.1 first] at stops
      simpa using stops
    · have := (List.dropWhile_sublist (!·.endsCode) (l := more)).length_le
      rw [List.length_tail]
      omega
    · rw [Part.read_code root opens, twice, readGroup, List.flatMap_cons, List.flatMap_nil,
        List.append_nil]
      rfl
  | false =>
    refine ⟨_, _, .run opens fun other member => List.mem_takeWhile_imp member,
      groupsOf_run opens more, (List.dropWhile_sublist _).length_le, fun root => ?_⟩
    have lines : ((line :: more.takeWhile line.joins).map Region.line).flatMap Region.lines =
        line :: more.takeWhile line.joins := by
      rw [List.flatMap_map]
      exact List.flatMap_singleton' _
    rw [Part.read_run root opens, twice, readGroup, lines]

/-- A source gives what its groups give, each read by itself. -/
theorem ofLines_eq_readGroups (root : Path) (lines : List Line) :
    Part.ofLines root lines = readGroups root (groupsOf lines) := by
  fun_induction Part.ofLines root lines with
  | case1 =>
    rw [groupsOf, regionsOf]
    rfl
  | case2 line more e failed =>
    obtain ⟨group, rest, _, split, _, same⟩ := groupsOf_cons line more
    have made := same root
    rw [failed] at made
    rw [split, readGroups]
    cases given : readGroup root group with
    | error other =>
      rw [given] at made
      exact congrArg Except.error (Except.error.inj made)
    | ok parts => simp [given, Except.map] at made
  | case3 line more parts rest found ih =>
    obtain ⟨group, rest', _, split, _, same⟩ := groupsOf_cons line more
    have made := same root
    rw [found] at made
    rw [split, readGroups]
    cases given : readGroup root group with
    | error other => simp [given, Except.map] at made
    | ok parts' =>
      rw [given] at made
      simp only [Except.map, Except.ok.injEq, Prod.mk.injEq] at made
      obtain ⟨rfl, rfl⟩ := made
      rw [ih]
      cases readGroups root (groupsOf rest) <;> rfl

/-- Groups in a row are read one after the other, up to the first mistake. -/
theorem readGroups_append (root : Path) (groups more : List (List Region)) :
    readGroups root (groups ++ more) =
      (readGroups root groups).bind fun parts => (readGroups root more).map (parts ++ ·) := by
  induction groups with
  | nil =>
    rw [List.nil_append]
    cases readGroups root more <;> rfl
  | cons group others ih =>
    rw [List.cons_append, readGroups, readGroups, ih]
    cases readGroup root group with
    | error e => rfl
    | ok first =>
      cases readGroups root others with
      | error e => rfl
      | ok rest =>
        cases readGroups root more with
        | error e => rfl
        | ok last => exact congrArg Except.ok (List.append_assoc first rest last).symm

/-- A group alone gives what it gives in a row. -/
theorem readGroups_singleton (root : Path) (group : List Region) :
    readGroups root [group] = readGroup root group := by
  rw [readGroups]
  cases readGroup root group with
  | error e => rfl
  | ok parts => exact congrArg Except.ok (List.append_nil parts)

/-- What is gathered from groups that are divided is what is gathered from each of them. -/
theorem readGroups_divided_flatMap {α : Type} {give : List Part → List α}
    {each : List Region → List α} (nil : give [] = [])
    (append : ∀ own others, give (own ++ others) = give own ++ give others) {root : Path}
    {divide : List Region → List (List Region)} {groups : List (List Region)} {parts : List Part}
    (single : ∀ group ∈ groups, ∀ own, readGroups root (divide group) = .ok own →
      give own = each group)
    (made : readGroups root (groups.flatMap divide) = .ok parts) :
    give parts = groups.flatMap each := by
  induction groups generalizing parts with
  | nil =>
    obtain rfl := Except.ok.inj made
    exact nil
  | cons group more ih =>
    rw [List.forall_mem_cons] at single
    rw [List.flatMap_cons, readGroups_append] at made
    cases first : readGroups root (divide group) with
    | error e => simp [first, Except.bind] at made
    | ok own =>
      cases behind : readGroups root (more.flatMap divide) with
      | error e => simp [first, behind, Except.bind, Except.map] at made
      | ok others =>
        simp only [first, behind, Except.bind, Except.map, Except.ok.injEq] at made
        rw [← made, append, single.1 own first, ih single.2 behind, List.flatMap_cons]

/-- What is gathered from the parts of groups is what is gathered from the parts of each group. -/
theorem readGroups_flatMap {α : Type} {give : List Part → List α} {each : List Region → List α}
    (nil : give [] = []) (append : ∀ own others, give (own ++ others) = give own ++ give others)
    {root : Path} {groups : List (List Region)} {parts : List Part}
    (single : ∀ group ∈ groups, ∀ own, readGroup root group = .ok own → give own = each group)
    (made : readGroups root groups = .ok parts) : give parts = groups.flatMap each := by
  rw [← List.flatMap_singleton' groups] at made
  refine readGroups_divided_flatMap nil append (fun group member own given => ?_) made
  rw [readGroups_singleton] at given
  exact single group member own given

/-- The groups of a source have the shape of groups. -/
theorem isGroup_of_mem {lines : List Line} {group : List Region} (member : group ∈ groupsOf lines) :
    IsGroup group := by
  induction size : lines.length using Nat.strongRecOn generalizing lines with
  | ind size ih =>
    cases lines with
    | nil => simp [groupsOf, regionsOf] at member
    | cons line more =>
      obtain ⟨first, rest, shape, split, shorter, _⟩ := groupsOf_cons line more
      rw [split] at member
      rcases List.mem_cons.1 member with rfl | behind
      · exact shape
      · exact ih rest.length (by rw [← size, List.length_cons]; omega) behind rfl

end WikiPress

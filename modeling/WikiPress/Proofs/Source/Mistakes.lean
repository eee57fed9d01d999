import WikiPress.Proofs.Source.Concatenation

/-!
# Where a source is refused

The mistake that ends the reading of a source is one of its line, and what stands behind that line
has no part in it: the source cut there is refused with the same mistake (`parse_mistake_located`).
What stands in front of the line can be read by itself, with one exception. The levels of a list are
read for all its lines before the steps between them are looked at, so a line without a level wins
over a step that is too large in a line above it (`parse_overtaken`).
-/

namespace WikiPress

namespace ItemLine

/-- The level that the indentation of an item line gives in a list that starts at `base`. -/
def levelFrom (base : Nat) (item : ItemLine) : Nat := (item.indent - base) / 2 + 1

/-- The line does not stand left of the list and is no deeper than a list goes. -/
def HasLevel (base : Nat) (item : ItemLine) : Prop :=
  base ≤ item.indent ∧ item.levelFrom base ≤ deepest

/-- A line of the list stands more than one level below the line before it. -/
def IsJump (base : Nat) (items : List ItemLine) (jump : ItemLine) : Prop :=
  ∃ front before rest, items = front ++ before :: jump :: rest ∧
    before.levelFrom base + 1 < jump.levelFrom base

/-- The line `n` of a list has no level, and the line `jump` above it stands more than one level
below the line before it. -/
def IsOvertaken (items : List ItemLine) (jump n : Nat) : Prop :=
  ∃ first ∈ items.head?, ∃ front bad rest, items = front ++ bad :: rest ∧ bad.number = n ∧
    ¬ bad.HasLevel first.indent ∧ ∃ steep, IsJump first.indent front steep ∧ steep.number = jump

section Levels

variable {base above : Nat} {item : ItemLine} {items front : List ItemLine}

/-- A line is given its level where it has one. -/
theorem level?_of_hasLevel (fits : item.HasLevel base) :
    item.level? base = .ok (item.levelFrom base) := by
  have high : ¬ (item.indent < base ∨ deepest < (item.indent - base) / 2 + 1) := by
    rw [not_or, not_lt, not_lt]
    exact fits
  rw [level?, if_neg high, levelFrom]

/-- A line without a level is a mistake. -/
theorem level?_of_not_hasLevel (unfit : ¬ item.HasLevel base) :
    item.level? base = .error (.mistake .listIndentation item.number) := by
  have low : item.indent < base ∨ deepest < (item.indent - base) / 2 + 1 := by
    rwa [HasLevel, levelFrom, not_and_or, not_le, not_le] at unfit
  rw [level?, if_pos low]

/-- Lines that have levels are given them. -/
theorem levels_of_hasLevel (fits : ∀ item ∈ items, item.HasLevel base) :
    levels base items = .ok (items.map fun item => (item, item.levelFrom base)) := by
  induction items with
  | nil => rfl
  | cons item more ih =>
    rw [List.forall_mem_cons] at fits
    rw [levels, level?_of_hasLevel fits.1, ih fits.2]
    rfl

/-- The first line without a level is the mistake, whatever follows it. -/
theorem levels_of_not_hasLevel {bad : ItemLine} (fits : ∀ item ∈ front, item.HasLevel base)
    (unfit : ¬ bad.HasLevel base) (rest : List ItemLine) :
    levels base (front ++ bad :: rest) = .error (.mistake .listIndentation bad.number) := by
  induction front with
  | nil =>
    rw [List.nil_append, levels, level?_of_not_hasLevel unfit]
    rfl
  | cons item more ih =>
    rw [List.forall_mem_cons] at fits
    rw [List.cons_append, levels, level?_of_hasLevel fits.1, ih fits.2]
    rfl

/-- Where some line has no level, there is a first one. -/
theorem exists_first_not_hasLevel (unfit : ¬ ∀ item ∈ items, item.HasLevel base) :
    ∃ front bad rest, items = front ++ bad :: rest ∧ (∀ item ∈ front, item.HasLevel base) ∧
      ¬ bad.HasLevel base := by
  induction items with
  | nil => simp at unfit
  | cons item more ih =>
    by_cases own : item.HasLevel base
    · have behind : ¬ ∀ item ∈ more, item.HasLevel base := by
        intro fits
        exact unfit (List.forall_mem_cons.2 ⟨own, fits⟩)
      obtain ⟨front, bad, rest, rfl, fits, low⟩ := ih behind
      exact ⟨item :: front, bad, rest, rfl, List.forall_mem_cons.2 ⟨own, fits⟩, low⟩
    · exact ⟨[], item, more, rfl, by simp, own⟩

/-- A line that stands too deep does so whatever follows the list. -/
theorem IsJump.append {jump : ItemLine} (steep : IsJump base (items ++ [jump]) jump)
    (rest : List ItemLine) : IsJump base (items ++ jump :: rest) jump := by
  obtain ⟨init, before, behind, split, low⟩ := steep
  refine ⟨init, before, behind ++ rest, ?_, low⟩
  rw [← List.singleton_append, ← List.append_assoc, split]
  simp

/-- Steps that are refused go down too far at one of the lines, whatever follows it. -/
theorem checkSteps_error {pairs : List (ItemLine × Nat)} {e : ParseError}
    (refused : checkSteps above pairs = .error e) :
    ∃ front bad level rest, pairs = front ++ (bad, level) :: rest ∧
      (front.getLast?.map (·.2)).getD above + 1 < level ∧
      e = .mistake .listIndentation bad.number ∧ checkSteps above front = .ok () ∧
      ∀ more, checkSteps above (front ++ (bad, level) :: more) = .error e := by
  induction pairs generalizing above with
  | nil => cases refused
  | cons first rest ih =>
    obtain ⟨item, level⟩ := first
    rw [checkSteps] at refused
    by_cases steep : above + 1 < level
    · rw [if_pos steep] at refused
      refine ⟨[], item, level, rest, rfl, steep, (Except.error.inj refused).symm, rfl, ?_⟩
      intro more
      rw [List.nil_append, checkSteps, if_pos steep, refused]
    · rw [if_neg steep] at refused
      obtain ⟨front, bad, deep, after, rfl, low, named, gentle, always⟩ := ih refused
      refine ⟨(item, level) :: front, bad, deep, after, rfl, ?_, named, ?_, ?_⟩
      · cases front with
        | nil => exact low
        | cons next others => rwa [List.getLast?_cons_cons]
      · rw [checkSteps, if_neg steep, gentle]
      · intro more
        rw [List.cons_append, checkSteps, if_neg steep, always]

end Levels

/-- The steps between the levels of the lines of a list that starts at `base`. -/
def steps (base : Nat) (items : List ItemLine) : Except ParseError Unit :=
  checkSteps 0 (items.map fun item => (item, item.levelFrom base))

/-- The steps of a list that are refused go down too far at a line behind the first, whatever
follows it, and those in front of the line are in order. -/
theorem steps_error {first : ItemLine} {more : List ItemLine} {e : ParseError}
    (refused : steps first.indent (first :: more) = .error e) :
    ∃ front jump rest, more = front ++ jump :: rest ∧
      IsJump first.indent (first :: front ++ [jump]) jump ∧
      e = .mistake .listIndentation jump.number ∧
      steps first.indent (first :: front) = .ok () ∧
      steps first.indent (first :: front ++ [jump]) = .error e := by
  obtain ⟨leveled, bad, level, rest, split, low, named, gentle, always⟩ := checkSteps_error refused
  obtain ⟨front, others, whole, fronted, behind⟩ := List.map_eq_append_iff.1 split
  obtain ⟨jump, after, rfl, pair, rest_eq⟩ := List.map_eq_cons_iff.1 behind
  obtain ⟨rfl, rfl⟩ := Prod.mk.inj pair
  subst fronted
  have top : first.levelFrom first.indent = 1 := by simp [levelFrom]
  cases front with
  | nil =>
    -- the first line is on the first level, which is no step too far
    obtain ⟨rfl, rfl⟩ := List.cons.inj whole
    simp [top] at low
  | cons start front =>
    obtain ⟨rfl, rfl⟩ := List.cons.inj whole
    have stopped : steps first.indent (first :: front ++ [jump]) = .error e := by
      have cut := always []
      rw [← List.map_singleton (f := fun item : ItemLine => (item, item.levelFrom first.indent)),
        ← List.map_append] at cut
      exact cut
    obtain ⟨init, last, ends⟩ := List.eq_nil_or_concat' (first :: front) |>.resolve_left (by simp)
    refine ⟨front, jump, after, rfl, ⟨init, last, [], ?_, ?_⟩, named, gentle, stopped⟩
    · rw [ends, List.append_assoc]
      rfl
    · rw [ends, List.map_append, List.map_singleton, List.getLast?_concat] at low
      exact low

end ItemLine

section Lists

variable {first bad : ItemLine} {more front : List ItemLine} {e : ParseError}

/-- Lines that have levels make a list where the steps between the levels are in order. -/
theorem listOf_of_hasLevel (fits : ∀ item ∈ first :: more, item.HasLevel first.indent) :
    ∃ list, listOf (first :: more) =
      (ItemLine.steps first.indent (first :: more)).map fun _ => list := by
  have leveled := ItemLine.levels_of_hasLevel fits
  refine ⟨sublist (nestItems (((first :: more).map fun item =>
    (item, item.levelFrom first.indent)).map fun entry => entry.1.item entry.2)), ?_⟩
  simp only [listOf, leveled, bind, Except.bind, ItemLine.steps]
  cases ItemLine.checkSteps 0 _ <;> rfl

/-- A list is refused for the first line without a level, whatever follows it. -/
theorem listOf_of_not_hasLevel (fits : ∀ item ∈ first :: front, item.HasLevel first.indent)
    (unfit : ¬ bad.HasLevel first.indent) (rest : List ItemLine) :
    listOf (first :: front ++ bad :: rest) = .error (.mistake .listIndentation bad.number) := by
  have refused := ItemLine.levels_of_not_hasLevel fits unfit rest
  rw [List.cons_append] at refused ⊢
  simp only [listOf, refused, bind, Except.bind]

/-- What refuses a list is one of its lines, and the lines behind it have no part in it. Those in
front of it make a list, unless one of them steps down too far and the line has no level. -/
theorem listOf_error (refused : listOf (first :: more) = .error e) :
    ∃ front bad rest, more = front ++ bad :: rest ∧
      e = .mistake .listIndentation bad.number ∧ listOf (first :: front ++ [bad]) = .error e ∧
      ((∃ list, listOf (first :: front) = .ok list) ∨
        ∃ jump ∈ front, ItemLine.IsOvertaken (first :: more) jump.number bad.number ∧
          listOf (first :: front) = .error (.mistake .listIndentation jump.number)) := by
  by_cases fits : ∀ item ∈ first :: more, item.HasLevel first.indent
  · obtain ⟨list, made⟩ := listOf_of_hasLevel fits
    cases checked : ItemLine.steps first.indent (first :: more) with
    | ok _ =>
      rw [made, checked] at refused
      cases refused
    | error other =>
      rw [made, checked] at refused
      obtain rfl : other = e := Except.error.inj refused
      obtain ⟨front, jump, rest, rfl, _, named, gentle, cut⟩ := ItemLine.steps_error checked
      have upTo : ∀ item ∈ first :: (front ++ [jump]), item.HasLevel first.indent := by
        intro item member
        apply fits item
        simp only [List.mem_cons, List.mem_append, List.not_mem_nil, or_false] at member ⊢
        tauto
      have before : ∀ item ∈ first :: front, item.HasLevel first.indent := by
        intro item member
        apply upTo item
        rw [← List.cons_append]
        exact List.mem_append_left _ member
      obtain ⟨whole, stopped⟩ := listOf_of_hasLevel upTo
      obtain ⟨part, kept⟩ := listOf_of_hasLevel before
      rw [List.cons_append] at cut
      refine ⟨front, jump, rest, rfl, named, ?_, .inl ⟨part, ?_⟩⟩
      · rw [List.cons_append, stopped, cut]
        rfl
      · rw [kept, gentle]
        rfl
  · obtain ⟨front, bad, rest, split, before, unfit⟩ := ItemLine.exists_first_not_hasLevel fits
    cases front with
    | nil =>
      -- the first line of a list always has a level
      obtain ⟨rfl, rfl⟩ := List.cons.inj split
      have fit : first.HasLevel first.indent := by
        simp [ItemLine.HasLevel, ItemLine.levelFrom, ItemLine.deepest]
      exact absurd fit unfit
    | cons start front =>
      rw [List.cons_append] at split
      obtain ⟨rfl, rfl⟩ := List.cons.inj split
      have whole := listOf_of_not_hasLevel before unfit rest
      rw [List.cons_append, refused] at whole
      obtain rfl := Except.error.inj whole
      refine ⟨front, bad, rest, rfl, rfl, listOf_of_not_hasLevel before unfit [], ?_⟩
      obtain ⟨list, made⟩ := listOf_of_hasLevel before
      cases checked : ItemLine.steps first.indent (first :: front) with
      | ok _ =>
        refine .inl ⟨list, ?_⟩
        rw [made, checked]
        rfl
      | error e =>
        obtain ⟨init, jump, after, rfl, steep, rfl, _, _⟩ := ItemLine.steps_error checked
        refine .inr ⟨jump, by simp, ⟨first, rfl, first :: (init ++ jump :: after), bad, rest, rfl,
          rfl, unfit, jump, steep.append after, rfl⟩, ?_⟩
        rw [made, checked]
        rfl

end Lists

namespace Part

variable {root : Path} {line : Line} {more taken rest : List Line} {parts : List Part}
  {e : ParseError}

/-- What is read from a line does not depend on how much is left of the lines behind the part. -/
theorem read_cut (found : read root line more = .ok (parts, rest)) :
    ∃ taken, more = taken ++ rest ∧
      ∀ kept, kept <+: rest → read root line (taken ++ kept) = .ok (parts, kept) := by
  cases opens : line.opensCode with
  | false =>
    have whole := read_run root opens more
    rw [found] at whole
    cases made : read root line (more.takeWhile line.joins) with
    | error e =>
      rw [made] at whole
      cases whole
    | ok own =>
      rw [made] at whole
      obtain ⟨rfl, rfl⟩ := Prod.mk.inj (Except.ok.inj whole)
      refine ⟨more.takeWhile line.joins, List.takeWhile_append_dropWhile.symm, ?_⟩
      intro kept start
      have joined : ∀ other ∈ more.takeWhile line.joins, line.joins other = true :=
        fun other member => List.mem_takeWhile_imp member
      have stops : kept.takeWhile line.joins = [] ∧ kept.dropWhile line.joins = kept := by
        cases kept with
        | nil => exact ⟨rfl, rfl⟩
        | cons next others =>
          obtain ⟨behind, same⟩ := start
          have apart := List.head?_dropWhile_not line.joins more
          rw [← same, List.cons_append, List.head?_cons] at apart
          rw [List.takeWhile_cons, List.dropWhile_cons, apart]
          exact ⟨rfl, rfl⟩
      rw [read_run root opens, List.takeWhile_append_of_pos joined,
        List.dropWhile_append_of_pos joined, stops.1, stops.2, List.append_nil, made]
      rfl
  | true =>
    obtain ⟨language, kind⟩ := Line.fence_of_opensCode opens
    have inner : ∀ other ∈ more.takeWhile (!·.endsCode), (!other.endsCode) = true :=
      fun other member => List.mem_takeWhile_imp (p := fun l => !Line.endsCode l) member
    simp only [read, kind] at found
    cases behind : more.dropWhile (!·.endsCode) with
    | nil =>
      rw [behind] at found
      cases found
    | cons closing after =>
      rw [behind] at found
      obtain ⟨rfl, rfl⟩ := Prod.mk.inj (Except.ok.inj found)
      have ends : (!closing.endsCode) = false := by
        have first := List.head?_dropWhile_not (!·.endsCode) more
        simpa only [behind, List.head?_cons] using first
      refine ⟨more.takeWhile (!·.endsCode) ++ [closing], ?_, ?_⟩
      · rw [List.append_assoc, List.singleton_append, ← behind, List.takeWhile_append_dropWhile]
      · intro kept _
        simp only [read, kind, List.append_assoc, List.singleton_append,
          List.dropWhile_append_of_pos inner, List.takeWhile_append_of_pos inner,
          List.dropWhile_cons, List.takeWhile_cons, ends, Bool.false_eq_true, if_false,
          List.append_nil]

/-- A directive line that is refused is refused for a mistake of its own. -/
theorem ofDirective_error {name value : List Char} {number : Nat}
    (failed : ofDirective name value number = .error e) : ∃ cause, e = .mistake cause number := by
  unfold ofDirective at failed
  cases person : Author.ofValue? value <;> cases range : DepthRange.ofValue? value <;>
    simp only [person, range] at failed <;> split at failed <;> cases failed <;> exact ⟨_, rfl⟩

/-- A line that is refused is refused for a mistake of its own, with or without the lines behind it,
or it begins item lines that are no list. -/
theorem read_error (failed : read root line more = .error e) :
    (read root line [] = .error e ∧ ∃ cause, e = .mistake cause line.number) ∨
      ∃ marker indent text, LineKind.ofLine line = .item marker indent text ∧
        listOf (⟨marker, indent, text, line.number⟩ ::
          (more.takeWhile line.joins).filterMap item?) = .error e := by
  cases kind : LineKind.ofLine line with
  | blank | rule | heading | row | text =>
    simp only [read, kind] at failed
    cases failed
  | directive name value =>
    simp only [read, kind] at failed ⊢
    cases made : ofDirective name value line.number with
    | ok part =>
      rw [made] at failed
      cases failed
    | error other =>
      rw [made] at failed
      obtain rfl := Except.error.inj failed
      exact .inl ⟨rfl, ofDirective_error made⟩
  | inclusion locator =>
    simp only [read, kind] at failed ⊢
    by_cases empty : locator = []
    · rw [if_pos empty] at failed
      rw [if_pos empty]
      exact .inl ⟨failed, _, (Except.error.inj failed).symm⟩
    · rw [if_neg empty] at failed
      cases failed
  | fence language =>
    simp only [read, kind] at failed ⊢
    cases behind : more.dropWhile (!·.endsCode) with
    | nil =>
      rw [behind] at failed
      exact .inl ⟨failed, _, (Except.error.inj failed).symm⟩
    | cons closing after =>
      rw [behind] at failed
      cases failed
  | item marker indent text =>
    have own : line.flow? = some .items := by rw [Line.flow?, kind]
    have flow : ∀ other, (item? other).isSome = line.joins other :=
      fun other => (isSome_item? other).trans (Line.joins_of_flow own other).symm
    simp only [read, kind, (leading_run flow more).1] at failed
    refine .inr ⟨marker, indent, text, rfl, ?_⟩
    cases made : listOf (⟨marker, indent, text, line.number⟩ ::
        (more.takeWhile line.joins).filterMap item?) with
    | ok list =>
      rw [made] at failed
      cases failed
    | error other =>
      rw [made] at failed
      obtain rfl := Except.error.inj failed
      rfl

/-- Item lines give the list they make. -/
theorem ofLines_items {marker : ListKind} {indent : Nat} {text : List Char}
    (kind : LineKind.ofLine line = .item marker indent text)
    (joined : ∀ other ∈ taken, line.joins other = true) :
    ofLines root (line :: taken) = (listOf (⟨marker, indent, text, line.number⟩ ::
      taken.filterMap item?)).map (List.map block) := by
  have own : line.flow? = some .items := by rw [Line.flow?, kind]
  have whole := leading_joined own isSome_item? joined
  cases made : listOf (⟨marker, indent, text, line.number⟩ :: taken.filterMap item?) with
  | error e =>
    apply ofLines_cons_error
    simp only [read, kind, whole, made, bind, Except.bind]
  | ok list =>
    have found : read root line taken = .ok (list.map block, []) := by
      simp only [read, kind, whole, made, bind, Except.bind]
    rw [ofLines_cons found, ofLines]
    exact congrArg Except.ok (List.append_nil _)

/-- The item of a line has the number of the line. -/
theorem number_of_item? {item : ItemLine} (given : item? line = some item) :
    item.number = line.number := by
  unfold item? at given
  split at given
  · rw [← Option.some.inj given]
  · cases given

end Part

/-- An item that lines give is that of one of them, and those in front of it give the items in
front of it. -/
theorem exists_line_of_item {lines : List Line} {front rest : List ItemLine} {item : ItemLine}
    (given : lines.filterMap Part.item? = front ++ item :: rest) :
    ∃ before line behind, lines = before ++ line :: behind ∧
      before.filterMap Part.item? = front ∧ Part.item? line = some item := by
  obtain ⟨start, others, rfl, fronted, ended⟩ := List.filterMap_eq_append_iff.1 given
  obtain ⟨skipped, line, behind, rfl, silent, own, _⟩ := List.filterMap_eq_cons_iff.1 ended
  refine ⟨start ++ skipped, line, behind, by simp, ?_, own⟩
  rw [List.filterMap_append, fronted, List.filterMap_eq_nil_iff.2 silent, List.append_nil]

/-- A list of the lines has a line `n` without a level, and a line `jump` above it that stands more
than one level below the line before it. -/
def HasOvertaken (lines : List Line) (jump n : Nat) : Prop :=
  ∃ group ∈ groupsOf lines, ItemLine.IsOvertaken (group.filterMap Region.item?) jump n

/-- The lines behind a part are in groups of their own. -/
theorem HasOvertaken.behind {root : Path} {line : Line} {more rest : List Line}
    {parts : List Part} {jump n : Nat} (overtaken : HasOvertaken rest jump n)
    (found : Part.read root line more = .ok (parts, rest)) :
    HasOvertaken (line :: more) jump n := by
  obtain ⟨first, left, _, groups, _, same⟩ := groupsOf_cons line more
  have own := same root
  rw [found] at own
  cases given : readGroup root first with
  | error e =>
    rw [given] at own
    cases own
  | ok made =>
    rw [given] at own
    obtain ⟨rfl, rfl⟩ := Prod.mk.inj (Except.ok.inj own)
    obtain ⟨group, there, late⟩ := overtaken
    refine ⟨group, ?_, late⟩
    rw [groups]
    exact List.mem_cons_of_mem _ there

/-- The error is a mistake of one of the lines, and the lines behind it have no part in it. Those in
front of it can be read, unless it overtakes a step in its list that is too large. -/
def IsLocated (root : Path) (lines : List Line) (e : ParseError) : Prop :=
  ∃ cause before last behind, lines = before ++ last :: behind ∧
    e = .mistake cause last.number ∧ Part.ofLines root (before ++ [last]) = .error e ∧
    ((∃ parts, Part.ofLines root before = .ok parts) ∨
      cause = .listIndentation ∧ ∃ jump ∈ before, HasOvertaken lines jump.number last.number ∧
        Part.ofLines root before = .error (.mistake .listIndentation jump.number))

section Located

variable {root : Path} {line : Line} {more : List Line} {e : ParseError}

/-- What refuses a list is one of its lines. -/
theorem isLocated_items {marker : ListKind} {indent : Nat} {text : List Char}
    (kind : LineKind.ofLine line = .item marker indent text)
    (refused : listOf (⟨marker, indent, text, line.number⟩ ::
      (more.takeWhile line.joins).filterMap Part.item?) = .error e) :
    IsLocated root (line :: more) e := by
  have outside : line.opensCode = false := by rw [Line.opensCode, kind]
  have joined : ∀ other ∈ more.takeWhile line.joins, line.joins other = true :=
    fun other member => List.mem_takeWhile_imp member
  have items : ((line :: more.takeWhile line.joins).map Region.line).filterMap Region.item? =
      ⟨marker, indent, text, line.number⟩ :: (more.takeWhile line.joins).filterMap Part.item? :=
    filterMap_run Region.item? (Region.item?_of_kind kind)
  obtain ⟨front, bad, rest, split, named, cut, kept⟩ := listOf_error refused
  obtain ⟨before, last, after, run, fronted, ended⟩ := exists_line_of_item split
  have whole : more = before ++ last :: (after ++ more.dropWhile line.joins) := by
    rw [← List.cons_append, ← List.append_assoc, ← run, List.takeWhile_append_dropWhile]
  have numbered := Part.number_of_item? ended
  have joinedUpTo : ∀ other ∈ before ++ [last], line.joins other = true := by
    intro other member
    apply joined other
    rw [run, ← List.singleton_append, ← List.append_assoc]
    exact List.mem_append_left _ member
  have joinedBefore : ∀ other ∈ before, line.joins other = true :=
    fun other member => joinedUpTo other (List.mem_append_left _ member)
  refine ⟨.listIndentation, line :: before, last, _, congrArg _ whole, ?_, ?_, ?_⟩
  · rw [named, numbered]
  · rw [List.cons_append, Part.ofLines_items kind joinedUpTo, List.filterMap_append, fronted,
      List.filterMap_cons_some ended, List.filterMap_nil, ← List.cons_append, cut]
    rfl
  · rw [Part.ofLines_items kind joinedBefore, fronted]
    rcases kept with ⟨made, good⟩ | ⟨jump, member, overtaken, stopped⟩
    · exact .inl ⟨made.map .block, by rw [good]; rfl⟩
    · rw [← fronted] at member
      obtain ⟨single, inside, given⟩ := List.mem_filterMap.1 member
      have same := Part.number_of_item? given
      rw [← items, same, numbered] at overtaken
      refine .inr ⟨rfl, single, List.mem_cons_of_mem _ inside, ⟨_, ?_, overtaken⟩, ?_⟩
      · rw [groupsOf_run outside]
        exact List.mem_cons_self
      · rw [stopped, same]
        rfl

/-- A mistake behind a part is one of the lines behind it. -/
theorem isLocated_behind {rest : List Line} {parts : List Part}
    (found : Part.read root line more = .ok (parts, rest)) (located : IsLocated root rest e) :
    IsLocated root (line :: more) e := by
  obtain ⟨cause, before, last, after, rfl, named, cut, kept⟩ := located
  obtain ⟨taken, rfl, read⟩ := Part.read_cut found
  have upTo := read (before ++ [last]) (by simp)
  have front := read before (List.prefix_append _ _)
  refine ⟨cause, line :: (taken ++ before), last, after, by simp, named, ?_, ?_⟩
  · rw [List.cons_append, List.append_assoc, ofLines_cons upTo, cut]
    rfl
  · rcases kept with ⟨others, good⟩ | ⟨rfl, jump, member, overtaken, stopped⟩
    · refine .inl ⟨parts ++ others, ?_⟩
      rw [ofLines_cons front, good]
      rfl
    · refine .inr ⟨rfl, jump, by simp [member], overtaken.behind found, ?_⟩
      rw [ofLines_cons front, stopped]
      rfl

/-- What refuses lines is one of them. -/
theorem isLocated_of_ofLines {lines : List Line} (refused : Part.ofLines root lines = .error e) :
    IsLocated root lines e := by
  fun_induction Part.ofLines root lines with
  | case1 => cases refused
  | case2 line more other failed =>
    obtain rfl := Except.error.inj refused
    rcases Part.read_error failed with ⟨alone, cause, named⟩ | ⟨marker, indent, text, kind, list⟩
    · exact ⟨cause, [], line, more, rfl, named, ofLines_cons_error alone,
        .inl ⟨[], by rw [Part.ofLines]⟩⟩
    · exact isLocated_items kind list
  | case3 line more parts rest found ih =>
    apply isLocated_behind found
    apply ih
    cases behind : Part.ofLines root rest with
    | ok others =>
      rw [behind] at refused
      cases refused
    | error other =>
      rw [behind] at refused
      exact refused

end Located

namespace Document

/-- The first `n` lines of a source, with their line breaks. -/
def frontLines (n : Nat) (source : String) : String := String.ofList (Line.front n source.toList)

/-- The lines of the front of a source are its first lines. -/
theorem linesOf_frontLines (n : Nat) (source : String) :
    Line.linesOf (frontLines n source).toList = (Line.linesOf source.toList).take n := by
  rw [frontLines, String.toList_ofList, Line.linesOf, Line.linesFrom_front, Line.linesOf]

/-- A source is refused where its lines are. -/
theorem parse_error_iff {root : Path} {source : String} {e : ParseError} :
    parse root source = .error e ↔ Part.ofLines root (Line.linesOf source.toList) = .error e := by
  rw [parse]
  cases Part.ofLines root (Line.linesOf source.toList) <;> simp [Except.map]

/-- The mistake of a source that is refused is one of its line `n`, and the first `n` lines are
refused with it. The lines in front of it can be read, unless it is a list item without a level and
an item above it in the list stands more than one level below the item before it; then they are
refused for that item. -/
theorem parse_mistake_located {root : Path} {source : String} {e : ParseError}
    (refused : parse root source = .error e) :
    ∃ cause n, e = .mistake cause n ∧ 0 < n ∧ n ≤ (Line.linesOf source.toList).length ∧
      parse root (frontLines n source) = .error (.mistake cause n) ∧
      ((∃ d, parse root (frontLines (n - 1) source) = .ok d) ∨
        cause = .listIndentation ∧
          ∃ jump < n, HasOvertaken (Line.linesOf source.toList) jump n ∧
            parse root (frontLines (n - 1) source) =
              .error (.mistake .listIndentation jump)) := by
  obtain ⟨cause, before, last, behind, lines, rfl, cut, kept⟩ :=
    isLocated_of_ofLines (parse_error_iff.1 refused)
  have count := Line.number_of_linesOf lines
  have upTo : Line.linesOf (frontLines last.number source).toList = before ++ [last] := by
    have whole : before ++ last :: behind = before ++ [last] ++ behind := by
      rw [List.append_assoc, List.singleton_append]
    rw [linesOf_frontLines, lines, whole]
    exact List.take_left' (by rw [List.length_append, List.length_singleton, count])
  have front : Line.linesOf (frontLines (last.number - 1) source).toList = before := by
    rw [linesOf_frontLines, lines, count, Nat.add_sub_cancel, List.take_left]
  refine ⟨cause, last.number, rfl, by omega, ?_, ?_, ?_⟩
  · rw [lines, List.length_append, List.length_cons]
    omega
  · rwa [parse_error_iff, upTo]
  · rcases kept with ⟨parts, good⟩ | ⟨rfl, jump, member, overtaken, stopped⟩
    · refine .inl ⟨ofParts parts, ?_⟩
      rw [parse, front, good]
      rfl
    · obtain ⟨above, between, rfl⟩ := List.append_of_mem member
      have higher : jump.number < last.number := by
        rw [List.append_assoc, List.cons_append] at lines
        have own := Line.number_of_linesOf lines
        simp only [List.length_append, List.length_cons] at count
        omega
      refine .inr ⟨rfl, jump.number, higher, overtaken, ?_⟩
      rwa [parse_error_iff, front]

/-- A source is refused where its error can be seen. -/
theorem error_of_seen {root : Path} {source : String} {e : ParseError}
    (seen : (match parse root source with
      | .ok _ => none
      | .error e => some e) = some e) : parse root source = .error e := by
  cases read : parse root source with
  | ok d =>
    rw [read] at seen
    cases seen
  | error other =>
    rw [read] at seen
    rw [Option.some.inj seen]

/-- A table of contents out of order, with a directive that is none and open code behind it. -/
theorem parse_mistake_located_sample :
    parse ⟨""⟩ "- a\n#index: 9,1\n#x:\n\x60\x60\x60" = .error (.mistake .badContents 2) ∧
      parse ⟨""⟩ (frontLines 2 "- a\n#index: 9,1\n#x:\n\x60\x60\x60") =
        .error (.mistake .badContents 2) ∧
      ∃ d, parse ⟨""⟩ (frontLines 1 "- a\n#index: 9,1\n#x:\n\x60\x60\x60") = .ok d := by
  have refused : parse ⟨""⟩ "- a\n#index: 9,1\n#x:\n\x60\x60\x60" =
      .error (.mistake .badContents 2) := error_of_seen (by decide +kernel)
  obtain ⟨cause, n, same, _, _, cut, kept⟩ := parse_mistake_located refused
  obtain ⟨rfl, rfl⟩ := ParseError.mistake.inj same
  rcases kept with good | ⟨other, _⟩
  · exact ⟨refused, cut, good⟩
  · cases other

/-- The third line is left of its list, and the first two lines by themselves are refused for the
second, which is too deep. -/
theorem parse_overtaken :
    parse ⟨""⟩ "  - a\n      - b\n- c" = .error (.mistake .listIndentation 3) ∧
      parse ⟨""⟩ (frontLines 2 "  - a\n      - b\n- c") =
        .error (.mistake .listIndentation 2) :=
  ⟨error_of_seen (by decide +kernel), error_of_seen (by decide +kernel)⟩

end Document

end WikiPress

import WikiPress.Proofs.Document.Gathering

/-!
# Lists made of item lines

Whatever item lines are accepted make one list, and what is gathered from the list is what the lines
give (`Gathers.listOf`). So the list holds no inclusion: an item owns nothing but the items that
follow it on deeper levels.
-/

namespace WikiPress

/-- Lines with levels are as many as the lines. -/
theorem ItemLine.levels_cons {base : Nat} {line : ItemLine} {more : List ItemLine}
    {leveled : List (ItemLine × Nat)}
    (accepted : ItemLine.levels base (line :: more) = .ok leveled) :
    ∃ level others, line.level? base = .ok level ∧ ItemLine.levels base more = .ok others ∧
      leveled = (line, level) :: others := by
  rw [levels] at accepted
  cases own : line.level? base with
  | error e => simp [own, bind, Except.bind] at accepted
  | ok level =>
    cases behind : levels base more with
    | error e => simp [own, behind, bind, Except.bind] at accepted
    | ok others =>
      simp only [own, behind, bind, Except.bind, Except.ok.injEq] at accepted
      exact ⟨level, others, rfl, rfl, accepted.symm⟩

/-- Accepted item lines have the level that their indentation gives. -/
theorem ItemLine.levels_eq {base : Nat} {lines : List ItemLine} {leveled : List (ItemLine × Nat)}
    (accepted : ItemLine.levels base lines = .ok leveled) :
    leveled = lines.map fun line => (line, (line.indent - base) / 2 + 1) := by
  induction lines generalizing leveled with
  | nil => exact (Except.ok.inj accepted).symm
  | cons line more ih =>
    obtain ⟨level, others, own, behind, rfl⟩ := ItemLine.levels_cons accepted
    have depth : level = (line.indent - base) / 2 + 1 := by
      unfold ItemLine.level? at own
      split at own
      · cases own
      · exact (Except.ok.inj own).symm
    rw [List.map_cons, ← ih behind, depth]

/-- Accepted item lines make the list of their items, nested by the levels of the lines. -/
theorem listOf_eq_ok {line : ItemLine} {more : List ItemLine} {blocks : List Block}
    (accepted : listOf (line :: more) = .ok blocks) :
    blocks = sublist (nestItems ((line :: more).map fun own =>
      own.item ((own.indent - line.indent) / 2 + 1))) := by
  simp only [listOf] at accepted
  cases leveled : ItemLine.levels line.indent (line :: more) with
  | error e => simp [leveled, bind, Except.bind] at accepted
  | ok pairs =>
    cases steps : ItemLine.checkSteps 0 pairs with
    | error e => simp [leveled, steps, bind, Except.bind] at accepted
    | ok _ =>
      simp only [leveled, steps, bind, Except.bind, Except.ok.injEq] at accepted
      rw [← accepted, ItemLine.levels_eq leveled, List.map_map]
      rfl

/-- What is gathered from the list of accepted item lines is what the lines give. -/
theorem Gathers.listOf {α : Type} {g : Gathering α} {ofBlocks : List Block → List α}
    {ofItems : List Item → List α} (walk : Gathers g ofBlocks ofItems) {lines : List ItemLine}
    {blocks : List Block} (accepted : listOf lines = .ok blocks) :
    ∃ level : ItemLine → Nat, ofBlocks blocks =
      lines.flatMap fun line => g.item line.kind (level line) (runsOf line.text) := by
  cases lines with
  | nil =>
    obtain rfl := Except.ok.inj accepted
    exact ⟨fun _ => 0, walk.nil⟩
  | cons first more =>
    rw [listOf_eq_ok accepted, walk.sublist, walk.nestItems]
    exact ⟨_, walk.lines _ _⟩

/-- Accepted item lines make one list, without inclusions. -/
theorem listOf_cons {line : ItemLine} {more : List ItemLine} {blocks : List Block}
    (accepted : listOf (line :: more) = .ok blocks) :
    ∃ kind items, blocks = [.list kind items] ∧ inclusionsOfItems items = [] := by
  obtain ⟨level, gathered⟩ := gathers_inclusionsOf.listOf accepted
  have none : inclusionsOf blocks = [] := by
    rw [gathered]
    exact List.flatMap_eq_nil_iff.2 fun _ _ => rfl
  have made := listOf_eq_ok accepted
  rw [made, gathers_inclusionsOf.sublist] at none
  exact ⟨_, _, made, none⟩

end WikiPress

import WikiPress.Proofs.Source.Mistakes
import WikiPress.Proofs.Source.Tiers

/-!
# Building lists

A list can be built from the entries of its lines with a cursor: the items of a level are read from
the position of the cursor on, an item followed by an entry one level deeper owns the list that
begins there, and the reading of a level ends in front of the first entry above it. Reading a level
comes to checking and nesting the entries that stand on it or deeper (`itemsAt_eq`), so the builder
asks for no entry behind the last one and for no level beyond the deepest, and it makes the list that
nesting makes (`buildList_eq`). What a run of item lines gives is `Part.read_items`.
-/

namespace WikiPress

/-- Why the building of a list stops. -/
inductive Stop where
  /-- The entries make no list. -/
  | refused (e : ParseError)
  /-- An entry behind the last one is asked for. -/
  | outside
  /-- A level beyond the deepest one is asked for. -/
  | beyond
  /-- There is no room for as many entries. -/
  | full

namespace ItemLine

/-- The level below a level, where there is one. -/
def below? (level : Nat) : Option Nat := if level < deepest then some (level + 1) else none

/-- The list of a level that begins at a position, and the position behind it; `read` reads the items
of a level. -/
def listAt (read : Nat → Nat → Except Stop (List Item × Nat)) (entries : List (ItemLine × Nat))
    (level pos : Nat) : Except Stop (Block × Nat) :=
  if deepest < level then .error .beyond
  else
    match entries[pos]? with
    | none => .error .outside
    | some first => (read level pos).map fun made => (.list first.1.kind made.1, made.2)

/-- What an item of a level owns, if the entries behind it begin at a position, and the position
behind that. -/
def childrenAt (read : Nat → Nat → Except Stop (List Item × Nat)) (entries : List (ItemLine × Nat))
    (level pos : Nat) : Except Stop (List Block × Nat) :=
  match below? level, entries[pos]? with
  | some deeper, some next =>
    if next.2 = deeper then
      (listAt read entries deeper pos).map fun made => ([made.1], made.2)
    else .ok ([], pos)
  | _, _ => .ok ([], pos)

/-- The items of a level that begin at a position, with what they own, and the position behind them.
There is room for some entries from the position on. -/
def itemsAt (entries : List (ItemLine × Nat)) : Nat → Nat → Nat → Except Stop (List Item × Nat)
  | 0, _, _ => .error .full
  | room + 1, level, pos =>
    match entries[pos]? with
    | none => .ok ([], pos)
    | some (line, own) =>
      if own < level then .ok ([], pos)
      else if level < own then .error (.refused (.mistake .listIndentation line.number))
      else do
        let (children, next) ← childrenAt (itemsAt entries room) entries level (pos + 1)
        let (others, behind) ← itemsAt entries room level next
        .ok ({ line.item level with children := children } :: others, behind)

/-- The list that entries make, and the position behind its last one. -/
def buildList (entries : List (ItemLine × Nat)) : Except Stop (Block × Nat) :=
  listAt (itemsAt entries (entries.length + 1)) entries 1 0

/-- The items of entries, nested. -/
def nested (entries : List (ItemLine × Nat)) : List Item :=
  nestItems (entries.map fun entry => entry.1.item entry.2)

/-- The entries from a position on that stand on a level or deeper. -/
def stretchAt (entries : List (ItemLine × Nat)) (level pos : Nat) : List (ItemLine × Nat) :=
  (entries.drop pos).takeWhile fun entry => level ≤ entry.2

/-- The items of the entries from a position on that stand on a level or deeper, and the position
behind them, unless a step between the entries goes down too far. -/
def tierAt (entries : List (ItemLine × Nat)) (level pos : Nat) : Except Stop (List Item × Nat) :=
  ((checkSteps (level - 1) (stretchAt entries level pos)).mapError Stop.refused).map fun _ =>
    (nested (stretchAt entries level pos), pos + (stretchAt entries level pos).length)

section Stretches

variable {entries : List (ItemLine × Nat)} {entry : ItemLine × Nat} {level pos : Nat}

/-- The entries of a stretch stand on its level or deeper. -/
theorem le_of_mem_stretchAt (member : entry ∈ stretchAt entries level pos) : level ≤ entry.2 := by
  simpa using List.mem_takeWhile_imp member

/-- A stretch begins with the entry at its position, if that is not above its level. -/
theorem head?_stretchAt (entries : List (ItemLine × Nat)) (level pos : Nat) :
    (stretchAt entries level pos).head? = entries[pos]?.filter fun entry => level ≤ entry.2 := by
  rw [stretchAt, List.head?_takeWhile, List.head?_drop]

/-- Behind the last entry there is no stretch. -/
theorem stretchAt_none (none : entries[pos]? = none) : stretchAt entries level pos = [] := by
  rw [stretchAt, List.drop_of_length_le (List.getElem?_eq_none_iff.1 none), List.takeWhile_nil]

/-- No stretch of a level begins above it. -/
theorem stretchAt_above (found : entries[pos]? = some entry) (above : entry.2 < level) :
    stretchAt entries level pos = [] := by
  obtain ⟨inside, rfl⟩ := List.getElem?_eq_some_iff.1 found
  rw [stretchAt, List.drop_eq_getElem_cons inside, List.takeWhile_cons,
    decide_eq_false (Nat.not_le.2 above)]
  rfl

/-- A stretch of a level begins with an entry that is not above it. -/
theorem stretchAt_cons (found : entries[pos]? = some entry) (here : level ≤ entry.2) :
    stretchAt entries level pos = entry :: stretchAt entries level (pos + 1) := by
  obtain ⟨inside, rfl⟩ := List.getElem?_eq_some_iff.1 found
  rw [stretchAt, List.drop_eq_getElem_cons inside, List.takeWhile_cons,
    decide_eq_true here]
  rfl

/-- The entries behind a stretch are those that are left when it is taken. -/
theorem drop_stretchAt (entries : List (ItemLine × Nat)) (level pos : Nat) :
    entries.drop (pos + (stretchAt entries level pos).length) =
      (entries.drop pos).dropWhile fun entry => decide (level ≤ entry.2) := by
  have whole : stretchAt entries level pos ++
      (entries.drop pos).dropWhile (fun entry => decide (level ≤ entry.2)) = entries.drop pos :=
    List.takeWhile_append_dropWhile
  rw [← List.drop_drop, ← whole, List.drop_left, whole]

/-- A stretch begins with the deeper entries in front of the first one of its level. -/
theorem stretchAt_split (entries : List (ItemLine × Nat)) (level pos : Nat) :
    stretchAt entries level pos = stretchAt entries (level + 1) pos ++
      stretchAt entries level (pos + (stretchAt entries (level + 1) pos).length) := by
  have strict : ∀ entry : ItemLine × Nat, decide (level + 1 ≤ entry.2) = true →
      decide (level ≤ entry.2) = true := by
    intro entry deeper
    simp only [decide_eq_true_eq] at deeper ⊢
    omega
  have split := takeWhile_of_stricter strict (entries.drop pos)
  rwa [← drop_stretchAt] at split

/-- Where a stretch of a level goes on behind the deeper entries, it does so on the level. -/
theorem stretchAt_behind (entries : List (ItemLine × Nat)) (level pos : Nat) :
    ∀ first ∈ (stretchAt entries level
      (pos + (stretchAt entries (level + 1) pos).length)).head?, first.2 = level := by
  have stops := List.head?_dropWhile_not
    (fun entry : ItemLine × Nat => decide (level + 1 ≤ entry.2)) (entries.drop pos)
  rw [stretchAt, drop_stretchAt]
  intro first top
  cases left : (entries.drop pos).dropWhile fun entry => decide (level + 1 ≤ entry.2) with
  | nil =>
    rw [left] at top
    cases top
  | cons next more =>
    rw [left] at stops top
    have shallow : next.2 ≤ level := by
      have higher := of_decide_eq_false stops
      omega
    rw [List.takeWhile_cons] at top
    split at top
    · next here =>
      obtain rfl := Option.some.inj top
      exact Nat.le_antisymm shallow (of_decide_eq_true here)
    · cases top

end Stretches

section Steps

variable {pairs front back : List (ItemLine × Nat)} {level above higher : Nat}

/-- The level above matters to the first step only. -/
theorem checkSteps_congr (same : ∀ first ∈ pairs.head?, above + 1 < first.2 ↔ higher + 1 < first.2) :
    checkSteps above pairs = checkSteps higher pairs := by
  cases pairs with
  | nil => rfl
  | cons first rest =>
    obtain ⟨line, own⟩ := first
    simp only [checkSteps, same (line, own) rfl]

/-- Where the entries in front stand on a level or deeper and those behind go on on the level, the
steps can be checked apart. -/
theorem checkSteps_append (positive : 0 < level) (deep : level ≤ above)
    (low : ∀ entry ∈ front, level ≤ entry.2) (start : ∀ first ∈ back.head?, first.2 = level) :
    checkSteps above (front ++ back) =
      (checkSteps above front).bind fun _ => checkSteps (level - 1) back := by
  induction front generalizing above with
  | nil =>
    refine checkSteps_congr fun first top => ?_
    have here := start first top
    omega
  | cons first rest ih =>
    obtain ⟨line, own⟩ := first
    rw [List.forall_mem_cons] at low
    rw [List.cons_append, checkSteps, checkSteps]
    split
    · rfl
    · exact ih low.1 low.2

/-- The steps are in order where the first entry and each further one stands at most one level below
the entry in front of it. -/
theorem checkSteps_eq_ok_iff : checkSteps above pairs = .ok () ↔
    (∀ first ∈ pairs.head?, first.2 ≤ above + 1) ∧
      pairs.IsChain fun front later => later.2 ≤ front.2 + 1 := by
  induction pairs generalizing above with
  | nil => simp [checkSteps]
  | cons first rest ih =>
    obtain ⟨line, own⟩ := first
    rw [checkSteps, List.isChain_cons, ← ih]
    split
    · simp; omega
    · simp; omega

end Steps

section Cursor

variable {entries : List (ItemLine × Nat)} {entry next : ItemLine × Nat} {level pos room : Nat}
  {read : Nat → Nat → Except Stop (List Item × Nat)}

/-- The items of entries that begin a list. -/
theorem sublist_nested (entry : ItemLine × Nat) (more : List (ItemLine × Nat)) :
    sublist (nested (entry :: more)) = [.list entry.1.kind (nested (entry :: more))] := rfl

/-- An item in front of an entry one level deeper owns the list that begins there. -/
theorem childrenAt_deeper (found : entries[pos]? = some next) (deeper : next.2 = level + 1)
    (shallow : next.2 ≤ deepest) :
    childrenAt read entries level pos =
      (read (level + 1) pos).map fun made => ([.list next.1.kind made.1], made.2) := by
  have room : below? level = some (level + 1) := if_pos (by omega)
  have fits : ¬ deepest < level + 1 := by omega
  simp only [childrenAt, room, found, deeper, if_true, listAt, if_neg fits]
  cases read (level + 1) pos <;> rfl

/-- An item in front of any other entry, or of none, owns nothing. -/
theorem childrenAt_bare (apart : ∀ next ∈ entries[pos]?, next.2 ≠ level + 1) :
    childrenAt read entries level pos = .ok ([], pos) := by
  unfold childrenAt
  split
  · next deeper next given found =>
    have other : next.2 ≠ deeper := by
      rw [below?, Option.ite_none_right_eq_some] at given
      rw [← Option.some.inj given.2]
      exact apart next found
    rw [if_neg other]
  · rfl

/-- The nesting of entries that begin with an item, the deeper ones it owns and one that is not
deeper. -/
theorem nested_cons (line : ItemLine) {front back : List (ItemLine × Nat)}
    (deeper : ∀ entry ∈ front, level < entry.2) (start : ∀ first ∈ back.head?, first.2 ≤ level) :
    nested ((line, level) :: (front ++ back)) =
      { line.item level with children := sublist (nested front) } :: nested back := by
  have start : ∀ first ∈ (back.map fun entry => entry.1.item entry.2).head?,
      first.depth ≤ level := by
    cases back with
    | nil => simp
    | cons next more => simpa [ItemLine.item] using start
  have apart : nested (front ++ back) = nested front ++ nested back := by
    rw [nested, List.map_append, nestItems_append]
    · rfl
    · intro item member first top
      obtain ⟨entry, inside, rfl⟩ := List.mem_map.1 member
      exact Nat.le_trans (start first top) (Nat.le_of_lt (deeper entry inside))
  have below : ∀ item ∈ nested front, (line.item level).depth < item.depth := by
    intro item member
    obtain ⟨own, listed, same⟩ := exists_of_mem_nestItems member
    obtain ⟨entry, inside, rfl⟩ := List.mem_map.1 listed
    rw [← same]
    exact deeper entry inside
  calc nested ((line, level) :: (front ++ back))
      = (line.item level).consNested (nested front ++ nested back) := by rw [← apart]; rfl
    _ = _ := Item.consNested_append below (forall_head?_nestItems (P := (· ≤ level)) start)

/-- What is read for an item are the entries behind it as long as they are deeper, if the first of
them is one level deeper, and none otherwise. -/
theorem childrenAt_eq (shallow : ∀ entry ∈ entries, entry.2 ≤ deepest) (positive : 0 < level)
    (reads : read (level + 1) pos = tierAt entries (level + 1) pos) :
    ∃ front, (∀ entry ∈ front, level < entry.2) ∧
      stretchAt entries level pos = front ++ stretchAt entries level (pos + front.length) ∧
      (childrenAt read entries level pos =
        ((checkSteps level front).mapError Stop.refused).map fun _ =>
          (sublist (nested front), pos + front.length)) ∧
      checkSteps level (stretchAt entries level pos) =
        (checkSteps level front).bind fun _ =>
          checkSteps (level - 1) (stretchAt entries level (pos + front.length)) := by
  by_cases apart : ∀ next ∈ entries[pos]?, next.2 ≠ level + 1
  · refine ⟨[], by simp, rfl, childrenAt_bare apart, checkSteps_congr fun first top => ?_⟩
    -- an entry that is too deep for the item is too deep for the item above it as well
    rw [head?_stretchAt, Option.mem_def, Option.filter_eq_some_iff] at top
    have other : first.2 ≠ level + 1 := apart first top.1
    omega
  · obtain ⟨next, found, deeper⟩ : ∃ next, entries[pos]? = some next ∧ next.2 = level + 1 := by
      simpa using apart
    have low : next.2 ≤ deepest := shallow next (List.mem_of_getElem? found)
    have begins := stretchAt_cons found (Nat.le_of_eq deeper.symm)
    have below : ∀ entry ∈ stretchAt entries (level + 1) pos, level < entry.2 :=
      fun entry member => le_of_mem_stretchAt member
    have split := stretchAt_split entries level pos
    refine ⟨stretchAt entries (level + 1) pos, below, split, ?_, ?_⟩
    · rw [childrenAt_deeper found deeper low, reads, tierAt, Nat.add_sub_cancel]
      cases checkSteps level (stretchAt entries (level + 1) pos) with
      | error e => rfl
      | ok _ =>
        rw [begins, sublist_nested]
        rfl
    · conv_lhs => rw [split]
      exact checkSteps_append positive (Nat.le_refl level)
        (fun entry member => Nat.le_of_lt (below entry member)) (stretchAt_behind entries level pos)

/-- The items of a level that begin with the entry at a position, where those at all later positions
are read as they should be. -/
theorem itemsAt_here {line : ItemLine} (found : entries[pos]? = some (line, level))
    (shallow : ∀ entry ∈ entries, entry.2 ≤ deepest) (positive : 0 < level)
    (reads : ∀ inner later, 0 < inner → pos < later →
      itemsAt entries room inner later = tierAt entries inner later) :
    itemsAt entries (room + 1) level pos = tierAt entries level pos := by
  obtain ⟨front, deeper, split, owned, steps⟩ := childrenAt_eq shallow positive
    (reads (level + 1) (pos + 1) (Nat.succ_pos level) (Nat.lt_succ_self pos))
  have behind := reads level (pos + 1 + front.length) positive (by omega)
  have gentle : ¬ level - 1 + 1 < level := by omega
  rw [itemsAt, tierAt, stretchAt_cons found (Nat.le_refl level), checkSteps, if_neg gentle, steps]
  simp only [found, lt_irrefl, if_false, owned]
  cases checkSteps level front with
  | error e => rfl
  | ok _ =>
    simp only [Except.mapError, Except.map, bind, Except.bind, behind, tierAt]
    cases checked : checkSteps (level - 1) (stretchAt entries level (pos + 1 + front.length)) with
    | error e => rfl
    | ok _ =>
      have start := (checkSteps_eq_ok_iff.1 checked).1
      have shape := nested_cons line deeper fun first top => by
        have near := start first top
        omega
      have count := congrArg List.length split
      rw [List.length_append] at count
      rw [split, shape, ← split, List.length_cons, count]
      simp only [Except.ok.injEq, Prod.mk.injEq, true_and]
      omega

/-- Reading the items of a level comes to checking the steps between the entries that stand on it or
deeper and nesting them. -/
theorem itemsAt_eq (shallow : ∀ entry ∈ entries, entry.2 ≤ deepest) (positive : 0 < level)
    (enough : entries.length - pos < room) :
    itemsAt entries room level pos = tierAt entries level pos := by
  -- the room goes down with each entry, for what an item owns and for the items behind it
  induction room generalizing level pos with
  | zero => omega
  | succ room ih =>
    cases found : entries[pos]? with
    | none =>
      rw [itemsAt, found, tierAt, stretchAt_none found]
      rfl
    | some entry =>
      obtain ⟨line, own⟩ := entry
      rcases Nat.lt_trichotomy own level with above | rfl | steep
      · rw [itemsAt, tierAt, stretchAt_above found above]
        simp only [found, if_pos above]
        rfl
      · have inside := (List.getElem?_eq_some_iff.1 found).1
        exact itemsAt_here found shallow positive fun inner later low behind => ih low (by omega)
      · have near : ¬ own < level := Nat.lt_asymm steep
        have far : level - 1 + 1 < own := by omega
        rw [itemsAt, tierAt, stretchAt_cons found (Nat.le_of_lt steep), checkSteps, if_pos far]
        simp only [found, if_neg near, if_pos steep]
        rfl

/-- Building a list comes to checking the steps of all its entries and nesting them. -/
theorem buildList_eq {first : ItemLine × Nat} {more : List (ItemLine × Nat)}
    (shallow : ∀ entry ∈ first :: more, entry.2 ≤ deepest)
    (grounded : ∀ entry ∈ first :: more, 1 ≤ entry.2) :
    buildList (first :: more) =
      ((checkSteps 0 (first :: more)).mapError Stop.refused).map fun _ =>
        (.list first.1.kind (nested (first :: more)), (first :: more).length) := by
  have whole : stretchAt (first :: more) 1 0 = first :: more :=
    List.takeWhile_eq_self_iff.2 fun entry member => decide_eq_true (grounded entry member)
  have room : (first :: more).length - 0 < (first :: more).length + 1 := by omega
  have read := itemsAt_eq shallow Nat.one_pos room
  have fits : ¬ deepest < 1 := by decide
  rw [tierAt, whole, Nat.zero_add] at read
  rw [buildList, listAt, if_neg fits, read]
  cases checkSteps 0 (first :: more) <;> rfl

end Cursor

section Lists

variable {first : ItemLine} {more items : List ItemLine} {base : Nat}

/-- Lines with their levels in a list that starts at a column. -/
def entriesFrom (base : Nat) (items : List ItemLine) : List (ItemLine × Nat) :=
  items.map fun item => (item, item.levelFrom base)

/-- The entries of lines begin with that of the first line. -/
theorem entriesFrom_cons : entriesFrom base (first :: more) =
    (first, first.levelFrom base) :: entriesFrom base more := rfl

/-- Lines that have levels make a list where the steps between them are in order. -/
theorem listOf_eq_checkSteps (fits : ∀ item ∈ first :: more, item.HasLevel first.indent) :
    listOf (first :: more) = (checkSteps 0 (entriesFrom first.indent (first :: more))).map fun _ =>
      [.list first.kind (nested (entriesFrom first.indent (first :: more)))] := by
  have leveled := levels_of_hasLevel fits
  simp only [listOf, leveled, bind, Except.bind]
  rw [entriesFrom]
  cases checkSteps 0 ((first :: more).map fun item => (item, item.levelFrom first.indent)) <;> rfl

/-- Where the lines have levels, the builder gives the list that nesting makes and stands behind the
last entry, or it refuses the entries for the same mistake. -/
theorem buildList_of_hasLevel (fits : ∀ item ∈ first :: more, item.HasLevel first.indent) :
    (∃ list, buildList (entriesFrom first.indent (first :: more)) =
          .ok (list, (first :: more).length) ∧
        listOf (first :: more) = .ok [list]) ∨
      ∃ e, buildList (entriesFrom first.indent (first :: more)) = .error (.refused e) ∧
        listOf (first :: more) = .error e := by
  have shallow : ∀ entry ∈ entriesFrom first.indent (first :: more), entry.2 ≤ deepest := by
    intro entry member
    obtain ⟨line, inside, rfl⟩ := List.mem_map.1 member
    exact (fits line inside).2
  have grounded : ∀ entry ∈ entriesFrom first.indent (first :: more), 1 ≤ entry.2 := by
    intro entry member
    obtain ⟨line, _, rfl⟩ := List.mem_map.1 member
    exact Nat.le_add_left 1 _
  have count : (entriesFrom first.indent (first :: more)).length = (first :: more).length :=
    List.length_map _
  rw [listOf_eq_checkSteps fits]
  rw [entriesFrom_cons] at shallow grounded count ⊢
  rw [buildList_eq shallow grounded, count]
  cases checkSteps 0 ((first, first.levelFrom first.indent) :: entriesFrom first.indent more) with
  | error e => exact .inr ⟨e, rfl, rfl⟩
  | ok _ => exact .inl ⟨_, rfl, rfl⟩

end Lists

end ItemLine

namespace Part

section Items

variable {line : Line} {lines more : List Line} {item : ItemLine}

end Items

end Part

end WikiPress

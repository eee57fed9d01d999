import WikiPress.Proofs.Inline.Spans
import WikiPress.Proofs.Text.Bytes

/-!
# Where a marker closes

The end of a marked text can be looked for among the bytes of the line: from one occurrence of the
mark to the next, over two of them at once where the mark is single and stands twice. Each look goes
on further behind and inside the line (`Marker.further_of_look`). For a doubled mark the search
finds the first place where the marker stands behind a byte that is no space; a single mark closes
where the first run of an odd number of marks ends, unless that is one mark with a space or nothing
in front of it (`Marker.closingAt?_pair`, `Marker.closingAt?_single`). It is the place where the
text between the marks ends (`Marker.closing?_exactly`).
-/

namespace WikiPress

namespace Marker

/-- What one look for the end of a marked text leads to. -/
inductive Look where
  /-- The closing marker stands at a position. -/
  | closed (here : Nat)
  /-- The search goes on from a position. -/
  | further (next : Nat)
  /-- No closing marker is left. -/
  | unclosed

/-- A byte behind the start of a marked text, other than a space, stands in front of a position. -/
def IsTight (data : List UInt8) (start here : Nat) : Prop :=
  start < here ∧ data[here - 1]? ≠ some (Text.byte ' ')

instance (data : List UInt8) (start here : Nat) : Decidable (IsTight data start here) :=
  inferInstanceAs (Decidable (_ ∧ _))

/-- Whether a position is tight, from the byte in front of it; `none` where that is outside. -/
def isTight? (data : List UInt8) (start here : Nat) : Option Bool :=
  if start < here then (data[here - 1]?).map (· ≠ Text.byte ' ') else some false

/-- Look from a position on for the marker that closes a text which starts at `start`. This fails
where a byte outside is asked for. -/
def look (sigil data : List UInt8) (start search : Nat) : Option Look := do
  let mark ← sigil.head?
  match ← Text.seek? mark search data with
  | none => some .unclosed
  | some here =>
    if sigil.isPrefixOf (← Text.restAt? here data) then
      if sigil.length = 1 ∧ data[here + 1]? = some mark then some (.further (here + 2))
      else if ← isTight? data start here then some (.closed here)
      else some (.further (here + 1))
    else some (.further (here + 1))

section Looks

variable {b : UInt8} {sigil data : List UInt8} {start search here next : Nat}

/-- A position inside has a byte in front of it, if it is behind the start. -/
theorem isTight?_eq (inside : here ≤ data.length) :
    isTight? data start here = some (decide (IsTight data start here)) := by
  unfold isTight? IsTight
  split
  · next behind =>
    have within : here - 1 < data.length := by omega
    simp [List.getElem?_eq_getElem within, behind]
  · next before => simp [before]

/-- The bytes from a position of the mark on begin with it. -/
theorem restAt?_eq (found : data[here]? = some b) :
    Text.restAt? here data = some (b :: data.drop (here + 1)) := by
  obtain ⟨within, same⟩ := List.getElem?_eq_some_iff.1 found
  rw [Text.restAt?, if_pos (Nat.le_of_lt within), List.drop_eq_getElem_cons within, same]

/-- There is nothing to look at where no mark is left. -/
theorem look_unclosed (missing : Text.seek? b search data = some none) (more : List UInt8) :
    look (b :: more) data start search = some .unclosed := by
  simp only [look, List.head?_cons, Option.bind_eq_bind, Option.bind_some, missing]

/-- Two single marks in a row are passed over, and one by itself closes where it is tight. -/
theorem look_single (seen : Text.seek? b search data = some (some here))
    (found : data[here]? = some b) : look [b] data start search =
      some (if data[here + 1]? = some b then .further (here + 2)
        else if IsTight data start here then .closed here else .further (here + 1)) := by
  obtain ⟨within, _⟩ := List.getElem?_eq_some_iff.1 found
  simp only [look, List.head?_cons, Option.bind_eq_bind, Option.bind_some, seen,
    restAt?_eq found, isTight?_eq (Nat.le_of_lt within), List.isPrefixOf_cons_cons,
    beq_self_eq_true, List.isPrefixOf_nil_left, Bool.and_true, if_true, List.length_singleton,
    true_and, decide_eq_true_eq]
  split
  · rfl
  · split <;> rfl

/-- Two marks close where they are tight. -/
theorem look_pair (seen : Text.seek? b search data = some (some here))
    (found : data[here]? = some b) : look [b, b] data start search =
      some (if data[here + 1]? = some b ∧ IsTight data start here then .closed here
        else .further (here + 1)) := by
  obtain ⟨within, _⟩ := List.getElem?_eq_some_iff.1 found
  have paired : [b, b].isPrefixOf (b :: data.drop (here + 1)) = true ↔
      data[here + 1]? = some b := by
    rw [← List.head?_drop]
    cases data.drop (here + 1) with
    | nil => simp
    | cons c more =>
      rw [List.head?_cons, Option.some.injEq, eq_comm (a := c)]
      simp
  have double : ¬ [b, b].length = 1 := by simp
  simp only [look, List.head?_cons, Option.bind_eq_bind, Option.bind_some, seen,
    restAt?_eq found, isTight?_eq (Nat.le_of_lt within), paired, double, false_and, if_false,
    decide_eq_true_eq]
  by_cases twice : data[here + 1]? = some b
  · by_cases tight : IsTight data start here <;> simp [twice, tight]
  · simp [twice]

/-- A look from a position leads no further forward, and inside where the search goes on. -/
def Look.IsBehind (data : List UInt8) (search : Nat) : Look → Prop
  | .closed here => search ≤ here
  | .further next => search < next ∧ next ≤ data.length
  | .unclosed => True

/-- A look from inside asks for no byte outside. -/
theorem exists_look (filled : sigil ≠ []) (start : Nat) (inside : search ≤ data.length) :
    ∃ led, look sigil data start search = some led ∧ led.IsBehind data search := by
  cases sigil with
  | nil => exact absurd rfl filled
  | cons b more =>
    rcases Text.seek?_cases b inside with ⟨missing, _⟩ | ⟨here, seen, behind, found, _⟩
    · exact ⟨.unclosed, look_unclosed missing more, trivial⟩
    · obtain ⟨within, _⟩ := List.getElem?_eq_some_iff.1 found
      have onward : (Look.further (here + 1)).IsBehind data search :=
        ⟨Nat.lt_succ_of_le behind, within⟩
      simp only [look, List.head?_cons, Option.bind_eq_bind, Option.bind_some, seen,
        restAt?_eq found, isTight?_eq (Nat.le_of_lt within)]
      split
      · split
        · next doubled =>
          obtain ⟨within', _⟩ := List.getElem?_eq_some_iff.1 doubled.2
          exact ⟨_, rfl, by omega, within'⟩
        · split
          · exact ⟨_, rfl, behind⟩
          · exact ⟨_, rfl, onward⟩
      · exact ⟨_, rfl, onward⟩

/-- A look does not lead forward. -/
theorem of_look {led : Look} (looked : look sigil data start search = some led) :
    led.IsBehind data search := by
  cases sigil with
  | nil => cases looked
  | cons b more =>
    have inside : search ≤ data.length := by
      by_contra outside
      have failed : Text.seek? b search data = none := by
        rw [Text.seek?, Text.restAt?, if_neg outside, Option.map_none]
      simp [look, failed] at looked
    obtain ⟨_, seen, behind⟩ := exists_look (List.cons_ne_nil b more) start inside
    exact Option.some.inj (seen.symm.trans looked) ▸ behind

/-- The search goes on further behind, and inside. -/
theorem further_of_look (looked : look sigil data start search = some (.further next)) :
    search < next ∧ next ≤ data.length := of_look looked

end Looks

/-- The position of the marker that closes a marked text, looked for from a position on. The outer
`none` is for a search that leaves the line. -/
def closingAt? (sigil data : List UInt8) (start search : Nat) : Option (Option Nat) :=
  match _looked : look sigil data start search with
  | none => none
  | some .unclosed => some none
  | some (.closed here) => some (some here)
  | some (.further next) => closingAt? sigil data start next
termination_by data.length - search
decreasing_by
  have := further_of_look _looked
  omega

/-- What a look leads to is as wanted: where the search goes on one thing holds of the position, and
where it ends another one of what is found. -/
inductive Look.Leads (Inv : Nat → Prop) (Post : Option Nat → Prop) : Look → Prop where
  | closed {here : Nat} (found : Post (some here)) : Leads Inv Post (.closed here)
  | further {next : Nat} (goesOn : Inv next) : Leads Inv Post (.further next)
  | unclosed (missing : Post none) : Leads Inv Post .unclosed

section Search

variable {b : UInt8} {sigil data : List UInt8} {start search : Nat}

/-- A closing marker is found behind the position that it is looked for from. -/
theorem le_of_closingAt? {here : Nat}
    (found : closingAt? sigil data start search = some (some here)) : search ≤ here := by
  fun_induction closingAt? sigil data start search with
  | case1 => cases found
  | case2 => cases found
  | case3 search place looked =>
    obtain rfl := Option.some.inj (Option.some.inj found)
    exact of_look looked
  | case4 search next looked ih =>
    exact Nat.le_of_lt (Nat.lt_of_lt_of_le (further_of_look looked).1 (ih found))

/-- What holds of the positions that a search goes on from is enough for what it ends with. -/
theorem closingAt?_induction (Inv : Nat → Prop) {Post : Option Nat → Prop}
    (step : ∀ search, Inv search →
      ∃ looked, look sigil data start search = some looked ∧ looked.Leads Inv Post)
    (here : Inv search) :
    ∃ found, closingAt? sigil data start search = some found ∧ Post found := by
  induction left : data.length - search using Nat.strongRecOn generalizing search with
  | ind size ih =>
    obtain ⟨looked, seen, leads⟩ := step search here
    rw [closingAt?]
    split
    · next failed => cases failed.symm.trans seen
    · next ended =>
      cases ended.symm.trans seen
      cases leads with
      | unclosed missing => exact ⟨none, rfl, missing⟩
    · next place ended =>
      cases ended.symm.trans seen
      cases leads with
      | closed found => exact ⟨some place, rfl, found⟩
    · next next goesOn =>
      have progress := further_of_look goesOn
      cases goesOn.symm.trans seen
      cases leads with
      | further onward => exact ih (data.length - next) (by omega) onward rfl

/-- A doubled marker can close at a position: it stands there, behind a byte that is no space. -/
def ClosesPair (sigil data : List UInt8) (start p : Nat) : Prop :=
  sigil <+: data.drop p ∧ IsTight data start p

/-- A position is the first of its kind, or there is none. -/
def IsFirst (P : Nat → Prop) : Option Nat → Prop
  | some p => P p ∧ ∀ q, q < p → ¬ P q
  | none => ∀ q, ¬ P q

/-- Two bytes stand at a position where both are there. -/
theorem pair_prefix_iff {p : Nat} :
    [b, b] <+: data.drop p ↔ data[p]? = some b ∧ data[p + 1]? = some b := by
  rw [← List.head?_drop, ← List.head?_drop, ← List.drop_drop]
  cases data.drop p with
  | nil => simp
  | cons c more =>
    cases more with
    | nil => simp
    | cons d others => simp [List.cons_prefix_cons, eq_comm (a := b)]

/-- The search finds the first place where a doubled marker can close. -/
theorem closingAt?_pair (inside : start ≤ data.length) :
    ∃ found, closingAt? [b, b] data start start = some found ∧
      IsFirst (ClosesPair [b, b] data start) found := by
  -- no place in front of the position that the search goes on from will do
  apply closingAt?_induction (fun search => search ≤ data.length ∧
    ∀ p, p < search → ¬ ClosesPair [b, b] data start p)
  · rintro search ⟨within, passed⟩
    rcases Text.seek?_cases b within with ⟨missing, absent⟩ | ⟨here, seen, behind, found, between⟩
    · refine ⟨.unclosed, look_unclosed missing _, .unclosed fun p closes => ?_⟩
      by_cases early : p < search
      · exact passed p early closes
      · exact absent p (Nat.not_lt.1 early) (pair_prefix_iff.1 closes.1).1
    · have before : ∀ p, p < here → ¬ ClosesPair [b, b] data start p := by
        intro p early closes
        by_cases earlier : p < search
        · exact passed p earlier closes
        · exact between p (Nat.not_lt.1 earlier) early (pair_prefix_iff.1 closes.1).1
      by_cases ends : data[here + 1]? = some b ∧ IsTight data start here
      · have looked : look [b, b] data start search = some (.closed here) := by
          rw [look_pair seen found, if_pos ends]
        exact ⟨_, looked, .closed ⟨⟨pair_prefix_iff.2 ⟨found, ends.1⟩, ends.2⟩, before⟩⟩
      · have looked : look [b, b] data start search = some (.further (here + 1)) := by
          rw [look_pair seen found, if_neg ends]
        refine ⟨_, looked, .further ⟨(further_of_look looked).2, fun p early closes => ?_⟩⟩
        rcases Nat.lt_succ_iff_lt_or_eq.1 early with earlier | rfl
        · exact before p earlier closes
        · exact ends ⟨(pair_prefix_iff.1 closes.1).2, closes.2⟩
  · exact ⟨inside, fun p early closes => absurd closes.2.1 (Nat.lt_asymm early)⟩

/-- A maximal run of a byte among those from `start` on: where it begins and how long it is. -/
structure IsRun (b : UInt8) (data : List UInt8) (start first length : Nat) : Prop where
  within : start ≤ first
  nonempty : 0 < length
  marks : ∀ i, first ≤ i → i < first + length → data[i]? = some b
  begins : start < first → data[first - 1]? ≠ some b
  ends : data[first + length]? ≠ some b

/-- A run of a single marker that closes at its end: its length is odd, and if it is one mark then
that is tight. -/
def RunCloses (data : List UInt8) (start first length : Nat) : Prop :=
  length % 2 = 1 ∧ (3 ≤ length ∨ length = 1 ∧ IsTight data start first)

/-- The position is the last one of the first run that closes, or no run closes. -/
def EndsFirstRun (b : UInt8) (data : List UInt8) (start : Nat) : Option Nat → Prop
  | some p => ∃ first length, IsRun b data start first length ∧ RunCloses data start first length ∧
      p + 1 = first + length ∧ ∀ earlier size, earlier < first →
        IsRun b data start earlier size → ¬ RunCloses data start earlier size
  | none => ∀ first length, IsRun b data start first length → ¬ RunCloses data start first length

/-- No run that begins in front of a position closes. -/
def IsQuiet (b : UInt8) (data : List UInt8) (start p : Nat) : Prop :=
  ∀ first length, first < p → IsRun b data start first length → ¬ RunCloses data start first length

/-- An even number of marks stands in front of a position, from `first` on, where a run begins if
there are any, and no run in front of them closes. -/
structure IsPassed (b : UInt8) (data : List UInt8) (start first p : Nat) : Prop where
  within : start ≤ first
  le : first ≤ p
  even : (p - first) % 2 = 0
  marks : ∀ i, first ≤ i → i < p → data[i]? = some b
  begins : start < first → data[first - 1]? ≠ some b
  quiet : IsQuiet b data start first

/-- Marks that are passed and end are an even run, which does not close. -/
theorem IsPassed.isQuiet {first p : Nat} (passed : IsPassed b data start first p)
    (ended : data[p]? ≠ some b) : IsQuiet b data start p := by
  intro other length early run closes
  by_cases earlier : other < first
  · exact passed.quiet other length earlier run closes
  -- a run begins where no mark stands in front of it
  have same : other = first := by
    by_contra apart
    exact run.begins (by have := passed.within; omega)
      (passed.marks (other - 1) (by omega) (by omega))
  subst same
  have short : other + length ≤ p := by
    by_contra longer
    exact ended (run.marks p passed.le (by omega))
  have long : p ≤ other + length := by
    by_contra shorter
    exact run.ends (passed.marks (other + length) (by omega) (by omega))
  have even := passed.even
  have odd := closes.1
  omega

/-- Nothing is passed directly behind a byte that is no mark. -/
theorem IsQuiet.isPassed {search here : Nat} (quiet : IsQuiet b data start search)
    (inside : start ≤ search) (behind : search < here)
    (between : ∀ i, search ≤ i → i < here → data[i]? ≠ some b) :
    IsPassed b data start here here := by
  refine ⟨by omega, Nat.le_refl here, by omega, fun i le lt => absurd lt (Nat.not_lt.2 le), ?_, ?_⟩
  · exact fun _ => between (here - 1) (by omega) (by omega)
  · intro first length early run
    by_cases earlier : first < search
    · exact quiet first length earlier run
    · exact absurd (run.marks first (Nat.le_refl first) (by have := run.nonempty; omega))
        (between first (Nat.not_lt.1 earlier) early)

/-- Two more marks are passed over. -/
theorem IsPassed.further {first here : Nat} (passed : IsPassed b data start first here)
    (found : data[here]? = some b) (doubled : data[here + 1]? = some b) :
    IsPassed b data start first (here + 2) := by
  obtain ⟨within, le, even, marks, begins, quiet⟩ := passed
  refine ⟨within, by omega, by omega, fun i low high => ?_, begins, quiet⟩
  obtain early | rfl | rfl : i < here ∨ i = here ∨ i = here + 1 := by omega
  · exact marks i low early
  · exact found
  · exact doubled

/-- Passed marks and one more are a run where no other one follows. -/
theorem IsPassed.isRun {first here : Nat} (passed : IsPassed b data start first here)
    (found : data[here]? = some b) (single : data[here + 1]? ≠ some b) :
    IsRun b data start first (here + 1 - first) := by
  obtain ⟨within, le, _, marks, begins, _⟩ := passed
  refine ⟨within, by omega, fun i low high => ?_, begins, ?_⟩
  · obtain early | rfl : i < here ∨ i = here := by omega
    · exact marks i low early
    · exact found
  · rwa [Nat.add_sub_cancel' (by omega)]

/-- Passed marks and one more close as a run where no other one follows and the last is tight. -/
theorem IsPassed.endsFirstRun {first here : Nat} (passed : IsPassed b data start first here)
    (found : data[here]? = some b) (single : data[here + 1]? ≠ some b)
    (tight : IsTight data start here) : EndsFirstRun b data start (some here) := by
  have le := passed.le
  have even := passed.even
  refine ⟨first, here + 1 - first, passed.isRun found single, ⟨by omega, ?_⟩, by omega,
    passed.quiet⟩
  rcases Nat.eq_or_lt_of_le le with rfl | more
  · exact .inr ⟨by omega, tight⟩
  · exact .inl (by omega)

/-- A mark that is not tight and is not followed by another one stands by itself, and does not close
anything. -/
theorem IsPassed.isQuiet_single {first here : Nat} (passed : IsPassed b data start first here)
    (visible : b ≠ Text.byte ' ') (found : data[here]? = some b)
    (single : data[here + 1]? ≠ some b) (loose : ¬ IsTight data start here) :
    IsQuiet b data start (here + 1) := by
  have within := passed.within
  have le := passed.le
  have same : first = here := by
    by_contra apart
    refine loose ⟨by omega, ?_⟩
    rw [passed.marks (here - 1) (by omega) (by omega), Ne, Option.some.injEq]
    exact visible
  subst same
  intro other length early run closes
  rcases Nat.lt_succ_iff_lt_or_eq.1 early with earlier | rfl
  · exact passed.quiet other length earlier run closes
  · have short : length ≤ 1 := by
      by_contra longer
      exact single (run.marks (other + 1) (by omega) (by omega))
    exact closes.2.elim (fun long => by omega) fun one => loose one.2

/-- The search finds the end of the first run in which a single marker closes. -/
theorem closingAt?_single (visible : b ≠ Text.byte ' ') (inside : start ≤ data.length) :
    ∃ found, closingAt? [b] data start start = some found ∧ EndsFirstRun b data start found := by
  -- the search goes on behind an even number of marks, or in front of a byte that is no mark
  apply closingAt?_induction (fun search => start ≤ search ∧ search ≤ data.length ∧
    ((data[search]? ≠ some b ∧ IsQuiet b data start search) ∨
      ∃ first, IsPassed b data start first search))
  · rintro search ⟨behind, within, state⟩
    have quiet (bare : data[search]? ≠ some b) : IsQuiet b data start search :=
      state.elim And.right fun ⟨_, passed⟩ => passed.isQuiet bare
    rcases Text.seek?_cases b within with ⟨missing, absent⟩ | ⟨here, seen, le, found, between⟩
    · refine ⟨.unclosed, look_unclosed missing _, .unclosed fun first length run => ?_⟩
      have mark := run.marks first (Nat.le_refl first) (by have := run.nonempty; omega)
      exact quiet (absent search (Nat.le_refl search)) first length
        (Nat.lt_of_not_le fun late => absent first late mark) run
    · obtain ⟨first, passed⟩ : ∃ first, IsPassed b data start first here := by
        rcases Nat.eq_or_lt_of_le le with rfl | further
        · exact state.elim (fun bare => absurd found bare.1) id
        · have bare := between search (Nat.le_refl search) further
          exact ⟨here, (quiet bare).isPassed behind further between⟩
      have le := passed.le
      have within := passed.within
      by_cases doubled : data[here + 1]? = some b
      · have looked : look [b] data start search = some (.further (here + 2)) := by
          rw [look_single seen found, if_pos doubled]
        exact ⟨_, looked, .further ⟨by omega, (further_of_look looked).2,
          .inr ⟨first, passed.further found doubled⟩⟩⟩
      · by_cases tight : IsTight data start here
        · have looked : look [b] data start search = some (.closed here) := by
            rw [look_single seen found, if_neg doubled, if_pos tight]
          exact ⟨_, looked, .closed (passed.endsFirstRun found doubled tight)⟩
        · have looked : look [b] data start search = some (.further (here + 1)) := by
            rw [look_single seen found, if_neg doubled, if_neg tight]
          exact ⟨_, looked, .further ⟨by omega, (further_of_look looked).2,
            .inl ⟨doubled, passed.isQuiet_single visible found doubled tight⟩⟩⟩
  · refine ⟨Nat.le_refl start, inside, .inr ⟨start, Nat.le_refl start, Nat.le_refl start, by omega,
      fun i le lt => absurd lt (Nat.not_lt.2 le), fun lt => absurd lt (Nat.lt_irrefl start), ?_⟩⟩
    exact fun first length early run => absurd run.within (Nat.not_le.2 early)

end Search

section Texts

variable {mark before : Char} {plain more : List Char}

/-- Text without a mark goes into the text that a pair closes. -/
theorem closingPair_skip (absent : mark ∉ plain) (rest : List Char) :
    closingPair mark before (plain ++ rest) =
      (closingPair mark (plain.getLast?.getD before) rest).map fun cut =>
        (plain ++ cut.1, cut.2) := by
  induction plain generalizing before with
  | nil => exact Option.map_id'.symm
  | cons c others ih =>
    rw [List.mem_cons, not_or] at absent
    rw [List.cons_append, closingPair_cons fun same => absurd same.symm absent.1, ih absent.2,
      Option.map_map, List.getLast?_cons, Option.getD_some]
    rfl

/-- Text without a mark goes into the text that a single mark closes. -/
theorem closingSingle_skip (absent : mark ∉ plain) (rest : List Char) :
    closingSingle mark before (plain ++ rest) =
      (closingSingle mark (plain.getLast?.getD before) rest).map fun cut =>
        (plain ++ cut.1, cut.2) := by
  induction plain generalizing before with
  | nil => exact Option.map_id'.symm
  | cons c others ih =>
    rw [List.mem_cons, not_or] at absent
    rw [List.cons_append, closingSingle_cons (Ne.symm absent.1), ih absent.2, Option.map_map,
      List.getLast?_cons, Option.getD_some]
    rfl

/-- A mark closes what a pair closes if another one follows and no space stands in front. -/
theorem closingPair_mark : closingPair mark before (mark :: more) =
    if more.head? = some mark ∧ before ≠ ' ' then some ([], more.tail)
    else (closingPair mark mark more).map fun cut => (mark :: cut.1, cut.2) := by
  cases more with
  | nil => simp [closingPair]
  | cons d others => simp [closingPair]

/-- A mark closes what a single mark closes if no other one follows and no space stands in front. -/
theorem closingSingle_mark : closingSingle mark before (mark :: more) =
    if more.head? = some mark then
      (closingSingle mark mark more.tail).map fun cut => (mark :: mark :: cut.1, cut.2)
    else if before ≠ ' ' then some ([], more)
    else (closingSingle mark mark more).map fun cut => (mark :: cut.1, cut.2) := by
  cases more with
  | nil => simp [closingSingle]
  | cons d others =>
    by_cases same : d = mark
    · simp [closingSingle, same]
    · simp [closingSingle, same]

/-- A place in a line is tight where the marked text in front of it ends, and in no space. -/
theorem isTight_bytes (front seen behind : List Char) :
    IsTight (Text.bytes (front ++ (seen ++ behind))) (Text.bytes front).length
      (Text.bytes (front ++ seen)).length ↔ seen.getLast?.getD ' ' ≠ ' ' := by
  have spaced := Text.getElem?_bytes_before (by decide : ' '.toNat < 128) front seen behind
  by_cases empty : seen = []
  · simp [IsTight, empty]
  · obtain ⟨c, last⟩ := Option.ne_none_iff_exists'.1 (mt List.getLast?_eq_none_iff.1 empty)
    have further : (Text.bytes front).length < (Text.bytes (front ++ seen)).length :=
      Text.length_bytes_lt_iff.2 empty
    rw [and_iff_right further, last, Option.some.injEq] at spaced
    rw [IsTight, and_iff_right further, last, Option.getD_some]
    exact not_congr spaced

/-- The text in front of the closing marker and the text behind it, where `before` is the character
in front of the text. -/
def closes (m : Marker) (before : Char) (text : List Char) : Option (List Char × List Char) :=
  if m.isDoubled then closingPair m.char before text else closingSingle m.char before text

/-- The bytes of a marker are its mark once or twice. -/
theorem bytes_sigil (m : Marker) : Text.bytes m.sigil =
    if m.isDoubled then [Text.byte m.char, Text.byte m.char] else [Text.byte m.char] := by
  cases m <;> rfl

/-- A mark is of one byte. -/
theorem toNat_char_lt (m : Marker) : m.char.toNat < 128 := by
  cases m <;> decide

/-- All characters of a written marker are of one byte. -/
theorem toNat_lt_of_mem_sigil (m : Marker) : ∀ c ∈ m.sigil, c.toNat < 128 := by
  intro c member
  have same : c = m.char := by
    unfold sigil at member
    split at member <;> simpa using member
  exact same ▸ m.toNat_char_lt

/-- A mark closes, or the text goes on behind it, and behind a second one where a single mark stands
twice. -/
theorem closes_mark (m : Marker) (before : Char) (more : List Char) :
    m.closes before (m.char :: more) =
      if (m.isDoubled = true ↔ more.head? = some m.char) ∧ before ≠ ' ' then
        some ([], if m.isDoubled then more.tail else more)
      else if m.isDoubled = false ∧ more.head? = some m.char then
        (m.closes m.char more.tail).map fun cut => (m.char :: m.char :: cut.1, cut.2)
      else (m.closes m.char more).map fun cut => (m.char :: cut.1, cut.2) := by
  unfold closes
  cases m.isDoubled with
  | true => simp [closingPair_mark]
  | false =>
    by_cases twice : more.head? = some m.char
    · simp [closingSingle_mark, twice]
    · simp [closingSingle_mark, twice]

/-- Text without a mark goes into the text that a marker closes. -/
theorem closes_skip {m : Marker} (absent : m.char ∉ plain) (rest : List Char) :
    m.closes before (plain ++ rest) = (m.closes (plain.getLast?.getD before) rest).map
      fun cut => (plain ++ cut.1, cut.2) := by
  unfold closes
  split
  · exact closingPair_skip absent rest
  · exact closingSingle_skip absent rest

/-- Nothing closes where no mark is left. -/
theorem closes_none {m : Marker} (absent : m.char ∉ plain) : m.closes before plain = none := by
  rw [← List.append_nil plain, closes_skip absent]
  unfold closes
  split <;> rfl

/-- A look at the first mark behind what has been seen of a marked text. -/
theorem look_bytes (m : Marker) (absent : m.char ∉ plain) (front seen more : List Char) :
    look (Text.bytes m.sigil) (Text.bytes (front ++ (seen ++ (plain ++ m.char :: more))))
        (Text.bytes front).length (Text.bytes (front ++ seen)).length =
      some (if (m.isDoubled = true ↔ more.head? = some m.char) ∧
          (seen ++ plain).getLast?.getD ' ' ≠ ' ' then
        .closed (Text.bytes (front ++ (seen ++ plain))).length
      else if m.isDoubled = false ∧ more.head? = some m.char then
        .further ((Text.bytes (front ++ (seen ++ plain))).length + 2)
      else .further ((Text.bytes (front ++ (seen ++ plain))).length + 1)) := by
  have small := m.toNat_char_lt
  have sought := Text.seek?_bytes small absent (front ++ seen) more
  have found := Text.getElem?_bytes_behind small (front ++ (seen ++ plain)) (m.char :: more)
  have follows := Text.getElem?_bytes_behind small (front ++ (seen ++ plain) ++ [m.char]) more
  have tight := isTight_bytes front (seen ++ plain) (m.char :: more)
  rw [Text.length_bytes_concat small] at follows
  simp only [List.append_assoc, List.singleton_append, List.head?_cons,
    iff_true] at sought found follows tight
  rw [bytes_sigil]
  cases m.isDoubled with
  | true =>
    simp only [if_true, look_pair sought found, follows, tight, true_iff]
    simp
  | false =>
    simp only [Bool.false_eq_true, if_false, look_single sought found, follows, tight, false_iff,
      true_and]
    by_cases twice : more.head? = some m.char <;> simp [twice]

/-- The search among the bytes of a line finds the place where the marked text ends. -/
theorem closingAt?_bytes (m : Marker) (front text : List Char) :
    closingAt? (Text.bytes m.sigil) (Text.bytes (front ++ text)) (Text.bytes front).length
        (Text.bytes front).length =
      some ((m.closing? text).map fun cut => (Text.bytes (front ++ cut.1)).length) := by
  -- behind what has been seen, the rest of the text is closed where the whole text is
  suffices ∃ found, closingAt? (Text.bytes m.sigil) (Text.bytes (front ++ text))
      (Text.bytes front).length (Text.bytes front).length = some found ∧
        found = (m.closing? text).map fun cut => (Text.bytes (front ++ cut.1)).length by
    obtain ⟨found, same, rfl⟩ := this
    exact same
  apply closingAt?_induction (fun search => ∃ seen rest, text = seen ++ rest ∧
    search = (Text.bytes (front ++ seen)).length ∧
      (m.closing? text).map (fun cut => (Text.bytes (front ++ cut.1)).length) =
        (m.closes (seen.getLast?.getD ' ') rest).map fun cut =>
          (Text.bytes (front ++ (seen ++ cut.1))).length)
  · rintro search ⟨seen, rest, rfl, rfl, same⟩
    rw [same]
    by_cases left : m.char ∈ rest
    · obtain ⟨plain, more, rfl, absent⟩ := List.eq_append_cons_of_mem left
      have looked := look_bytes m absent front seen more
      have last : (seen ++ plain).getLast?.getD ' ' =
          plain.getLast?.getD (seen.getLast?.getD ' ') := by
        rw [List.getLast?_append, Option.getD_or]
      rw [last] at looked
      rw [closes_skip absent, closes_mark]
      -- marks that are passed over have been seen as well
      have resume (marks rest : List Char) (ends : marks.getLast? = some m.char) :
          (((m.closes m.char rest).map fun cut => (marks ++ cut.1, cut.2)).map
              fun cut => (plain ++ cut.1, cut.2)).map
                (fun cut => (Text.bytes (front ++ (seen ++ cut.1))).length) =
            (m.closes ((seen ++ (plain ++ marks)).getLast?.getD ' ') rest).map
              fun cut => (Text.bytes (front ++ (seen ++ (plain ++ marks) ++ cut.1))).length := by
        rw [List.getLast?_append, List.getLast?_append, ends, Option.some_or, Option.some_or,
          Option.getD_some, Option.map_map, Option.map_map]
        refine congrArg (Option.map · _) (funext fun cut => ?_)
        simp [Function.comp]
      split at looked
      · next ends =>
        exact ⟨_, looked, .closed (by simp [if_pos ends])⟩
      · next goesOn =>
        rw [if_neg goesOn]
        split at looked
        · next twice =>
          obtain ⟨others, rfl⟩ := List.head?_eq_some_iff.1 twice.2
          refine ⟨_, looked, .further
            ⟨seen ++ (plain ++ [m.char, m.char]), others, by simp, ?_, ?_⟩⟩
          · have length := Text.length_bytes_concat m.toNat_char_lt (front ++ (seen ++ plain))
            have length' := Text.length_bytes_concat m.toNat_char_lt
              (front ++ (seen ++ plain) ++ [m.char])
            simp only [List.append_assoc, List.singleton_append] at length length'
            rw [length', length]
          · rw [if_pos twice]
            exact resume [m.char, m.char] others rfl
        · next alone =>
          refine ⟨_, looked, .further ⟨seen ++ (plain ++ [m.char]), more, by simp, ?_, ?_⟩⟩
          · have length := Text.length_bytes_concat m.toNat_char_lt (front ++ (seen ++ plain))
            simp only [List.append_assoc] at length
            rw [length]
          · rw [if_neg alone]
            exact resume [m.char] more rfl
    · have missing := Text.seek?_bytes_none m.toNat_char_lt left (front ++ seen)
      rw [List.append_assoc] at missing
      refine ⟨.unclosed, ?_, .unclosed (by simp [closes_none left])⟩
      rw [bytes_sigil]
      split <;> exact look_unclosed missing _
  · exact ⟨[], text, rfl, by rw [List.append_nil], rfl⟩

end Texts

/-- The search for the end of a marked text stays in the line and goes on further behind with each
look, so it ends. A doubled marker closes at the first place behind the start where it stands behind
a byte that is no space; a single one closes at the end of the first run of marks from the start on
whose length is odd, unless that is a single mark at the start or behind a space. A line is cut
where the search ends. -/
theorem closing?_exactly (m : Marker) :
    (∀ (data : List UInt8) (start : Nat), start ≤ data.length →
      (∀ search, search ≤ data.length →
        ∃ looked, look (Text.bytes m.sigil) data start search = some looked ∧
          ∀ next, looked = .further next → search < next ∧ next ≤ data.length) ∧
      ∃ found, closingAt? (Text.bytes m.sigil) data start start = some found ∧
        if m.isDoubled then IsFirst (ClosesPair (Text.bytes m.sigil) data start) found
        else EndsFirstRun (Text.byte m.char) data start found) ∧
    ∀ front text : List Char,
      closingAt? (Text.bytes m.sigil) (Text.bytes (front ++ text)) (Text.bytes front).length
          (Text.bytes front).length =
        some ((m.closing? text).map fun cut => (Text.bytes (front ++ cut.1)).length) ∧
      ∀ cut ∈ m.closing? text, text = cut.1 ++ m.sigil ++ cut.2 := by
  refine ⟨fun data start inside => ⟨fun search within => ?_, ?_⟩, fun front text => ⟨?_, ?_⟩⟩
  · have filled : Text.bytes m.sigil ≠ [] := by cases m <;> decide
    obtain ⟨looked, seen, behind⟩ := exists_look filled start within
    refine ⟨looked, seen, ?_⟩
    rintro next rfl
    exact behind
  · have visible : Text.byte m.char ≠ Text.byte ' ' := by cases m <;> decide
    rw [bytes_sigil]
    cases m.isDoubled with
    | true => exact closingAt?_pair inside
    | false => exact closingAt?_single visible inside
  · exact closingAt?_bytes m front text
  · rintro ⟨inside, behind⟩ cut
    exact closing?_eq cut

/-- Behind two stars and one star behind a space, three stars close. -/
theorem closing?_exactly_sample :
    let data := Text.bytes "*a** *é***c".toList
    1 ≤ data.length ∧ closingAt? (Text.bytes italic.sigil) data 1 1 = some (some 10) ∧
      EndsFirstRun (Text.byte '*') data 1 (some 10) := by
  intro data
  have inside : 1 ≤ data.length := by decide
  obtain ⟨among, within⟩ := closing?_exactly .italic
  obtain ⟨_, found, searched, ends⟩ := among data 1 inside
  have place : closingAt? (Text.bytes italic.sigil) data 1 1 = some (some 10) :=
    (within ['*'] "a** *é***c".toList).1
  obtain rfl := Option.some.inj (searched.symm.trans place)
  exact ⟨inside, place, ends⟩

end Marker

end WikiPress

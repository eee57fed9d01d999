import WikiPress.Proofs.Inline.Styles

/-!
# What is left of a line

A line without links and colours keeps everything but some of its marks: the texts of its runs in a
row are the line without the markers that enclose something and without the backslashes that make a
character literal (`keeps_runsFrom`). Only a marker that encloses something gives a style, and it
encloses some run; so where no run has a style and nothing is escaped, every mark stays where it is
(`runsFrom_unstyled`). Both together say what a line of plain markup turns into (`runsOf_content`).
-/

namespace WikiPress

/-- The characters that may be taken out of a line without links and colours. -/
def markChars : List Char := ['*', '_', '^', ',', '~', '\\']

/-- A text without the characters that markers and escapes are written with. -/
def unmarked (text : List Char) : List Char := text.filter (· ∉ markChars)

/-- The texts of runs in a row. -/
def Run.shown (runs : List Run) : List Char := runs.flatMap fun run => run.text.toList

/-- What is left when marks are taken out of a text, and nothing else. -/
structure Keeps (text left : List Char) : Prop where
  /-- The characters that are left stand in the order of the text. -/
  sublist : left.Sublist text
  /-- No character but a mark is missing. -/
  unmarked_eq : unmarked left = unmarked text

namespace Keeps

variable {text left other more : List Char}

/-- All of a text may be left. -/
theorem refl (text : List Char) : Keeps text text := ⟨List.Sublist.refl text, rfl⟩

/-- Marks may be taken out in several steps. -/
theorem trans (first : Keeps text other) (second : Keeps other left) : Keeps text left :=
  ⟨second.sublist.trans first.sublist, second.unmarked_eq.trans first.unmarked_eq⟩

/-- Marks may be taken out of each part of a text. -/
theorem append (first : Keeps text left) (second : Keeps other more) :
    Keeps (text ++ other) (left ++ more) := by
  refine ⟨first.sublist.append second.sublist, ?_⟩
  have front : unmarked left = unmarked text := first.unmarked_eq
  have back : unmarked more = unmarked other := second.unmarked_eq
  simp only [unmarked, List.filter_append] at front back ⊢
  rw [front, back]

/-- Of a text of marks nothing needs to be left. -/
theorem nil_of_marks (marks : ∀ c ∈ text, c ∈ markChars) : Keeps text [] := by
  refine ⟨List.nil_sublist text, ?_⟩
  have none : unmarked text = [] :=
    List.filter_eq_nil_iff.2 fun c member => by simpa using marks c member
  rw [none]
  rfl

end Keeps

namespace Marker

/-- A marker is written with marks. -/
theorem mem_markChars (m : Marker) : ∀ c ∈ m.sigil, c ∈ markChars := by
  have own : m.char ∈ markChars := by cases m <;> decide
  intro c member
  unfold sigil at member
  split at member <;> simp only [List.mem_cons, List.not_mem_nil, or_false, or_self] at member <;>
    rwa [member]

/-- Nothing closes at once behind a space. -/
theorem closingPair_ne_nil {mark : Char} {text inside behind : List Char}
    (found : closingPair mark ' ' text = some (inside, behind)) : inside ≠ [] := by
  rintro rfl
  revert found
  fun_cases closingPair mark ' ' text <;> simp_all

/-- Nothing closes at once behind a space. -/
theorem closingSingle_ne_nil {mark : Char} {text inside behind : List Char}
    (found : closingSingle mark ' ' text = some (inside, behind)) : inside ≠ [] := by
  rintro rfl
  revert found
  fun_cases closingSingle mark ' ' text <;> simp_all

/-- A marker encloses some text. -/
theorem enclosed?_ne_nil {m : Marker} {text inside behind : List Char}
    (found : enclosed? text = some (m, inside, behind)) : inside ≠ [] := by
  obtain ⟨rest, _, closed⟩ := enclosed?_eq_some found
  unfold closing? at closed
  split at closed
  · exact closingPair_ne_nil closed
  · exact closingSingle_ne_nil closed

end Marker

namespace Construct

variable {text behind : List Char} {k : Construct}

/-- Brackets make a link or an image. -/
theorem run_bracketed?_ne_nil (found : bracketed? text = some (k, behind)) (style : Style) :
    k.run style ≠ [] := by
  have own : ∀ content, (ofBrackets content).run style ≠ [] := by
    intro content
    unfold ofBrackets
    split <;> split <;> exact List.cons_ne_nil _ _
  unfold bracketed? at found
  split at found
  · cases found
  · split at found
    · cases found
    · obtain ⟨rfl, _⟩ := Prod.mk.inj (Option.some.inj found)
      exact own _

/-- A colour is around some text. -/
theorem inside_colored?_ne_nil (found : colored? text = some (k, behind)) : k.inside ≠ [] := by
  simp only [colored?] at found
  split at found
  · cases found
  · split at found
    · split at found
      · cases found
      · split at found
        · cases found
        · next filled =>
          obtain ⟨rfl, _⟩ := Prod.mk.inj (Option.some.inj found)
          exact filled
    · cases found

/-- A construct gives a run of its own or holds some markup. -/
theorem run_or_inside_ne_nil (found : read? text = some (k, behind)) (style : Style) :
    k.run style ≠ [] ∨ k.inside ≠ [] := by
  unfold read? at found
  split at found
  · exact .inl (run_bracketed?_ne_nil found style)
  · exact .inr (inside_colored?_ne_nil found)
  · simp only [Option.map_eq_some_iff, Prod.exists, Prod.mk.injEq] at found
    obtain ⟨m, inner, after, enclosed, rfl, _⟩ := found
    exact .inr (Marker.enclosed?_ne_nil enclosed)

/-- Without brackets and braces only a marker opens anything. -/
theorem read?_marker (links : '[' ∉ text) (colors : '{' ∉ text)
    (found : read? text = some (k, behind)) :
    ∃ m inside, k = .styled m.style inside ∧
      text = Marker.sigil m ++ inside ++ Marker.sigil m ++ behind := by
  unfold read? at found
  split at found
  · exact absurd List.mem_cons_self links
  · exact absurd List.mem_cons_self colors
  · simp only [Option.map_eq_some_iff, Prod.exists, Prod.mk.injEq] at found
    obtain ⟨m, inner, after, enclosed, same, rfl⟩ := found
    exact ⟨m, inner, same.symm, Marker.enclosed?_eq enclosed⟩

end Construct

/-- The texts of runs and of the runs behind them stand in a row. -/
@[simp]
theorem Run.shown_append (runs more : List Run) :
    Run.shown (runs ++ more) = Run.shown runs ++ Run.shown more := List.flatMap_append

/-- The text that was held is the text of its run. -/
@[simp]
theorem shown_literalRun (style : Style) (held : List Char) :
    Run.shown (literalRun style held) = held.reverse := by
  unfold literalRun
  split
  · next empty => rw [empty]; rfl
  · rw [Run.styled_eq style rfl]
    simp [Run.shown]

/-- Where there is some text there is a run. -/
theorem runsFrom_ne_nil (style : Style) (held text : List Char) (some : held ≠ [] ∨ text ≠ []) :
    runsFrom style held text ≠ [] := by
  fun_induction runsFrom style held text with
  | case1 style held =>
    have filled : held ≠ [] := some.resolve_right fun none => none rfl
    rw [literalRun, if_neg filled]
    exact List.cons_ne_nil _ _
  | case2 style held c rest ih => exact ih (.inl (List.cons_ne_nil _ _))
  | case3 style held c rest plain k behind read inner outer =>
    intro empty
    simp only [List.append_eq_nil_iff] at empty
    obtain own | inside := Construct.run_or_inside_ne_nil read style
    · exact own empty.1.1.2
    · exact inner (.inr inside) empty.1.2
  | case4 style held c rest plain unread ih => exact ih (.inl (List.cons_ne_nil _ _))

section Marked

variable {style : Style} {held text : List Char}

/-- Without brackets there are no images. -/
theorem isImage_of_mem (links : '[' ∉ text) (colors : '{' ∉ text) :
    ∀ run ∈ runsFrom style held text, run.isImage = false := by
  have literal : ∀ style held, ∀ run ∈ literalRun style held, run.isImage = false := by
    intro style held run member
    unfold literalRun at member
    split at member
    · cases member
    · obtain rfl := List.mem_singleton.1 member
      rw [Run.styled_eq style rfl]
      rfl
  fun_induction runsFrom style held text with
  | case1 style held => exact literal style held
  | case2 style held c rest ih =>
    rw [List.mem_cons, List.mem_cons, not_or, not_or] at links colors
    exact ih links.2.2 colors.2.2
  | case3 style held c rest plain k behind read inner outer =>
    obtain ⟨m, inside, rfl, shape⟩ := Construct.read?_marker links colors read
    rw [shape] at links colors
    simp only [List.mem_append, not_or] at links colors
    intro run member
    simp only [Construct.run, List.append_nil, List.mem_append] at member
    rcases member with (before | within) | after
    · exact literal style held run before
    · exact inner links.1.1.2 colors.1.1.2 run within
    · exact outer links.2 colors.2 run after
  | case4 style held c rest plain unread ih =>
    rw [List.mem_cons, not_or] at links colors
    exact ih links.2 colors.2

/-- Under a style that sets something every run but an image has a style. -/
theorem isImage_of_unstyled (sets : style.isPlain = false) {run : Run}
    (member : run ∈ runsFrom style held text) (unstyled : run.style = none) :
    run.isImage = true := by
  have under := runsFrom_within style Style.plain held text
  rw [Style.merge_plain] at under
  rw [under, List.mem_map] at member
  obtain ⟨inner, _, rfl⟩ := member
  by_contra other
  rw [Run.isImage_within] at other
  have shown : (style.merge (inner.style.getD Style.plain)).isPlain = false := by
    rw [Style.isPlain_merge, sets, Bool.false_and]
  simp [Run.within, other, Style.stored, shown] at unstyled

/-- Of a text without links and colours everything is left but some of its marks. -/
theorem keeps_runsFrom (style : Style) (held : List Char) (links : '[' ∉ text)
    (colors : '{' ∉ text) :
    Keeps (held.reverse ++ text) (Run.shown (runsFrom style held text)) := by
  fun_induction runsFrom style held text with
  | case1 style held =>
    rw [shown_literalRun, List.append_nil]
    exact Keeps.refl _
  | case2 style held c rest ih =>
    rw [List.mem_cons, List.mem_cons, not_or, not_or] at links colors
    -- the backslash is taken out in front of the character that it makes literal
    have escape : Keeps ['\\'] [] := Keeps.nil_of_marks (by simp [markChars])
    have front : Keeps (held.reverse ++ ('\\' :: c :: rest)) ((c :: held).reverse ++ rest) := by
      have parts := (Keeps.refl held.reverse).append (escape.append (Keeps.refl (c :: rest)))
      simpa using parts
    exact front.trans (ih links.2.2 colors.2.2)
  | case3 style held c rest plain k behind read inner outer =>
    obtain ⟨m, inside, rfl, shape⟩ := Construct.read?_marker links colors read
    rw [shape] at links colors ⊢
    simp only [List.mem_append, not_or] at links colors
    have sigil : Keeps m.sigil [] := Keeps.nil_of_marks m.mem_markChars
    have within := inner links.1.1.2 colors.1.1.2
    have after := outer links.2 colors.2
    have parts := (Keeps.refl held.reverse).append
      (((sigil.append within).append sigil).append after)
    simpa [Construct.run, Construct.inside] using parts
  | case4 style held c rest plain unread ih =>
    rw [List.mem_cons, not_or] at links colors
    have kept := ih links.2 colors.2
    rwa [List.reverse_cons, List.append_assoc] at kept

/-- Where nothing is escaped and no run gets a style, the whole text is one run. -/
theorem runsFrom_unstyled (links : '[' ∉ text) (colors : '{' ∉ text) (escapes : '\\' ∉ text)
    (unstyled : ∀ run ∈ runsFrom style held text, run.style = none) :
    runsFrom style held text = literalRun style (text.reverse ++ held) := by
  fun_induction runsFrom style held text with
  | case1 style held => rfl
  | case2 style held c rest => exact absurd List.mem_cons_self escapes
  | case3 style held c rest plain k behind read inner outer =>
    -- the marker encloses some run, and that has the style of the marker
    obtain ⟨m, inside, rfl, shape⟩ := Construct.read?_marker links colors read
    rw [shape] at links colors
    simp only [List.mem_append, not_or] at links colors
    have sets : (style.merge m.style).isPlain = false := by
      have own : m.style.isPlain = false := by cases m <;> rfl
      rw [Style.isPlain_merge, own, Bool.and_false]
    have filled : inside ≠ [] :=
      (Construct.run_or_inside_ne_nil read style).resolve_left fun own => own rfl
    obtain ⟨run, others, first⟩ :=
      List.exists_cons_of_ne_nil (runsFrom_ne_nil (style.merge m.style) [] inside (.inr filled))
    have member : run ∈ runsFrom (style.merge m.style) [] inside := first ▸ List.mem_cons_self
    have bare : run.style = none := unstyled run (by
      simp only [Construct.innerStyle, Construct.inside, List.mem_append]
      exact .inl (.inr member))
    have image := isImage_of_unstyled sets member bare
    rw [isImage_of_mem links.1.1.2 colors.1.1.2 run member] at image
    cases image
  | case4 style held c rest plain unread ih =>
    rw [List.mem_cons, not_or] at links colors escapes
    rw [ih links.2 colors.2 escapes.2 unstyled, List.reverse_cons, List.append_assoc]
    rfl

/-- The texts of the runs of a line without links and colours are the line without some of its
marks, and no other character is missing or moved. Where moreover nothing is escaped and no run has
a style, the whole line is one run, and an empty line has none. -/
theorem runsOf_content (links : '[' ∉ text) (colors : '{' ∉ text) :
    (Run.shown (runsOf text)).Sublist text ∧
      unmarked (Run.shown (runsOf text)) = unmarked text ∧
      ('\\' ∉ text → (∀ run ∈ runsOf text, run.style = none) →
        runsOf text = if text = [] then [] else [{ text := String.ofList text }]) := by
  have kept : Keeps text (Run.shown (runsOf text)) :=
    keeps_runsFrom Style.plain [] links colors
  refine ⟨kept.sublist, kept.unmarked_eq, ?_⟩
  intro escapes unstyled
  have whole : runsOf text = literalRun Style.plain (text.reverse ++ []) :=
    runsFrom_unstyled links colors escapes unstyled
  have shown : literalRun Style.plain (text.reverse ++ []) = if text.reverse ++ [] = [] then []
      else [{ text := String.ofList (text.reverse ++ []).reverse }] := rfl
  rw [whole, shown]
  simp only [List.append_nil, List.reverse_eq_nil_iff, List.reverse_reverse]

end Marked

/-- Of an escaped star, a bold word with a lone star in it and two lone marks only the backslash and
the bold markers are taken out; of a line of lone marks nothing is. -/
theorem runsOf_content_sample :
    Run.shown (runsOf "\\*a **b* c** 2 * 3 ^".toList) = "*a b* c 2 * 3 ^".toList ∧
      unmarked (Run.shown (runsOf "\\*a **b* c** 2 * 3 ^".toList)) = "a b c 2  3 ".toList ∧
      runsOf "snake_case, 2 * 3 ^".toList = [{ text := "snake_case, 2 * 3 ^" }] := by
  have marked := @runsOf_content "\\*a **b* c** 2 * 3 ^".toList (by decide) (by decide)
  have lone := @runsOf_content "snake_case, 2 * 3 ^".toList (by decide) (by decide)
  have taken : Run.shown (runsOf "\\*a **b* c** 2 * 3 ^".toList) = "*a b* c 2 * 3 ^".toList := by
    decide +kernel
  have unstyled :
      (runsOf "snake_case, 2 * 3 ^".toList).all (fun run => run.style = none) = true := by
    decide +kernel
  exact ⟨taken, marked.2.1, lone.2.2 (by decide) (by simpa using unstyled)⟩

end WikiPress

import WikiPress.Inline.Runs
import WikiPress.Proofs.Text.Cuts
import WikiPress.Proofs.Text.Trimming

/-!
# Runs bring in no characters

Markup is taken out of a text and nothing is put in: whatever stands in a run stands in the text that
the run was read from (`characters_runsOf`). So a character that a line does not hold is in none of
its runs.
-/

namespace WikiPress

/-- The characters of a stored text that may be missing. -/
def charactersOf (text : Option String) : List Char := (text.getD "").toList

/-- All characters of a run, those of a colour included. -/
def Run.characters (run : Run) : List Char :=
  run.text.toList ++ charactersOf run.href ++ charactersOf run.src ++
    charactersOf (run.style.bind Style.color)

/-- All characters that a construct holds. -/
def Construct.characters : Construct → List Char
  | .styled added inside => charactersOf added.color ++ inside
  | .link label href => label ++ href
  | .image src href => src ++ href.getD []

namespace Marker

variable {text inside behind : List Char}

/-- A closing pair stands between its two sides. -/
theorem closingPair_eq {mark before : Char}
    (found : closingPair mark before text = some (inside, behind)) :
    text = inside ++ [mark, mark] ++ behind := by
  fun_induction closingPair mark before text generalizing inside with
  | case1 => cases found
  | case2 => cases found
  | case3 before c d rest closes =>
    obtain ⟨rfl, rfl⟩ := Prod.mk.inj (Option.some.inj found)
    rw [closes.1, closes.2.1]
    rfl
  | case4 before c d rest goesOn ih =>
    simp only [Option.map_eq_some_iff, Prod.exists, Prod.mk.injEq] at found
    obtain ⟨inner, after, rest, rfl, rfl⟩ := found
    rw [ih rest]
    rfl

/-- A single closing mark stands between its two sides. -/
theorem closingSingle_eq {mark before : Char}
    (found : closingSingle mark before text = some (inside, behind)) :
    text = inside ++ [mark] ++ behind := by
  fun_induction closingSingle mark before text generalizing inside with
  | case1 => cases found
  | case2 before c closes =>
    obtain ⟨rfl, rfl⟩ := Prod.mk.inj (Option.some.inj found)
    rw [closes.1]
    rfl
  | case3 => cases found
  | case4 before c d rest both ih =>
    simp only [Option.map_eq_some_iff, Prod.exists, Prod.mk.injEq] at found
    obtain ⟨inner, after, rest, rfl, rfl⟩ := found
    rw [ih rest]
    rfl
  | case5 before c d rest _ closes =>
    obtain ⟨rfl, rfl⟩ := Prod.mk.inj (Option.some.inj found)
    rw [closes.1]
    rfl
  | case6 before c d rest _ _ ih =>
    simp only [Option.map_eq_some_iff, Prod.exists, Prod.mk.injEq] at found
    obtain ⟨inner, after, rest, rfl, rfl⟩ := found
    rw [ih rest]
    rfl

/-- An opening marker stands in front of what follows it. -/
theorem opening?_eq {m : Marker} {rest : List Char} (found : opening? text = some (m, rest)) :
    text = m.sigil ++ rest := by
  unfold opening? at found
  split at found <;> simp only [Option.some.injEq, Prod.mk.injEq, reduceCtorEq] at found <;>
    obtain ⟨rfl, rfl⟩ := found <;> rfl

/-- What is enclosed stands behind the opening of its marker and up to its end. -/
theorem enclosed?_eq_some {m : Marker} (found : enclosed? text = some (m, inside, behind)) :
    ∃ rest, opening? text = some (m, rest) ∧ m.closing? rest = some (inside, behind) := by
  unfold enclosed? at found
  split at found
  · cases found
  · cases found
  · cases found
  · next n rest _ _ opened =>
    simp only [Option.map_eq_some_iff, Prod.exists, Prod.mk.injEq] at found
    obtain ⟨inner, after, closed, rfl, rfl, rfl⟩ := found
    exact ⟨rest, opened, closed⟩

/-- A closing marker stands between its two sides. -/
theorem closing?_eq {m : Marker} (closed : m.closing? text = some (inside, behind)) :
    text = inside ++ m.sigil ++ behind := by
  unfold closing? at closed
  unfold sigil
  split at closed
  · next doubled => rw [if_pos doubled, closingPair_eq closed]
  · next single => rw [if_neg single, closingSingle_eq closed]

/-- A marker stands on both sides of what it encloses. -/
theorem enclosed?_eq {m : Marker} (found : enclosed? text = some (m, inside, behind)) :
    text = m.sigil ++ inside ++ m.sigil ++ behind := by
  obtain ⟨rest, opened, closed⟩ := enclosed?_eq_some found
  rw [opening?_eq opened, closing?_eq closed]
  simp only [List.append_assoc]

/-- What a marker encloses and what follows it are of the text. -/
theorem enclosed?_subset {m : Marker} (found : enclosed? text = some (m, inside, behind)) :
    inside ++ behind ⊆ text := by
  rw [enclosed?_eq found]
  intro c member
  simp only [List.mem_append] at member ⊢
  tauto

/-- A marker sets no colour. -/
theorem color_style (m : Marker) : m.style.color = none := by
  cases m <;> rfl

end Marker

namespace Construct

variable {text behind : List Char} {k : Construct}

/-- What stands in brackets is of their content. -/
theorem characters_ofBrackets (content : List Char) : (ofBrackets content).characters ⊆ content := by
  unfold ofBrackets
  split
  · next source found =>
    have inner := Text.after?_subset found
    split
    · next src href cut =>
      have parts := List.append_subset.1 (Text.cut_subset cut)
      have shown := List.Subset.trans (Text.trim_subset src) parts.1
      have target := List.Subset.trans (Text.trim_subset href) parts.2
      exact List.append_subset.2 ⟨List.Subset.trans shown inner, List.Subset.trans target inner⟩
    · exact List.append_subset.2
        ⟨List.Subset.trans (Text.trim_subset source) inner, List.nil_subset _⟩
  · split
    · next label href cut =>
      have parts := List.append_subset.1 (Text.cut_subset cut)
      exact List.append_subset.2
        ⟨List.Subset.trans (Text.trim_subset label) parts.1,
          List.Subset.trans (Text.trim_subset href) parts.2⟩
    · exact List.append_subset.2 ⟨List.Subset.refl _, List.Subset.refl _⟩

/-- What double brackets hold and what follows them are of the text. -/
theorem bracketed?_subset (found : bracketed? text = some (k, behind)) :
    k.characters ++ behind ⊆ text := by
  unfold bracketed? at found
  split at found
  · cases found
  · next content rest cut =>
    split at found
    · cases found
    · obtain ⟨rfl, rfl⟩ := Prod.mk.inj (Option.some.inj found)
      have parts := List.append_subset.1 (Text.cutPair_subset cut)
      have own := List.Subset.trans (characters_ofBrackets (Text.trim content))
        (Text.trim_subset content)
      exact List.append_subset.2 ⟨List.Subset.trans own parts.1, parts.2⟩

/-- What braces hold, the colour included, and what follows them are of the text. -/
theorem colored?_subset (found : colored? text = some (k, behind)) :
    k.characters ++ behind ⊆ text := by
  simp only [colored?] at found
  split at found
  · cases found
  · split at found
    · next rest dropped =>
      split at found
      · cases found
      · next inside after cut =>
        split at found
        · cases found
        · obtain ⟨rfl, rfl⟩ := Prod.mk.inj (Option.some.inj found)
          have parts := List.append_subset.1 (Text.cut_subset cut)
          have color : text.takeWhile isColorChar ⊆ text := (List.takeWhile_sublist _).subset
          have rest : rest ⊆ text := by
            have tail := (List.dropWhile_sublist (l := text) isColorChar).subset
            rw [dropped] at tail
            exact List.Subset.trans (List.subset_cons_self _ _) tail
          refine List.append_subset.2 ⟨List.append_subset.2 ⟨?_, List.Subset.trans parts.1 rest⟩,
            List.Subset.trans parts.2 rest⟩
          simpa [charactersOf] using color
    · cases found

/-- What a construct holds and what follows it are of the text that it was read from. -/
theorem read?_subset (found : read? text = some (k, behind)) : k.characters ++ behind ⊆ text := by
  unfold read? at found
  split at found
  · exact List.Subset.trans (bracketed?_subset found)
      (List.Subset.trans (List.subset_cons_self _ _) (List.subset_cons_self _ _))
  · exact List.Subset.trans (colored?_subset found) (List.subset_cons_self _ _)
  · simp only [Option.map_eq_some_iff, Prod.exists, Prod.mk.injEq] at found
    obtain ⟨m, inside, after, enclosed, rfl, rfl⟩ := found
    have both := Marker.enclosed?_subset enclosed
    rwa [characters, m.color_style]

/-- The markup inside a construct is of what it holds. -/
theorem inside_subset (k : Construct) : k.inside ⊆ k.characters := by
  cases k with
  | styled added inside => exact List.subset_append_right _ _
  | link => exact List.nil_subset _
  | image => exact List.nil_subset _

end Construct

/-- The characters of a run under a style are its own and those of the colour. -/
theorem Run.characters_styled (style : Style) {run : Run} (unstyled : run.style = none) :
    (Run.styled style run).characters ⊆ charactersOf style.color ++ run.characters := by
  unfold Run.styled
  split
  · exact List.subset_append_right _ _
  · intro c member
    simp only [characters, Option.bind_some, unstyled, List.mem_append] at member ⊢
    tauto

/-- The characters of held text are those held and those of the colour. -/
theorem characters_literalRun {style : Style} {held : List Char} {run : Run}
    (member : run ∈ literalRun style held) :
    run.characters ⊆ charactersOf style.color ++ held := by
  unfold literalRun at member
  split at member
  · cases member
  · obtain rfl := List.mem_singleton.1 member
    refine List.Subset.trans (Run.characters_styled style rfl) ?_
    intro c inside
    simpa [Run.characters, charactersOf] using inside

/-- The characters of a link or an image are those that it holds and those of the colour. -/
theorem Construct.characters_run {style : Style} {k : Construct} {run : Run}
    (member : run ∈ k.run style) : run.characters ⊆ charactersOf style.color ++ k.characters := by
  cases k with
  | styled => cases member
  | link label href =>
    obtain rfl := List.mem_singleton.1 member
    refine List.Subset.trans (Run.characters_styled style rfl) ?_
    intro c inside
    simpa [Run.characters, charactersOf, Construct.characters] using inside
  | image src href =>
    obtain rfl := List.mem_singleton.1 member
    intro c inside
    cases href <;> simp_all [Run.characters, charactersOf, Construct.characters, or_comm]

/-- The colour inside a construct is that around it or one that the construct holds. -/
theorem Construct.color_innerStyle (style : Style) (k : Construct) :
    charactersOf (k.innerStyle style).color ⊆ charactersOf style.color ++ k.characters := by
  cases k with
  | styled added inside =>
    show charactersOf (added.color.or style.color) ⊆ _
    cases own : added.color with
    | none => exact List.subset_append_left _ _
    | some color =>
      rw [Option.some_or, characters, own]
      exact List.subset_append_of_subset_right _ (List.subset_append_left _ _)
  | link => exact List.subset_append_left _ _
  | image => exact List.subset_append_left _ _

/-- The characters of runs are those of the text, those held in front of it and those of the
colour. -/
theorem characters_runsFrom (style : Style) (held text : List Char) :
    ∀ run ∈ runsFrom style held text,
      run.characters ⊆ charactersOf style.color ++ (held ++ text) := by
  fun_induction runsFrom style held text with
  | case1 style held =>
    intro run member
    rw [List.append_nil]
    exact characters_literalRun member
  | case2 style held c rest ih =>
    intro run member
    refine List.Subset.trans (ih run member) ?_
    intro other inside
    simp only [List.mem_append, List.mem_cons] at inside ⊢
    tauto
  | case3 style held c rest plain k behind read inner outer =>
    have parts := List.append_subset.1 (Construct.read?_subset read)
    have around : charactersOf style.color ⊆ charactersOf style.color ++ (held ++ c :: rest) :=
      List.subset_append_left _ _
    have front : held ⊆ charactersOf style.color ++ (held ++ c :: rest) :=
      List.subset_append_of_subset_right _ (List.subset_append_left _ _)
    have ahead : c :: rest ⊆ charactersOf style.color ++ (held ++ c :: rest) :=
      List.subset_append_of_subset_right _ (List.subset_append_right _ _)
    have own := List.Subset.trans parts.1 ahead
    intro run member
    simp only [List.mem_append] at member
    rcases member with ((before | read) | inside) | after
    · exact List.Subset.trans (characters_literalRun before)
        (List.append_subset.2 ⟨around, front⟩)
    · exact List.Subset.trans (Construct.characters_run read)
        (List.append_subset.2 ⟨around, own⟩)
    · have color := List.Subset.trans (k.color_innerStyle style)
        (List.append_subset.2 ⟨around, own⟩)
      have content := List.Subset.trans k.inside_subset own
      exact List.Subset.trans (inner run inside) (List.append_subset.2 ⟨color, content⟩)
    · exact List.Subset.trans (outer run after)
        (List.append_subset.2 ⟨around, List.Subset.trans parts.2 ahead⟩)
  | case4 style held c rest plain unread ih =>
    intro run member
    refine List.Subset.trans (ih run member) ?_
    intro other inside
    simp only [List.mem_append, List.mem_cons] at inside ⊢
    tauto

/-- All characters in the runs of a line are characters of the line. -/
theorem characters_runsOf {text : List Char} {run : Run} (member : run ∈ runsOf text) :
    run.characters ⊆ text := characters_runsFrom Style.plain [] text run member

end WikiPress

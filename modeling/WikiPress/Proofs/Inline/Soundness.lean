import WikiPress.Proofs.Inline.Content

/-!
# Runs are sound

Every run that is read shows something and stores nothing idle (`Run.IsSound`): a text that is
neither a link nor an image is not empty, a stored style sets something, an image has no text and no
style, and a colour is a text of letters, digits and number signs. Constructs keep this: they give
such runs under a style with such a colour, and the style inside them has such a colour again
(`isSound_of_mem_runsFrom`).
-/

namespace WikiPress

/-- A text of letters, digits and number signs that is not empty. -/
def IsColor (color : String) : Prop :=
  color ≠ "" ∧ ∀ c ∈ color.toList, Construct.isColorChar c = true

/-- The style sets no colour or one that can be written. -/
def Style.IsColored (style : Style) : Prop := ∀ color ∈ style.color, IsColor color

/-- What holds of every run that is read from a line. -/
structure Run.IsSound (run : Run) : Prop where
  /-- A text that is neither a link nor an image shows something. -/
  shown : run.href = none → run.src = none → run.text ≠ ""
  /-- A style that is stored sets something. -/
  visible : ∀ style ∈ run.style, style.isPlain = false
  /-- An image has no text and no style. -/
  image : run.src ≠ none → run.text = "" ∧ run.style = none
  /-- A colour is one that can be written. -/
  colored : ∀ style ∈ run.style, style.IsColored

/-- Nested styles have colours that can be written where both have. -/
theorem Style.IsColored.merge {outer inner : Style} (around : outer.IsColored)
    (own : inner.IsColored) : (outer.merge inner).IsColored := by
  intro color member
  obtain here | ⟨_, above⟩ := Option.or_eq_some_iff.1 member
  · exact own color here
  · exact around color above

/-- What is stored of a style sets something and has its colour. -/
theorem Style.of_mem_stored {style stored : Style} (colored : style.IsColored)
    (member : stored ∈ style.stored) : stored.isPlain = false ∧ stored.IsColored := by
  unfold Style.stored at member
  split at member
  · cases member
  · next sets =>
    obtain rfl := Option.some.inj member
    exact ⟨by simpa using sets, colored⟩

/-- A text that shows something or is a link is sound under a style. -/
theorem Run.isSound_styled {style : Style} {run : Run} (colored : style.IsColored)
    (unstyled : run.style = none) (imageless : run.src = none)
    (shown : run.href = none → run.text ≠ "") : (Run.styled style run).IsSound := by
  rw [Run.styled_eq style unstyled]
  constructor
  · exact fun linkless _ => shown linkless
  · exact fun stored member => (Style.of_mem_stored colored member).1
  · exact fun image => absurd imageless image
  · exact fun stored member => (Style.of_mem_stored colored member).2

/-- The run of held text is sound. -/
theorem isSound_of_mem_literalRun {style : Style} {held : List Char} {run : Run}
    (colored : style.IsColored) (member : run ∈ literalRun style held) : run.IsSound := by
  unfold literalRun at member
  split at member
  · cases member
  · next filled =>
    obtain rfl := List.mem_singleton.1 member
    refine Run.isSound_styled colored rfl rfl fun _ empty => filled ?_
    exact List.reverse_eq_nil_iff.1 (String.ofList_eq_empty_iff.1 empty)

namespace Construct

variable {style : Style} {text behind : List Char} {k : Construct}

/-- The run of a construct is sound. -/
theorem isSound_of_mem_run {run : Run} (colored : style.IsColored) (member : run ∈ k.run style) :
    run.IsSound := by
  cases k with
  | styled => cases member
  | link label href =>
    obtain rfl := List.mem_singleton.1 member
    exact Run.isSound_styled colored rfl rfl fun linkless => nomatch linkless
  | image src href =>
    obtain rfl := List.mem_singleton.1 member
    constructor
    · exact fun _ imageless => nomatch imageless
    · exact fun stored member => nomatch member
    · exact fun _ => ⟨rfl, rfl⟩
    · exact fun stored member => nomatch member

/-- A colour that is read can be written. -/
theorem isColored_innerStyle_of_colored? (colored : style.IsColored)
    (found : colored? text = some (k, behind)) : (k.innerStyle style).IsColored := by
  simp only [colored?] at found
  split at found
  · cases found
  · next named =>
    split at found
    · split at found
      · cases found
      · split at found
        · cases found
        · obtain ⟨rfl, _⟩ := Prod.mk.inj (Option.some.inj found)
          refine colored.merge ?_
          rintro color ⟨⟩
          refine ⟨fun empty => named (String.ofList_eq_empty_iff.1 empty), fun c member => ?_⟩
          rw [String.toList_ofList] at member
          exact List.mem_takeWhile_imp member
    · cases found

/-- The style inside a construct has a colour that can be written if the style around it has. -/
theorem isColored_innerStyle (colored : style.IsColored) (found : read? text = some (k, behind)) :
    (k.innerStyle style).IsColored := by
  unfold read? at found
  split at found
  · -- brackets hold no markup, so the style inside them is that around them
    unfold bracketed? at found
    split at found
    · cases found
    · split at found
      · cases found
      · obtain ⟨rfl, _⟩ := Prod.mk.inj (Option.some.inj found)
        unfold ofBrackets
        split <;> split <;> exact colored
  · exact isColored_innerStyle_of_colored? colored found
  · simp only [Option.map_eq_some_iff, Prod.exists, Prod.mk.injEq] at found
    obtain ⟨m, inside, after, _, rfl, _⟩ := found
    refine colored.merge ?_
    intro color member
    rw [m.color_style] at member
    cases member

end Construct

/-- Every run that is read under a style with a colour that can be written is sound. -/
theorem isSound_of_mem_runsFrom {style : Style} {held text : List Char} {run : Run}
    (colored : style.IsColored) (member : run ∈ runsFrom style held text) : run.IsSound := by
  fun_induction runsFrom style held text with
  | case1 style held => exact isSound_of_mem_literalRun colored member
  | case2 style held c rest ih => exact ih colored member
  | case3 style held c rest plain k behind read inner outer =>
    simp only [List.mem_append] at member
    rcases member with ((before | own) | inside) | after
    · exact isSound_of_mem_literalRun colored before
    · exact Construct.isSound_of_mem_run colored own
    · exact inner (Construct.isColored_innerStyle colored read) inside
    · exact outer colored after
  | case4 style held c rest plain unread ih => exact ih colored member

/-- Every run of a line is sound. -/
theorem isSound_of_mem_runsOf {text : List Char} {run : Run} (member : run ∈ runsOf text) :
    run.IsSound := by
  have colorless : Style.plain.IsColored := by
    intro color given
    cases given
  exact isSound_of_mem_runsFrom colorless member

end WikiPress

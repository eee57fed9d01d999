import WikiPress.Proofs.Inline.Spans

/-!
# The style around a line

Nothing that is read from a line depends on the style that the line stands under. Every run but an
image takes that style around its own, and a run whose style then sets nothing stores none
(`Run.within`). So the runs of a line under a style are those of the line by itself, each taken
under that style (`runsFrom_within`), and everything else about them is the same under every style
(`runsFrom_parametric`).
-/

namespace WikiPress

namespace Style

/-- What a run stores of a style: nothing where it sets nothing. -/
def stored (style : Style) : Option Style := if style.isPlain then none else some style

/-- Two nested styles set nothing where neither does. -/
theorem isPlain_merge (outer inner : Style) :
    (outer.merge inner).isPlain = (outer.isPlain && inner.isPlain) := by
  have colors : (inner.color.or outer.color).isNone =
      (outer.color.isNone && inner.color.isNone) := by
    cases inner.color <;> cases outer.color <;> rfl
  simp only [isPlain, merge, colors, Bool.not_or]
  ac_rfl

/-- A style is read back from what is stored of it. -/
theorem getD_stored (style : Style) : style.stored.getD plain = style := by
  unfold stored
  split
  · next sets => exact (isPlain_iff.1 sets).symm
  · rfl

end Style

namespace Run

/-- The run is an image. -/
def isImage (run : Run) : Bool := run.src.isSome

/-- All of a run but its style. -/
def bare (run : Run) : Run := { run with style := none }

/-- A run that stands under one more style: an image stays as it is, and the style of any other run
is merged into that style. -/
def within (outer : Style) (run : Run) : Run :=
  if run.isImage then run
  else { run with style := (outer.merge (run.style.getD Style.plain)).stored }

variable (outer style : Style) {run : Run}

/-- A run takes a style by storing it. -/
theorem styled_eq (unstyled : run.style = none) :
    styled style run = { run with style := style.stored } := by
  unfold styled Style.stored
  split
  · rw [← unstyled]
  · rfl

/-- A text that takes a style and stands under another one takes both merged. -/
theorem within_styled (unstyled : run.style = none) (shown : run.isImage = false) :
    within outer (styled style run) = styled (outer.merge style) run := by
  have other : isImage { run with style := style.stored } = false := shown
  rw [styled_eq style unstyled, styled_eq _ unstyled, within, other, if_neg Bool.false_ne_true,
    Style.getD_stored]

/-- A style around an image changes nothing. -/
theorem within_of_isImage (image : run.isImage = true) : within outer run = run := if_pos image

/-- A style around a run makes no image of it. -/
theorem isImage_within (run : Run) : (within outer run).isImage = run.isImage := by
  unfold within
  split <;> rfl

/-- A style around a run changes nothing but its style. -/
theorem bare_within (run : Run) : (within outer run).bare = run.bare := by
  unfold within
  split <;> rfl

end Run

variable (outer style : Style)

/-- Held text under a style inside another is sent out under both. -/
theorem literalRun_within (held : List Char) :
    literalRun (outer.merge style) held = (literalRun style held).map (Run.within outer) := by
  unfold literalRun
  split
  · rfl
  · rw [List.map_singleton, Run.within_styled outer style rfl rfl]

namespace Construct

/-- The run of a link takes the style around it, and the run of an image does not. -/
theorem run_within (k : Construct) :
    k.run (outer.merge style) = (k.run style).map (Run.within outer) := by
  cases k with
  | styled => rfl
  | link label href => rw [run, run, List.map_singleton, Run.within_styled outer style rfl rfl]
  | image src href => rw [run, run, List.map_singleton, Run.within_of_isImage outer rfl]

/-- A style around a construct is around the markup inside it. -/
theorem innerStyle_merge (k : Construct) :
    k.innerStyle (outer.merge style) = outer.merge (k.innerStyle style) := by
  cases k with
  | styled added inside => exact Style.merge_assoc outer style added
  | link => rfl
  | image => rfl

end Construct

/-- The runs of a text under a style inside another are its runs under the inner style alone, each
taken under the outer one. -/
theorem runsFrom_within (held text : List Char) :
    runsFrom (outer.merge style) held text =
      (runsFrom style held text).map (Run.within outer) := by
  fun_induction runsFrom style held text with
  | case1 style held => rw [runsFrom, literalRun_within]
  | case2 style held c rest ih => rw [runsFrom, ih]
  | case3 style held c rest plain k behind read inside after =>
    rw [runsFrom_read read, literalRun_within, k.run_within, k.innerStyle_merge, inside, after]
    simp only [List.map_append]
  | case4 style held c rest plain unread ih =>
    rw [runsFrom_unread plain unread]
    exact ih

/-- Under any style a text has the runs that it has by itself, where each run but an image takes the
style around its own. No text, link, image or place of a run depends on the style. -/
theorem runsFrom_parametric (style : Style) (text : List Char) :
    runsFrom style [] text = (runsOf text).map (Run.within style) ∧
      (runsFrom style [] text).map Run.bare = (runsOf text).map Run.bare ∧
      (runsFrom style [] text).filter Run.isImage = (runsOf text).filter Run.isImage := by
  have under : runsFrom style [] text = (runsOf text).map (Run.within style) := by
    have merged := runsFrom_within style Style.plain [] text
    rwa [Style.merge_plain] at merged
  have bare : Run.bare ∘ Run.within style = Run.bare := funext (Run.bare_within style)
  have image : Run.isImage ∘ Run.within style = Run.isImage := funext (Run.isImage_within style)
  have kept : ((runsOf text).filter Run.isImage).map (Run.within style) =
      (runsOf text).filter Run.isImage := by
    rw [List.map_congr_left fun run member =>
      Run.within_of_isImage style (List.mem_filter.1 member).2, List.map_id']
  refine ⟨under, ?_, ?_⟩
  · rw [under, List.map_map, bare]
  · rw [under, List.filter_map, image, kept]

/-- A word in a colour and an image under a bold style. -/
example : runsFrom { bold := true } [] "a{red|b}[[img:c]]".toList =
    [{ text := "a", style := some { bold := true } },
      { text := "b", style := some { bold := true, color := some "red" } },
      { src := some "c" }] := by
  cbv

end WikiPress

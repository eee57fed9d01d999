import WikiPress.Inline.Construct

/-!
# Runs of a line

Markup is read from left to right without going back. Literal text is held until a construct or
the end of the line; a construct's own markup is read under the merged style; a marker that opens
nothing is literal text. The result is flat: every run carries the union of the styles around it.
-/

namespace WikiPress

/-- The run of the literal text held so far, which is kept in reverse. -/
def literalRun (style : Style) (held : List Char) : List Run :=
  if held = [] then [] else [Run.styled style { text := String.ofList held.reverse }]

/-- The run of a link, an image or nothing under a style. Images show no style. -/
def Construct.run (style : Style) : Construct → List Run
  | .styled .. => []
  | .link label href =>
    [Run.styled style { text := String.ofList label, href := some (String.ofList href) }]
  | .image src href => [{ src := some (String.ofList src), href := href.map String.ofList }]

/-- The style of the markup inside a construct. -/
def Construct.innerStyle (style : Style) : Construct → Style
  | .styled added _ => style.merge added
  | _ => style

/-- The runs of a text under a style, with the literal text held in front of it. A backslash
makes the next character literal; at the end of the text it is literal itself. -/
def runsFrom (style : Style) (held : List Char) : List Char → List Run
  | [] => literalRun style held
  | '\\' :: c :: rest => runsFrom style (c :: held) rest
  | c :: rest =>
    match _read : Construct.read? (c :: rest) with
    | some (k, behind) =>
      literalRun style held ++ k.run style ++ runsFrom (k.innerStyle style) [] k.inside ++
        runsFrom style [] behind
    | none => runsFrom style (c :: held) rest
termination_by text => text.length
decreasing_by
  · simp only [List.length_cons]
    omega
  · have := Construct.length_read? _read; omega
  · have := Construct.length_read? _read; omega
  · simp

/-- The runs of a line of markup. -/
def runsOf (text : List Char) : List Run := runsFrom Style.plain [] text

end WikiPress

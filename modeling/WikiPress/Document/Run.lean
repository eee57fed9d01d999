import WikiPress.Document.Style

/-!
# Runs

A line of text is a flat list of runs. A run has a text and, each on its own, a style, a link
target and an image source: one with a source is an image, and a target makes a link of either.
-/

namespace WikiPress

/-- A piece of a line. -/
structure Run where
  text : String := ""
  style : Option Style := none
  /-- The link target. -/
  href : Option String := none
  /-- The image source. -/
  src : Option String := none
  deriving DecidableEq

namespace Run

/-- A run that stores its style only when that sets something. -/
def styled (style : Style) (run : Run) : Run :=
  if style.isPlain then run else { run with style := some style }

/-- The run without markup: an image is named by its source. -/
def plainText (run : Run) : String :=
  match run.src with
  | some src => "[img " ++ src ++ "]"
  | none => run.text

end Run

end WikiPress

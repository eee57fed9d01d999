/-!
# Styles

Font attributes of a run of text. A style stores no order of application; each output format
has its own. Merging is the union, and of two colours the inner one shows.
-/

namespace WikiPress

/-- Font attributes. -/
structure Style where
  bold : Bool := false
  italic : Bool := false
  underline : Bool := false
  /-- Raised text. -/
  sup : Bool := false
  /-- Lowered text. -/
  sub : Bool := false
  /-- Struck-through text. -/
  strike : Bool := false
  color : Option String := none
  deriving DecidableEq

namespace Style

/-- The style that sets nothing. -/
def plain : Style := {}

/-- The style sets nothing. -/
def isPlain (s : Style) : Bool :=
  !(s.bold || s.italic || s.underline || s.sup || s.sub || s.strike) && s.color.isNone

/-- The style of text inside two nested styles. -/
def merge (outer inner : Style) : Style where
  bold := outer.bold || inner.bold
  italic := outer.italic || inner.italic
  underline := outer.underline || inner.underline
  sup := outer.sup || inner.sup
  sub := outer.sub || inner.sub
  strike := outer.strike || inner.strike
  color := inner.color.or outer.color

/-- Only one style sets nothing. -/
theorem isPlain_iff {s : Style} : s.isPlain = true ↔ s = plain := by
  obtain ⟨b, i, u, p, d, k, c⟩ := s
  cases b <;> cases i <;> cases u <;> cases p <;> cases d <;> cases k <;> cases c <;>
    simp [isPlain, plain]

/-- A style inside the plain one stays as it is. -/
@[simp]
theorem plain_merge (s : Style) : plain.merge s = s := by simp [merge, plain]

/-- The plain style inside another changes nothing. -/
@[simp]
theorem merge_plain (s : Style) : s.merge plain = s := by simp [merge, plain]

/-- Nested styles may be merged from the inside or from the outside. -/
theorem merge_assoc (r s t : Style) : (r.merge s).merge t = r.merge (s.merge t) := by
  simp [merge, Bool.or_assoc, Option.or_assoc]

end Style

end WikiPress

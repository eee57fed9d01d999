import WikiPress.Inline.Runs

/-!
# Table rows

A row starts with a bar and may end with one; bars separate its cells. A row of dashes, colons
and blanks only divides the rows around it and is no row itself.
-/

namespace WikiPress.Table

/-- A row that holds no cells: it has a dash, and nothing but dashes, bars, colons, spaces and
tabs. -/
def isDivider (row : List Char) : Bool :=
  row.any (· = '-') && row.all fun c => c = '|' || c = '-' || c = ':' || c = ' ' || c = '\t'

/-- The text between the outer bars. -/
def inner (row : List Char) : List Char :=
  let opened := match row with
    | '|' :: rest => rest
    | row => row
  (Text.before? '|' opened).getD opened

/-- The cells of a row. -/
def cells (row : List Char) : List (List Run) :=
  (Text.pieces '|' (inner row)).map fun cell => runsOf (Text.trim cell)

/-- The rows of consecutive row lines. -/
def rows (lines : List (List Char)) : List (List (List Run)) :=
  (lines.filter fun row => !isDivider row).map cells

end WikiPress.Table

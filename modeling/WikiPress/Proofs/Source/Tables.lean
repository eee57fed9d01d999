import WikiPress.Proofs.Source.Concatenation

/-!
# Tables as they are written

A row is written with a bar in front, and behind each cell one more. It is read with its cells in
their places where no cell holds a bar (`Table.cells_written`); lines that only divide are dropped
wherever they stand (`Table.Lays.rows_eq`). The lines of a table end where the next line is no row,
and make one block (`Part.ofLines_lays`), which is the whole document if there are no other lines
(`Document.parse_lays`).
-/

namespace WikiPress

namespace Table

/-- A row of cells as it is written, between bars and with a space on both sides of each cell. -/
def written (cells : List (List Char)) : List Char :=
  '|' :: cells.flatMap fun cell => ' ' :: cell ++ [' ', '|']

/-- Cells that are a row when they are written: there are some, they fit between bars on a line, and
the row does not divide. -/
structure IsRow (cells : List (List Char)) : Prop where
  filled : cells ≠ []
  barless : ∀ cell ∈ cells, '|' ∉ cell
  single : ∀ cell ∈ cells, '\n' ∉ cell
  undivided : isDivider (written cells) = false

/-- A line of a table that only divides. -/
structure IsSeparator (text : List Char) : Prop where
  single : '\n' ∉ text
  opened : (Text.trim text).head? = some '|'
  divides : isDivider (Text.trim text) = true

/-- The lines are the rows, each as it is written and in their order, with lines that only divide
before, between and behind them. -/
inductive Lays : List (List (List Char)) → List (List Char) → Prop where
  | nil : Lays [] []
  | row {cells : List (List Char)} {rows : List (List (List Char))} {lines : List (List Char)} :
    IsRow cells → Lays rows lines → Lays (cells :: rows) (written cells :: lines)
  | separator {text : List Char} {rows : List (List (List Char))} {lines : List (List Char)} :
    IsSeparator text → Lays rows lines → Lays rows (text :: lines)

/-- The rows of cells that are read from their texts. -/
def read (rows : List (List (List Char))) : List (List (List Run)) :=
  rows.map (·.map fun cell => runsOf (Text.trim cell))

variable {cells : List (List Char)} {rows : List (List (List Char))} {lines : List (List Char)}

/-- A written row is the cells with their spaces, with bars between and around them. -/
theorem written_eq (filled : cells ≠ []) : written cells =
    '|' :: (Text.joined '|' (cells.map fun cell => ' ' :: cell ++ [' ']) ++ ['|']) := by
  rw [← Text.flatMap_ended (by simpa using filled), List.flatMap_map, written]
  simp

/-- There is no white space around a written row. -/
theorem trim_written (filled : cells ≠ []) : Text.trim (written cells) = written cells := by
  rw [written_eq filled]
  refine Text.trim_eq_self ?_ ?_
  · simp [Text.isSpace]
  · simp [List.getLast?_cons, Text.isSpace]

/-- The cells of a written row are read in their places. -/
theorem cells_written (row : IsRow cells) :
    Table.cells (written cells) = cells.map fun cell => runsOf (Text.trim cell) := by
  have inner : inner (written cells) =
      Text.joined '|' (cells.map fun cell => ' ' :: cell ++ [' ']) := by
    rw [written_eq row.filled, Table.inner]
    simp only [Text.before?_eq_some_iff.2 rfl, Option.getD_some]
  have spaced : ∀ piece ∈ cells.map fun cell => ' ' :: cell ++ [' '], '|' ∉ piece := by
    rw [List.forall_mem_map]
    intro cell member
    simp [row.barless cell member]
  -- the spaces that the row is written with are trimmed together with those of the cell itself
  have bare (cell : List Char) : Text.trim (' ' :: cell ++ [' ']) = Text.trim cell := by
    rw [Text.trim_concat (by decide), Text.trim, Text.trimStart_cons_space (by decide), Text.trim]
  rw [Table.cells, inner, Text.pieces_joined (by simpa using row.filled) spaced, List.map_map]
  exact List.map_congr_left fun cell _ => congrArg runsOf (bare cell)

/-- A written row holds no line feed. -/
theorem single_written (row : IsRow cells) : '\n' ∉ written cells := by
  rw [written, List.mem_cons, not_or, List.mem_flatMap]
  refine ⟨by decide, ?_⟩
  rintro ⟨cell, member, inside⟩
  exact row.single cell member (by simpa using inside)

/-- A row that does not divide is read. -/
theorem rows_cons {row : List Char} (undivided : isDivider row = false)
    (more : List (List Char)) : Table.rows (row :: more) = Table.cells row :: Table.rows more := by
  simp [Table.rows, undivided]

/-- A row that divides is dropped. -/
theorem rows_cons_divider {row : List Char} (divides : isDivider row = true)
    (more : List (List Char)) : Table.rows (row :: more) = Table.rows more := by
  simp [Table.rows, divides]

/-- What stands between the outer bars of a row is of the row. -/
theorem inner_subset (row : List Char) : inner row ⊆ row := by
  have opened (text : List Char) : (Text.before? '|' text).getD text ⊆ text := by
    cases before : Text.before? '|' text with
    | none => exact List.Subset.refl _
    | some start =>
      rw [Text.before?_eq_some_iff.1 before]
      exact List.subset_append_left _ _
  unfold inner
  simp only
  split
  · exact List.Subset.trans (opened _) (List.subset_cons_self _ _)
  · exact opened _

/-- A cell of a table is read from a text without bars, which stands in one of the rows. -/
theorem exists_text_of_mem {row : List (List Run)} {cell : List Run}
    (listed : row ∈ Table.rows lines) (member : cell ∈ row) :
    ∃ line ∈ lines, ∃ text, cell = runsOf text ∧ '|' ∉ text ∧ text ⊆ line := by
  obtain ⟨line, kept, rfl⟩ := List.mem_map.1 listed
  obtain ⟨piece, cut, rfl⟩ := List.mem_map.1 member
  refine ⟨line, List.mem_of_mem_filter kept, Text.trim piece, rfl, ?_, ?_⟩
  · exact fun bar => Text.not_mem_of_mem_pieces cut (Text.trim_subset _ bar)
  · have inside : piece ⊆ inner line := Text.subset_of_mem_pieces cut
    exact List.Subset.trans (Text.trim_subset _) (List.Subset.trans inside (inner_subset line))

namespace Lays

/-- Of the lines of rows, those that divide are dropped and the others are read. -/
theorem rows_eq (lays : Lays rows lines) : Table.rows (lines.map Text.trim) = read rows := by
  induction lays with
  | nil => rfl
  | row row _ ih =>
    rw [List.map_cons, trim_written row.filled, rows_cons row.undivided, ih, cells_written row]
    rfl
  | separator separator _ ih => rw [List.map_cons, rows_cons_divider separator.divides, ih]

/-- No line of a table holds a line feed. -/
theorem single (lays : Lays rows lines) : ∀ text ∈ lines, '\n' ∉ text := by
  induction lays with
  | nil => simp
  | row row _ ih => exact List.forall_mem_cons.2 ⟨single_written row, ih⟩
  | separator separator _ ih => exact List.forall_mem_cons.2 ⟨separator.single, ih⟩

/-- Every line of a table starts with a bar. -/
theorem opened (lays : Lays rows lines) : ∀ text ∈ lines, (Text.trim text).head? = some '|' := by
  induction lays with
  | nil => simp
  | row row _ ih =>
    refine List.forall_mem_cons.2 ⟨?_, ih⟩
    rw [trim_written row.filled]
    rfl
  | separator separator _ ih => exact List.forall_mem_cons.2 ⟨separator.opened, ih⟩

/-- Some rows take some lines. -/
theorem ne_nil (lays : Lays rows lines) (filled : rows ≠ []) : lines ≠ [] := by
  cases lays with
  | nil => exact absurd rfl filled
  | row => exact List.cons_ne_nil _ _
  | separator => exact List.cons_ne_nil _ _

end Lays

end Table

/-- The carriage return of a line break is white space. -/
theorem Text.trim_withoutReturn (text : List Char) :
    Text.trim (Line.withoutReturn text) = Text.trim text := by
  rw [← Text.trim_trimEnd, LineKind.trimEnd_withoutReturn, Text.trim_trimEnd]

section Blocks

variable {rows : List (List (List Char))} {lines : List (List Char)} {first behind : List Line}

/-- Lines that start with a bar give their texts. -/
theorem Part.filterMap_row? (opened : ∀ line ∈ first, line.trimmed.head? = some '|') :
    first.filterMap Part.row? = first.map Line.trimmed := by
  rw [← List.filterMap_eq_map]
  refine List.filterMap_congr fun line member => ?_
  rw [Part.row?, LineKind.ofLine_of_bar (opened line member)]
  rfl

/-- Lines of a table in front of a line that is no row are read as one table. -/
theorem Part.ofLines_table (root : Path) (filled : first ≠ [])
    (opened : ∀ line ∈ first, line.trimmed.head? = some '|')
    (ended : ∀ next ∈ behind.head?, Part.row? next = none) :
    Part.ofLines root (first ++ behind) = (Part.ofLines root behind).map
      ([.block (.table (Table.rows (first.map Line.trimmed)))] ++ ·) := by
  cases first with
  | nil => exact absurd rfl filled
  | cons line more =>
    rw [List.forall_mem_cons] at opened
    have given : ∀ other ∈ more, (Part.row? other).isSome = true := by
      intro other member
      rw [Part.row?, LineKind.ofLine_of_bar (opened.2 other member)]
      rfl
    have stop : behind.takeWhile (fun l => (Part.row? l).isSome) = [] ∧
        behind.dropWhile (fun l => (Part.row? l).isSome) = behind := by
      cases behind with
      | nil => exact ⟨rfl, rfl⟩
      | cons next others =>
        have no := ended next rfl
        exact ⟨by rw [List.takeWhile_cons, no]; rfl, by rw [List.dropWhile_cons, no]; rfl⟩
    have taken : Part.leading Part.row? (more ++ behind) = (more.map Line.trimmed, behind) := by
      rw [Part.leading_eq, List.takeWhile_append_of_pos given, List.dropWhile_append_of_pos given,
        stop.1, stop.2, List.append_nil, Part.filterMap_row? opened.2]
    rw [List.cons_append]
    refine ofLines_cons ?_
    simp only [Part.read, LineKind.ofLine_of_bar opened.1, taken, List.map_cons]

/-- The lines of a table, whatever their numbers, are read as one table, and reading goes on behind
them. -/
theorem Part.ofLines_lays (root : Path) (filled : rows ≠ []) (lays : Table.Lays rows lines)
    (own : first.map Line.text = lines.map Line.withoutReturn)
    (ended : ∀ next ∈ behind.head?, Part.row? next = none) :
    Part.ofLines root (first ++ behind) =
      (Part.ofLines root behind).map ([.block (.table (Table.read rows))] ++ ·) := by
  have trimmed : first.map Line.trimmed = lines.map Text.trim := by
    calc first.map Line.trimmed = (first.map Line.text).map Text.trim := by
          rw [List.map_map]
          rfl
      _ = lines.map Text.trim := by
          rw [own, List.map_map]
          exact List.map_congr_left fun text _ => Text.trim_withoutReturn text
  have listed : first ≠ [] := by
    rintro rfl
    exact lays.ne_nil filled (List.map_eq_nil_iff.1 own.symm)
  have opened : ∀ line ∈ first, line.trimmed.head? = some '|' := by
    rw [← List.forall_mem_map (f := Line.trimmed) (P := fun text => text.head? = some '|'), trimmed,
      List.forall_mem_map]
    exact lays.opened
  rw [Part.ofLines_table root listed opened ended, trimmed, lays.rows_eq]

/-- The lines of a table by themselves are a document with one table. -/
theorem Document.parse_lays (root : Path) (filled : rows ≠ []) (lays : Table.Lays rows lines) :
    Document.parse root (String.ofList (Text.joined '\n' lines)) =
      .ok { blocks := [.table (Table.read rows)] } := by
  -- an empty text behind the last line feed would be no line, but every line starts with a bar
  have texts : ∀ text ∈ lines, text ≠ [] := by
    rintro text member rfl
    exact absurd (lays.opened [] member) (by decide)
  have own := Line.map_text_linesFrom_joined lays.single texts 0
  have ended : ∀ next ∈ ([] : List Line).head?, Part.row? next = none := by simp
  have whole := Part.ofLines_lays root filled lays own ended
  rw [List.append_nil, Part.ofLines] at whole
  rw [Document.parse, String.toList_ofList, Line.linesOf, whole]
  rfl

end Blocks

end WikiPress

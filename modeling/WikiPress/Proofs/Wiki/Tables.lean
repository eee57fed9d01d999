import WikiPress.Proofs.Source.Tables
import WikiPress.Proofs.Wiki.Lines
import WikiPress.Wiki.Page

/-!
# Tables keep their cells in place

A table is written with one line for each row, and pairs of bars around and between its cells. What
is written in a cell holds neither a line feed nor a bar, so lines and pairs of bars give the cells
back (`pieces_table`). Together with the reading of rows, every cell of a table keeps its place from
the source to the page (`table_of_lays`).
-/

namespace WikiPress.Wiki

/-- The cells of a row as they are written. -/
def shownCells (cells : List (List Run)) : List (List Char) :=
  cells.map fun runs => (ofRuns runs).toList

/-- The line of a row, without its line feed. -/
def shownRow (cells : List (List Run)) : List Char :=
  ([] :: shownCells cells).flatMap (· ++ ['|', '|'])

/-- Every cell of the table is read from a text without bars and line feeds. -/
def IsBarless (table : List (List (List Run))) : Prop :=
  ∀ cells ∈ table, ∀ runs ∈ cells, ∃ text, runs = runsOf text ∧ '|' ∉ text ∧ '\n' ∉ text

variable {cells : List (List Run)} {table : List (List (List Run))}

/-- A row is written on its line. -/
theorem toList_rowLine (cells : List (List Run)) :
    (rowLine cells).toList = shownRow cells ++ ['\n'] := by
  have bars : "||".toList = ['|', '|'] := by decide
  have feed : "\n".toList = ['\n'] := by decide
  simp only [rowLine, String.toList_append, Text.toList_concat, List.flatMap_map, shownRow,
    shownCells, List.flatMap_cons, List.nil_append, bars, feed]

/-- The rows of a table come one after the other, and an empty line behind them. -/
@[simp]
theorem ofBlock_table (table : List (List (List Run))) :
    ofBlock (.table table) = Text.concat (table.map rowLine) ++ "\n" := rfl

/-- A table is written as the lines of its rows and an empty one. -/
theorem toList_table (table : List (List (List Run))) : (ofBlock (.table table)).toList =
    (table.map shownRow).flatMap (· ++ ['\n']) ++ ['\n'] := by
  have feed : "\n".toList = ['\n'] := by decide
  rw [ofBlock_table, String.toList_append, Text.toList_concat, List.flatMap_map, List.flatMap_map,
    feed]
  simp only [toList_rowLine]

/-- Nothing that is written in the cells of a row has a character that neither the cells nor the
markup have. -/
theorem not_mem_shownCells {c : Char} (foreign : c ∉ markupCharacters)
    (absent : ∀ runs ∈ cells, ∃ text, runs = runsOf text ∧ c ∉ text) :
    ∀ shown ∈ shownCells cells, c ∉ shown := by
  rw [shownCells, List.forall_mem_map]
  intro runs member
  obtain ⟨text, rfl, own⟩ := absent runs member
  exact not_mem_ofRuns own foreign

/-- A row is written without line feeds. -/
theorem single_shownRow (single : ∀ shown ∈ shownCells cells, '\n' ∉ shown) :
    '\n' ∉ shownRow cells := by
  rw [shownRow, List.mem_flatMap]
  rintro ⟨shown, member, inside⟩
  obtain rfl | listed := List.mem_cons.1 member
  · exact absurd inside (by decide)
  · exact single shown listed (by simpa using inside)

/-- Between its pairs of bars, a row has its cells, and an empty piece at either end. -/
theorem piecesPair_shownRow (barless : ∀ shown ∈ shownCells cells, '|' ∉ shown) :
    Text.piecesPair '|' '|' (shownRow cells) = [] :: shownCells cells ++ [[]] := by
  have absent : ∀ piece ∈ [] :: shownCells cells, '|' ∉ piece :=
    List.forall_mem_cons.2 ⟨List.not_mem_nil, barless⟩
  rw [← List.append_nil (shownRow cells), shownRow, Text.piecesPair_ended absent, Text.piecesPair]

/-- Between its line feeds a table has one line for each row and two empty ones, and between its
pairs of bars the line of a row has the cells of the row. -/
theorem pieces_table (barless : IsBarless table) :
    (Text.pieces '\n' (ofBlock (.table table)).toList).map (Text.piecesPair '|' '|') =
      (table.map fun cells => [] :: shownCells cells ++ [[]]) ++ [[[]], [[]]] := by
  have single : ∀ line ∈ table.map shownRow, '\n' ∉ line := by
    rw [List.forall_mem_map]
    refine fun cells member => single_shownRow (not_mem_shownCells (by decide) ?_)
    exact fun runs listed => (barless cells member runs listed).imp fun _ own => ⟨own.1, own.2.2⟩
  have bars : ∀ cells ∈ table, Text.piecesPair '|' '|' (shownRow cells) =
      [] :: shownCells cells ++ [[]] := by
    refine fun cells member => piecesPair_shownRow (not_mem_shownCells (by decide) ?_)
    exact fun runs listed => (barless cells member runs listed).imp fun _ own => ⟨own.1, own.2.1⟩
  rw [toList_table, Text.pieces_ended single, List.map_append, List.map_map]
  exact congrArg (· ++ _) (List.map_congr_left bars)

/-- The cells of every table that is read are read from texts without bars and line feeds. -/
theorem isBarless_rows {lines : List (List Char)} (single : ∀ line ∈ lines, '\n' ∉ line) :
    IsBarless (Table.rows lines) := by
  intro cells listed runs member
  obtain ⟨line, kept, text, own, barless, within⟩ := Table.exists_text_of_mem listed member
  exact ⟨text, own, barless, fun feed => single line kept (within feed)⟩

/-- The rows of a table, laid out in lines with lines that only divide anywhere among them, are read
as one table, in front of whatever is no row and by themselves, with the runs of each cell in its
place; and between line feeds and pairs of bars, what is written for the table gives back what is
written for each cell, row by row. -/
theorem table_of_lays {rows : List (List (List Char))} {lines : List (List Char)}
    (filled : rows ≠ []) (lays : Table.Lays rows lines) :
    (∀ root first behind, first.map Line.text = lines.map Line.withoutReturn →
      (∀ next ∈ behind.head?, Part.row? next = none) →
      Part.ofLines root (first ++ behind) =
        (Part.ofLines root behind).map ([.block (.table (Table.read rows))] ++ ·)) ∧
    (∀ root, Document.parse root (String.ofList (Text.joined '\n' lines)) =
      .ok { blocks := [.table (Table.read rows)] }) ∧
    (Text.pieces '\n' (ofBlock (.table (Table.read rows))).toList).map (Text.piecesPair '|' '|') =
      (rows.map fun cells =>
        [] :: cells.map (fun cell => (ofRuns (runsOf (Text.trim cell))).toList) ++ [[]]) ++
          [[[]], [[]]] := by
  refine ⟨fun root first behind => Part.ofLines_lays root filled lays,
    fun root => Document.parse_lays root filled lays, ?_⟩
  have barless : IsBarless (Table.read rows) := by
    rw [← lays.rows_eq]
    refine isBarless_rows (List.forall_mem_map.2 fun text member => ?_)
    exact fun feed => lays.single text member (Text.trim_subset text feed)
  rw [pieces_table barless, Table.read, List.map_map]
  simp only [Function.comp_def, shownCells, List.map_map]

/-- Two rows with a dash and an empty text among their cells, below a line that divides and around
another, set in and with a tab behind it. -/
theorem table_of_lays_sample :
    let bold : Run := { text := "b", style := some { bold := true } }
    let table : List (List (List Run)) := [[[{ text := "a" }], [{ text := "-" }]], [[], [bold]]]
    Document.parse ⟨""⟩ "|--|--|\n| a | - |\n |:-|\t\n|  | **b** |" =
        .ok { blocks := [.table table] } ∧
      Part.ofLines ⟨""⟩ (["|--|--|", "| a | - |", " |:-|\t", "|  | **b** |", "x"].map fun text =>
          ⟨text.toList, 7⟩) =
        .ok [.block (.table table), .block (.paragraph [{ text := "x" }])] ∧
      (Text.pieces '\n' (ofBlock (.table table)).toList).map (Text.piecesPair '|' '|') =
        [["", "a", "-", ""], ["", "", "<b>b </b>", ""], [""], [""]].map
          (·.map String.toList) := by
  intro bold table
  let rows := [["a", "-"], ["", "**b**"]].map (·.map String.toList)
  let lines := ["|--|--|", "| a | - |", " |:-|\t", "|  | **b** |"].map String.toList
  have first : Table.IsRow (["a", "-"].map String.toList) :=
    ⟨by decide, by decide, by decide, by decide⟩
  have second : Table.IsRow (["", "**b**"].map String.toList) :=
    ⟨by decide, by decide, by decide, by decide⟩
  have above : Table.IsSeparator "|--|--|".toList := ⟨by decide, by decide, by decide⟩
  have between : Table.IsSeparator " |:-|\t".toList := ⟨by decide, by decide, by decide⟩
  have lays : Table.Lays rows lines :=
    .separator above (.row first (.separator between (.row second .nil)))
  have read : Table.read rows = table := by decide +kernel
  obtain ⟨inside, whole, shown⟩ := table_of_lays (by decide) lays
  rw [read] at inside whole shown
  refine ⟨whole ⟨""⟩, ?_, ?_⟩
  · have own := inside ⟨""⟩ (lines.map (⟨·, 7⟩)) [⟨['x'], 7⟩] (by decide) (by decide)
    have text : Part.read ⟨""⟩ ⟨['x'], 7⟩ [] = .ok ([.block (.paragraph (runsOf ['x']))], []) := rfl
    have runs : runsOf ['x'] = [{ text := "x" }] := by decide +kernel
    rw [ofLines_cons text, Part.ofLines, runs] at own
    exact own
  · rw [shown]
    decide +kernel

end WikiPress.Wiki

import Ddbclient.Client.Visibility

/-!
# Rows past the limit

Measuring and printing stop at the same row. So a table is rendered like the table of its first 1000 rows,
and the rows after them are only counted.
-/

namespace Ddbclient.Client
open Lib.Checked Lib.Lines Lib.Grid Layout

/-! ## The table of the first rows -/

def firstCells (column : Column) : Column := ⟨column.name, column.cells.take 1000⟩

theorem get_firstCells (column : Column) {r : Nat} (early : r < 1000) : (firstCells column).get r = column.get r := by
  simp only [Column.get, firstCells, List.getD_eq_getElem?_getD, List.getElem?_take_of_lt early]

def firstRows (table : Table) : Table where
  size := min table.size 1000
  columns := table.columns.map firstCells
  size_int := (Nat.min_le_left _ _).trans_lt table.size_int
  columns_int := by rw [List.length_map]; exact table.columns_int
  rectangular := by
    intro column member
    obtain ⟨whole, inside, rfl⟩ := List.mem_map.mp member
    rw [firstCells, List.length_take, table.rectangular whole inside, Nat.min_comm]

theorem min_firstRows (table : Table) : min (firstRows table).size maxRows = min table.size maxRows := by
  simp only [firstRows, maxRows, Nat.min_assoc, Nat.min_self]

theorem length_firstRows (table : Table) : (firstRows table).columns.length = table.columns.length :=
  List.length_map _

/-! ## Measuring -/

theorem maxLen_firstCells {rows : Nat} (column : Column) (few : rows ≤ 1000) :
    maxLen rows (firstCells column) = maxLen rows column := by
  unfold maxLen
  apply List.foldl_ext
  intro longest r member
  rw [get_firstCells column ((List.mem_range.mp member).trans_le few)]

theorem measure_firstCells {rows : Nat} (few : rows ≤ 1000) (total : Int) (columns : List Column) :
    measure rows total (columns.map firstCells) = measure rows total columns := by
  induction columns generalizing total with
  | nil => rfl
  | cons column columns ih => simp only [List.map_cons, measure, maxLen_firstCells column few, ih]

/-! ## Printing -/

theorem collect_congr {ε α β : Type} {write write' : α → Except ε (List β)} {items : List α}
    (same : ∀ a ∈ items, write a = write' a) : collect write items = collect write' items := by
  induction items with
  | nil => rfl
  | cons a rest ih =>
      rw [collect, collect, same a List.mem_cons_self, ih fun b member => same b (List.mem_cons_of_mem _ member)]

theorem printTable_firstRows (table : Table) (colWidths : List Int) :
    printTable table colWidths = (printTable (firstRows table) colWidths).map (· ++ trailer table.size) := by
  have names : (firstRows table).columns.map Column.name = table.columns.map Column.name := List.map_map
  have rows : collect (fun r => printLine ((firstRows table).columns.map fun column => column.get r) colWidths)
      (List.range (min table.size maxRows)) =
        collect (fun r => printLine (table.columns.map fun column => column.get r) colWidths)
          (List.range (min table.size maxRows)) := by
    apply collect_congr
    intro r member
    have early : r < 1000 := (List.mem_range.mp member).trans_le (Nat.min_le_right _ _)
    simp only [firstRows, List.map_map, Function.comp_def, get_firstCells _ early]
  have noTrailer : trailer (firstRows table).size = [] := if_neg (Nat.not_lt.mpr (Nat.min_le_right _ _))
  unfold printTable
  rw [names, min_firstRows, rows, noTrailer]
  cases printLine (table.columns.map Column.name) colWidths with
  | error failure => rfl
  | ok header =>
      cases printRules colWidths with
      | error failure => rfl
      | ok rules =>
          cases collect (fun r => printLine (table.columns.map fun column => column.get r) colWidths)
              (List.range (min table.size maxRows)) with
          | error failure => rfl
          | ok rows => simp [bind, Except.bind, Except.map, pure, Except.pure]

/-! ## Rendering -/

def chosenWidths (termWidth : Int) (table : Table) : Result (List Int × Int) := do
  let totalCols : Int := table.columns.length
  let availableWidth ← sub (← sub termWidth 5) (← mul totalCols 3)
  let availableWidth := if availableWidth < 10 then 10 else availableWidth
  let (colWidths, totalActualWidth) ← measure (min table.size maxRows) 0 table.columns
  let maxDataWidth := max totalActualWidth (← mul totalCols 5)
  let colWidths ← shrink availableWidth maxDataWidth totalCols colWidths
  let avgWidth ← div availableWidth totalCols
  return (colWidths, avgWidth)

def finish (table : Table) (chosen : List Int × Int) : Result Bytes :=
  if chosen.2 < 5 then .ok (warning table.columns.length) else printTable table chosen.1

theorem tableToString_eq_bind (termWidth : Int) (table : Table) :
    tableToString termWidth table = chosenWidths termWidth table >>= finish table := by
  simp only [tableToString, chosenWidths, bind_assoc, pure_bind]
  rfl

theorem chosenWidths_firstRows (termWidth : Int) (table : Table) :
    chosenWidths termWidth (firstRows table) = chosenWidths termWidth table := by
  have measured : measure (min table.size maxRows) 0 (firstRows table).columns =
      measure (min table.size maxRows) 0 table.columns := measure_firstCells (Nat.min_le_right _ _) 0 _
  simp only [chosenWidths, length_firstRows, min_firstRows, measured]

theorem shrink_columns {availableWidth maxDataWidth totalCols : Int} {columns : List Column} {natural : Column → Int}
    {colWidths : List Int} (action : shrink availableWidth maxDataWidth totalCols (columns.map natural) = .ok colWidths) :
    ∃ width, colWidths = columns.map width := by
  obtain ⟨-, rfl⟩ := shrink_eq_ok.mp action
  split
  · exact ⟨_, List.map_map⟩
  · exact ⟨_, rfl⟩

theorem chosenWidths_columns {termWidth : Int} {table : Table} {chosen : List Int × Int}
    (action : chosenWidths termWidth table = .ok chosen) : ∃ width, chosen.1 = table.columns.map width := by
  simp only [chosenWidths, bind_eq_ok, pure_eq_ok, measure_eq_ok] at action
  obtain ⟨_, -, _, -, _, -, _, ⟨-, rfl⟩, _, -, colWidths, shrunk, _, -, rfl⟩ := action
  exact shrink_columns shrunk

/-- Rendering a table is rendering its first rows and, unless that is refused, counting all of them. -/
theorem tableToString_firstRows {table : Table} (columns : table.columns ≠ []) (termWidth : Int) :
    tableToString termWidth table = (tableToString termWidth (firstRows table)).map fun out =>
      if out = warning table.columns.length then out else out ++ trailer table.size := by
  rw [tableToString_eq_bind, tableToString_eq_bind, chosenWidths_firstRows]
  cases action : chosenWidths termWidth table with
  | error failure => rfl
  | ok chosen =>
      obtain ⟨width, widths⟩ := chosenWidths_columns ((chosenWidths_firstRows termWidth table).trans action)
      change finish table chosen = (finish (firstRows table) chosen).map _
      unfold finish
      rw [length_firstRows]
      by_cases narrow : chosen.2 < 5
      · rw [if_pos narrow, if_pos narrow]
        exact (congrArg Except.ok (if_pos rfl)).symm
      · rw [if_neg narrow, if_neg narrow, printTable_firstRows]
        cases printing : printTable (firstRows table) chosen.1 with
        | error failure => rfl
        | ok out =>
            rw [widths] at printing
            have out_eq := (printTable_eq_ok.mp printing).2
            have notWarning : out ≠ warning table.columns.length := by
              rw [out_eq]
              exact printed_ne_warning (mt List.map_eq_nil_iff.mp columns) _
            exact (congrArg Except.ok (if_neg notWarning)).symm

/-! ## Tables that agree on what is displayed -/

structure SameDisplay (table other : Table) : Prop where
  size : table.size = other.size
  names : table.columns.map Column.name = other.columns.map Column.name
  rows : ∀ r < 1000, (table.columns.map fun column => column.get r) = other.columns.map fun column => column.get r

theorem SameDisplay.length_eq {table other : Table} (same : SameDisplay table other) :
    table.columns.length = other.columns.length := by
  simpa using congrArg List.length same.names

theorem table_eq {table other : Table} (size : table.size = other.size) (columns : table.columns = other.columns) :
    table = other := by
  cases table
  cases other
  cases size
  cases columns
  rfl

theorem cells_take_eq {column other : Column} (length : column.cells.length = other.cells.length)
    (same : ∀ r < 1000, column.get r = other.get r) : column.cells.take 1000 = other.cells.take 1000 := by
  apply List.ext_getElem
  · rw [List.length_take, List.length_take, length]
  · intro r inside inside'
    have bounds := List.length_take_le 1000 column.cells
    have cells := same r (inside.trans_le bounds)
    rw [List.length_take] at inside inside'
    simp only [Column.get, List.getD_eq_getElem?_getD] at cells
    rw [List.getElem?_eq_getElem (by omega), List.getElem?_eq_getElem (by omega)] at cells
    simpa using cells

theorem SameDisplay.firstRows_eq {table other : Table} (same : SameDisplay table other) :
    firstRows table = firstRows other := by
  apply table_eq
  · exact congrArg (min · 1000) same.size
  · apply List.ext_getElem
    · rw [length_firstRows, length_firstRows, same.length_eq]
    · intro c inside inside'
      rw [length_firstRows] at inside inside'
      have name : table.columns[c].name = other.columns[c].name := by
        simpa [inside, inside'] using congrArg (·[c]?) same.names
      have cells : table.columns[c].cells.take 1000 = other.columns[c].cells.take 1000 := by
        apply cells_take_eq
        · rw [table.rectangular _ (List.getElem_mem inside), other.rectangular _ (List.getElem_mem inside'), same.size]
        · intro r early
          simpa [inside, inside'] using congrArg (·[c]?) (same.rows r early)
      simp only [firstRows, List.getElem_map, firstCells, name, cells]

theorem toString_congr (g_display_width : CInt) (terminal : Terminal) {table other : Table} (getString getString' : Bytes)
    (columns : table.columns ≠ []) (same : SameDisplay table other) :
    toString g_display_width terminal (Constant.ofTable table getString) =
      toString g_display_width terminal (Constant.ofTable other getString') := by
  have columns' : other.columns ≠ [] := by
    rw [← List.length_pos_iff] at columns ⊢
    rwa [← same.length_eq]
  rw [toString_ofTable, toString_ofTable, tableToString_firstRows columns, tableToString_firstRows columns',
    same.firstRows_eq, same.size, same.length_eq]

theorem toString_at_limit {g_display_width : CInt} {terminal : Terminal} {table : Table} {getString out : Bytes}
    (columns : table.columns ≠ []) (limit : table.size = 1000)
    (returned : toString g_display_width terminal (Constant.ofTable table getString) = .ok out) :
    out = warning table.columns.length ∨
      ∃ body, out = joinLines newline body ∧ body.length = 1002 ∧ ∀ line ∈ body, separator <:+ line := by
  rw [toString_ofTable] at returned
  obtain ⟨-, rfl⟩ := tableToString_eq_ok.mp returned
  unfold text
  split
  · exact Or.inl rfl
  · have noTrailer : trailer table.size = [] := if_neg (by rw [limit]; decide)
    rw [printed, noTrailer, List.append_nil]
    refine Or.inr ⟨_, rfl, ?_, lines_end _ columns⟩
    simp [lines, printRows, maxRows, limit]

/-- Of the rows after the first 1000 only their number is seen, in the last line. Tables that agree up to
there and have equally many rows are rendered alike, and at 1000 rows nothing is counted. -/
theorem toString_first_rows (g_display_width : CInt) (terminal : Terminal) (table : Table) (getString : Bytes)
    (columns : table.columns ≠ []) :
    (1000 < table.size →
      toString g_display_width terminal (Constant.ofTable table getString) =
        (toString g_display_width terminal (Constant.ofTable (firstRows table) getString)).map fun out =>
          if out = warning table.columns.length then out
          else out ++ (bytes "(" ++ decimal table.size ++ bytes " rows total, only first 1000 displayed)\n")) ∧
    (∀ other getString', SameDisplay table other →
      toString g_display_width terminal (Constant.ofTable table getString) =
        toString g_display_width terminal (Constant.ofTable other getString')) ∧
    (table.size = 1000 → ∀ out,
      toString g_display_width terminal (Constant.ofTable table getString) = .ok out →
        out = warning table.columns.length ∨
          ∃ body, out = joinLines newline body ∧ body.length = 1002 ∧ ∀ line ∈ body, separator <:+ line) := by
  refine ⟨fun many => ?_, fun other getString' same => ?_, fun limit out returned => ?_⟩
  · rw [toString_ofTable, toString_ofTable, tableToString_firstRows columns, trailer_eq, if_pos many]
  · exact toString_congr g_display_width terminal getString getString' columns same
  · exact toString_at_limit columns limit returned

def tall (rows : Nat) (cell : Bytes) (few : rows < 2 ^ 31) : Table where
  size := rows
  columns := [⟨bytes "a", List.replicate rows cell⟩]
  size_int := few
  columns_int := few_of_le (show 1 ≤ 1001 by decide)
  rectangular := by
    intro column member
    cases List.mem_singleton.mp member
    exact List.length_replicate

theorem toString_first_rows_tall :
    1000 < 1001 ∧
      toString width80 ⟨none, none⟩ (Constant.ofTable (tall 1001 (bytes "1") (few_of_le (Nat.le_refl 1001))) []) =
        (toString width80 ⟨none, none⟩ (Constant.ofTable (firstRows (tall 1001 (bytes "1") (few_of_le (Nat.le_refl 1001)))) [])).map fun out =>
          if out = warning 1 then out
          else out ++ (bytes "(" ++ decimal 1001 ++ bytes " rows total, only first 1000 displayed)\n") :=
  ⟨by decide, (toString_first_rows width80 ⟨none, none⟩ (tall 1001 (bytes "1") (few_of_le (Nat.le_refl 1001))) []
    (List.cons_ne_nil _ _)).1 (show 1000 < 1001 by decide)⟩

end Ddbclient.Client

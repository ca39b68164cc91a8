import Ddbclient.Client.ToString
import Ddbclient.Lib.Lines
import Mathlib.Algebra.Order.BigOperators.Group.List
import Mathlib.Algebra.Order.Group.Nat

/-!
# The layout of a table

The widths and the text that `tableToString` computes, as plain functions of the terminal width and
the table. `tableToString_eq_ok` says that whenever the code returns, it returns this text, and
`tableToString_returns` says when it does return.
-/

namespace Ddbclient.Client
open Lib.Checked Lib.Lines

namespace Layout

section Widths

variable (termWidth : Int) (table : Table)

def available : Int := max 10 (termWidth - 5 - table.columns.length * 3)

def average : Int := (available termWidth table).tdiv table.columns.length

def printRows : Nat := min table.size maxRows

def naturalWidths : List Int := table.columns.map (maxLen (printRows table))

/-- The columns do not fit with their natural widths, or with five bytes each. -/
def Shrunk : Prop :=
  available termWidth table < max (naturalWidths table).sum (table.columns.length * 5)

instance : Decidable (Shrunk termWidth table) := inferInstanceAs (Decidable (_ < _))

def columnWidth (column : Column) : Int :=
  if Shrunk termWidth table then max 5 (min (maxLen (printRows table) column) (average termWidth table))
  else maxLen (printRows table) column

def Refused : Prop := average termWidth table < 5

instance : Decidable (Refused termWidth table) := inferInstanceAs (Decidable (_ < _))

end Widths

def shown (width : Int) (text : Bytes) : Bytes :=
  if ofSize text.length > width then text.take (width - 3).toNat ++ bytes "..." else text

def line (columns : List Column) (width : Column → Int) (text : Column → Bytes) : Bytes :=
  columns.flatMap fun column => setw (width column) (shown (width column) (text column)) ++ bytes " | "

def rules (columns : List Column) (width : Column → Int) : Bytes :=
  columns.flatMap fun column => List.replicate (width column).toNat dash ++ bytes " | "

def lines (table : Table) (width : Column → Int) : List Bytes :=
  line table.columns width Column.name :: rules table.columns width ::
    (List.range (printRows table)).map fun r => line table.columns width fun column => column.get r

theorem forall_mem_lines {table : Table} {width : Column → Int} {holds : Bytes → Prop}
    (header : holds (line table.columns width Column.name)) (under : holds (rules table.columns width))
    (row : ∀ r < printRows table, holds (line table.columns width fun column => column.get r)) :
    ∀ text ∈ lines table width, holds text := by
  intro text member
  simp only [lines, List.mem_cons, List.mem_map, List.mem_range] at member
  rcases member with rfl | rfl | ⟨r, bound, rfl⟩
  · exact header
  · exact under
  · exact row r bound

def printed (table : Table) (width : Column → Int) : Bytes :=
  joinLines newline (lines table width) ++ trailer table.size

def text (termWidth : Int) (table : Table) : Bytes :=
  if Refused termWidth table then warning table.columns.length
  else printed table (columnWidth termWidth table)

end Layout

open Layout

/-! ## What the printing loops return -/

theorem substr_eq_ok {s out : Bytes} {length : Int} :
    substr s length = .ok out ↔ 0 ≤ length ∧ out = s.take length.toNat := by
  rw [substr, error_else_ok_eq_ok, Int.not_lt]

theorem dashes_eq_ok {width : Int} {out : Bytes} :
    dashes width = .ok out ↔ 0 ≤ width ∧ out = List.replicate width.toNat dash := by
  rw [dashes, error_else_ok_eq_ok, Int.not_lt]

/-- A text can be printed in a column: if it is cut, the cut has a length. -/
def Printable (width : Int) (text : Bytes) : Prop :=
  ofSize text.length > width → InInt (width - 3) ∧ 0 ≤ width - 3

theorem truncate_eq_ok {text out : Bytes} {width : Int} :
    truncate text width = .ok out ↔ Printable width text ∧ out = shown width text := by
  unfold truncate Printable shown
  by_cases long : ofSize text.length > width
  · rw [if_pos long, if_pos long]
    simp only [bind_eq_ok, pure_eq_ok, sub_eq_ok, substr_eq_ok, and_assoc, exists_and_left, exists_eq_left,
      long, true_imp_iff]
  · simp [long, eq_comm]

theorem printField_eq_ok {text out : Bytes} {width : Int} :
    printField text width = .ok out ↔
      Printable width text ∧ out = setw width (shown width text) ++ bytes " | " := by
  simp only [printField, bind_eq_ok, pure_eq_ok, truncate_eq_ok, and_assoc, exists_and_left, exists_eq_left]

theorem printLine_eq_ok {columns : List Column} {text : Column → Bytes} {width : Column → Int} {out : Bytes} :
    printLine (columns.map text) (columns.map width) = .ok out ↔
      (∀ column ∈ columns, Printable (width column) (text column)) ∧
        out = line columns width text ++ [newline] := by
  have loop (written : Bytes) :
      collect (fun field => printField field.1 field.2) ((columns.map text).zip (columns.map width)) = .ok written ↔ _ :=
    collect_eq_ok fun _ _ _ => printField_eq_ok
  simp only [printLine, bind_eq_ok, pure_eq_ok, loop]
  simp only [List.zip_map', List.forall_mem_map, List.flatMap_map, and_assoc, exists_and_left, exists_eq_left, line]

theorem printRule_eq_ok {width : Int} {out : Bytes} :
    printRule width = .ok out ↔ 0 ≤ width ∧ out = List.replicate width.toNat dash ++ bytes " | " := by
  have unpadded : setw width (List.replicate width.toNat dash) = List.replicate width.toNat dash := by
    simp [setw]
  simp only [printRule, bind_eq_ok, pure_eq_ok, dashes_eq_ok, and_assoc, exists_and_left, exists_eq_left,
    unpadded]

theorem printRules_eq_ok {columns : List Column} {width : Column → Int} {out : Bytes} :
    printRules (columns.map width) = .ok out ↔
      (∀ column ∈ columns, 0 ≤ width column) ∧
        out = rules columns width ++ [newline] := by
  have loop (written : Bytes) : collect printRule (columns.map width) = .ok written ↔ _ :=
    collect_eq_ok fun _ _ _ => printRule_eq_ok
  simp only [printRules, bind_eq_ok, pure_eq_ok, loop, List.forall_mem_map, List.flatMap_map, and_assoc,
    exists_and_left, exists_eq_left, rules]

theorem printTable_eq_ok {table : Table} {width : Column → Int} {out : Bytes} :
    printTable table (table.columns.map width) = .ok out ↔
      ((∀ column ∈ table.columns, Printable (width column) column.name) ∧
        (∀ column ∈ table.columns, 0 ≤ width column) ∧
        ∀ r < printRows table, ∀ column ∈ table.columns, Printable (width column) (column.get r)) ∧
      out = printed table width := by
  have loop (written : Bytes) :
      collect (fun r => printLine (table.columns.map fun column => column.get r) (table.columns.map width))
        (List.range (printRows table)) = .ok written ↔ _ := collect_eq_ok fun _ _ _ => printLine_eq_ok
  simp only [printTable, printRows, bind_eq_ok, pure_eq_ok, printLine_eq_ok, printRules_eq_ok] at loop ⊢
  simp only [loop, List.mem_range, and_assoc, exists_and_left, exists_eq_left]
  simp [printed, lines, joinLines, List.flatMap_map, printRows]

/-! ## Measuring and shrinking -/

def SumsFit : Int → List Int → Prop
  | _, [] => True
  | total, width :: widths => InInt (total + width) ∧ SumsFit (total + width) widths

theorem measure_eq_ok {rows : Nat} {columns : List Column} {total : Int} {out : List Int × Int} :
    measure rows total columns = .ok out ↔
      SumsFit total (columns.map (maxLen rows)) ∧
        out = (columns.map (maxLen rows), total + (columns.map (maxLen rows)).sum) := by
  induction columns generalizing total out with
  | nil => simp [measure, SumsFit, pure_eq_ok]
  | cons column columns ih =>
      simp only [measure, bind_eq_ok, pure_eq_ok, add_eq_ok, ih, SumsFit, List.map_cons, List.sum_cons,
        and_assoc, exists_and_left, exists_eq_left, Int.add_assoc]

theorem shrink_eq_ok {availableWidth maxDataWidth totalCols : Int} {colWidths out : List Int} :
    shrink availableWidth maxDataWidth totalCols colWidths = .ok out ↔
      (availableWidth < maxDataWidth → totalCols ≠ 0 ∧ InInt (availableWidth.tdiv totalCols)) ∧
        out = if availableWidth < maxDataWidth then
          colWidths.map fun width => max 5 (min width (availableWidth.tdiv totalCols))
        else colWidths := by
  unfold shrink
  by_cases wide : availableWidth < maxDataWidth
  · simp only [wide, if_true, bind_eq_ok, pure_eq_ok, div_eq_ok, and_assoc, exists_and_left,
      exists_eq_left, true_imp_iff]
  · simp [wide, eq_comm]

/-! ## What `toString` returns -/

structure Safe (termWidth : Int) (table : Table) : Prop where
  margin : InInt (termWidth - 5)
  separators : InInt (table.columns.length * 3)
  budget : InInt (termWidth - 5 - table.columns.length * 3)
  sums : SumsFit 0 (naturalWidths table)
  floor : InInt (table.columns.length * 5)
  columns : table.columns ≠ []
  average : InInt (average termWidth table)
  printable : ¬ Refused termWidth table →
    (∀ column ∈ table.columns, Printable (columnWidth termWidth table column) column.name) ∧
    (∀ column ∈ table.columns, 0 ≤ columnWidth termWidth table column) ∧
    ∀ r < printRows table, ∀ column ∈ table.columns,
      Printable (columnWidth termWidth table column) (column.get r)

theorem tableToString_eq_ok {termWidth : Int} {table : Table} {out : Bytes} :
    tableToString termWidth table = .ok out ↔ Safe termWidth table ∧ out = text termWidth table := by
  have nonempty : (table.columns.length : Int) ≠ 0 ↔ table.columns ≠ [] := by simp
  have clamp : (if termWidth - 5 - table.columns.length * 3 < 10 then 10
      else termWidth - 5 - table.columns.length * 3) = available termWidth table := by
    unfold available
    omega
  have shrinks : (available termWidth table <
      max (0 + ((table.columns.map (maxLen (min table.size maxRows))).sum)) (table.columns.length * 5)) ↔
      Shrunk termWidth table := by
    rw [Int.zero_add]
    rfl
  have widths : (if Shrunk termWidth table then
        (naturalWidths table).map fun width => max 5 (min width (average termWidth table))
      else naturalWidths table) = table.columns.map (columnWidth termWidth table) := by
    by_cases shrunk : Shrunk termWidth table <;>
      simp [columnWidth, naturalWidths, shrunk, Function.comp_def]
  unfold tableToString
  simp only [bind_eq_ok, sub_eq_ok, mul_eq_ok, measure_eq_ok, shrink_eq_ok, div_eq_ok, and_assoc,
    exists_and_left, exists_eq_left, clamp, shrinks]
  change _ ∧ _ ∧ _ ∧ SumsFit 0 (naturalWidths table) ∧ _ ∧
    (Shrunk termWidth table → _ ∧ InInt (average termWidth table)) ∧ _ ∧ InInt (average termWidth table) ∧
      (if Refused termWidth table then _ else printTable table
        (if Shrunk termWidth table then
          (naturalWidths table).map fun width => max 5 (min width (average termWidth table))
        else naturalWidths table)) = _ ↔ _
  rw [widths, nonempty]
  by_cases refused : Refused termWidth table
  · simp only [if_pos refused, text, Except.ok.injEq]
    constructor
    · rintro ⟨margin, separators, budget, sums, floor, -, columns, average, rfl⟩
      exact ⟨⟨margin, separators, budget, sums, floor, columns, average, fun shown => absurd refused shown⟩, rfl⟩
    · rintro ⟨safe, rfl⟩
      exact ⟨safe.margin, safe.separators, safe.budget, safe.sums, safe.floor,
        fun _ => ⟨safe.columns, safe.average⟩, safe.columns, safe.average, rfl⟩
  · simp only [if_neg refused, text, printTable_eq_ok]
    constructor
    · rintro ⟨margin, separators, budget, sums, floor, -, columns, average, printable, rfl⟩
      exact ⟨⟨margin, separators, budget, sums, floor, columns, average, fun _ => printable⟩, rfl⟩
    · rintro ⟨safe, rfl⟩
      exact ⟨safe.margin, safe.separators, safe.budget, safe.sums, safe.floor,
        fun _ => ⟨safe.columns, safe.average⟩, safe.columns, safe.average, safe.printable refused, rfl⟩

theorem text_of_shown {termWidth : Int} {table : Table} (shown : ¬ Refused termWidth table) :
    text termWidth table = printed table (columnWidth termWidth table) := if_neg shown

/-- A text that is not the warning is the printed table. -/
theorem tableToString_printed {termWidth : Int} {table : Table} {out : Bytes}
    (returned : tableToString termWidth table = .ok out) (notWarning : out ≠ warning table.columns.length) :
    ¬ Refused termWidth table ∧ out = printed table (columnWidth termWidth table) := by
  obtain ⟨-, rfl⟩ := tableToString_eq_ok.mp returned
  have shown : ¬ Refused termWidth table := fun refused => notWarning (if_pos refused)
  exact ⟨shown, text_of_shown shown⟩

/-! ## Natural widths -/

section FoldMax

variable {ι α : Type} [LinearOrder α] (size : ι → α)

theorem le_foldl_max (items : List ι) (first : α) :
    first ≤ items.foldl (fun m i => max m (size i)) first := by
  induction items generalizing first with
  | nil => exact le_rfl
  | cons i items ih => exact (le_max_left first (size i)).trans (ih _)

theorem mem_le_foldl_max {items : List ι} {i : ι} (member : i ∈ items) (first : α) :
    size i ≤ items.foldl (fun m i => max m (size i)) first := by
  induction items generalizing first with
  | nil => cases member
  | cons head items ih =>
      rcases List.mem_cons.mp member with rfl | member
      · exact (le_max_right first (size i)).trans (le_foldl_max size items _)
      · exact ih member _

end FoldMax

/-- A header, or a cell of one of the rows that are printed. -/
def Displayed (table : Table) (column : Column) (text : Bytes) : Prop :=
  text = column.name ∨ ∃ r < printRows table, text = column.get r

theorem Displayed.mem {table : Table} {column : Column} {text : Bytes} (member : column ∈ table.columns)
    (displayed : Displayed table column text) : text = column.name ∨ text ∈ column.cells := by
  rcases displayed with rfl | ⟨r, bound, rfl⟩
  · exact Or.inl rfl
  · have inside : r < column.cells.length := by
      rw [table.rectangular column member]
      exact bound.trans_le (Nat.min_le_left _ _)
    rw [Column.get, List.getD_eq_getElem?_getD, List.getElem?_eq_getElem inside, Option.getD_some]
    exact Or.inr (List.getElem_mem inside)

theorem Displayed.le_maxLen {table : Table} {column : Column} {text : Bytes}
    (displayed : Displayed table column text) : ofSize text.length ≤ maxLen (printRows table) column := by
  unfold maxLen
  rcases displayed with rfl | ⟨r, bound, rfl⟩
  · exact le_foldl_max (fun r => ofSize (column.get r).length) _ _
  · exact mem_le_foldl_max (fun r => ofSize (column.get r).length) (List.mem_range.mpr bound) _

/-- Only the shrunk layout cuts a text, and it cuts it to the average width. -/
theorem columnWidth_of_cut {termWidth : Int} {table : Table} {column : Column} {text : Bytes}
    (displayed : Displayed table column text) (shown : ¬ Refused termWidth table)
    (cut : columnWidth termWidth table column < ofSize text.length) :
    Shrunk termWidth table ∧ columnWidth termWidth table column = average termWidth table ∧
      5 ≤ average termWidth table := by
  have wide := displayed.le_maxLen
  have enough : 5 ≤ average termWidth table := Int.not_lt.mp shown
  by_cases shrunk : Shrunk termWidth table
  · simp only [columnWidth, if_pos shrunk] at cut ⊢
    exact ⟨shrunk, by omega, enough⟩
  · simp only [columnWidth, if_neg shrunk] at cut
    omega

theorem columnWidth_of_long {termWidth : Int} {table : Table} {column : Column} {text : Bytes}
    (displayed : Displayed table column text) (shown : ¬ Refused termWidth table) (shrunk : Shrunk termWidth table)
    (long : average termWidth table < ofSize text.length) :
    columnWidth termWidth table column = average termWidth table := by
  have wide := displayed.le_maxLen
  have enough : 5 ≤ average termWidth table := Int.not_lt.mp shown
  rw [columnWidth, if_pos shrunk]
  omega

def naturalLength (table : Table) (column : Column) : Nat :=
  (List.range (printRows table)).foldl (fun m r => max m (column.get r).length) column.name.length

def totalLength (table : Table) : Nat := (table.columns.map (naturalLength table)).sum

theorem Displayed.le_naturalLength {table : Table} {column : Column} {text : Bytes}
    (displayed : Displayed table column text) : text.length ≤ naturalLength table column := by
  rcases displayed with rfl | ⟨r, bound, rfl⟩
  · exact le_foldl_max (fun r => (column.get r).length) _ _
  · exact mem_le_foldl_max (fun r => (column.get r).length) (List.mem_range.mpr bound) _

theorem foldl_ofSize {ι : Type} (size : ι → Nat) (items : List ι) (first : Nat)
    (small : items.foldl (fun m i => max m (size i)) first < 2 ^ 31) :
    items.foldl (fun m i => max m (ofSize (size i))) (first : Int) =
      (items.foldl (fun m i => max m (size i)) first : Nat) := by
  induction items generalizing first with
  | nil => rfl
  | cons i items ih =>
      have bound := le_foldl_max size items (max first (size i))
      have head : ofSize (size i) = size i := ofSize_eq (by
        rw [List.foldl_cons] at small
        omega)
      rw [List.foldl_cons] at small
      have larger : max (first : Int) (size i) = (max first (size i) : Nat) := by omega
      rw [List.foldl_cons, head, larger, ih _ small, List.foldl_cons]

theorem maxLen_eq {table : Table} {column : Column} (small : naturalLength table column < 2 ^ 31) :
    maxLen (printRows table) column = naturalLength table column := by
  have name : ofSize column.name.length = column.name.length :=
    ofSize_eq ((Displayed.le_naturalLength (Or.inl rfl)).trans_lt small)
  rw [maxLen, name, foldl_ofSize _ _ _ small]
  rfl

theorem naturalLength_le_totalLength {table : Table} {column : Column} (member : column ∈ table.columns) :
    naturalLength table column ≤ totalLength table :=
  List.le_sum_of_mem (List.mem_map_of_mem member)

theorem naturalWidths_eq {table : Table} (small : totalLength table < 2 ^ 31) :
    naturalWidths table = table.columns.map fun column => (naturalLength table column : Int) :=
  List.map_congr_left fun _ member => maxLen_eq ((naturalLength_le_totalLength member).trans_lt small)

theorem sum_naturalWidths {table : Table} (small : totalLength table < 2 ^ 31) :
    (naturalWidths table).sum = totalLength table := by
  rw [naturalWidths_eq small, totalLength]
  induction table.columns with
  | nil => rfl
  | cons column columns ih => simp [ih]

end Ddbclient.Client

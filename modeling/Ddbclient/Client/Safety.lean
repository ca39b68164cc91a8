import Ddbclient.Client.Layout

namespace Ddbclient.Client
open Lib.Checked Layout

theorem sumsFit_of_sum {widths : List Int} {total : Int} (nonnegative : ∀ width ∈ widths, 0 ≤ width)
    (start : 0 ≤ total) (bound : total + widths.sum < 2 ^ 31) : SumsFit total widths := by
  induction widths generalizing total with
  | nil => trivial
  | cons width widths ih =>
      rw [List.sum_cons] at bound
      have head : 0 ≤ width := nonnegative width List.mem_cons_self
      have tail : ∀ width ∈ widths, 0 ≤ width := fun other member => nonnegative other (List.mem_cons_of_mem _ member)
      have rest : 0 ≤ widths.sum := List.sum_nonneg tail
      exact ⟨⟨by omega, by omega⟩, ih tail (by omega) (by omega)⟩

namespace Layout

theorem ten_le_available (termWidth : Int) (table : Table) : 10 ≤ available termWidth table :=
  le_max_left 10 _

theorem average_eq (termWidth : Int) (table : Table) :
    average termWidth table = available termWidth table / table.columns.length :=
  Int.tdiv_eq_ediv_of_nonneg (by have := ten_le_available termWidth table; omega)

theorem average_nonneg (termWidth : Int) (table : Table) : 0 ≤ average termWidth table := by
  have := ten_le_available termWidth table
  rw [average_eq]
  exact Int.ediv_nonneg (by omega) (by omega)

theorem average_le_available (termWidth : Int) (table : Table) :
    average termWidth table ≤ available termWidth table := by
  have := ten_le_available termWidth table
  rw [average_eq]
  exact Int.ediv_le_self _ (by omega)

theorem columnWidth_nonneg (termWidth : Int) {table : Table} {column : Column} (member : column ∈ table.columns)
    (small : totalLength table < 2 ^ 31) : 0 ≤ columnWidth termWidth table column := by
  have natural := maxLen_eq ((naturalLength_le_totalLength member).trans_lt small)
  unfold columnWidth
  split
  · exact le_trans (by decide) (le_max_left 5 _)
  · omega

theorem inInt_average {termWidth : Int} (fits : InInt termWidth) (table : Table) :
    InInt (average termWidth table) := by
  have lower := average_nonneg termWidth table
  have upper := average_le_available termWidth table
  have bound : available termWidth table < 2 ^ 31 := by
    have := fits.2
    unfold available
    omega
  exact ⟨by omega, by omega⟩

end Layout

theorem printable_displayed {termWidth : Int} {table : Table} {column : Column} {text : Bytes}
    (fits : InInt termWidth) (shown : ¬ Refused termWidth table) (displayed : Displayed table column text) :
    Printable (columnWidth termWidth table column) text := by
  intro cut
  obtain ⟨-, width, enough⟩ := columnWidth_of_cut displayed shown cut
  have := inInt_average fits table
  rw [width]
  exact ⟨⟨by omega, by have := this.2; omega⟩, by omega⟩

theorem printable_of_nonneg {termWidth : Int} {table : Table} (fits : InInt termWidth)
    (shown : ¬ Refused termWidth table)
    (nonnegative : ∀ column ∈ table.columns, 0 ≤ columnWidth termWidth table column) :
    (∀ column ∈ table.columns, Printable (columnWidth termWidth table column) column.name) ∧
      (∀ column ∈ table.columns, 0 ≤ columnWidth termWidth table column) ∧
      ∀ r < printRows table, ∀ column ∈ table.columns,
        Printable (columnWidth termWidth table column) (column.get r) :=
  ⟨fun _ _ => printable_displayed fits shown (Or.inl rfl), nonnegative,
    fun r bound _ _ => printable_displayed fits shown (Or.inr ⟨r, bound, rfl⟩)⟩

theorem safe_of_bounds {termWidth : Int} {table : Table} (fits : InInt termWidth) (positive : 0 < termWidth)
    (small : totalLength table < 2 ^ 31) (few : table.columns.length * 5 < 2 ^ 31)
    (columns : table.columns ≠ []) : Safe termWidth table where
  margin := ⟨by omega, by have := fits.2; omega⟩
  separators := ⟨by omega, by omega⟩
  budget := ⟨by omega, by have := fits.2; omega⟩
  sums := by
    apply sumsFit_of_sum _ le_rfl
    · rw [Int.zero_add, sum_naturalWidths small]
      exact_mod_cast small
    · rw [naturalWidths_eq small]
      simp
  floor := ⟨by omega, by omega⟩
  columns := columns
  average := inInt_average fits table
  printable shown := printable_of_nonneg fits shown fun _ member => columnWidth_nonneg termWidth member small

theorem tableToString_returns {termWidth : Int} {table : Table} (fits : InInt termWidth) (positive : 0 < termWidth)
    (small : totalLength table < 2 ^ 31) (few : table.columns.length * 5 < 2 ^ 31)
    (columns : table.columns ≠ []) : tableToString termWidth table = .ok (text termWidth table) :=
  tableToString_eq_ok.mpr ⟨safe_of_bounds fits positive small few columns, rfl⟩

theorem toString_ofTable (g_display_width : CInt) (terminal : Terminal) (table : Table) (getString : Bytes) :
    toString g_display_width terminal (Constant.ofTable table getString) =
      tableToString (getTermWidth g_display_width terminal).val table := rfl

theorem toString_returns (g_display_width : CInt) (terminal : Terminal) {table : Table} (getString : Bytes)
    (small : totalLength table < 2 ^ 31) (few : table.columns.length * 5 < 2 ^ 31) (columns : table.columns ≠ []) :
    toString g_display_width terminal (Constant.ofTable table getString) =
      .ok (text (getTermWidth g_display_width terminal).val table) :=
  tableToString_returns (getTermWidth g_display_width terminal).property
    (getTermWidth_pos g_display_width terminal) small few columns

/-- Rendering a table completes exactly when the table has a column: without one, the width left for
the columns is divided by zero. -/
theorem toString_completes_iff (g_display_width : CInt) (terminal : Terminal) (table : Table)
    (getString : Bytes) (small : totalLength table < 2 ^ 31) (few : table.columns.length * 5 < 2 ^ 31) :
    (∃ text, toString g_display_width terminal (Constant.ofTable table getString) = .ok text) ↔
      table.columns ≠ [] := by
  constructor
  · rintro ⟨text, returned⟩
    rw [toString_ofTable] at returned
    exact (tableToString_eq_ok.mp returned).1.columns
  · intro columns
    exact ⟨_, toString_returns g_display_width terminal getString small few columns⟩

theorem few_of_le {n : Nat} (small : n ≤ 1001) : n < 2 ^ 31 := Nat.lt_of_le_of_lt small (by decide)

def headers (names : List Bytes) (few : names.length < 2 ^ 31) : Table where
  size := 0
  columns := names.map fun name => ⟨name, []⟩
  size_int := by decide
  columns_int := by rwa [List.length_map]
  rectangular := by simp

def noColumns : Table := headers [] (by decide)

def width80 : CInt := int 80

theorem toString_completes_at_one_column :
    ∃ text, toString width80 ⟨none, none⟩
      (Constant.ofTable (headers [[]] (by decide)) []) = .ok text :=
  (toString_completes_iff width80 ⟨none, none⟩ _ [] (by decide) (by decide)).mpr (by decide)

theorem toString_divides_by_zero :
    totalLength noColumns < 2 ^ 31 ∧ noColumns.columns.length * 5 < 2 ^ 31 ∧
      0 < (getTermWidth width80 ⟨none, none⟩).val ∧
      toString width80 ⟨none, none⟩ (Constant.ofTable noColumns []) = .error (.fault .divideByZero) := by
  refine ⟨by decide, by decide, by decide, ?_⟩
  decide

end Ddbclient.Client

import Ddbclient.Client.Safety
import Ddbclient.Lib.Grid
import Mathlib.Algebra.Group.Action.Defs

/-!
# The printed table is a grid

When nothing overflows, every field of a printed table has exactly its column's width, so the lines
are rows of the grid library.
-/

namespace Ddbclient.Client
open Lib.Checked Lib.Lines Lib.Grid Layout

abbrev bar : UInt8 := 124

abbrev separator : Bytes := bytes " | "

abbrev ellipsis : Bytes := bytes "..."

def widths (termWidth : Int) (table : Table) : List Nat :=
  table.columns.map fun column => (columnWidth termWidth table column).toNat

section Fields

variable {termWidth : Int} {table : Table}

theorem ofSize_displayed (small : totalLength table < 2 ^ 31) {column : Column} {text : Bytes}
    (member : column ∈ table.columns) (displayed : Displayed table column text) :
    ofSize text.length = text.length :=
  ofSize_eq ((displayed.le_naturalLength.trans (naturalLength_le_totalLength member)).trans_lt small)

theorem five_le_columnWidth (small : totalLength table < 2 ^ 31) (notRefused : ¬ Refused termWidth table)
    {column : Column} {text : Bytes} (member : column ∈ table.columns) (displayed : Displayed table column text)
    (long : (columnWidth termWidth table column).toNat < text.length) :
    5 ≤ (columnWidth termWidth table column).toNat := by
  have cut : columnWidth termWidth table column < ofSize text.length := by
    rw [ofSize_displayed small member displayed]
    omega
  obtain ⟨-, width, enough⟩ := columnWidth_of_cut displayed notRefused cut
  omega

theorem setw_shown (small : totalLength table < 2 ^ 31) (notRefused : ¬ Refused termWidth table)
    {column : Column} {text : Bytes} (member : column ∈ table.columns) (displayed : Displayed table column text) :
    setw (columnWidth termWidth table column) (shown (columnWidth termWidth table column) text) =
      fit space ellipsis (columnWidth termWidth table column).toNat text := by
  have size := ofSize_displayed small member displayed
  have nonnegative := columnWidth_nonneg termWidth member small
  by_cases long : (columnWidth termWidth table column).toNat < text.length
  · have enough := five_le_columnWidth small notRefused member displayed long
    have kept : (columnWidth termWidth table column - 3).toNat =
        (columnWidth termWidth table column).toNat - ellipsis.length := by
      have : ellipsis.length = 3 := rfl
      omega
    have full : (fit space ellipsis (columnWidth termWidth table column).toNat text).length =
        (columnWidth termWidth table column).toNat := length_fit fun _ => by
      have : ellipsis.length = 3 := rfl
      omega
    rw [shown, if_pos (by omega), kept]
    rw [fit, if_neg (by omega)] at full ⊢
    rw [setw, full, Nat.sub_self, List.replicate_zero, List.nil_append]
  · rw [shown, if_neg (by omega), fit, if_pos (by omega), setw, padLeft]

theorem line_eq (small : totalLength table < 2 ^ 31) (notRefused : ¬ Refused termWidth table)
    {text : Column → Bytes} (displayed : ∀ column ∈ table.columns, Displayed table column (text column)) :
    line table.columns (columnWidth termWidth table) text = row separator (table.columns.map fun column =>
      fit space ellipsis (columnWidth termWidth table column).toNat (text column)) := by
  rw [row, List.flatMap_map]
  exact List.flatMap_congr fun column member => by rw [setw_shown small notRefused member (displayed column member)]

theorem rules_eq : rules table.columns (columnWidth termWidth table) =
    row separator ((widths termWidth table).map fun width => List.replicate width dash) := by
  rw [row, widths, List.map_map, List.flatMap_map]
  rfl

theorem length_fitted (small : totalLength table < 2 ^ 31) (notRefused : ¬ Refused termWidth table)
    {text : Column → Bytes} (displayed : ∀ column ∈ table.columns, Displayed table column (text column)) :
    (table.columns.map fun column => fit space ellipsis (columnWidth termWidth table column).toNat (text column)).map
      List.length = widths termWidth table := by
  rw [List.map_map]
  refine List.map_congr_left fun column member => length_fit fun long => ?_
  exact le_trans (by decide) (five_le_columnWidth small notRefused member (displayed column member) long)

theorem cut_line (small : totalLength table < 2 ^ 31) (notRefused : ¬ Refused termWidth table)
    {text : Column → Bytes} (displayed : ∀ column ∈ table.columns, Displayed table column (text column)) :
    cut separator (widths termWidth table) (line table.columns (columnWidth termWidth table) text) =
      some (List.zipWith (fit space ellipsis) (widths termWidth table) (table.columns.map text)) := by
  rw [line_eq small notRefused displayed, cut_row _ _ _ (length_fitted small notRefused displayed), widths,
    List.zipWith_map, List.zipWith_self]

theorem length_line (small : totalLength table < 2 ^ 31) (notRefused : ¬ Refused termWidth table)
    {text : Column → Bytes} (displayed : ∀ column ∈ table.columns, Displayed table column (text column)) :
    (line table.columns (columnWidth termWidth table) text).length =
      (widths termWidth table).sum + 3 * table.columns.length := by
  rw [line_eq small notRefused displayed, length_row, length_fitted small notRefused displayed, List.length_map,
    Nat.mul_comm]
  rfl

theorem length_rules : (rules table.columns (columnWidth termWidth table)).length =
    (widths termWidth table).sum + 3 * table.columns.length := by
  have three : separator.length = 3 := rfl
  rw [rules_eq, length_row, List.map_map, List.length_map, three, Nat.mul_comm]
  simp [Function.comp_def, widths]

theorem length_of_mem_lines (small : totalLength table < 2 ^ 31) (notRefused : ¬ Refused termWidth table) :
    ∀ line ∈ lines table (columnWidth termWidth table),
      line.length = (widths termWidth table).sum + 3 * table.columns.length := by
  apply forall_mem_lines
  · exact length_line small notRefused fun _ _ => Or.inl rfl
  · exact length_rules
  · exact fun r bound => length_line small notRefused fun _ _ => Or.inr ⟨r, bound, rfl⟩

end Fields

def NewlineFree (table : Table) : Prop :=
  ∀ column ∈ table.columns, newline ∉ column.name ∧ ∀ cell ∈ column.cells, newline ∉ cell

instance (table : Table) : Decidable (NewlineFree table) :=
  inferInstanceAs (Decidable (∀ column ∈ table.columns, newline ∉ column.name ∧ ∀ cell ∈ column.cells, newline ∉ cell))

theorem NewlineFree.displayed {table : Table} (free : NewlineFree table) {column : Column} {text : Bytes}
    (member : column ∈ table.columns) (displayed : Displayed table column text) : newline ∉ text := by
  rcases displayed.mem member with rfl | cell
  · exact (free column member).1
  · exact (free column member).2 text cell

theorem newline_not_mem_lines {termWidth : Int} {table : Table} (free : NewlineFree table)
    (small : totalLength table < 2 ^ 31) (notRefused : ¬ Refused termWidth table) :
    ∀ line ∈ lines table (columnWidth termWidth table), newline ∉ line := by
  have texts {text : Column → Bytes} (displayed : ∀ column ∈ table.columns, Displayed table column (text column)) :
      newline ∉ line table.columns (columnWidth termWidth table) text := by
    rw [line_eq small notRefused displayed]
    refine not_mem_row (by decide) (List.forall_mem_map.mpr fun column member => ?_)
    exact not_mem_fit (by decide) (by decide) (free.displayed member (displayed column member))
  apply forall_mem_lines
  · exact texts fun _ _ => Or.inl rfl
  · rw [rules_eq]
    refine not_mem_row (by decide) (List.forall_mem_map.mpr fun width _ member => ?_)
    exact absurd (List.eq_of_mem_replicate member) (by decide)
  · exact fun r bound => texts fun _ _ => Or.inr ⟨r, bound, rfl⟩

/-- A text is the table drawn as a grid with a header, a dash line, a line for each of the first 1000
rows and a count of the rows when there are more. The dash line gives the widths: cut at them, every
line yields its headers or cells, padded on the left, or cut and marked when they are too long. -/
structure AlignedGrid (table : Table) (text : Bytes) (body : List Bytes) (widths : List Nat) : Prop where
  text_eq : text = joinLines newline body ++
    if table.size > 1000 then
      bytes "(" ++ decimal table.size ++ bytes " rows total, only first 1000 displayed)\n"
    else []
  count : body.length = min table.size 1000 + 2
  newlineFree : ∀ line ∈ body, newline ∉ line
  aligned : ∀ line ∈ body, ∀ other ∈ body, line.length = other.length
  widths_eq : widths = runs dash bar 0 (body.getD 1 [])
  columns : widths.length = table.columns.length
  rule : cut separator widths (body.getD 1 []) = some (widths.map fun width => List.replicate width dash)
  header : cut separator widths (body.getD 0 []) =
    some (List.zipWith (fit space ellipsis) widths (table.columns.map Column.name))
  rows : ∀ r < min table.size 1000, cut separator widths (body.getD (r + 2) []) =
    some (List.zipWith (fit space ellipsis) widths (table.columns.map fun column => column.get r))
  cutWidth : ∀ field ∈ table.columns.zip widths, ∀ text, Displayed table field.1 text →
    field.2 < text.length → 5 ≤ field.2

theorem trailer_eq (rows : Nat) : trailer rows =
    if rows > 1000 then bytes "(" ++ decimal rows ++ bytes " rows total, only first 1000 displayed)\n" else [] := by
  have tail : bytes " rows total, only first " ++ decimal maxRows ++ bytes " displayed)\n" =
      bytes " rows total, only first 1000 displayed)\n" := by decide
  simp only [trailer, maxRows, ← tail, List.append_assoc]

theorem alignedGrid_printed {termWidth : Int} {table : Table} (free : NewlineFree table)
    (small : totalLength table < 2 ^ 31) (notRefused : ¬ Refused termWidth table) :
    AlignedGrid table (printed table (columnWidth termWidth table)) (lines table (columnWidth termWidth table))
      (widths termWidth table) where
  text_eq := by rw [printed, trailer_eq]
  count := by simp [lines, printRows, maxRows]
  newlineFree := newline_not_mem_lines free small notRefused
  aligned line member other otherMember := by
    rw [length_of_mem_lines small notRefused line member, length_of_mem_lines small notRefused other otherMember]
  widths_eq := by
    change _ = runs dash bar 0 (rules table.columns (columnWidth termWidth table))
    rw [rules_eq, show separator = [space] ++ bar :: [space] from rfl, runs_row (by decide) (by decide) (by decide)]
  columns := by rw [widths, List.length_map]
  rule := by
    change cut separator _ (rules table.columns (columnWidth termWidth table)) = _
    rw [rules_eq]
    exact cut_row _ _ _ (by simp [Function.comp_def])
  header := cut_line small notRefused fun _ _ => Or.inl rfl
  rows r bound := by
    have located : (lines table (columnWidth termWidth table)).getD (r + 2) [] =
        line table.columns (columnWidth termWidth table) fun column => column.get r := by
      simp [lines, List.getD_eq_getElem?_getD, List.getElem?_range (show r < printRows table from bound)]
    rw [located]
    exact cut_line small notRefused fun _ _ => Or.inr ⟨r, bound, rfl⟩
  cutWidth field member text displayed long := by
    have pairs : table.columns.zip (widths termWidth table) =
        table.columns.map fun column => (column, (columnWidth termWidth table column).toNat) := by
      conv_lhs => rw [widths, ← List.map_id table.columns, List.map_map]
      exact List.zip_map'
    rw [pairs] at member
    obtain ⟨column, inside, rfl⟩ := List.mem_map.mp member
    exact five_le_columnWidth small notRefused inside displayed long

/-- Whatever text `toString` returns for a table with columns is the warning or an aligned grid, and
it does return a text when the widths fit in `int`. -/
theorem toString_aligned (g_display_width : CInt) (terminal : Terminal) (table : Table) (getString : Bytes)
    (columns : table.columns ≠ []) (free : NewlineFree table) (small : totalLength table < 2 ^ 31) :
    (∀ text, toString g_display_width terminal (Constant.ofTable table getString) = .ok text →
      text ≠ warning table.columns.length → ∃ body widths, AlignedGrid table text body widths) ∧
    (table.columns.length * 5 < 2 ^ 31 →
      ∃ text, toString g_display_width terminal (Constant.ofTable table getString) = .ok text) := by
  constructor
  · intro out returned notWarning
    rw [toString_ofTable] at returned
    obtain ⟨notRefused, rfl⟩ := tableToString_printed returned notWarning
    exact ⟨_, _, alignedGrid_printed free small notRefused⟩
  · intro few
    exact ⟨_, toString_returns g_display_width terminal getString small few columns⟩

def twoRows : Table :=
  ⟨2, [⟨bytes "id", [bytes "1", bytes "23"]⟩, ⟨bytes "name", [bytes "ab", []]⟩], by decide, by decide, by decide⟩

theorem toString_aligned_two_rows :
    (∀ text, toString width80 ⟨none, none⟩ (Constant.ofTable twoRows []) = .ok text →
      text ≠ warning 2 → ∃ body widths, AlignedGrid twoRows text body widths) ∧
    (2 * 5 < 2 ^ 31 → ∃ text, toString width80 ⟨none, none⟩ (Constant.ofTable twoRows []) = .ok text) :=
  toString_aligned width80 ⟨none, none⟩ twoRows [] (by decide) (by decide) (by decide)

/-! ## The width of the lines -/

theorem sum_widths_le {termWidth : Int} {table : Table} (columns : table.columns ≠ [])
    (small : totalLength table < 2 ^ 31) (notRefused : ¬ Refused termWidth table) :
    ((widths termWidth table).sum : Int) ≤ available termWidth table := by
  by_cases shrunk : Shrunk termWidth table
  · have enough : 5 ≤ average termWidth table := Int.not_lt.mp notRefused
    have each : ∀ width ∈ widths termWidth table, width ≤ (average termWidth table).toNat := by
      refine List.forall_mem_map.mpr fun column _ => ?_
      rw [columnWidth, if_pos shrunk]
      omega
    have sum := List.sum_le_card_nsmul _ _ each
    rw [smul_eq_mul, widths, List.length_map] at sum
    have some : (table.columns.length : Int) ≠ 0 := by simpa using columns
    calc ((widths termWidth table).sum : Int)
        ≤ (table.columns.length * (average termWidth table).toNat : Nat) := Int.ofNat_le.mpr sum
      _ = table.columns.length * (available termWidth table / table.columns.length) := by
          rw [Int.natCast_mul, Int.toNat_of_nonneg (by omega), average_eq]
      _ ≤ available termWidth table := Int.mul_ediv_self_le some
  · have natural : widths termWidth table = table.columns.map (naturalLength table) := by
      refine List.map_congr_left fun column member => ?_
      rw [columnWidth, if_neg shrunk, maxLen_eq ((naturalLength_le_totalLength member).trans_lt small)]
      rfl
    have fits := Int.not_lt.mp shrunk
    rw [sum_naturalWidths small] at fits
    rw [natural]
    exact (le_max_left _ _).trans fits

theorem available_of_three {termWidth : Int} {table : Table} (many : 3 ≤ table.columns.length)
    (notRefused : ¬ Refused termWidth table) :
    available termWidth table = termWidth - 5 - table.columns.length * 3 := by
  have enough : 5 ≤ available termWidth table / table.columns.length := by
    rw [← average_eq]
    exact Int.not_lt.mp notRefused
  have := (Int.le_ediv_iff_mul_le (by omega)).mp enough
  unfold available at this ⊢
  omega

theorem length_le_budget {termWidth : Int} {table : Table} (columns : table.columns ≠ [])
    (small : totalLength table < 2 ^ 31) (notRefused : ¬ Refused termWidth table) :
    ∀ line ∈ lines table (columnWidth termWidth table),
      (line.length : Int) ≤ max (termWidth - 5) (10 + 3 * table.columns.length) ∧
      (3 ≤ table.columns.length ∨ 15 + 3 * (table.columns.length : Int) ≤ termWidth →
        (line.length : Int) ≤ termWidth - 5) := by
  intro line member
  have bound := sum_widths_le columns small notRefused
  rw [length_of_mem_lines small notRefused line member]
  refine ⟨by unfold available at bound; omega, ?_⟩
  rintro (many | wide)
  · rw [available_of_three many notRefused] at bound
    omega
  · unfold available at bound
    omega

/-- The header, the dash line and the data lines of a text that is not the warning stay within the
terminal width, or within the least budget. -/
theorem toString_line_width (g_display_width : CInt) (terminal : Terminal) (table : Table) (getString : Bytes)
    (columns : table.columns ≠ []) (free : NewlineFree table) (small : totalLength table < 2 ^ 31)
    (out : Bytes) (returned : toString g_display_width terminal (Constant.ofTable table getString) = .ok out)
    (notWarning : out ≠ warning table.columns.length) :
    ∀ line ∈ (splitLines newline out).take (min table.size 1000 + 2),
      (line.length : Int) ≤
        max ((getTermWidth g_display_width terminal).val - 5) (10 + 3 * table.columns.length) ∧
      (3 ≤ table.columns.length ∨
          15 + 3 * (table.columns.length : Int) ≤ (getTermWidth g_display_width terminal).val →
        (line.length : Int) ≤ (getTermWidth g_display_width terminal).val - 5) := by
  rw [toString_ofTable] at returned
  obtain ⟨notRefused, rfl⟩ := tableToString_printed returned notWarning
  have count := (alignedGrid_printed free small notRefused).count
  rw [printed,
    splitLines_joinLines_append _ _ (newline_not_mem_lines free small notRefused), ← count, List.take_left]
  exact length_le_budget columns small notRefused

theorem toString_line_width_two_rows :
    toString width80 ⟨none, none⟩ (Constant.ofTable twoRows []) = .ok (text 80 twoRows) ∧
      ∀ line ∈ (splitLines newline (text 80 twoRows)).take 4,
        (line.length : Int) ≤ max (80 - 5) (10 + 3 * 2) ∧
        (3 ≤ 2 ∨ 15 + 3 * (2 : Int) ≤ 80 → (line.length : Int) ≤ 80 - 5) := by
  have returned : toString width80 ⟨none, none⟩ (Constant.ofTable twoRows []) = .ok (text 80 twoRows) :=
    toString_returns width80 ⟨none, none⟩ [] (by decide) (by decide) (by decide)
  exact ⟨returned, toString_line_width width80 ⟨none, none⟩ twoRows [] (by decide) (by decide) (by decide)
    (text 80 twoRows) returned (by decide +kernel)⟩

end Ddbclient.Client

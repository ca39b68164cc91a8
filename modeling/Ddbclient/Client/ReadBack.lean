import Ddbclient.Client.Visibility

/-!
# Reading a printed table back

The dash line says where the columns are, so a program that is given the text can take the table out of it
again. What is lost is the padding, and with it the blanks in front of a text.
-/

namespace Ddbclient.Client
open Lib.Checked Lib.Lines Lib.Grid Layout

/-- What can be read of a table: how many rows it has, the header, and the rows that were printed. -/
structure Reading where
  size : Int
  header : List Bytes
  rows : List (List Bytes)
  deriving DecidableEq

def unpad (text : Bytes) : Bytes := text.dropWhile (· = space)

def readSize (lines : List Bytes) : Option Int :=
  match lines[maxRows]? with
  | none => some lines.length
  | some count => readNumber ((count.drop 1).takeWhile isdigit)

def readTable (text : Bytes) : Option Reading := do
  let lines := splitLines newline text
  let size ← readSize (lines.drop 2)
  let (header, rows) ← readGrid dash bar separator (lines.take (maxRows + 2))
  return ⟨size, header.map unpad, rows.map fun fields => fields.map unpad⟩

def Reading.of (table : Table) (field : Column → Bytes → Bytes) : Reading where
  size := table.size
  header := table.columns.map fun column => field column column.name
  rows := (List.range (printRows table)).map fun r => table.columns.map fun column => field column (column.get r)

theorem Reading.of_congr {table : Table} {field field' : Column → Bytes → Bytes}
    (same : ∀ column ∈ table.columns, ∀ text, Displayed table column text → field column text = field' column text) :
    Reading.of table field = Reading.of table field' := by
  rw [Reading.of, Reading.of, Reading.mk.injEq]
  refine ⟨rfl, List.map_congr_left fun column member => same column member _ (Or.inl rfl), ?_⟩
  apply List.map_congr_left
  intro r inside
  apply List.map_congr_left
  intro column member
  exact same column member _ (Or.inr ⟨r, List.mem_range.mp inside, rfl⟩)

/-! ## The lines of a text -/

def countLine (rows : Nat) : Bytes := bytes "(" ++ decimal rows ++ bytes " rows total, only first 1000 displayed)"

def countLines (rows : Nat) : List Bytes := if rows > maxRows then [countLine rows] else []

theorem newline_not_mem_countLine (rows : Nat) : newline ∉ countLine rows := by
  have number : newline ∉ decimal rows := by
    intro member
    exact absurd (decimal_bounds rows newline member).1 (by decide)
  simp only [countLine, List.mem_append, not_or]
  exact ⟨⟨by decide, number⟩, by decide⟩

theorem trailer_countLines (rows : Nat) : trailer rows = joinLines newline (countLines rows) := by
  rw [trailer_eq, countLines, maxRows]
  by_cases more : rows > 1000
  · have last : bytes " rows total, only first 1000 displayed)\n" =
        bytes " rows total, only first 1000 displayed)" ++ [newline] := by decide
    rw [if_pos more, if_pos more, last, joinLines_cons, joinLines_nil, countLine]
    simp only [List.append_assoc]
  · rw [if_neg more, if_neg more, joinLines_nil]

variable {termWidth : Int} {table : Table}

theorem splitLines_printed (free : NewlineFree table) (small : totalLength table < 2 ^ 31)
    (notRefused : ¬ Refused termWidth table) :
    splitLines newline (printed table (columnWidth termWidth table)) =
      lines table (columnWidth termWidth table) ++ countLines table.size := by
  rw [printed, splitLines_joinLines_append _ _ (newline_not_mem_lines free small notRefused), trailer_countLines,
    splitLines_joinLines]
  intro line member
  rw [countLines] at member
  split at member
  · obtain rfl := List.mem_singleton.mp member
    exact newline_not_mem_countLine table.size
  · cases member

theorem readNumber_countLine (rows : Nat) : readNumber (((countLine rows).drop 1).takeWhile isdigit) = some (rows : Int) := by
  have digits : ∀ b ∈ decimal rows, isdigit b = true := by
    intro b member
    rw [decimal, if_neg (by omega), List.nil_append] at member
    obtain ⟨c, inside, rfl⟩ := List.mem_map.mp member
    exact isdigit_toUInt8 (Nat.isDigit_of_mem_toDigits (by decide) (by decide) inside)
  have text : (countLine rows).drop 1 = decimal rows ++ space :: bytes "rows total, only first 1000 displayed)" := rfl
  rw [text, List.takeWhile_append_of_pos digits, List.takeWhile_cons_of_neg (by decide), List.append_nil,
    readNumber_decimal]

theorem readSize_rows {rows : List Bytes} {size : Nat} (printedRows : rows.length = min size maxRows) :
    readSize (rows ++ countLines size) = some (size : Int) := by
  unfold readSize countLines
  by_cases more : size > maxRows
  · have all : rows.length = maxRows := by omega
    rw [if_pos more, List.getElem?_append_right (by omega), all, Nat.sub_self]
    exact readNumber_countLine size
  · have none : rows[maxRows]? = none := List.getElem?_eq_none (by omega)
    rw [if_neg more, List.append_nil, none]
    exact congrArg some (by omega)

/-! ## The whole text -/

def fitted (termWidth : Int) (table : Table) (text : Column → Bytes) : List Bytes :=
  table.columns.map fun column => fit space ellipsis (columnWidth termWidth table column).toNat (text column)

theorem readGrid_lines (small : totalLength table < 2 ^ 31) (notRefused : ¬ Refused termWidth table) :
    readGrid dash bar separator (lines table (columnWidth termWidth table)) =
      some (fitted termWidth table Column.name,
        (List.range (printRows table)).map fun r => fitted termWidth table fun column => column.get r) := by
  have rows : (List.range (printRows table)).map (fun r =>
        line table.columns (columnWidth termWidth table) fun column => column.get r) =
      ((List.range (printRows table)).map fun r => fitted termWidth table fun column => column.get r).map
        (row separator) := by
    rw [List.map_map]
    apply List.map_congr_left
    intro r inside
    exact line_eq small notRefused fun _ _ => Or.inr ⟨r, List.mem_range.mp inside, rfl⟩
  rw [lines, line_eq small notRefused (fun _ _ => Or.inl rfl), rules_eq, rows]
  apply readGrid_rows [space] [space] (by decide) (by decide) (by decide)
  intro fields member
  rcases List.mem_cons.mp member with rfl | member
  · exact length_fitted small notRefused fun _ _ => Or.inl rfl
  · obtain ⟨r, inside, rfl⟩ := List.mem_map.mp member
    exact length_fitted small notRefused fun _ _ => Or.inr ⟨r, List.mem_range.mp inside, rfl⟩

theorem take_lines (table : Table) (width : Column → Int) :
    (lines table width ++ countLines table.size).take (maxRows + 2) = lines table width := by
  have count : (lines table width).length = min table.size maxRows + 2 := by simp [lines, printRows]
  rw [countLines]
  by_cases more : table.size > maxRows
  · apply List.take_left'
    omega
  · rw [if_neg more, List.append_nil]
    exact List.take_of_length_le (by omega)

theorem readTable_printed (free : NewlineFree table) (small : totalLength table < 2 ^ 31)
    (notRefused : ¬ Refused termWidth table) :
    readTable (printed table (columnWidth termWidth table)) =
      some (Reading.of table fun column text =>
        unpad (fit space ellipsis (columnWidth termWidth table column).toNat text)) := by
  have behind : (lines table (columnWidth termWidth table) ++ countLines table.size).drop 2 =
      ((List.range (printRows table)).map fun r =>
        line table.columns (columnWidth termWidth table) fun column => column.get r) ++ countLines table.size := rfl
  unfold readTable
  rw [splitLines_printed free small notRefused]
  dsimp only
  rw [behind, readSize_rows (by simp [printRows]), take_lines, readGrid_lines small notRefused]
  simp [Reading.of, fitted, Function.comp_def]

/-! ## Tables that fit -/

/-- Nothing of the table is cut: its untruncated layout fits, and tables of so many columns are shown at all. -/
structure Fits (termWidth : Int) (table : Table) : Prop where
  columns : table.columns ≠ []
  width : (fullWidth table : Int) ≤ termWidth - 5
  shown : table.columns.length ≤ 2 ∨ 8 * (table.columns.length : Int) + 5 ≤ termWidth

namespace Fits

theorem notRefused (fits : Fits termWidth table) : ¬ Refused termWidth table := by
  have shown := fits.shown
  rw [refused_iff fits.columns]
  omega

theorem returns (fits : Fits termWidth table) (inInt : InInt termWidth) (positive : 0 < termWidth) :
    tableToString termWidth table = .ok (printed table (columnWidth termWidth table)) := by
  have few : table.columns.length * 5 < 2 ^ 31 := by
    have := inInt.2
    have := fits.shown
    omega
  rw [← text_of_shown fits.notRefused]
  exact tableToString_returns inInt positive (totalLength_small fits.width inInt) few fits.columns

theorem unpad_fit (fits : Fits termWidth table) (inInt : InInt termWidth) {column : Column} {text : Bytes}
    (member : column ∈ table.columns) (displayed : Displayed table column text) :
    unpad (fit space ellipsis (columnWidth termWidth table column).toNat text) = unpad text := by
  have small := totalLength_small fits.width inInt
  have natural := not_shrunk_of_fits fits.columns fits.width inInt fits.notRefused
  have wide : ofSize text.length ≤ columnWidth termWidth table column := by
    rw [columnWidth, if_neg natural]
    exact displayed.le_maxLen
  rw [ofSize_displayed small member displayed] at wide
  rw [fit, if_pos (by omega)]
  exact dropWhile_padLeft space _ text

end Fits

/-- A table that fits and holds no newlines can be read back from the text that `toString` returns: the number of its
rows, and without the blanks in front the header and the rows up to the limit. A newline in a text would end the line
that the text stands on. -/
theorem toString_read_back (g_display_width : CInt) (terminal : Terminal) {table : Table} (getString : Bytes)
    (free : NewlineFree table) (fits : Fits (getTermWidth g_display_width terminal).val table) :
    ∃ text, toString g_display_width terminal (Constant.ofTable table getString) = .ok text ∧
      readTable text = some (Reading.of table fun _ text => unpad text) := by
  rw [toString_ofTable]
  have inInt := (getTermWidth g_display_width terminal).property
  have positive := getTermWidth_pos g_display_width terminal
  refine ⟨_, fits.returns inInt positive, ?_⟩
  rw [readTable_printed free (totalLength_small fits.width inInt) fits.notRefused]
  apply congrArg some
  apply Reading.of_congr
  intro column member text displayed
  exact fits.unpad_fit inInt member displayed

theorem toString_read_back_two_rows :
    ∃ text, toString width80 ⟨none, none⟩ (Constant.ofTable twoRows []) = .ok text ∧
      readTable text = some ⟨2, [bytes "id", bytes "name"], [[bytes "1", bytes "ab"], [bytes "23", []]]⟩ :=
  toString_read_back width80 ⟨none, none⟩ [] (by decide) (⟨by decide, by decide, by decide⟩ : Fits 80 twoRows)

end Ddbclient.Client

import Ddbclient.TerminalUtil

/-!
# Rendering a result as text

`toString` of `Client.cpp`. The results come from the DolphinDB API, which is not part of the
repository; the model takes what the client reads of them.
-/

namespace Ddbclient
open Lib.Checked

structure Column where
  name : Bytes
  cells : List Bytes
  deriving DecidableEq

/-- `table->getColumn(c)->get(r)->getString()` -/
def Column.get (column : Column) (r : Nat) : Bytes := column.cells.getD r []

/-- The API counts rows and columns with `int`. -/
structure Table where
  size : Nat
  columns : List Column
  size_int : size < 2 ^ 31
  columns_int : columns.length < 2 ^ 31
  rectangular : ∀ column ∈ columns, column.cells.length = size

structure Constant where
  isNull : Bool
  table : Option Table
  getString : Bytes

def Constant.ofTable (table : Table) (getString : Bytes) : Constant := ⟨false, some table, getString⟩

namespace Client

abbrev Result := Except (Failure Bytes)

def maxRows : Nat := 1000

/-- `s.substr(0, length)`. A negative length would be converted to a huge one and keep all of `s`;
here it is a fault. -/
def substr (s : Bytes) (length : Int) : Result Bytes :=
  if length < 0 then .error (.fault .negativeLength) else .ok (s.take length.toNat)

def setw (width : Int) (s : Bytes) : Bytes := List.replicate (width.toNat - s.length) space ++ s

/-- `std::string(width, '-')` throws `std::length_error` when the width is negative. -/
def dashes (width : Int) : Result Bytes :=
  if width < 0 then .error (.exception (bytes "basic_string::_S_create"))
  else .ok (List.replicate width.toNat dash)

def maxLen (printRows : Nat) (column : Column) : Int :=
  (List.range printRows).foldl (fun maxLen r => max maxLen (ofSize (column.get r).length))
    (ofSize column.name.length)

def measure (printRows : Nat) : Int → List Column → Result (List Int × Int)
  | totalActualWidth, [] => return ([], totalActualWidth)
  | totalActualWidth, column :: columns => do
      let width := maxLen printRows column
      let (colWidths, total) ← measure printRows (← add totalActualWidth width) columns
      return (width :: colWidths, total)

def truncate (text : Bytes) (width : Int) : Result Bytes :=
  if ofSize text.length > width then do
    let kept ← substr text (← sub width 3)
    return kept ++ bytes "..."
  else .ok text

def printField (text : Bytes) (width : Int) : Result Bytes := do
  let shown ← truncate text width
  return setw width shown ++ bytes " | "

def printLine (texts : List Bytes) (colWidths : List Int) : Result Bytes := do
  let fields ← collect (fun field => printField field.1 field.2) (texts.zip colWidths)
  return fields ++ [newline]

def printRule (width : Int) : Result Bytes := do
  let rule ← dashes width
  return setw width rule ++ bytes " | "

def printRules (colWidths : List Int) : Result Bytes := do
  let rules ← collect printRule colWidths
  return rules ++ [newline]

def trailer (rows : Nat) : Bytes :=
  if rows > maxRows then
    bytes "(" ++ decimal rows ++ bytes " rows total, only first " ++ decimal maxRows ++ bytes " displayed)\n"
  else []

def printTable (table : Table) (colWidths : List Int) : Result Bytes := do
  let header ← printLine (table.columns.map Column.name) colWidths
  let rules ← printRules colWidths
  let rows ← collect (fun r => printLine (table.columns.map fun column => column.get r) colWidths)
    (List.range (min table.size maxRows))
  return header ++ rules ++ rows ++ trailer table.size

def warning (totalCols : Int) : Bytes :=
  bytes "[Warning] Terminal too narrow to display " ++ decimal totalCols ++
    bytes " columns horizontally. \n" ++
    bytes "Please use '\\G' (vertical display) at the end of your query, " ++
    bytes "or resize your terminal / use '\\w 300'.\n"

def shrink (availableWidth maxDataWidth totalCols : Int) (colWidths : List Int) : Result (List Int) :=
  if maxDataWidth > availableWidth then do
    let avgWidth ← div availableWidth totalCols
    return colWidths.map fun width => max 5 (min width avgWidth)
  else .ok colWidths

/-- `toString` on a table, after the call of `getTermWidth`. -/
def tableToString (termWidth : Int) (table : Table) : Result Bytes := do
  let totalCols : Int := table.columns.length
  let availableWidth ← sub (← sub termWidth 5) (← mul totalCols 3)
  let availableWidth := if availableWidth < 10 then 10 else availableWidth
  let (colWidths, totalActualWidth) ← measure (min table.size maxRows) 0 table.columns
  let maxDataWidth := max totalActualWidth (← mul totalCols 5)
  let colWidths ← shrink availableWidth maxDataWidth totalCols colWidths
  let avgWidth ← div availableWidth totalCols
  if avgWidth < 5 then .ok (warning totalCols) else printTable table colWidths

def toString (g_display_width : CInt) (terminal : Terminal) (result : Constant) : Result Bytes :=
  if result.isNull then .ok (bytes "NULL")
  else match result.table with
    | some table => tableToString (getTermWidth g_display_width terminal).val table
    | none => .ok result.getString

end Client
end Ddbclient

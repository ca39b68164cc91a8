import Ddbclient.Client.Alignment

/-!
# When a table is refused

The warning is given exactly below `8 n + 5` columns of the terminal, for `n ≥ 3` columns of the table.
It is never mistaken for a table: a printed table ends with a separator or with the row count.
-/

namespace Ddbclient.Client
open Lib.Checked Lib.Lines Lib.Grid Layout

variable {termWidth : Int} {table : Table}

theorem length_pos_of_columns (columns : table.columns ≠ []) : 0 < (table.columns.length : Int) := by
  have := List.length_pos_iff.mpr columns
  omega

theorem refused_iff_available (columns : table.columns ≠ []) :
    Refused termWidth table ↔ available termWidth table < 5 * table.columns.length := by
  rw [Refused, average_eq]
  exact Int.ediv_lt_iff_lt_mul (length_pos_of_columns columns)

theorem refused_iff (columns : table.columns ≠ []) :
    Refused termWidth table ↔ 3 ≤ table.columns.length ∧ termWidth < 8 * table.columns.length + 5 := by
  rw [refused_iff_available columns, available]
  omega

/-! ## The last bytes of a text -/

theorem warning_ends (totalCols : Int) : ∃ text, warning totalCols = text ++ [46, newline] := by
  refine ⟨bytes "[Warning] Terminal too narrow to display " ++ decimal totalCols ++
    bytes " columns horizontally. \n" ++ bytes "Please use '\\G' (vertical display) at the end of your query, " ++
    bytes "or resize your terminal / use '\\w 300'", ?_⟩
  have ending : bytes "or resize your terminal / use '\\w 300'.\n" =
      bytes "or resize your terminal / use '\\w 300'" ++ [46, newline] := by decide
  rw [warning, ending]
  simp only [List.append_assoc]

theorem flatMap_separator_ends {α : Type} {items : List α} (nonempty : items ≠ []) (field : α → Bytes) :
    separator <:+ items.flatMap fun item => field item ++ bytes " | " := by
  obtain ⟨front, last, rfl⟩ := List.eq_nil_or_concat items |>.resolve_left nonempty
  rw [List.concat_eq_append, List.flatMap_append, List.flatMap_singleton, ← List.append_assoc]
  exact List.suffix_append _ _

theorem lines_end (width : Column → Int) (columns : table.columns ≠ []) :
    ∀ line ∈ lines table width, separator <:+ line := by
  apply forall_mem_lines
  · exact flatMap_separator_ends columns _
  · exact flatMap_separator_ends columns _
  · exact fun r _ => flatMap_separator_ends columns _

theorem joinLines_ends {lines : List Bytes} (nonempty : lines ≠ [])
    (ends : ∀ line ∈ lines, separator <:+ line) : ∃ text, joinLines newline lines = text ++ [space, newline] := by
  obtain ⟨front, last, rfl⟩ := List.eq_nil_or_concat lines |>.resolve_left nonempty
  obtain ⟨start, rfl⟩ := ends last (by simp)
  refine ⟨joinLines newline front ++ (start ++ [space, bar]), ?_⟩
  simp only [joinLines, List.concat_eq_append, List.flatMap_append, List.flatMap_singleton, List.append_assoc]
  rfl

theorem trailer_ends {rows : Nat} (many : maxRows < rows) : ∃ text, trailer rows = text ++ [41, newline] := by
  refine ⟨bytes "(" ++ decimal rows ++ bytes " rows total, only first " ++ decimal maxRows ++ bytes " displayed", ?_⟩
  have ending : bytes " displayed)\n" = bytes " displayed" ++ [41, newline] := by decide
  rw [trailer, if_pos many, ending]
  simp only [List.append_assoc]

theorem printed_ends (width : Column → Int) (columns : table.columns ≠ []) :
    ∃ text last, last ≠ 46 ∧ printed table width = text ++ [last, newline] := by
  unfold printed
  by_cases many : maxRows < table.size
  · obtain ⟨text, ending⟩ := trailer_ends many
    rw [ending, ← List.append_assoc]
    exact ⟨_, 41, by decide, rfl⟩
  · obtain ⟨text, ending⟩ := joinLines_ends (List.cons_ne_nil _ _) (lines_end width columns)
    rw [trailer, if_neg many, List.append_nil, lines, ending]
    exact ⟨text, space, by decide, rfl⟩

theorem printed_ne_warning {width : Column → Int} (columns : table.columns ≠ []) (totalCols : Int) :
    printed table width ≠ warning totalCols := by
  intro same
  obtain ⟨text, last, other, printedEnds⟩ := printed_ends width columns
  obtain ⟨start, warningEnds⟩ := warning_ends totalCols
  rw [printedEnds, warningEnds] at same
  have tails := (List.append_inj' same rfl).2
  exact other (List.cons.inj tails).1

theorem text_eq_warning_iff (columns : table.columns ≠ []) :
    text termWidth table = warning table.columns.length ↔ Refused termWidth table := by
  unfold text
  by_cases refused : Refused termWidth table
  · rw [if_pos refused]
    exact iff_of_true rfl refused
  · rw [if_neg refused]
    exact iff_of_false (printed_ne_warning columns _) refused

end Ddbclient.Client

import Ddbclient.Client.Safety
import Ddbclient.Lib.Utf8

/-!
# Cutting texts in UTF-8

The columns are counted and cut in bytes, so a cut may fall inside a character. The text of a table is
well-formed UTF-8 exactly when none does.
-/

namespace Ddbclient.Client
open Lib.Checked Lib.Lines Lib.Utf8 Layout

def WellFormedTable (table : Table) : Prop :=
  ∀ column ∈ table.columns, WellFormed column.name ∧ ∀ cell ∈ column.cells, WellFormed cell

/-- No displayed text is cut inside a character: the warning is given, or the columns keep their
natural widths, or every text longer than the average width starts a character where it is cut, three
bytes before that width. -/
def CutsBetweenCharacters (termWidth : Int) (table : Table) : Prop :=
  Refused termWidth table ∨ ¬ Shrunk termWidth table ∨
    ∀ column ∈ table.columns, ∀ text, Displayed table column text →
      average termWidth table < ofSize text.length → Boundary text (average termWidth table - 3).toNat

theorem WellFormedTable.displayed {table : Table} (formed : WellFormedTable table) {column : Column}
    {text : Bytes} (member : column ∈ table.columns) (displayed : Displayed table column text) :
    WellFormed text := by
  rcases displayed.mem member with rfl | cell
  · exact (formed column member).1
  · exact (formed column member).2 text cell

theorem decimal_ascii (x : Int) : Ascii (decimal x) :=
  fun b member => Nat.lt_of_le_of_lt (decimal_bounds x b member).2 (by decide)

theorem warning_ascii (totalCols : Int) : Ascii (warning totalCols) := by
  unfold warning
  have cols := decimal_ascii totalCols
  exact ((((show Ascii _ by decide).append cols).append (by decide)).append (by decide)).append (by decide)

theorem trailer_ascii (rows : Nat) : Ascii (trailer rows) := by
  unfold trailer
  split
  · have count := decimal_ascii rows
    have limit := decimal_ascii maxRows
    exact ((((show Ascii _ by decide).append count).append (by decide)).append limit).append (by decide)
  · decide

theorem wellFormed_shown_iff {width : Int} {text : Bytes} (formed : WellFormed text) :
    WellFormed (setw width (shown width text)) ↔
      (width < ofSize text.length → Boundary text (width - 3).toNat) := by
  rw [setw, wellFormed_ascii_append_iff (ascii_replicate (by decide) _)]
  by_cases long : width < ofSize text.length
  · have dots : WellFormed (bytes "...") := wellFormed_ascii (by decide)
    have starts : Boundary (bytes "...") 0 := by decide
    rw [shown, if_pos long, wellFormed_append_iff starts, wellFormed_take_iff formed]
    simp [long, dots]
  · rw [shown, if_neg long]
    simp [long, formed]

section Printed

variable {table : Table} {width : Column → Int}

theorem wellFormed_line_iff {text : Column → Bytes} (formed : ∀ column ∈ table.columns, WellFormed (text column)) :
    WellFormed (line table.columns width text) ↔ ∀ column ∈ table.columns,
      width column < ofSize (text column).length → Boundary (text column) (width column - 3).toNat := by
  rw [line, ← List.append_nil (List.flatMap _ _), wellFormed_flatMap_iff (by decide) (by decide),
    and_iff_left wellFormed_nil]
  exact forall₂_congr fun column member => wellFormed_shown_iff (formed column member)

theorem wellFormed_rules : WellFormed (rules table.columns width) := by
  rw [rules, ← List.append_nil (List.flatMap _ _), wellFormed_flatMap_iff (by decide) (by decide)]
  exact ⟨fun column _ => wellFormed_ascii (ascii_replicate (by decide) _), wellFormed_nil⟩

theorem wellFormed_printed_iff (formed : WellFormedTable table) :
    WellFormed (printed table width) ↔ ∀ column ∈ table.columns, ∀ text, Displayed table column text →
      width column < ofSize text.length → Boundary text (width column - 3).toNat := by
  have header : ∀ column ∈ table.columns, WellFormed column.name := fun column member => (formed column member).1
  have cells (r : Nat) (bound : r < printRows table) : ∀ column ∈ table.columns, WellFormed (column.get r) :=
    fun column member => formed.displayed member (Or.inr ⟨r, bound, rfl⟩)
  rw [printed, joinLines, wellFormed_flatMap_iff (by decide) (by decide),
    and_iff_left (wellFormed_ascii (trailer_ascii table.size)), lines, List.forall_mem_cons, List.forall_mem_cons,
    wellFormed_line_iff header, and_iff_right wellFormed_rules, List.forall_mem_map]
  constructor
  · rintro ⟨names, rows⟩ column member text (rfl | ⟨r, bound, rfl⟩)
    · exact names column member
    · exact (wellFormed_line_iff (cells r bound)).mp (rows r (List.mem_range.mpr bound)) column member
  · intro all
    refine ⟨fun column member => all column member _ (Or.inl rfl), fun r inRange => ?_⟩
    have bound := List.mem_range.mp inRange
    exact (wellFormed_line_iff (cells r bound)).mpr fun column member => all column member _ (Or.inr ⟨r, bound, rfl⟩)

end Printed

theorem wellFormed_text_iff {termWidth : Int} {table : Table} (formed : WellFormedTable table) :
    WellFormed (text termWidth table) ↔ CutsBetweenCharacters termWidth table := by
  by_cases refused : Refused termWidth table
  · simp [text, refused, CutsBetweenCharacters, wellFormed_ascii (warning_ascii _)]
  · rw [text_of_shown refused, wellFormed_printed_iff formed]
    constructor
    · intro all
      refine Or.inr (or_iff_not_imp_left.mpr fun shrunk column member text displayed long => ?_)
      have width := columnWidth_of_long displayed refused (not_not.mp shrunk) long
      exact width ▸ all column member text displayed (width ▸ long)
    · intro between column member text displayed cut
      obtain ⟨shrunk, width, -⟩ := columnWidth_of_cut displayed refused cut
      rw [width] at cut ⊢
      exact (between.resolve_left refused).resolve_left (not_not.mpr shrunk) column member text displayed cut

/-- The text of a table of well-formed UTF-8 is well-formed UTF-8 exactly when no header and no cell is
cut inside a character. -/
theorem toString_wellFormed_iff (g_display_width : CInt) (terminal : Terminal) (table : Table)
    (getString : Bytes) (formed : WellFormedTable table) (out : Bytes)
    (returned : toString g_display_width terminal (Constant.ofTable table getString) = .ok out) :
    WellFormed out ↔ CutsBetweenCharacters (getTermWidth g_display_width terminal).val table := by
  obtain ⟨-, rfl⟩ := tableToString_eq_ok.mp returned
  exact wellFormed_text_iff formed

def chinese : Table := headers [bytes "中文中文"] (by decide)

def width18 : CInt := int 18

theorem wellFormed_chinese : WellFormedTable chinese := by
  intro column member
  obtain rfl := List.mem_singleton.mp member
  exact ⟨⟨['中', '文', '中', '文'], by decide⟩, by simp⟩

theorem chinese_returned :
    toString width18 ⟨none, none⟩ (Constant.ofTable chinese []) = .ok (text 18 chinese) :=
  toString_returns width18 ⟨none, none⟩ [] (by decide) (by decide) (by decide)

theorem toString_wellFormed_iff_chinese :
    WellFormed (text 18 chinese) ↔ CutsBetweenCharacters 18 chinese :=
  toString_wellFormed_iff width18 ⟨none, none⟩ chinese [] wellFormed_chinese _ chinese_returned

theorem toString_cuts_character :
    WellFormedTable chinese ∧ ∃ out, toString width18 ⟨none, none⟩ (Constant.ofTable chinese []) = .ok out ∧
      ¬ WellFormed out := by
  refine ⟨wellFormed_chinese, _, chinese_returned, fun formed => ?_⟩
  rcases (wellFormed_text_iff wellFormed_chinese).mp formed with refused | natural | between
  · exact absurd refused (by decide)
  · exact natural (by decide)
  · exact absurd (between _ List.mem_cons_self _ (Or.inl rfl) (by decide)) (by decide)

end Ddbclient.Client

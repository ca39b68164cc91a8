import Mathlib.Algebra.Order.Ring.Int
import Mathlib.Data.List.Basic

/-!
# Rows of fields of given widths

A row is a list of fields, each followed by a separator. `fit` brings one text to a given width, by
padding on the left or by cutting it and marking the cut. When every field has its column's width, a
row can be cut back into its fields (`cut_row`), and the widths can be read off a row of rules
(`runs_row`).
-/

namespace Lib.Grid

section Fields

variable {α : Type*} (blank : α) (ellipsis separator : List α)

def padLeft (width : Nat) (text : List α) : List α :=
  List.replicate (width - text.length) blank ++ text

def fit (width : Nat) (text : List α) : List α :=
  if text.length ≤ width then padLeft blank width text
  else text.take (width - ellipsis.length) ++ ellipsis

def row (fields : List (List α)) : List α := fields.flatMap fun field => field ++ separator

variable {blank ellipsis separator}

theorem length_padLeft {width : Nat} {text : List α} (fits : text.length ≤ width) :
    (padLeft blank width text).length = width := by
  simp only [padLeft, List.length_append, List.length_replicate]
  omega

theorem length_fit {width : Nat} {text : List α} (room : width < text.length → ellipsis.length ≤ width) :
    (fit blank ellipsis width text).length = width := by
  unfold fit
  split
  · rename_i fits
    exact length_padLeft fits
  · rename_i long
    have := room (by omega)
    simp only [List.length_append, List.length_take]
    omega

@[simp] theorem row_cons (field : List α) (fields : List (List α)) :
    row separator (field :: fields) = field ++ (separator ++ row separator fields) := by
  simp [row]

theorem length_row (fields : List (List α)) :
    (row separator fields).length = (fields.map List.length).sum + fields.length * separator.length := by
  induction fields with
  | nil => simp [row]
  | cons field fields ih =>
      simp only [row_cons, List.length_append, ih, List.map_cons, List.sum_cons, List.length_cons,
        Nat.succ_mul]
      omega

theorem not_mem_row {x : α} {fields : List (List α)} (outside : x ∉ separator)
    (free : ∀ field ∈ fields, x ∉ field) : x ∉ row separator fields := by
  simp only [row, List.mem_flatMap, List.mem_append, not_exists, not_and, not_or]
  exact fun field member => ⟨free field member, outside⟩

theorem not_mem_fit {x : α} {width : Nat} {text : List α} (padding : x ≠ blank)
    (mark : x ∉ ellipsis) (free : x ∉ text) : x ∉ fit blank ellipsis width text := by
  unfold fit padLeft
  split
  · simp [padding, free]
  · simpa [mark] using fun member => free (List.mem_of_mem_take member)

end Fields

variable {α : Type*} [DecidableEq α]

/-- Cut a row into fields of the given widths. Nothing is returned when a separator is not where it
should be, or when the row is too short or too long. -/
def cut (separator : List α) : List Nat → List α → Option (List (List α))
  | [], [] => some []
  | [], _ :: _ => none
  | width :: widths, text =>
      if width ≤ text.length ∧ (text.drop width).take separator.length = separator then
        (cut separator widths (text.drop (width + separator.length))).map (text.take width :: ·)
      else none

/-- The number of `fill`s before each `bar`. -/
def runs (fill bar : α) : Nat → List α → List Nat
  | _, [] => []
  | count, x :: text =>
      if x = fill then runs fill bar (count + 1) text
      else if x = bar then count :: runs fill bar 0 text
      else runs fill bar count text

theorem cut_row (separator : List α) (widths : List Nat) (fields : List (List α))
    (fitted : fields.map List.length = widths) :
    cut separator widths (row separator fields) = some fields := by
  induction fields generalizing widths with
  | nil => subst fitted; rfl
  | cons field fields ih =>
      subst fitted
      have past : (field ++ (separator ++ row separator fields)).drop (field.length + separator.length) =
          row separator fields := by
        rw [← List.append_assoc, ← List.length_append, List.drop_left]
      simp [cut, row_cons, past, ih _ rfl]

theorem runs_skip {fill bar : α} {text : List α} (noFill : fill ∉ text) (noBar : bar ∉ text) (count : Nat)
    (rest : List α) : runs fill bar count (text ++ rest) = runs fill bar count rest := by
  induction text with
  | nil => rfl
  | cons x text ih =>
      simp only [List.mem_cons, not_or] at noFill noBar
      simpa [runs, Ne.symm noFill.1, Ne.symm noBar.1] using ih noFill.2 noBar.2

theorem runs_replicate (fill bar : α) (count width : Nat) (rest : List α) :
    runs fill bar count (List.replicate width fill ++ rest) = runs fill bar (count + width) rest := by
  induction width generalizing count with
  | zero => rfl
  | succ width ih =>
      simp only [List.replicate_succ, List.cons_append, runs, if_true]
      rw [ih, Nat.add_assoc, Nat.add_comm 1]

theorem runs_row {fill bar : α} {before after : List α} (distinct : bar ≠ fill)
    (noFill : fill ∉ before ++ after) (noBar : bar ∉ before ++ after) (widths : List Nat) :
    runs fill bar 0 (row (before ++ bar :: after) (widths.map fun width => List.replicate width fill)) =
      widths := by
  induction widths with
  | nil => rfl
  | cons width widths ih =>
      obtain ⟨fillBefore, fillAfter⟩ := not_or.mp (mt List.mem_append.mpr noFill)
      obtain ⟨barBefore, barAfter⟩ := not_or.mp (mt List.mem_append.mpr noBar)
      rw [List.map_cons, row_cons, runs_replicate, List.append_assoc, runs_skip fillBefore barBefore, List.cons_append]
      simp only [runs, if_neg distinct, if_true, Nat.zero_add]
      rw [runs_skip fillAfter barAfter, ih]

/-! ## Whole grids -/

/-- The header and the rows of a grid whose second line consists of rules. -/
def readGrid (fill bar : α) (separator : List α) :
    List (List α) → Option (List (List α) × List (List (List α)))
  | header :: rule :: rows => do
      let fields ← cut separator (runs fill bar 0 rule) header
      let cells ← rows.mapM (cut separator (runs fill bar 0 rule))
      return (fields, cells)
  | _ => none

theorem mapM_cut_row (separator : List α) {widths : List Nat} {rows : List (List (List α))}
    (fitted : ∀ fields ∈ rows, fields.map List.length = widths) :
    (rows.map (row separator)).mapM (cut separator widths) = some rows := by
  induction rows with
  | nil => rfl
  | cons fields rows ih =>
      rw [List.map_cons, List.mapM_cons, cut_row separator widths fields (fitted fields List.mem_cons_self),
        ih fun other member => fitted other (List.mem_cons_of_mem fields member)]
      rfl

theorem readGrid_rows {fill bar : α} (before after : List α) (distinct : bar ≠ fill) (noFill : fill ∉ before ++ after)
    (noBar : bar ∉ before ++ after) {widths : List Nat} {header : List (List α)} {rows : List (List (List α))}
    (fitted : ∀ fields ∈ header :: rows, fields.map List.length = widths) :
    readGrid fill bar (before ++ bar :: after)
        (row (before ++ bar :: after) header ::
          row (before ++ bar :: after) (widths.map fun width => List.replicate width fill) ::
            rows.map (row (before ++ bar :: after))) =
      some (header, rows) := by
  rw [readGrid, runs_row distinct noFill noBar, cut_row _ widths header (fitted header List.mem_cons_self),
    mapM_cut_row _ fun fields member => fitted fields (List.mem_cons_of_mem header member)]
  rfl

theorem dropWhile_padLeft (blank : α) (width : Nat) (text : List α) :
    (padLeft blank width text).dropWhile (· = blank) = text.dropWhile (· = blank) := by
  unfold padLeft
  apply List.dropWhile_append_of_pos
  intro x member
  simpa using List.eq_of_mem_replicate member

end Lib.Grid

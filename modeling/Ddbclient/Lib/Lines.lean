import Mathlib.Data.List.Basic

/-!
# Texts of newline-terminated lines

`joinLines` writes a list of lines, each followed by the newline. `splitLines` lists what successive
calls of `getline` return on a text: a last piece without its newline still counts as a line when it
is not empty. `terminatedLines` lists only the lines whose newline was read. `CutShort` says what is left
of lines whose text breaks off.
-/

namespace Lib.Lines

section Join

variable {α : Type*} (newline : α)

def joinLines (lines : List (List α)) : List α := lines.flatMap fun line => line ++ [newline]

variable {newline}

@[simp] theorem joinLines_nil : joinLines newline [] = [] := rfl

@[simp] theorem joinLines_cons (line : List α) (lines : List (List α)) :
    joinLines newline (line :: lines) = line ++ newline :: joinLines newline lines := by
  simp [joinLines]

theorem joinLines_eq_nil_iff {lines : List (List α)} : joinLines newline lines = [] ↔ lines = [] := by
  cases lines with
  | nil => simp
  | cons line lines => simp

/-- The lines of a text of lines that was cut short: some of them whole, and perhaps a piece of the next. -/
inductive CutShort : List (List α) → List (List α) → Prop where
  | here (lines : List (List α)) : CutShort lines []
  | inside {piece line : List α} (lines : List (List α)) (start : piece <+: line) (nonempty : piece ≠ []) :
      CutShort (line :: lines) [piece]
  | later (line : List α) {lines kept : List (List α)} (rest : CutShort lines kept) :
      CutShort (line :: lines) (line :: kept)

theorem CutShort.length_le {lines kept : List (List α)} (cut : CutShort lines kept) : kept.length ≤ lines.length := by
  induction cut with
  | here lines => exact Nat.zero_le _
  | inside lines start nonempty => exact Nat.succ_le_succ (Nat.zero_le _)
  | later line rest ih => exact Nat.succ_le_succ ih

theorem CutShort.refl (lines : List (List α)) : CutShort lines lines := by
  induction lines with
  | nil => exact .here []
  | cons line lines ih => exact .later line ih

theorem CutShort.trans {lines kept kept' : List (List α)} (first : CutShort lines kept) (second : CutShort kept kept') :
    CutShort lines kept' := by
  induction first generalizing kept' with
  | here lines =>
      cases second
      exact .here lines
  | inside lines start nonempty =>
      cases second with
      | here => exact .here _
      | inside _ shorter more => exact .inside lines (shorter.trans start) more
      | later _ rest =>
          cases rest
          exact .inside lines start nonempty
  | later line rest ih =>
      cases second with
      | here => exact .here _
      | inside _ start nonempty => exact .inside _ start nonempty
      | later _ more => exact .later line (ih more)

end Join

variable {α : Type*} [DecidableEq α] (newline : α)

def splitLines : List α → List (List α)
  | [] => []
  | c :: text =>
      if c = newline then [] :: splitLines text
      else match splitLines text with
        | [] => [[c]]
        | line :: lines => (c :: line) :: lines

def terminatedLines : List α → List (List α)
  | [] => []
  | c :: text =>
      if c = newline then [] :: terminatedLines text
      else match terminatedLines text with
        | [] => []
        | line :: lines => (c :: line) :: lines

variable {newline}

@[simp] theorem splitLines_nil : splitLines newline [] = [] := rfl

theorem splitLines_eq_nil_iff {text : List α} : splitLines newline text = [] ↔ text = [] := by
  cases text with
  | nil => simp
  | cons c text =>
      rw [splitLines]
      split
      · simp
      · split <;> simp

theorem terminatedLines_eq_nil_iff {text : List α} : terminatedLines newline text = [] ↔ newline ∉ text := by
  induction text with
  | nil => simp [terminatedLines]
  | cons c text ih =>
      by_cases h : c = newline
      · simp [terminatedLines, h]
      · rw [List.mem_cons, not_or, ← ih, terminatedLines, if_neg h]
        cases terminatedLines newline text with
        | nil => simp [Ne.symm h]
        | cons line lines => simp

theorem splitLines_line_append (line text : List α) (free : newline ∉ line) :
    splitLines newline (line ++ newline :: text) = line :: splitLines newline text := by
  induction line with
  | nil => simp [splitLines]
  | cons c line ih =>
      simp only [List.mem_cons, not_or] at free
      simp [splitLines, ih free.2, Ne.symm free.1]

theorem splitLines_joinLines_append (lines : List (List α)) (text : List α)
    (free : ∀ line ∈ lines, newline ∉ line) :
    splitLines newline (joinLines newline lines ++ text) = lines ++ splitLines newline text := by
  induction lines with
  | nil => rfl
  | cons line lines ih =>
      rw [joinLines_cons, List.append_assoc, List.cons_append,
        splitLines_line_append line _ (free line List.mem_cons_self),
        ih fun other member => free other (List.mem_cons_of_mem _ member), List.cons_append]

theorem splitLines_joinLines (lines : List (List α)) (free : ∀ line ∈ lines, newline ∉ line) :
    splitLines newline (joinLines newline lines) = lines := by
  simpa using splitLines_joinLines_append lines [] free

theorem newline_not_mem_of_mem_splitLines (text : List α) :
    ∀ line ∈ splitLines newline text, newline ∉ line := by
  induction text with
  | nil => simp
  | cons c text ih =>
      intro line member
      by_cases h : c = newline
      · simp only [splitLines, if_pos h, List.mem_cons] at member
        rcases member with rfl | member
        · simp
        · exact ih line member
      · simp only [splitLines, if_neg h] at member
        cases split : splitLines newline text with
        | nil => simp_all [Ne.symm h]
        | cons first rest =>
            rw [split] at ih
            simp only [split, List.mem_cons] at member
            rcases member with rfl | member
            · simpa [Ne.symm h] using ih first List.mem_cons_self
            · exact ih line (List.mem_cons_of_mem _ member)

theorem terminated_cons (c next : α) (text : List α) :
    (if c :: next :: text = [] ∨ (c :: next :: text).getLast? = some newline then c :: next :: text
      else c :: next :: text ++ [newline]) =
      c :: if next :: text = [] ∨ (next :: text).getLast? = some newline then next :: text
        else next :: text ++ [newline] := by
  rw [List.getLast?_cons_cons]
  by_cases ends : (next :: text).getLast? = some newline <;> simp [ends]

/-- Reading a text line by line and writing the lines back gives the text, with a final newline
added when it lacked one. -/
theorem joinLines_splitLines (text : List α) :
    joinLines newline (splitLines newline text) =
      if text = [] ∨ text.getLast? = some newline then text else text ++ [newline] := by
  induction text with
  | nil => rfl
  | cons c text ih =>
      cases text with
      | nil => by_cases h : c = newline <;> simp [splitLines, h]
      | cons next text =>
          rw [terminated_cons, ← ih, splitLines]
          by_cases h : c = newline
          · rw [if_pos h, joinLines_cons, h, List.nil_append]
          · rw [if_neg h]
            cases pieces : splitLines newline (next :: text) with
            | nil => exact absurd (splitLines_eq_nil_iff.mp pieces) (List.cons_ne_nil next text)
            | cons first rest => simp

/-! ## Texts cut short -/

theorem splitLines_of_newlineFree {line : List α} (free : newline ∉ line) :
    splitLines newline line = if line = [] then [] else [line] := by
  induction line with
  | nil => rfl
  | cons c line ih =>
      simp only [List.mem_cons, not_or] at free
      rw [splitLines, if_neg (Ne.symm free.1), ih free.2]
      by_cases empty : line = [] <;> simp [empty]

theorem splitLines_take_joinLines {lines : List (List α)} (free : ∀ line ∈ lines, newline ∉ line) (count : Nat) :
    CutShort lines (splitLines newline ((joinLines newline lines).take count)) := by
  induction lines generalizing count with
  | nil => simpa using CutShort.here []
  | cons line lines ih =>
      have lineFree := free line List.mem_cons_self
      rw [joinLines_cons]
      by_cases short : count ≤ line.length
      · rw [List.take_append_of_le_length short,
          splitLines_of_newlineFree fun member => lineFree (List.mem_of_mem_take member)]
        by_cases empty : line.take count = []
        · rw [if_pos empty]
          exact .here _
        · rw [if_neg empty]
          exact .inside lines (List.take_prefix count line) empty
      · obtain ⟨more, rfl⟩ : ∃ more, count = line.length + (more + 1) := ⟨count - line.length - 1, by omega⟩
        rw [List.take_length_add_append, List.take_succ_cons, splitLines_line_append line _ lineFree]
        exact .later line (ih (fun other member => free other (List.mem_cons_of_mem _ member)) more)

end Lib.Lines

import Mathlib.Data.List.DropRight
import Mathlib.Data.List.Infix

/-!
# Searching in texts

`find` looks for the first place where a pattern occurs, `findLast` for the last place of one element. A
pattern is found at the very beginning exactly when it is a prefix, and what follows the last place of an
element is the longest end of the text without it.
-/

namespace Lib.Search

section Ends

variable {α : Type*}

theorem forall_ne_of_not_mem [DecidableEq α] {x : α} {text : List α} (absent : x ∉ text) :
    ∀ y ∈ text, decide (y ≠ x) = true := by
  intro y member
  exact decide_eq_true fun same => absent (same ▸ member)

theorem rtakeWhile_append {p : α → Bool} (front : List α) {rest : List α} (all : ∀ x ∈ rest, p x = true) :
    (front ++ rest).rtakeWhile p = front.rtakeWhile p ++ rest := by
  have reversed : ∀ x ∈ rest.reverse, p x = true := fun x member => all x (List.mem_reverse.mp member)
  rw [List.rtakeWhile, List.reverse_append, List.takeWhile_append_of_pos reversed, List.reverse_append,
    List.reverse_reverse]
  rfl

end Ends

variable {α : Type*} [DecidableEq α]

def find (pattern : List α) : List α → Option Nat
  | [] => if pattern = [] then some 0 else none
  | x :: text => if pattern <+: x :: text then some 0 else (find pattern text).map (· + 1)

def findLast (x : α) : List α → Option Nat
  | [] => none
  | y :: text =>
      match findLast x text with
      | some i => some (i + 1)
      | none => if y = x then some 0 else none

theorem find_eq_zero_iff {pattern text : List α} : find pattern text = some 0 ↔ pattern <+: text := by
  cases text with
  | nil => simp [find]
  | cons x text =>
      by_cases starts : pattern <+: x :: text
      · rw [find, if_pos starts]
        exact iff_of_true rfl starts
      · rw [find, if_neg starts]
        apply iff_of_false _ starts
        cases find pattern text <;> simp

theorem find_isSome_iff {pattern text : List α} : (find pattern text).isSome ↔ pattern <:+: text := by
  induction text with
  | nil => by_cases empty : pattern = [] <;> simp [find, empty]
  | cons x text ih =>
      rw [List.infix_cons_iff, ← ih]
      by_cases starts : pattern <+: x :: text
      · rw [find, if_pos starts]
        exact iff_of_true rfl (Or.inl starts)
      · rw [find, if_neg starts, Option.isSome_map]
        exact (or_iff_right starts).symm

theorem findLast_eq_none_iff {x : α} {text : List α} : findLast x text = none ↔ x ∉ text := by
  induction text with
  | nil => simp [findLast]
  | cons y text ih =>
      rw [findLast]
      cases later : findLast x text with
      | some i =>
          have member : x ∈ text := by
            by_contra absent
            rw [ih.mpr absent] at later
            cases later
          exact iff_of_false (by simp) (not_not_intro (List.mem_cons_of_mem y member))
      | none =>
          have absent := ih.mp later
          by_cases here : y = x
          · simp [here]
          · simp [here, absent, Ne.symm here]

theorem rtakeWhile_after {x : α} (front : List α) {rest : List α} (absent : x ∉ rest) :
    (front ++ x :: rest).rtakeWhile (· ≠ x) = rest := by
  rw [← List.singleton_append, ← List.append_assoc, rtakeWhile_append _ (forall_ne_of_not_mem absent),
    List.rtakeWhile_concat_neg _ _ _ (by simp), List.nil_append]

theorem findLast_eq_some {x : α} {text : List α} {i : Nat} (found : findLast x text = some i) :
    ∃ front rest, text = front ++ x :: rest ∧ front.length = i ∧ x ∉ rest := by
  induction text generalizing i with
  | nil => cases found
  | cons y text ih =>
      rw [findLast] at found
      cases later : findLast x text with
      | some j =>
          rw [later] at found
          cases found
          obtain ⟨front, rest, rfl, count, absent⟩ := ih later
          exact ⟨y :: front, rest, rfl, congrArg (· + 1) count, absent⟩
      | none =>
          rw [later] at found
          by_cases here : y = x
          · simp only [if_pos here, Option.some.injEq] at found
            subst here found
            exact ⟨[], text, rfl, rfl, findLast_eq_none_iff.mp later⟩
          · simp [if_neg here] at found

theorem drop_findLast {x : α} {text : List α} {i : Nat} (found : findLast x text = some i) :
    text.drop (i + 1) = text.rtakeWhile (· ≠ x) := by
  obtain ⟨front, rest, rfl, rfl, absent⟩ := findLast_eq_some found
  rw [rtakeWhile_after front absent, ← List.drop_drop, List.drop_left, List.drop_one, List.tail_cons]

end Lib.Search

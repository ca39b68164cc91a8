import Mathlib.Order.Lattice
import Mathlib.Data.List.Pairwise

/-!
# Ordered tables

A table holds entries that carry their own keys, in strictly increasing order of the keys. It is the
`std::map` of a program whose values know the key they are stored at.
-/

namespace Lib

@[ext]
structure Table {α κ : Type*} [LinearOrder κ] (key : α → κ) where
  entries : List α
  sorted : entries.Pairwise fun a b => key a < key b

namespace Table

variable {α κ σ : Type*} [LinearOrder κ] {key : α → κ}

def empty : Table key := ⟨[], List.Pairwise.nil⟩

def find? (t : Table key) (k : κ) : Option α := t.entries.find? fun a => key a = k

theorem key_of_find? {t : Table key} {k : κ} {a : α} (found : t.find? k = some a) : key a = k := by
  simpa using List.find?_some found

theorem mem_of_find? {t : Table key} {k : κ} {a : α} (found : t.find? k = some a) : a ∈ t.entries :=
  List.mem_of_find?_eq_some found

theorem key_injective (t : Table key) {a b : α} (first : a ∈ t.entries) (second : b ∈ t.entries)
    (same : key a = key b) : a = b := by
  by_contra different
  have distinct : t.entries.Pairwise fun a b => key a ≠ key b := t.sorted.imp ne_of_lt
  have : Std.Symm fun a b => key a ≠ key b := ⟨fun _ _ other => other.symm⟩
  exact distinct.forall first second different same

theorem find?_key_of_mem (t : Table key) {a : α} (member : a ∈ t.entries) : t.find? (key a) = some a := by
  cases found : t.find? (key a) with
  | none => exact absurd (List.find?_eq_none.mp found a member) (by simp)
  | some b => exact congrArg some (t.key_injective (mem_of_find? found) member (key_of_find? found))

theorem find?_eq_some_iff {t : Table key} {k : κ} {a : α} : t.find? k = some a ↔ a ∈ t.entries ∧ key a = k := by
  constructor
  · intro found
    exact ⟨mem_of_find? found, key_of_find? found⟩
  · rintro ⟨member, rfl⟩
    exact t.find?_key_of_mem member

theorem find?_isSome_iff {t : Table key} {k : κ} : (t.find? k).isSome = true ↔ k ∈ t.entries.map key := by
  rw [Option.isSome_iff_exists, List.mem_map]
  exact exists_congr fun a => find?_eq_some_iff

/-! ## Adding an entry -/

def place (key : α → κ) (a : α) : List α → List α
  | [] => [a]
  | b :: rest => if key a < key b then a :: b :: rest else b :: place key a rest

theorem place_perm (a : α) (entries : List α) : (place key a entries).Perm (a :: entries) := by
  induction entries with
  | nil => exact List.Perm.refl _
  | cons b rest ih =>
      rw [place]
      split
      · exact List.Perm.refl _
      · exact (List.Perm.cons _ ih).trans (List.Perm.swap _ _ _)

theorem mem_place {a b : α} {entries : List α} : b ∈ place key a entries ↔ b = a ∨ b ∈ entries :=
  (place_perm a entries).mem_iff.trans List.mem_cons

theorem place_sorted {a : α} {entries : List α} (sorted : entries.Pairwise fun a b => key a < key b)
    (absent : ∀ b ∈ entries, key b ≠ key a) : (place key a entries).Pairwise fun a b => key a < key b := by
  induction entries with
  | nil => exact List.pairwise_singleton _ a
  | cons b rest ih =>
      obtain ⟨above, sorted'⟩ := List.pairwise_cons.mp sorted
      rw [place]
      by_cases before : key a < key b
      · rw [if_pos before]
        refine List.pairwise_cons.mpr ⟨fun c member => ?_, sorted⟩
        rcases List.mem_cons.mp member with rfl | later
        · exact before
        · exact lt_trans before (above c later)
      · rw [if_neg before]
        have after : key b < key a := lt_of_le_of_ne (not_lt.mp before) (absent b List.mem_cons_self)
        refine List.pairwise_cons.mpr ⟨fun c member => ?_, ih sorted' fun c later => absent c (List.mem_cons_of_mem _ later)⟩
        rcases mem_place.mp member with rfl | later
        · exact after
        · exact above c later

def insert (t : Table key) (a : α) (absent : t.find? (key a) = none) : Table key :=
  ⟨place key a t.entries, place_sorted t.sorted fun b member => by
    simpa using List.find?_eq_none.mp absent b member⟩

/-! ## Changing entries in place -/

theorem find?_map {t u : Table key} {f : α → α} (keeps : ∀ a, key (f a) = key a)
    (mapped : u.entries = t.entries.map f) (k : κ) : u.find? k = (t.find? k).map f := by
  rw [find?, mapped, List.find?_map, find?]
  congr 2
  funext a
  exact decide_eq_decide.mpr (by rw [keeps])

theorem find?_map_congr {t : Table key} {k : κ} {f g : α → σ} (same : ∀ a, key a = k → f a = g a) :
    (t.find? k).map f = (t.find? k).map g :=
  Option.map_congr fun a found => same a (key_of_find? found)

theorem key_ite {k : κ} {f : α → α} (keeps : ∀ a, key (f a) = key a) (a : α) :
    key (if key a = k then f a else a) = key a := by
  split
  · exact keeps a
  · rfl

def modify (t : Table key) (k : κ) (f : α → α) (keeps : ∀ a, key (f a) = key a) : Table key where
  entries := t.entries.map fun a => if key a = k then f a else a
  sorted := by
    rw [List.pairwise_map]
    exact t.sorted.imp fun less => by rwa [key_ite keeps, key_ite keeps]

theorem find?_modify (t : Table key) (k j : κ) (f : α → α) (keeps : ∀ a, key (f a) = key a) :
    (t.modify k f keeps).find? j = (t.find? j).map fun a => if j = k then f a else a := by
  rw [find?_map (key_ite keeps) rfl]
  exact find?_map_congr fun a at_j => by rw [at_j]

theorem map_key_modify (t : Table key) (k : κ) (f : α → α) (keeps : ∀ a, key (f a) = key a) :
    (t.modify k f keeps).entries.map key = t.entries.map key := by
  change (t.entries.map fun a => if key a = k then f a else a).map key = _
  rw [List.map_map]
  exact List.map_congr_left fun a _ => key_ite keeps a

theorem modify_eq_self {t : Table key} {k : κ} {f : α → α} (keeps : ∀ a, key (f a) = key a)
    (same : ∀ a, t.find? k = some a → f a = a) : t.modify k f keeps = t := by
  apply Table.ext
  refine (List.map_congr_left fun a member => ?_).trans (List.map_id t.entries)
  split
  · rename_i at_k
    exact same a (at_k ▸ t.find?_key_of_mem member)
  · rfl

/-! ## Rows of changes -/

section Changes

variable (target : σ → κ) (f : σ → α → α)

/-- What the changes aimed at the key of an entry make of it, one after the other. -/
def changed (key : α → κ) (steps : List σ) (a : α) : α :=
  (steps.filter (target · = key a)).foldl (fun a step => f step a) a

variable {f}

theorem entries_foldl_modify (keeps : ∀ step a, key (f step a) = key a) (steps : List σ) (t : Table key) :
    (steps.foldl (fun t step => t.modify (target step) (f step) (keeps step)) t).entries =
      t.entries.map (changed target f key steps) := by
  induction steps generalizing t with
  | nil => exact (List.map_id t.entries).symm
  | cons step steps ih =>
      rw [List.foldl_cons, ih]
      change (t.entries.map fun a => if key a = target step then f step a else a).map _ = _
      rw [List.map_map]
      refine List.map_congr_left fun a _ => ?_
      change changed target f key steps (if key a = target step then f step a else a) = _
      unfold changed
      rw [key_ite (keeps step)]
      by_cases aimed : key a = target step
      · simp [aimed]
      · simp [aimed, Ne.symm aimed]

end Changes

end Table
end Lib

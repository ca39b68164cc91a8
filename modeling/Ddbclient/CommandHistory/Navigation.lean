import Ddbclient.CommandHistory

/-!
# Walking through the history

`getPrev` and `getNext` move the cursor and read the entry it has moved to. The cursor is bounded by the
capacity of the history, not by the number of its entries.
-/

namespace Ddbclient.CommandHistory

variable {h : CommandHistory}

/-! ## One call -/

theorem getPrev_position (h : CommandHistory) :
    h.getPrev.1.currentPosition = min (h.currentPosition + 1) (DEPTH - 1) := by
  have bound := h.position_lt
  change (if h.currentPosition = DEPTH - 1 then h.currentPosition else h.currentPosition + 1) = _
  split <;> omega

theorem getNext_position (h : CommandHistory) : h.getNext.1.currentPosition = h.currentPosition - 1 := by
  change (if h.currentPosition = 0 then 0 else h.currentPosition - 1) = _
  split <;> omega

@[simp] theorem getPrev_history (h : CommandHistory) : h.getPrev.1.history = h.history := rfl

@[simp] theorem getNext_history (h : CommandHistory) : h.getNext.1.history = h.history := rfl

theorem getPrev_returned (h : CommandHistory) : h.getPrev.2 = h.history[min (h.currentPosition + 1) (DEPTH - 1)]? := by
  rw [← getPrev_position]
  rfl

theorem getNext_returned (h : CommandHistory) : h.getNext.2 = h.history[h.currentPosition - 1]? := by
  rw [← getNext_position]
  rfl

def Returns (h : CommandHistory) (returned : Option Bytes) : Prop := ∃ entry ∈ h.history, returned = some entry

theorem returns_iff {i : Nat} : Returns h h.history[i]? ↔ i < h.history.length := by
  constructor
  · rintro ⟨entry, -, found⟩
    exact (List.getElem?_eq_some_iff.mp found).1
  · intro inside
    exact ⟨h.history[i], List.getElem_mem inside, List.getElem?_eq_getElem inside⟩

structure OnEntry (h : CommandHistory) : Prop where
  cursor : h.currentPosition < h.history.length
  prev : Returns h h.getPrev.2
  next : Returns h h.getNext.2

def Room (h : CommandHistory) : Prop := h.history.length = 100 ∨ h.currentPosition + 1 < h.history.length

theorem returns_getPrev_iff : Returns h h.getPrev.2 ↔ Room h := by
  have depth : DEPTH = 100 := rfl
  have size := h.size_le
  have position := h.position_lt
  rw [getPrev_returned, returns_iff, Room]
  omega

theorem onEntry_iff : OnEntry h ↔ Room h := by
  constructor
  · intro onEntry
    exact returns_getPrev_iff.mp onEntry.prev
  · intro room
    have cursor : h.currentPosition < h.history.length := by
      have position := h.position_lt
      cases room with
      | inl full => rwa [full]
      | inr inside => omega
    refine ⟨cursor, returns_getPrev_iff.mpr room, ?_⟩
    rw [getNext_returned, returns_iff]
    omega

/-! ## Runs -/

def after (file : Option Bytes) (calls : List Call) : CommandHistory := calls.foldl Call.run (load file)

theorem after_append_singleton (file : Option Bytes) (calls : List Call) (call : Call) :
    after file (calls ++ [call]) = call.run (after file calls) := by
  rw [after, List.foldl_append]
  rfl

def Call.Returned (h : CommandHistory) : Call → Prop
  | .add _ => True
  | .getPrev => Returns h h.getPrev.2
  | .getNext => Returns h h.getNext.2

structure Navigates (file : Option Bytes) (calls : List Call) : Prop where
  cursor : ∀ made, made <+: calls → (after file made).history ≠ [] →
    (after file made).currentPosition < (after file made).history.length
  returned : ∀ made call, made ++ [call] <+: calls → (after file made).history ≠ [] → call.Returned (after file made)

theorem run_cursor {call : Call} (cursor : h.history ≠ [] → h.currentPosition < h.history.length)
    (room : call = .getPrev → h.history ≠ [] → Room h) (nonempty : (call.run h).history ≠ []) :
    (call.run h).currentPosition < (call.run h).history.length := by
  cases call with
  | add command => exact List.length_pos_iff.mpr nonempty
  | getPrev =>
      -- the only call that can lead past the oldest entry
      have inside := returns_getPrev_iff.mpr (room rfl nonempty)
      rw [getPrev_returned, returns_iff, ← getPrev_position] at inside
      exact inside
  | getNext =>
      have here := cursor nonempty
      change h.getNext.1.currentPosition < h.history.length
      rw [getNext_position]
      omega

theorem after_cursor {file : Option Bytes} {calls : List Call}
    (room : ∀ made, made ++ [.getPrev] <+: calls → (after file made).history ≠ [] → Room (after file made))
    (nonempty : (after file calls).history ≠ []) :
    (after file calls).currentPosition < (after file calls).history.length := by
  induction calls using List.reverseRecOn with
  | nil => exact List.length_pos_iff.mpr nonempty
  | append_singleton calls call ih =>
      have earlier := ih fun made before => room made (before.trans (List.prefix_append calls [call]))
      rw [after_append_singleton] at nonempty ⊢
      apply run_cursor earlier _ nonempty
      rintro rfl
      exact room calls (List.prefix_refl _)

theorem navigates_iff (file : Option Bytes) (calls : List Call) :
    Navigates file calls ↔
      ∀ made, made ++ [.getPrev] <+: calls → (after file made).history ≠ [] → Room (after file made) := by
  constructor
  · intro navigates made before nonempty
    exact returns_getPrev_iff.mp (navigates.returned made .getPrev before nonempty)
  · intro room
    have cursor : ∀ made, made <+: calls → (after file made).history ≠ [] →
        (after file made).currentPosition < (after file made).history.length :=
      fun made before => after_cursor fun first earlier => room first (earlier.trans before)
    refine ⟨cursor, fun made call before nonempty => ?_⟩
    cases call with
    | add command => trivial
    | getPrev => exact returns_getPrev_iff.mpr (room made before nonempty)
    | getNext =>
        have here := cursor made ((List.prefix_append made [.getNext]).trans before) nonempty
        change Returns _ (after file made).getNext.2
        rw [getNext_returned, returns_iff]
        omega

/-- In the state a run reaches, the cursor and both calls stay on stored entries exactly when the history is
full or the cursor is not on the oldest entry. Over the run they do exactly when every `getPrev` on a history
with entries was made in such a state. -/
theorem navigation_stays_iff (file : Option Bytes) (calls : List Call) :
    ((after file calls).history ≠ [] → (OnEntry (after file calls) ↔ Room (after file calls))) ∧
      (Navigates file calls ↔
        ∀ made, made ++ [.getPrev] <+: calls → (after file made).history ≠ [] → Room (after file made)) :=
  ⟨fun _ => onEntry_iff, navigates_iff file calls⟩

theorem first_getPrev_throws :
    (after none [.add (bytes "a")]).history = [bytes "a"] ∧
      (after none [.add (bytes "a")]).getPrev.2 = none ∧
      (after none [.add (bytes "a"), .getPrev]).currentPosition = 1 :=
  ⟨rfl, rfl, rfl⟩

/-! ## Walking back and forth -/

def goBack (h : CommandHistory) : Nat → CommandHistory
  | 0 => h
  | k + 1 => (h.goBack k).getPrev.1

def goForward (h : CommandHistory) : Nat → CommandHistory
  | 0 => h
  | j + 1 => (h.goForward j).getNext.1

@[simp] theorem goBack_history (h : CommandHistory) (k : Nat) : (h.goBack k).history = h.history := by
  induction k with
  | zero => rfl
  | succ k ih => rw [goBack, getPrev_history, ih]

@[simp] theorem goForward_history (h : CommandHistory) (j : Nat) : (h.goForward j).history = h.history := by
  induction j with
  | zero => rfl
  | succ j ih => rw [goForward, getNext_history, ih]

theorem goBack_position (h : CommandHistory) (k : Nat) :
    (h.goBack k).currentPosition = min (h.currentPosition + k) (DEPTH - 1) := by
  induction k with
  | zero =>
      have bound := h.position_lt
      change h.currentPosition = _
      omega
  | succ k ih =>
      rw [goBack, getPrev_position, ih]
      omega

theorem goForward_position (h : CommandHistory) (j : Nat) :
    (h.goForward j).currentPosition = h.currentPosition - j := by
  induction j with
  | zero => rfl
  | succ j ih =>
      rw [goForward, getNext_position, ih]
      omega

/-- The `k`-th call of `getPrev` returns the `k`-th of the recent commands, and after `k` such calls the
`j`-th call of `getNext` returns the one `j` places before. -/
structure Walks (h : CommandHistory) (recent : List Bytes) : Prop where
  back : ∀ k, 1 ≤ k → k ≤ recent.length → (h.goBack (k - 1)).getPrev.2 = recent[k - 1]?
  forward : ∀ k, 1 ≤ k → k ≤ recent.length → ∀ j, 1 ≤ j → j < k →
    ((h.goBack k).goForward (j - 1)).getNext.2 = recent[k - j - 1]?

section Fresh

variable (fresh : h.currentPosition = 0)
include fresh

theorem back_returned {k : Nat} (first : 1 ≤ k) : (h.goBack (k - 1)).getPrev.2 = h.history[min k (DEPTH - 1)]? := by
  have count : min (min (0 + (k - 1)) (DEPTH - 1) + 1) (DEPTH - 1) = min k (DEPTH - 1) := by omega
  rw [getPrev_returned, goBack_position, fresh, goBack_history, count]

theorem forward_returned {k j : Nat} (first : 1 ≤ j) :
    ((h.goBack k).goForward (j - 1)).getNext.2 = h.history[min k (DEPTH - 1) - j]? := by
  have count : min (0 + k) (DEPTH - 1) - (j - 1) - 1 = min k (DEPTH - 1) - j := by omega
  rw [getNext_returned, goForward_position, goBack_position, fresh, goForward_history, goBack_history, count]

theorem successive_of_walks (walks : Walks h h.history) :
    ∀ k, 1 ≤ k → k ≤ h.history.length → h.history[min k (DEPTH - 1)]? = h.history[k - 1]? := by
  intro k first last
  rw [← back_returned fresh first]
  exact walks.back k first last

theorem full_of_walks (nonempty : h.history ≠ []) (walks : Walks h h.history) : h.history.length = 100 := by
  have depth : DEPTH = 100 := rfl
  have size := h.size_le
  have some := List.length_pos_iff.mpr nonempty
  have oldest := successive_of_walks fresh walks h.history.length some le_rfl
  rw [List.getElem?_eq_getElem (by omega : h.history.length - 1 < h.history.length)] at oldest
  have inside := (List.getElem?_eq_some_iff.mp oldest).1
  omega

theorem getElem?_of_walks (full : h.history.length = 100) (walks : Walks h h.history) (k : Nat) (inside : k < 100) :
    h.history[k]? = h.history[0]? := by
  induction k with
  | zero => rfl
  | succ k ih =>
      have next := successive_of_walks fresh walks (k + 1) (by omega) (by omega)
      rw [Nat.min_eq_left (show k + 1 ≤ DEPTH - 1 by have : DEPTH = 100 := rfl; omega)] at next
      rw [next]
      exact ih (by omega)

theorem walks_of_same {command : Bytes} (full : h.history.length = 100)
    (same : ∀ entry ∈ h.history, entry = command) : Walks h h.history := by
  have depth : DEPTH = 100 := rfl
  have entry (i : Nat) (inside : i < 100) : h.history[i]? = some command := by
    rw [List.getElem?_eq_getElem (by omega), same _ (List.getElem_mem _)]
  constructor
  · intro k first last
    rw [back_returned fresh first, entry _ (by omega), entry _ (by omega)]
  · intro k _ last j first inside
    rw [forward_returned fresh first, entry _ (by omega), entry _ (by omega)]

end Fresh

/-- The commands a run has added, newest first, and the lines of the file, the first 100 of them. -/
def recent (file : Option Bytes) (calls : List Call) : List Bytes := (newestFirst calls ++ fileLines file).take 100

theorem after_history (file : Option Bytes) (calls : List Call) : (after file calls).history = recent file calls := by
  rw [after, foldl_run_history, load_history, take_append_take]
  rfl

theorem recent_append_add (file : Option Bytes) (calls : List Call) (command : Bytes) :
    recent file (calls ++ [.add command]) = command :: (newestFirst calls ++ fileLines file).take 99 := by
  rw [recent, newestFirst_append]
  rfl

/-- After an `add`, walking back and forth shows the commands in their order exactly when the history is full
and all of it is the command just added: the first `getPrev` skips that command, and the last one throws
unless the history is full. -/
theorem walks_after_add_iff (file : Option Bytes) (calls : List Call) (command : Bytes) :
    Walks (after file (calls ++ [.add command])) (recent file (calls ++ [.add command])) ↔
      (recent file (calls ++ [.add command])).length = 100 ∧
        ∀ entry ∈ recent file (calls ++ [.add command]), entry = command := by
  have fresh : (after file (calls ++ [.add command])).currentPosition = 0 := by
    rw [after_append_singleton]
    rfl
  have newest : (after file (calls ++ [.add command])).history[0]? = some command := by
    rw [after_history, recent_append_add]
    rfl
  rw [← after_history]
  generalize after file (calls ++ [.add command]) = h at fresh newest ⊢
  constructor
  · intro walks
    have full := full_of_walks fresh (List.ne_nil_of_mem (List.mem_of_getElem? newest)) walks
    refine ⟨full, fun entry member => ?_⟩
    obtain ⟨k, inside, rfl⟩ := List.getElem_of_mem member
    have same := getElem?_of_walks fresh full walks k (by omega)
    rw [newest, List.getElem?_eq_getElem inside] at same
    exact Option.some.inj same
  · rintro ⟨full, same⟩
    exact walks_of_same fresh full same

theorem first_getPrev_skips :
    recent none [.add (bytes "a"), .add (bytes "b")] = [bytes "b", bytes "a"] ∧
      (after none [.add (bytes "a"), .add (bytes "b")]).getPrev.2 = some (bytes "a") ∧
      ¬ Walks (after none [.add (bytes "a"), .add (bytes "b")]) (recent none [.add (bytes "a"), .add (bytes "b")]) := by
  refine ⟨rfl, rfl, fun walks => ?_⟩
  have first := walks.back 1 le_rfl (by decide)
  exact absurd first (by decide)

end Ddbclient.CommandHistory

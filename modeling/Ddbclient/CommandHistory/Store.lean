import Ddbclient.CommandHistory

/-!
# Saving to a disk that may fail

`store` looks at the stream only once, right after opening it. What it writes from then on may be cut
short at any byte.
-/

namespace Ddbclient
open Lib.Lines

namespace Disk

def kept (disk : Disk) (text : Bytes) : Bytes := ((⟨[], disk.room⟩ : OFStream).put text).written

/-- Writing does not fail before the end of the text. -/
def Fits (disk : Disk) (text : Bytes) : Prop := ∀ room ∈ disk.room, text.length ≤ room

theorem kept_eq_iff (disk : Disk) (text : Bytes) : disk.kept text = text ↔ disk.Fits text := by
  obtain ⟨opens, room⟩ := disk
  cases room with
  | none => simp [kept, Fits, OFStream.put]
  | some room => simp [kept, Fits, OFStream.put]

theorem kept_eq_take (disk : Disk) (text : Bytes) : ∃ count, disk.kept text = text.take count := by
  obtain ⟨opens, room⟩ := disk
  cases room with
  | none => exact ⟨text.length, List.take_length.symm⟩
  | some room => exact ⟨room, rfl⟩

end Disk

namespace CommandHistory

/-- Every entry followed by a newline. -/
def encoding (h : CommandHistory) : Bytes := joinLines newline h.history

theorem store_closed (h : CommandHistory) {disk : Disk} (closed : disk.opens = false) (file : Option Bytes) :
    h.store disk file = (false, file) := by
  rw [store, closed]
  rfl

theorem store_opened (h : CommandHistory) {disk : Disk} (opened : disk.opens = true) (file : Option Bytes) :
    h.store disk file = (true, some (disk.kept h.encoding)) := by
  rw [store, if_pos opened, OFStream.foldl_putLine]
  rfl

/-! ## What the returned value says -/

structure TellsOutcome (h : CommandHistory) (disk : Disk) (file : Option Bytes) : Prop where
  success : (h.store disk file).1 = true ↔ (h.store disk file).2 = some h.encoding
  failure : (h.store disk file).1 = false → (h.store disk file).2 = file

theorem tells_closed_iff (h : CommandHistory) {disk : Disk} (closed : disk.opens = false) (file : Option Bytes) :
    TellsOutcome h disk file ↔ file ≠ some h.encoding := by
  have stored := store_closed h closed file
  constructor
  · intro tells already
    have success := tells.success.mpr (by rw [stored, already])
    rw [stored] at success
    cases success
  · intro other
    refine ⟨?_, fun _ => by rw [stored]⟩
    rw [stored]
    exact iff_of_false Bool.false_ne_true other

theorem tells_opened_iff (h : CommandHistory) {disk : Disk} (opened : disk.opens = true) (file : Option Bytes) :
    TellsOutcome h disk file ↔ disk.Fits h.encoding := by
  have stored := store_opened h opened file
  rw [← disk.kept_eq_iff]
  constructor
  · intro tells
    have complete := tells.success.mp (by rw [stored])
    rw [stored] at complete
    exact Option.some.inj complete
  · intro complete
    refine ⟨?_, fun failed => ?_⟩
    · rw [stored, complete]
      exact iff_of_true rfl rfl
    · rw [stored] at failed
      cases failed

/-- What `store` returns tells the outcome exactly when writing does not fail, or when the file does not open
and holds something else. -/
theorem store_tells_iff (h : CommandHistory) (disk : Disk) (file : Option Bytes) :
    TellsOutcome h disk file ↔
      disk.opens = true ∧ disk.Fits h.encoding ∨ disk.opens = false ∧ file ≠ some h.encoding := by
  cases opening : disk.opens with
  | false => simp [tells_closed_iff h opening]
  | true => simp [tells_opened_iff h opening]

/-- The disk fills up in the middle of the second entry, and yet the store is reported as complete. -/
theorem full_disk_unreported :
    ((load (some (bytes "one\n"))).add (bytes "two")).store ⟨true, some 6⟩ (some (bytes "one\n")) =
        (true, some (bytes "two\non")) ∧
      ¬ TellsOutcome ((load (some (bytes "one\n"))).add (bytes "two")) ⟨true, some 6⟩ (some (bytes "one\n")) := by
  refine ⟨by decide, fun tells => ?_⟩
  have complete := tells.success.mp (by decide)
  exact absurd complete (by decide)

/-! ## What the next session finds -/

/-- A write error leaves the newest entries whole, loses the oldest, and may leave a piece of the one in
between, which the next session takes for a command. -/
theorem load_store_opened (h : CommandHistory) {disk : Disk} (opened : disk.opens = true) (file : Option Bytes)
    (free : ∀ command ∈ h.history, newline ∉ command) :
    CutShort h.history (load (h.store disk file).2).history := by
  obtain ⟨count, kept⟩ := disk.kept_eq_take h.encoding
  have cut := splitLines_take_joinLines free count
  rw [store_opened h opened, kept, load_history]
  change CutShort _ ((splitLines newline ((joinLines newline h.history).take count)).take DEPTH)
  rwa [List.take_of_length_le (cut.length_le.trans h.size_le)]

end CommandHistory
end Ddbclient

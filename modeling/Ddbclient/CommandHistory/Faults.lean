import Ddbclient.CommandHistory.Store
import Mathlib.Data.List.Forall2

/-!
# Many sessions, failing disks

Each session is stored to a disk of its own, which may not open and may fill up at any byte. What the next
client loads is compared with all commands that were ever added.
-/

namespace Ddbclient
open Lib.Lines

namespace CommandHistory

structure StoredSession where
  calls : List Call
  disk : Disk

def StoredSession.end (s : StoredSession) (file : Option Bytes) : CommandHistory := s.calls.foldl Call.run (load file)

def StoredSession.after (file : Option Bytes) (s : StoredSession) : Option Bytes := ((s.end file).store s.disk file).2

def storedSessions (file : Option Bytes) (runs : List StoredSession) : Option Bytes :=
  runs.foldl StoredSession.after file

def log (runs : List StoredSession) : List Bytes := newestFirst (runs.flatMap StoredSession.calls)

/-- Every entry is a command of the log or the beginning of one, in the order of the log and no command twice. -/
abbrev PiecesOf (entries log : List Bytes) : Prop := List.SublistForall₂ (· <+: ·) entries log

theorem PiecesOf.trans {entries older log : List Bytes} (first : PiecesOf entries older) (second : PiecesOf older log) :
    PiecesOf entries log := by
  have : IsTrans Bytes (· <+: ·) := ⟨fun _ _ _ => List.IsPrefix.trans⟩
  exact IsTrans.trans _ _ _ first second

theorem PiecesOf.append_left (newer : List Bytes) {entries log : List Bytes} (pieces : PiecesOf entries log) :
    PiecesOf (newer ++ entries) (newer ++ log) := by
  induction newer with
  | nil => exact pieces
  | cons command newer ih => exact .cons (List.prefix_rfl) ih

theorem PiecesOf.more (newer : List Bytes) {entries log : List Bytes} (pieces : PiecesOf entries log) :
    PiecesOf entries (newer ++ log) :=
  pieces.trans (List.sublist_append_right newer log).sublistForall₂

theorem piecesOf_cut {lines kept : List Bytes} (cut : CutShort lines kept) : PiecesOf kept lines := by
  induction cut with
  | here lines => exact .nil
  | inside lines start nonempty => exact .cons start .nil
  | later line rest ih => exact .cons List.prefix_rfl ih

namespace StoredSession

theorem end_history (s : StoredSession) (file : Option Bytes) :
    (s.end file).history = (newestFirst s.calls ++ (load file).history).take DEPTH :=
  foldl_run_history s.calls (load file)

theorem end_newlineFree {s : StoredSession} (free : NewlineFreeCalls s.calls) (file : Option Bytes) :
    ∀ command ∈ (s.end file).history, newline ∉ command := by
  intro command member
  rw [end_history] at member
  rcases List.mem_append.mp (List.mem_of_mem_take member) with added | loaded
  · exact free command (List.mem_reverse.mp added)
  · rw [load_history] at loaded
    exact fileLines_newlineFree file command (List.mem_of_mem_take loaded)

theorem after_closed {s : StoredSession} (closed : s.disk.opens = false) (file : Option Bytes) : s.after file = file := by
  rw [after, store_closed _ closed]

theorem load_after_whole {s : StoredSession} (free : NewlineFreeCalls s.calls) {file : Option Bytes}
    (opened : s.disk.opens = true) (fits : s.disk.Fits (s.end file).encoding) :
    (load (s.after file)).history = (s.end file).history := by
  have stored : s.after file = some (s.end file).encoding := by
    rw [after, store_opened _ opened, (s.disk.kept_eq_iff _).mpr fits]
  rw [stored, load_history, encoding]
  change (splitLines newline (joinLines newline (s.end file).history)).take DEPTH = _
  rw [splitLines_joinLines _ (end_newlineFree free file), List.take_of_length_le (s.end file).size_le]

/-- What one session does to the pieces of any log that the file holds. -/
theorem pieces_after {s : StoredSession} (free : NewlineFreeCalls s.calls) {file : Option Bytes} {log : List Bytes}
    (pieces : PiecesOf (load file).history log) : PiecesOf (load (s.after file)).history (newestFirst s.calls ++ log) := by
  cases opening : s.disk.opens with
  | false =>
      rw [after_closed opening]
      exact pieces.more _
  | true =>
      have stored : PiecesOf (load (s.after file)).history (s.end file).history :=
        piecesOf_cut (load_store_opened _ opening file (end_newlineFree free file))
      have kept : PiecesOf (s.end file).history (newestFirst s.calls ++ (load file).history) := by
        rw [end_history]
        exact (List.take_sublist _ _).sublistForall₂
      exact (stored.trans kept).trans (pieces.append_left _)

end StoredSession

theorem log_cons (s : StoredSession) (runs : List StoredSession) : log (s :: runs) = log runs ++ newestFirst s.calls := by
  rw [log, List.flatMap_cons, newestFirst_append]
  rfl

theorem pieces_storedSessions {runs : List StoredSession} (free : ∀ s ∈ runs, NewlineFreeCalls s.calls)
    {file : Option Bytes} {older : List Bytes} (pieces : PiecesOf (load file).history older) :
    PiecesOf (load (storedSessions file runs)).history (log runs ++ older) := by
  induction runs generalizing file older with
  | nil => exact pieces
  | cons s runs ih =>
      have later := ih (fun other member => free other (List.mem_cons_of_mem s member))
        (StoredSession.pieces_after (free s List.mem_cons_self) pieces)
      rw [log_cons, List.append_assoc]
      exact later

/-- No disk that opens fills up before everything is written. -/
def NeverFull : Option Bytes → List StoredSession → Prop
  | _, [] => True
  | file, s :: runs => (s.disk.opens = true → s.disk.Fits (s.end file).encoding) ∧ NeverFull (s.after file) runs

theorem storedSessions_whole {runs : List StoredSession} (free : ∀ s ∈ runs, NewlineFreeCalls s.calls)
    {file : Option Bytes} (whole : NeverFull file runs) :
    (load (storedSessions file runs)).history =
      (log (runs.filter fun s => s.disk.opens) ++ (load file).history).take DEPTH := by
  induction runs generalizing file with
  | nil => exact (List.take_of_length_le (load file).size_le).symm
  | cons s runs ih =>
      have later := ih (fun other member => free other (List.mem_cons_of_mem s member)) whole.2
      change (load (storedSessions (s.after file) runs)).history = _
      rw [later]
      cases opening : s.disk.opens with
      | false =>
          rw [StoredSession.after_closed opening, List.filter_cons_of_neg (by simp [opening])]
      | true =>
          rw [StoredSession.load_after_whole (free s List.mem_cons_self) opening (whole.1 opening),
            StoredSession.end_history, take_append_take, List.filter_cons_of_pos (by simp [opening]), log_cons,
            List.append_assoc]

def sampleRuns : List StoredSession :=
  [⟨[.add (bytes "one"), .add (bytes "two")], ⟨true, none⟩⟩, ⟨[.add (bytes "lost")], ⟨false, none⟩⟩,
    ⟨[.getPrev, .add (bytes "three")], ⟨true, some 20⟩⟩]

end CommandHistory
end Ddbclient

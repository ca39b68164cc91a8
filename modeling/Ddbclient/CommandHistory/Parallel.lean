import Ddbclient.CommandHistory
import Ddbclient.Lib.Snapshots

/-!
# Several sessions on one history file

Every session goes on with the entries that it has loaded and at its end writes all of its own back, over
whatever the file holds by then.
-/

namespace Ddbclient.CommandHistory
open Lib.Snapshots

variable {Id : Type*} {file : Option Bytes}

/-- The constructor, the calls and the final `store` as a writer of the history file. -/
def writer : Writer (Option Bytes) CommandHistory Call where
  load := load
  update := Call.run
  save h file := (h.store Disk.good file).2
  overwrites h file file' := by rw [store_good, store_good]

theorem writer_replay (file : Option Bytes) (runs : List (List Call)) : writer.replay file runs = sessions file runs :=
  rfl

theorem fileLines_sessions_of_few {runs : List (List Call)} (free : ∀ calls ∈ runs, NewlineFreeCalls calls)
    (few : (newestFirst runs.flatten ++ fileLines file).length ≤ DEPTH) :
    fileLines (sessions file runs) = newestFirst runs.flatten ++ fileLines file := by
  induction runs generalizing file with
  | nil => rfl
  | cons calls runs ih =>
      rw [List.flatten_cons, newestFirst_append, List.append_assoc] at few ⊢
      have stored : fileLines (session file calls).2 = newestFirst calls ++ fileLines file := by
        rw [fileLines_session file (free calls List.mem_cons_self), List.take_of_length_le]
        exact (List.sublist_append_right _ _).length_le.trans few
      rw [← stored] at few ⊢
      exact ih (fun others member => free others (List.mem_cons_of_mem _ member)) few

def addedCommands (steps : List (Action Id Call)) : List Bytes := (updates steps).filterMap Call.added

variable [DecidableEq Id] {steps : List (Action Id Call)} {s : State Id (Option Bytes) CommandHistory}

theorem lineage_commands_sublist (ran : writer.run (.start file) steps = some s) :
    ((lineage steps).flatten.filterMap Call.added).Sublist (addedCommands steps) :=
  (lineage_sublist ran).filterMap Call.added

theorem fileLines_run (ran : writer.run (.start file) steps = some s)
    (free : ∀ command ∈ addedCommands steps, newline ∉ command)
    (few : (fileLines file).length + (addedCommands steps).length ≤ DEPTH) :
    fileLines s.cell = newestFirst (lineage steps).flatten ++ fileLines file := by
  have among := lineage_commands_sublist ran
  rw [cell_eq_replay ran, writer_replay]
  apply fileLines_sessions_of_few
  · intro calls member command added
    have inLineage : command ∈ (lineage steps).flatten.filterMap Call.added := by
      obtain ⟨call, called, adds⟩ := List.mem_filterMap.mp added
      exact List.mem_filterMap.mpr ⟨call, List.mem_flatten_of_mem member called, adds⟩
    exact free command (among.subset inLineage)
  · have bound := among.length_le
    rw [List.length_append, newestFirst, List.length_reverse]
    omega

/-- The file keeps the initial lines and the commands of the sessions in its lineage. This is every command
when no session loads the file while another one is under way. -/
theorem parallel_sessions (ran : writer.run (.start file) steps = some s)
    (free : ∀ command ∈ addedCommands steps, newline ∉ command)
    (few : (fileLines file).length + (addedCommands steps).length ≤ 100) :
    fileLines s.cell = newestFirst (lineage steps).flatten ++ fileLines file ∧
      (writer.LoadsAlone (.start file) steps → s.Idle →
        ∀ command ∈ fileLines file ++ addedCommands steps, command ∈ fileLines s.cell) := by
  have final := fileLines_run ran free few
  refine ⟨final, fun alone idle command member => ?_⟩
  have all : newestFirst (lineage steps).flatten = (addedCommands steps).reverse := by
    rw [lineage_of_loadsAlone ran alone idle]
    rfl
  rw [final, all]
  rcases List.mem_append.mp member with initial | added
  · exact List.mem_append_right _ initial
  · exact List.mem_append_left _ (List.mem_reverse.mpr added)

def twoTerminals : List (Action Bool Call) :=
  [.load false, .load true, .update false (.add (bytes "a")), .update true (.add (bytes "b")), .save false, .save true]

theorem parallel_sessions_twoTerminals :
    ∃ s, writer.run (.start (some (bytes "c\n"))) twoTerminals = some s ∧
      fileLines s.cell = newestFirst (lineage twoTerminals).flatten ++ fileLines (some (bytes "c\n")) ∧
        (writer.LoadsAlone (.start (some (bytes "c\n"))) twoTerminals → s.Idle →
          ∀ command ∈ fileLines (some (bytes "c\n")) ++ addedCommands twoTerminals, command ∈ fileLines s.cell) :=
  ⟨_, rfl, parallel_sessions rfl (by decide) (by decide)⟩

/-- The session that stores last overwrites the command of the other. -/
theorem parallel_session_lost :
    ∃ s, writer.run (.start none) twoTerminals = some s ∧ s.Idle ∧
      ¬ ∀ command ∈ fileLines none ++ addedCommands twoTerminals, command ∈ fileLines s.cell := by
  refine ⟨_, rfl, fun id value working => ?_, fun kept => ?_⟩
  · cases id <;> cases working
  · exact absurd (kept (bytes "a") (by decide)) (by decide)

end Ddbclient.CommandHistory

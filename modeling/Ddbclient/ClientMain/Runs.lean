import Ddbclient.ClientMain.Ending
import Ddbclient.CommandHistory.Faults

/-!
# The program run again and again

The client loads `.cli_history` and stores it back, and nothing in between adds a command to it.
-/

namespace Ddbclient
open Lib.Lines CommandHistory

/-- The interactive loop was left, so that the client is closed. -/
structure Closes (env : Environment) : Prop where
  interactive : ∃ c o, Connected env c o ∧ o.Interactive
  greeted : Greeted env
  quits : Loop.start.ReachesQuit env.inputs

theorem interact_cliHistory (env : Environment) :
    Greeted env ∧ (interact env).cliHistory = historyAfter env (session .start env.inputs).2 ∨
      ¬ Greeted env ∧ (interact env).cliHistory = env.cliHistory := by
  unfold interact
  cases version : env.run (bytes "version()") with
  | error what =>
      refine Or.inr ⟨fun greeted => ?_, rfl⟩
      obtain ⟨v, answered⟩ := greeted.version
      rw [version] at answered
      cases answered
  | ok v =>
      cases asked : getKeyWords env with
      | error what =>
          refine Or.inr ⟨fun greeted => ?_, rfl⟩
          obtain ⟨words, answered⟩ := greeted.keyWords
          rw [asked] at answered
          cases answered
      | ok words => exact Or.inl ⟨⟨⟨v, version⟩, words, asked⟩, rfl⟩

theorem historyAfter_left {env : Environment} (quits : Loop.start.ReachesQuit env.inputs) :
    historyAfter env (session .start env.inputs).2 = ((load env.cliHistory).store env.disk env.cliHistory).2 := by
  rw [session_left quits]
  rfl

theorem historyAfter_other {env : Environment} (stays : ¬ Loop.start.ReachesQuit env.inputs) :
    historyAfter env (session .start env.inputs).2 = env.cliHistory := by
  cases outcome : (session .start env.inputs).2 with
  | running => rfl
  | exited status => exact absurd (quits_of_exited outcome) stays
  | crashed fault => rfl

theorem runOrInteract_batch {env : Environment} {options : Options} (other : ¬ options.Interactive) :
    (runOrInteract env options).cliHistory = env.cliHistory := by
  cases optionsKind options env.files with
  | ambiguous ambiguous => rw [runOrInteract, batch_ambiguous env.run ambiguous]
  | chosen script chosen =>
      obtain ⟨printed, ran, -⟩ := batch_chosen env.run chosen
      rw [runOrInteract, ran]
  | interactive interactive => exact absurd interactive other

theorem Connected.main_cliHistory {env : Environment} {c : Connection} {o : Options} (connected : Connected env c o) :
    (main env).cliHistory = (runOrInteract env o).cliHistory := by
  rw [main_accepted connected.accepted, connected.connects]
  rfl

theorem main_cliHistory_closed {env : Environment} (closes : Closes env) :
    (main env).cliHistory = ((load env.cliHistory).store env.disk env.cliHistory).2 := by
  obtain ⟨⟨c, o, connected, interactive⟩, greeted, quits⟩ := closes
  rw [connected.main_cliHistory, runOrInteract_interactive interactive]
  rcases interact_cliHistory env with ⟨-, after⟩ | ⟨other, -⟩
  · rw [after, historyAfter_left quits]
  · exact absurd greeted other

theorem main_cliHistory_open {env : Environment} (stays : ¬ Closes env) : (main env).cliHistory = env.cliHistory := by
  rcases commandLine_cases env.argv with asks | refused | ⟨c, o, accepted⟩
  · rw [main_asksHelp asks]
  · rw [main_refused refused]
  · cases outcome : env.connect c with
    | error what => rw [main_accepted accepted, outcome]; rfl
    | ok connects =>
        cases connects with
        | false => rw [main_accepted accepted, outcome]; rfl
        | true =>
            have connected : Connected env c o := ⟨accepted, outcome⟩
            rw [connected.main_cliHistory]
            by_cases interactive : o.Interactive
            · rw [runOrInteract_interactive interactive]
              rcases interact_cliHistory env with ⟨greeted, after⟩ | ⟨-, same⟩
              · rw [after, historyAfter_other fun quits => stays ⟨⟨c, o, connected, interactive⟩, greeted, quits⟩]
              · exact same
            · exact runOrInteract_batch interactive

/-! ## Any number of runs -/

def Environment.withHistory (env : Environment) (file : Option Bytes) : Environment := { env with cliHistory := file }

theorem closes_withHistory {env : Environment} {file : Option Bytes} : Closes (env.withHistory file) ↔ Closes env := by
  constructor
  · rintro ⟨⟨c, o, connected, interactive⟩, greeted, quits⟩
    exact ⟨⟨c, o, ⟨connected.accepted, connected.connects⟩, interactive⟩, ⟨greeted.version, greeted.keyWords⟩, quits⟩
  · rintro ⟨⟨c, o, connected, interactive⟩, greeted, quits⟩
    exact ⟨⟨c, o, ⟨connected.accepted, connected.connects⟩, interactive⟩, ⟨greeted.version, greeted.keyWords⟩, quits⟩

def runs (file : Option Bytes) (envs : List Environment) : Option Bytes :=
  envs.foldl (fun file env => (main (env.withHistory file)).cliHistory) file

/-- A run that closes the client is a session in which nothing was added. -/
theorem main_withHistory (file : Option Bytes) (env : Environment) :
    Closes env ∧ (main (env.withHistory file)).cliHistory = StoredSession.after file ⟨[], env.disk⟩ ∨
      ¬ Closes env ∧ (main (env.withHistory file)).cliHistory = file := by
  by_cases closes : Closes env
  · exact Or.inl ⟨closes, main_cliHistory_closed (closes_withHistory.mpr closes)⟩
  · exact Or.inr ⟨closes, main_cliHistory_open fun closed => closes (closes_withHistory.mp closed)⟩

theorem cutShort_after (file : Option Bytes) (disk : Disk) :
    CutShort (load file).history (load (StoredSession.after file ⟨[], disk⟩)).history := by
  cases opening : disk.opens with
  | false =>
      rw [StoredSession.after_closed opening]
      exact .refl _
  | true => exact load_store_opened (load file) opening file (StoredSession.end_newlineFree (s := ⟨[], disk⟩) nofun file)

theorem runs_cutShort (file : Option Bytes) (envs : List Environment) :
    CutShort (load file).history (load (runs file envs)).history := by
  induction envs generalizing file with
  | nil => exact .refl _
  | cons env envs ih =>
      have later := ih (main (env.withHistory file)).cliHistory
      rcases main_withHistory file env with ⟨-, after⟩ | ⟨-, same⟩
      · rw [after] at later
        apply (cutShort_after file env.disk).trans
        rwa [runs, List.foldl_cons, after]
      · rw [same] at later
        rwa [runs, List.foldl_cons, same]

theorem load_after_unchanged {file : Option Bytes} {disk : Disk}
    (fits : disk.opens = true → disk.Fits (load file).encoding) :
    (load (StoredSession.after file ⟨[], disk⟩)).history = (load file).history := by
  cases opening : disk.opens with
  | false => rw [StoredSession.after_closed opening]
  | true => exact StoredSession.load_after_whole (s := ⟨[], disk⟩) nofun opening (fits opening)

theorem runs_unchanged {file : Option Bytes} {envs : List Environment}
    (fits : ∀ env ∈ envs, Closes env → env.disk.opens = true → env.disk.Fits (load file).encoding) :
    (load (runs file envs)).history = (load file).history := by
  induction envs generalizing file with
  | nil => rfl
  | cons env envs ih =>
      have others : ∀ other ∈ envs, Closes other → other.disk.opens = true → other.disk.Fits (load file).encoding :=
        fun other member => fits other (List.mem_cons_of_mem env member)
      have next : (load (main (env.withHistory file)).cliHistory).history = (load file).history := by
        rcases main_withHistory file env with ⟨closes, after⟩ | ⟨-, same⟩
        · rw [after]
          exact load_after_unchanged (fits env List.mem_cons_self closes)
        · rw [same]
      rw [← next]
      apply ih
      rwa [encoding, next]

end Ddbclient

import Ddbclient.ClientMain.CommandLine

/-!
# How a run of the program ends

The exit statuses of the program, each with the runs that end with it, and what a run says to the server.
-/

namespace Ddbclient
open Lib Lib.Checked Cmdline

theorem Accepted.unique {argv : List Bytes} {c c' : Connection} {o o' : Options} (first : Accepted argv c o)
    (second : Accepted argv c' o') : c = c' ∧ o = o' :=
  ⟨Option.some.inj (Except.ok.inj (first.connects.symm.trans second.connects)),
    Except.ok.inj (first.scripts.symm.trans second.scripts)⟩

def Options.chosen (options : Options) (files : Bytes → FileState) : Option Bytes :=
  match options.file, options.script with
  | some filename, none => some (fileScript filename (files filename))
  | none, some script => some script
  | _, _ => none

def Options.Ambiguous (options : Options) : Prop := options.file ≠ none ∧ options.script ≠ none

def Options.Interactive (options : Options) : Prop := options.file = none ∧ options.script = none

inductive OptionsKind (options : Options) (files : Bytes → FileState) : Prop where
  | ambiguous (ambiguous : options.Ambiguous)
  | chosen (script : Bytes) (chosen : options.chosen files = some script)
  | interactive (interactive : options.Interactive)

theorem optionsKind (options : Options) (files : Bytes → FileState) : OptionsKind options files := by
  obtain ⟨file, script⟩ := options
  cases file with
  | none =>
      cases script with
      | none => exact .interactive ⟨rfl, rfl⟩
      | some script => exact .chosen script rfl
  | some filename =>
      cases script with
      | none => exact .chosen _ rfl
      | some script => exact .ambiguous ⟨nofun, nofun⟩

section Batch
variable {options : Options} {files : Bytes → FileState} (run : Bytes → Except Bytes Constant)

theorem batch_ambiguous (ambiguous : options.Ambiguous) :
    batch options files run =
      some ([.print (bytes "Ambiguous parameter: file and script, keep one of them!\n")], 128) := by
  obtain ⟨file, script⟩ := options
  cases file with
  | none => exact absurd rfl ambiguous.1
  | some filename =>
      cases script with
      | none => exact absurd rfl ambiguous.2
      | some script => rfl

theorem batch_chosen {script : Bytes} (chosen : options.chosen files = some script) :
    ∃ printed, batch options files run =
      some (printed ++ (runScript run script).1, (runScript run script).2) ∧ actions printed = [] := by
  obtain ⟨file, given⟩ := options
  cases file with
  | none =>
      cases given with
      | none => cases chosen
      | some given => cases chosen; exact ⟨[], rfl, rfl⟩
  | some filename =>
      cases given with
      | none => cases chosen; exact ⟨[_], rfl, rfl⟩
      | some given => cases chosen

theorem batch_interactive (interactive : options.Interactive) : batch options files run = none := by
  obtain ⟨file, script⟩ := options
  obtain ⟨rfl, rfl⟩ := interactive
  rfl

end Batch

/-! ## Interactive runs -/

/-- The server answers what the client asks it before the first line is read. -/
structure Greeted (env : Environment) : Prop where
  version : ∃ v, env.run (bytes "version()") = .ok v
  keyWords : ∃ words, getKeyWords env = .ok words

theorem session_left {s : Loop} {inputs : List Input} (quits : s.ReachesQuit inputs) :
    (session s inputs).2 = .exited 0 := ((ends_session_iff s inputs).mpr quits).status

theorem interact_greeted {env : Environment} (greeted : Greeted env) :
    (interact env).ending = (session .start env.inputs).2.ending := by
  obtain ⟨⟨v, version⟩, words, asked⟩ := greeted
  rw [interact, version]
  dsimp only
  rw [asked]

/-! ## Batch runs -/

theorem runOrInteract_ambiguous {env : Environment} {options : Options} (ambiguous : options.Ambiguous) :
    (runOrInteract env options).ending = .exited 128 := by
  rw [runOrInteract, batch_ambiguous env.run ambiguous]

theorem runOrInteract_chosen {env : Environment} {options : Options} {script : Bytes}
    (chosen : options.chosen env.files = some script) :
    (runOrInteract env options).ending = .exited (runScript env.run script).2 := by
  obtain ⟨printed, ran, -⟩ := batch_chosen env.run chosen
  rw [runOrInteract, ran]

theorem runOrInteract_interactive {env : Environment} {options : Options} (interactive : options.Interactive) :
    runOrInteract env options = interact env := by
  rw [runOrInteract, batch_interactive env.run interactive]

/-! ## All ways to end -/

structure Connected (env : Environment) (connection : Connection) (options : Options) : Prop where
  accepted : Accepted env.argv connection options
  connects : env.connect connection = .ok true

inductive EndsWith (env : Environment) : Ending → Prop where
  | helped (asks : AsksHelp env.argv) : EndsWith env (.exited 0)
  | refused (refused : Refused env.argv) : EndsWith env (.exited 1)
  | unconnected {c o} (accepted : Accepted env.argv c o) (fails : env.connect c = .ok false) :
      EndsWith env (.exited 130)
  | connectThrows {c o what} (accepted : Accepted env.argv c o) (throws : env.connect c = .error what) :
      EndsWith env (.terminated what)
  | ambiguous {c o} (connected : Connected env c o) (ambiguous : o.Ambiguous) : EndsWith env (.exited 128)
  | ran {c o script result} (connected : Connected env c o) (chosen : o.chosen env.files = some script)
      (ran : env.run script = .ok result) : EndsWith env (.exited 0)
  | scriptThrows {c o script what} (connected : Connected env c o) (chosen : o.chosen env.files = some script)
      (throws : env.run script = .error what) : EndsWith env (.exited 140)
  | versionThrows {c o what} (connected : Connected env c o) (interactive : o.Interactive)
      (throws : env.run (bytes "version()") = .error what) : EndsWith env (.terminated what)
  | keyWordsThrow {c o v what} (connected : Connected env c o) (interactive : o.Interactive)
      (version : env.run (bytes "version()") = .ok v) (throws : getKeyWords env = .error what) :
      EndsWith env (.terminated what)
  | left {c o} (connected : Connected env c o) (interactive : o.Interactive) (greeted : Greeted env)
      (quits : Loop.start.ReachesQuit env.inputs) : EndsWith env (.exited 0)
  | unfinished {c o} (connected : Connected env c o) (interactive : o.Interactive) (greeted : Greeted env)
      (goesOn : Loop.start.ReadsAll env.inputs) : EndsWith env .running
  | crashed {c o fault} (connected : Connected env c o) (interactive : o.Interactive) (greeted : Greeted env)
      (faults : Loop.start.ReachesFault env.inputs fault) : EndsWith env (.crashed fault)

theorem Connected.main_ending {env : Environment} {c : Connection} {o : Options} (connected : Connected env c o) :
    (main env).ending = (runOrInteract env o).ending := by
  rw [main_accepted connected.accepted, connected.connects]
  rfl

theorem main_ending_greeted {env : Environment} {c : Connection} {o : Options} (accepted : Accepted env.argv c o)
    (connects : env.connect c = .ok true) (interactive : o.Interactive) (greeted : Greeted env) :
    (main env).ending = (session .start env.inputs).2.ending := by
  rw [Connected.main_ending ⟨accepted, connects⟩, runOrInteract_interactive interactive, interact_greeted greeted]

theorem EndsWith.sound {env : Environment} {ending : Ending} (ends : EndsWith env ending) : (main env).ending = ending := by
  cases ends with
  | helped asks => rw [main_asksHelp asks]
  | refused refused => rw [main_refused refused]
  | unconnected accepted fails => rw [main_accepted accepted, fails]; rfl
  | connectThrows accepted throws => rw [main_accepted accepted, throws]; rfl
  | ambiguous connected ambiguous => rw [connected.main_ending, runOrInteract_ambiguous ambiguous]
  | ran connected chosen ran => rw [connected.main_ending, runOrInteract_chosen chosen, runScript, ran]
  | scriptThrows connected chosen throws => rw [connected.main_ending, runOrInteract_chosen chosen, runScript, throws]
  | versionThrows connected interactive throws =>
      rw [connected.main_ending, runOrInteract_interactive interactive, interact, throws]
  | keyWordsThrow connected interactive version throws =>
      rw [connected.main_ending, runOrInteract_interactive interactive, interact, version]
      dsimp only
      rw [throws]
  | left connected interactive greeted quits =>
      rw [connected.main_ending, runOrInteract_interactive interactive, interact_greeted greeted, session_left quits]
      rfl
  | unfinished connected interactive greeted goesOn =>
      rw [connected.main_ending, runOrInteract_interactive interactive, interact_greeted greeted,
        (session_running_iff _ _).mpr goesOn]
      rfl
  | crashed connected interactive greeted faults =>
      rw [connected.main_ending, runOrInteract_interactive interactive, interact_greeted greeted,
        (session_crashed_iff _ _ _).mpr faults]
      rfl

theorem endsWith_of_connected {env : Environment} {c : Connection} {o : Options} (connected : Connected env c o) :
    ∃ ending, EndsWith env ending := by
  cases optionsKind o env.files with
  | ambiguous ambiguous => exact ⟨_, .ambiguous connected ambiguous⟩
  | chosen script chosen =>
      cases outcome : env.run script with
      | ok result => exact ⟨_, .ran connected chosen outcome⟩
      | error what => exact ⟨_, .scriptThrows connected chosen outcome⟩
  | interactive interactive =>
      cases version : env.run (bytes "version()") with
      | error what => exact ⟨_, .versionThrows connected interactive version⟩
      | ok v =>
          cases asked : getKeyWords env with
          | error what => exact ⟨_, .keyWordsThrow connected interactive version asked⟩
          | ok words =>
              have greeted : Greeted env := ⟨⟨v, version⟩, words, asked⟩
              cases outcome : (session .start env.inputs).2 with
              | running => exact ⟨_, .unfinished connected interactive greeted ((session_running_iff _ _).mp outcome)⟩
              | exited status => exact ⟨_, .left connected interactive greeted (quits_of_exited outcome)⟩
              | crashed fault =>
                  exact ⟨_, .crashed connected interactive greeted ((session_crashed_iff _ _ _).mp outcome)⟩

theorem exists_endsWith (env : Environment) : ∃ ending, EndsWith env ending := by
  rcases commandLine_cases env.argv with asks | refused | ⟨c, o, accepted⟩
  · exact ⟨_, .helped asks⟩
  · exact ⟨_, .refused refused⟩
  · cases outcome : env.connect c with
    | error what => exact ⟨_, .connectThrows accepted outcome⟩
    | ok connected =>
        cases connected with
        | false => exact ⟨_, .unconnected accepted outcome⟩
        | true => exact endsWith_of_connected ⟨accepted, outcome⟩

/-- A run writes to `cerr` and does nothing more, or asks for a connection before it prints anything. -/
theorem main_opens (env : Environment) :
    (∃ text, (main env).events = [.linenoiseHistoryLoad, .cerr text]) ∨
      ∃ c rest, (main env).events = .linenoiseHistoryLoad :: .connect c :: rest := by
  rcases commandLine_cases env.argv with asks | refused | ⟨c, o, accepted⟩
  · exact Or.inl ⟨_, by rw [main_asksHelp asks]⟩
  · exact Or.inl ⟨_, by rw [main_refused refused]⟩
  · rw [main_accepted accepted]
    exact Or.inr ⟨c, _, rfl⟩

end Ddbclient

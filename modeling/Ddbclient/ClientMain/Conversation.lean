import Ddbclient.ClientMain.Invocation
import Ddbclient.ClientMain.Transcript

/-!
# What the program says to the server

The connection and the scripts of a whole run, from the words of the command line and the commands of the
session.
-/

namespace Ddbclient
open Lib Lib.Checked Cmdline Cmdline.Parser

inductive Said where
  | connect (connection : Connection)
  | script (script : Bytes)
  deriving DecidableEq

def Action.script? : Action → Option Bytes
  | .script cmd => some cmd
  | _ => none

def scripts (actions : List Action) : List Bytes := actions.filterMap Action.script?

def ProgramEvent.said? : ProgramEvent → Option Said
  | .connect connection => some (.connect connection)
  | .did event => (event.action?.bind Action.script?).map .script
  | _ => none

def said (events : List ProgramEvent) : List Said := events.filterMap ProgramEvent.said?

theorem said_append (first second : List ProgramEvent) : said (first ++ second) = said first ++ said second :=
  List.filterMap_append

theorem said_did (events : List Event) : said (events.map .did) = (scripts (actions events)).map .script := by
  rw [said, List.filterMap_map, scripts, actions, List.filterMap_filterMap, List.map_filterMap]
  rfl

theorem said_after (first : List ProgramEvent) (rest : Execution) :
    said (rest.after first).events = said first ++ said rest.events := said_append first rest.events

/-! ## Interactive runs -/

/-- What is asked before the first line is read, as far as the server answers, and then the scripts of the
session. -/
def interactiveScripts (env : Environment) : List Bytes :=
  bytes "version()" ::
    match env.run (bytes "version()") with
    | .error _ => []
    | .ok _ =>
        keyWordsQuery ::
          match getKeyWords env with
          | .error _ => []
          | .ok _ => scripts (actions (session .start env.inputs).1)

theorem said_interact (env : Environment) : said (interact env).events = (interactiveScripts env).map .script := by
  unfold interact interactiveScripts
  cases env.run (bytes "version()") with
  | error what => rfl
  | ok v =>
      dsimp only
      cases getKeyWords env with
      | error what => rfl
      | ok words =>
          dsimp only
          rw [List.map_append, said_append, said_did (session .start env.inputs).1]
          rfl

/-! ## Whole runs -/

def scriptsOf (env : Environment) (options : Options) : List Bytes :=
  match options.chosen env.files with
  | some script => [script]
  | none => if options.file = none ∧ options.script = none then interactiveScripts env else []

theorem scriptsOf_interactive {env : Environment} {options : Options} (interactive : options.Interactive) :
    scriptsOf env options = interactiveScripts env := by
  unfold scriptsOf Options.chosen
  rw [interactive.1, interactive.2]
  exact if_pos ⟨rfl, rfl⟩

theorem said_runOrInteract (env : Environment) (options : Options) :
    said (runOrInteract env options).events = (scriptsOf env options).map .script := by
  cases optionsKind options env.files with
  | ambiguous ambiguous =>
      have unchosen : options.chosen env.files = none := by
        obtain ⟨file, script⟩ := options
        cases file with
        | none => exact absurd rfl ambiguous.1
        | some filename =>
            cases script with
            | none => exact absurd rfl ambiguous.2
            | some script => rfl
      rw [runOrInteract, batch_ambiguous env.run ambiguous, scriptsOf, unchosen]
      dsimp only
      rw [if_neg fun neither => ambiguous.1 neither.1]
      rfl
  | chosen script chosen =>
      obtain ⟨printed, ran, silent⟩ := batch_chosen env.run chosen
      rw [runOrInteract, ran, scriptsOf, chosen]
      dsimp only
      rw [said_did, actions_append, silent, actions_runScript]
      rfl
  | interactive interactive =>
      rw [runOrInteract_interactive interactive, said_interact]
      exact congrArg (List.map Said.script) (scriptsOf_interactive interactive).symm

theorem said_accepted {env : Environment} {c : Connection} {o : Options} (accepted : Accepted env.argv c o) :
    said (main env).events =
      .connect c :: match env.connect c with
        | .ok true => (scriptsOf env o).map .script
        | _ => [] := by
  rw [main_accepted accepted, said_after]
  cases env.connect c with
  | error what => rfl
  | ok connected =>
      cases connected with
      | false => rfl
      | true => exact congrArg (Said.connect c :: ·) (said_runOrInteract env o)

theorem accepted_or_silent (env : Environment) :
    (∃ c o, Accepted env.argv c o) ∨ (∀ c o, ¬ Accepted env.argv c o) ∧ said (main env).events = [] := by
  rcases commandLine_cases env.argv with asks | refused | accepted
  · refine Or.inr ⟨fun c o accepted => accepted.unasked asks, ?_⟩
    rw [main_asksHelp asks]
    rfl
  · refine Or.inr ⟨fun c o accepted => ?_, ?_⟩
    · cases refused.refused.symm.trans accepted.accepted
    · rw [main_refused refused]
      rfl
  · exact Or.inl accepted

/-- The program speaks to the server only after its command line has been accepted, connects once, and runs
nothing unless that succeeds. -/
theorem main_said (env : Environment) :
    (∃ c o, Accepted env.argv c o ∧
        said (main env).events =
          .connect c :: match env.connect c with
            | .ok true => (scriptsOf env o).map .script
            | _ => []) ∨
      (∀ c o, ¬ Accepted env.argv c o) ∧ said (main env).events = [] := by
  rcases accepted_or_silent env with ⟨c, o, accepted⟩ | silent
  · exact Or.inl ⟨c, o, accepted, said_accepted accepted⟩
  · exact Or.inr silent

theorem interactiveScripts_greeted {env : Environment} (greeted : Greeted env) :
    interactiveScripts env =
      bytes "version()" :: keyWordsQuery :: scripts (actions (session .start env.inputs).1) := by
  obtain ⟨⟨v, version⟩, words, asked⟩ := greeted
  rw [interactiveScripts, version]
  dsimp only
  rw [asked]

/-- A whole run, from what the user writes and types to what the server receives: the connection that the words
describe, two questions, and the scripts among the commands in their order, laid out in any way that `Typed` allows.
They are cut short only by a fault, and then the program does not exit. -/
theorem main_session (program : Bytes) {words : List CommandWord} (complete : Complete words)
    (interactive : (optionsOf words).Interactive) (commands : List Typed) {last : Input} (isQuit : last.text = quit)
    {env : Environment} (argv : env.argv = program :: words.flatMap Word.render)
    (inputs : env.inputs = commands.flatMap Typed.inputs ++ [last])
    (connects : env.connect (connectionOf words) = .ok true) (greeted : Greeted env) :
    ∃ sent, said (main env).events =
        .connect (connectionOf words) :: (bytes "version()" :: keyWordsQuery :: sent).map .script ∧
      sent <+: scripts (Loop.commandActions (int 80) (commands.map Typed.command)) ∧
      ((main env).ending = .exited 0 ∧
          sent = scripts (Loop.commandActions (int 80) (commands.map Typed.command)) ∨
        ∃ fault, (main env).ending = .crashed fault) := by
  have accepted : Accepted env.argv (connectionOf words) (optionsOf words) :=
    argv ▸ accepted_of_complete program complete
  have said_eq : said (main env).events = .connect (connectionOf words) ::
      (bytes "version()" :: keyWordsQuery :: scripts (actions (session .start env.inputs).1)).map .script := by
    rw [said_accepted accepted, connects]
    dsimp only
    rw [scriptsOf_interactive interactive, interactiveScripts_greeted greeted]
  have ending := main_ending_greeted accepted connects interactive greeted
  refine ⟨_, said_eq, ?_⟩
  have start : Loop.start.isMultiLine = false := rfl
  rw [ending, inputs]
  rcases Loop.session_quit start commands isQuit with ⟨exited, all⟩ | ⟨fault, crashed, part⟩
  · have same : scripts (actions (session .start (commands.flatMap Typed.inputs ++ [last])).1) =
        scripts (Loop.commandActions (int 80) (commands.map Typed.command)) := by
      rw [all, scripts, List.filterMap_append]
      exact List.append_nil _
    exact ⟨same ▸ List.prefix_refl _, Or.inl ⟨by rw [exited]; rfl, same⟩⟩
  · exact ⟨part.filterMap Action.script?, Or.inr ⟨fault, by rw [crashed]; rfl⟩⟩

def sampleWords : List CommandWord :=
  [.clusterWith [] ⟨⟨bytes "host", bytes "localhost", _, rfl, rfl⟩, 104, ⟨rfl, by decide⟩⟩ (by decide),
    .separate ⟨bytes "username", bytes "admin", _, rfl, rfl⟩ (by decide),
    .joined ⟨bytes "password", bytes "123456", _, rfl, rfl⟩ (by decide)]

def sampleEnvironment : Environment where
  argv := [bytes "ddbclient", bytes "-h", bytes "localhost", bytes "--username", bytes "admin", bytes "--password=123456"]
  connect _ := .ok true
  run _ := .ok ⟨true, none, []⟩
  getColumn _ _ := .ok []
  files _ := .unopened
  inputs := [Loop.sampleCommand].flatMap Typed.inputs ++ [Loop.typed "quit"]
  cliHistory := none
  disk := Disk.good

theorem main_session_sum :
    ∃ sent, said (main sampleEnvironment).events =
        .connect ⟨bytes "localhost", int 8848, bytes "admin", bytes "123456", false⟩ ::
          (bytes "version()" :: keyWordsQuery :: sent).map .script ∧
      sent <+: [bytes "1 + 2 + 3"] ∧
      ((main sampleEnvironment).ending = .exited 0 ∧ sent = [bytes "1 + 2 + 3"] ∨
        ∃ fault, (main sampleEnvironment).ending = .crashed fault) :=
  main_session (bytes "ddbclient") (⟨by decide, by decide⟩ : Complete sampleWords) ⟨by decide, by decide⟩
    [Loop.sampleCommand] (rfl : (Loop.typed "quit").text = quit) rfl rfl rfl ⟨⟨_, rfl⟩, _, rfl⟩

end Ddbclient

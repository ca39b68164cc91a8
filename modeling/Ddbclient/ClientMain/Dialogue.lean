import Ddbclient.ClientMain.Conversation

/-!
# The dialogue

Seen by the user, the interactive mode answers one command after the other, and all that a command changes for the
next ones is the display width. The loop, which works on lines, is shown to carry on this dialogue.
-/

namespace Ddbclient
open Lib Lib.Checked Cmdline Cmdline.Parser

/-! ## Commands and answers -/

namespace Dialogue

def currentWidth (width : CInt) : Bytes :=
  bytes "Current display width: " ++ (if width.val = 0 then bytes "Auto" else decimal width.val) ++ [newline]

def setWidth (width : CInt) (argument : Bytes) : CInt × Bytes :=
  match stoi argument with
  | some chosen => (chosen, bytes "Display width set to " ++ decimal chosen.val ++ [newline])
  | none => (width, bytes "Invalid width.\n")

def runShell (world : World) (shellCmd : Bytes) : Bytes :=
  if world.system shellCmd = 0 then [newline]
  else bytes "[!" ++ shellCmd ++ bytes "] execute failed.\n\n" ++ [newline]

def refusal (what : Bytes) : Bytes := bytes "ERROR: " ++ what ++ bytes "\n\n"

def runInteractive (width : CInt) (world : World) (script : Bytes) : Except Fault Bytes :=
  match world.run script with
  | .error what => .ok (refusal what)
  | .ok result =>
      match Client.toString width world.terminal result with
      | .ok text => .ok (text ++ [newline] ++ bytes "OK. Elapsed: " ++ world.seconds ++ bytes " sec.\n\n")
      | .error (.exception what) => .ok (refusal what)
      | .error (.fault fault) => .error fault

/-- The display width after a command and what is printed for it, unless that runs into a fault. -/
def reply (width : CInt) (command : Bytes) (world : World) : Except Fault (CInt × Bytes) :=
  if command ∈ [bytes "\\w", bytes "\\width"] then .ok (width, currentWidth width)
  else if bytes "\\w " <+: command then .ok (setWidth width (command.drop 3))
  else if bytes "!" <+: command then .ok (width, runShell world (command.drop 1))
  else (runInteractive width world command).map fun text => (width, text)

/-- Everything that is printed for the commands, up to a fault. -/
def answers : CInt → List (Bytes × World) → Bytes × Option Fault
  | _, [] => ([], none)
  | width, (command, world) :: commands =>
      match reply width command world with
      | .error fault => ([], some fault)
      | .ok (width, text) => (text ++ (answers width commands).1, (answers width commands).2)

end Dialogue

open Dialogue

def Event.printed : Event → Bytes
  | .print text => text
  | _ => []

def cout (events : List Event) : Bytes := events.flatMap Event.printed

theorem cout_append (first second : List Event) : cout (first ++ second) = cout first ++ cout second :=
  List.flatMap_append

theorem cout_visible (events : List Event) : cout (events.filter Event.visible) = cout events := by
  induction events with
  | nil => rfl
  | cons event events ih =>
      cases event with
      | linenoiseHistoryAdd line => exact ih
      | linenoiseHistorySave => exact ih
      | action did => exact ih
      | print text => exact congrArg (text ++ ·) ih
      | close => exact ih

namespace Loop

theorem head?_eq_bang_iff {cmd : Bytes} : cmd.head? = some bang ↔ bytes "!" <+: cmd := by
  cases cmd with
  | nil => exact iff_of_false nofun (by decide)
  | cons c cmd =>
      change some c = some bang ↔ [bang] <+: c :: cmd
      rw [List.cons_prefix_cons, Option.some.injEq]
      exact ⟨fun same => ⟨same.symm, List.nil_prefix⟩, fun both => both.1.symm⟩

theorem isWidthSetting_iff {cmd : Bytes} : isWidthSetting cmd = true ↔ bytes "\\w " <+: cmd := by
  rw [isWidthSetting, decide_eq_true_eq, List.prefix_iff_eq_take]
  exact eq_comm

theorem isWidthQuery_iff {cmd : Bytes} : isWidthQuery cmd = true ↔ cmd ∈ [bytes "\\w", bytes "\\width"] := by
  simp [isWidthQuery]

/-- What the loop does with a command is what the dialogue answers. -/
inductive Carries (did : List Event × Next Loop Ended) : Except Fault (CInt × Bytes) → Prop where
  | answered {t : Loop} {text : Bytes} (printed : cout did.1 = text) (next : did.2 = .again t)
      (fresh : t.isMultiLine = false) : Carries did (.ok (t.g_display_width, text))
  | faulted {fault : Fault} (printed : cout did.1 = []) (next : did.2 = .halt (.crashed fault)) :
      Carries did (.error fault)

theorem runInteractive_eq (width : CInt) (world : World) (script : Bytes) :
    runInteractive width world script =
      match Client.runInteractive width world script with
      | .ok text => .ok text
      | .error (.exception what) => .ok (refusal what)
      | .error (.fault fault) => .error fault := by
  unfold runInteractive Client.runInteractive
  cases world.run script with
  | error what => rfl
  | ok result =>
      simp only [Except.mapError, bind, Except.bind]
      cases Client.toString width world.terminal result with
      | ok text => rfl
      | error failure => cases failure <;> rfl

theorem carries_script {s : Loop} (world : World) (server : ¬ bytes "!" <+: s.cmd) :
    Carries (s.execute world)
      ((runInteractive s.g_display_width world s.cmd).map fun text => (s.g_display_width, text)) := by
  unfold execute
  rw [if_neg (head?_eq_bang_iff.not.mpr server), runInteractive_eq]
  cases Client.runInteractive s.g_display_width world s.cmd with
  | ok text => exact .answered (t := Loop.fresh s.g_display_width) (List.append_nil _) rfl rfl
  | error failure =>
      cases failure with
      | exception what => exact .answered (t := Loop.fresh s.g_display_width) (List.append_nil _) rfl rfl
      | fault fault => exact .faulted rfl rfl

theorem carries_shell {s : Loop} (world : World) (shell : bytes "!" <+: s.cmd) :
    Carries (s.execute world) (.ok (s.g_display_width, runShell world (s.cmd.drop 1))) := by
  obtain ⟨shellCmd, cmd⟩ := shell
  have tail : s.cmd.drop 1 = shellCmd := by
    rw [← cmd]
    rfl
  unfold execute runShell
  rw [if_pos (head?_eq_bang_iff.mpr ⟨shellCmd, cmd⟩)]
  dsimp only
  rw [tail]
  refine .answered (t := Loop.fresh s.g_display_width) ?_ rfl rfl
  by_cases done : world.system shellCmd = 0
  · rw [if_pos done, if_neg (not_not.mpr done)]
    rfl
  · rw [if_neg done, if_pos done, ← cmd]
    rfl

theorem carries_dispatch {s : Loop} (fresh : s.isMultiLine = false) (world : World) :
    Carries (s.dispatch world) (reply s.g_display_width s.cmd world) := by
  unfold dispatch reply
  by_cases query : isWidthQuery s.cmd = true
  · rw [if_pos query, if_pos (isWidthQuery_iff.mp query)]
    refine .answered (t := s) ?_ rfl fresh
    unfold currentWidth reported
    by_cases auto : s.g_display_width.val = 0 <;> simp [auto, cout, Event.printed]
  · rw [if_neg query, if_neg (isWidthQuery_iff.not.mp query)]
    by_cases setting : isWidthSetting s.cmd = true
    · rw [if_pos setting, if_pos (isWidthSetting_iff.mp setting)]
      unfold setWidth
      dsimp only
      cases stoi (s.cmd.drop 3) with
      | none => exact .answered (t := s) (List.append_nil _) rfl fresh
      | some width => exact .answered (t := { s with g_display_width := width }) (List.append_nil _) rfl fresh
    · rw [if_neg setting, if_neg (isWidthSetting_iff.not.mp setting)]
      by_cases shell : bytes "!" <+: s.cmd
      · rw [if_pos shell]
        exact carries_shell world shell
      · rw [if_neg shell]
        exact carries_script world shell

theorem Carries.add {did : List Event × Next Loop Ended} {answer : Except Fault (CInt × Bytes)} (line : Bytes)
    (carries : Carries did answer) : Carries (.linenoiseHistoryAdd line :: did.1, did.2) answer := by
  cases carries with
  | answered printed next fresh => exact .answered printed next fresh
  | faulted printed next => exact .faulted printed next

theorem carries_step {s : Loop} (fresh : s.isMultiLine = false) (typed : Typed) :
    Carries (s.step typed.whole) (reply s.g_display_width typed.command typed.last.world) := by
  have cmd : (s.assemble typed.whole.text).cmd = typed.command := by
    change s.pending ++ typed.command = _
    rw [pending_of_fresh fresh]
    rfl
  have carries := (carries_dispatch (s := s.assemble typed.whole.text) fresh typed.whole.world).add typed.whole.text
  rw [cmd] at carries
  rw [step_completion typed.completes_whole typed.wholeNotQuit]
  exact carries

def asked (commands : List Typed) : List (Bytes × World) := commands.map fun typed => (typed.command, typed.last.world)

inductive Follows : Option Fault → Next Loop Ended → Prop where
  | goesOn (s' : Loop) : Follows none (.again s')
  | crashed (fault : Fault) : Follows (some fault) (.halt (.crashed fault))

theorem run_answers {s : Loop} (fresh : s.isMultiLine = false) (commands : List Typed) :
    cout (machine.run s (commands.map Typed.whole)).1 = (answers s.g_display_width (asked commands)).1 ∧
      Follows (answers s.g_display_width (asked commands)).2 (machine.run s (commands.map Typed.whole)).2 := by
  induction commands generalizing s with
  | nil => exact ⟨rfl, .goesOn s⟩
  | cons typed commands ih =>
      have carries : Carries (machine.step s typed.whole) _ := carries_step fresh typed
      rw [List.map_cons, asked, List.map_cons, ← asked, answers]
      generalize reply s.g_display_width typed.command typed.last.world = answer at carries ⊢
      cases carries with
      | answered printed next fresh' =>
          obtain ⟨text, follows⟩ := ih fresh'
          rw [Machine.run_cons_again _ next, cout_append, printed, text]
          exact ⟨rfl, follows⟩
      | faulted printed next =>
          rw [Machine.run_cons_halt _ next]
          exact ⟨printed, .crashed _⟩

theorem cout_run_typed {s : Loop} (fresh : s.isMultiLine = false) (commands : List Typed) :
    cout (machine.run s (commands.flatMap Typed.inputs)).1 = cout (machine.run s (commands.map Typed.whole)).1 := by
  rw [← cout_visible, (run_typed fresh commands).1, cout_visible]

theorem session_answers {s : Loop} (fresh : s.isMultiLine = false) (commands : List Typed) {last : Input}
    (isQuit : last.text = quit) :
    let outcome := session s (commands.flatMap Typed.inputs ++ [last])
    let said := answers s.g_display_width (asked commands)
    cout outcome.1 = said.1 ++ said.2.elim (bytes "Bye.\n") (fun _ => []) ∧
      outcome.2 = said.2.elim (.exited 0) .crashed := by
  obtain ⟨text, follows⟩ := run_answers fresh commands
  rw [← cout_run_typed fresh commands] at text
  rw [← (run_typed fresh commands).2] at follows
  rw [session_append_quit _ isQuit]
  generalize machine.run s (commands.flatMap Typed.inputs) = outcome at text follows ⊢
  generalize answers s.g_display_width (asked commands) = said at text follows ⊢
  obtain ⟨events, next⟩ := outcome
  obtain ⟨printed, fault⟩ := said
  cases follows with
  | goesOn s' =>
      refine ⟨?_, rfl⟩
      dsimp only
      rw [cout_append, text]
      rfl
  | crashed fault => exact ⟨text.trans (List.append_nil _).symm, rfl⟩

end Loop

/-! ## The whole program -/

def ProgramEvent.printed : ProgramEvent → Bytes
  | .did event => event.printed
  | _ => []

def Execution.cout (run : Execution) : Bytes := run.events.flatMap ProgramEvent.printed

theorem cout_did (events : List Event) : (events.map ProgramEvent.did).flatMap ProgramEvent.printed = cout events := by
  rw [List.flatMap_map]
  rfl

def opening (version : Bytes) : List Event :=
  showBanner ++ [.print (bytes "Welcome to DolphinDB "), .action (.script (bytes "version()")),
    .print (version ++ bytes "\n\n"), .action (.script keyWordsQuery)]

def greeting (version : Bytes) : Bytes :=
  cout showBanner ++ bytes "Welcome to DolphinDB " ++ version ++ bytes "\n\n"

theorem cout_opening (version : Bytes) : cout (opening version) = greeting version := by
  rw [opening, cout_append, greeting]
  simp [cout, Event.printed]

theorem interact_eq {env : Environment} {v : Constant} (version : env.run (bytes "version()") = .ok v)
    {keyWords : List Bytes} (asked : getKeyWords env = .ok keyWords) :
    interact env =
      ⟨(opening v.getString ++ (session .start env.inputs).1).map .did, (session .start env.inputs).2.ending, keyWords,
        historyAfter env (session .start env.inputs).2⟩ := by
  rw [interact, version]
  dsimp only
  rw [asked]
  rfl

theorem Status.ending_elim (fault : Option Fault) :
    (fault.elim (Status.exited 0) Status.crashed).ending = fault.elim (.exited 0) .crashed := by
  cases fault <;> rfl

/-- The greeting, the answers, and a farewell with the status 0 unless an answer runs into a fault. -/
structure Prints (run : Execution) (version : Bytes) (said : Bytes × Option Fault) : Prop where
  text : run.cout = greeting version ++ said.1 ++ said.2.elim (bytes "Bye.\n") fun _ => []
  ending : run.ending = said.2.elim (.exited 0) .crashed

/-- An interactive run whose connection and queries succeed prints the greeting and then the answers to the commands,
laid out on lines in any way that `Typed` allows. -/
theorem main_prints (program : Bytes) {words : List CommandWord} (complete : Complete words)
    (interactive : (optionsOf words).Interactive) (commands : List Typed) {last : Input} (isQuit : last.text = quit)
    {env : Environment} (argv : env.argv = program :: words.flatMap Word.render)
    (inputs : env.inputs = commands.flatMap Typed.inputs ++ [last])
    (connects : env.connect (connectionOf words) = .ok true) {v : Constant}
    (version : env.run (bytes "version()") = .ok v) {keyWords : List Bytes} (asked : getKeyWords env = .ok keyWords) :
    Prints (main env) v.getString (answers (int 80) (Loop.asked commands)) := by
  have accepted : Accepted env.argv (connectionOf words) (optionsOf words) :=
    argv ▸ accepted_of_complete program complete
  obtain ⟨text, status⟩ := Loop.session_answers (s := .start) rfl commands isQuit
  rw [← inputs, show Loop.start.g_display_width = int 80 from rfl] at text status
  have interacts : main env = Execution.after [.linenoiseHistoryLoad, .connect (connectionOf words)] (interact env) := by
    rw [main_accepted accepted, connects]
    exact congrArg _ (runOrInteract_interactive interactive)
  rw [interacts, interact_eq version asked]
  constructor
  · have silent : [ProgramEvent.linenoiseHistoryLoad, .connect (connectionOf words)].flatMap ProgramEvent.printed = [] :=
      rfl
    rw [Execution.cout, Execution.after, List.flatMap_append, silent, List.nil_append]
    dsimp only
    rw [cout_did, cout_append, cout_opening, text, List.append_assoc]
  · change (session .start env.inputs).2.ending = _
    rw [status]
    exact Status.ending_elim _

theorem main_prints_sum :
    Prints (main sampleEnvironment) [] (answers (int 80) (Loop.asked [Loop.sampleCommand])) :=
  main_prints (bytes "ddbclient") (⟨by decide, by decide⟩ : Complete sampleWords) ⟨by decide, by decide⟩
    [Loop.sampleCommand] (rfl : (Loop.typed "quit").text = quit) rfl rfl rfl
    (rfl : sampleEnvironment.run (bytes "version()") = .ok ⟨true, none, []⟩) (rfl : getKeyWords sampleEnvironment = .ok [])

end Ddbclient

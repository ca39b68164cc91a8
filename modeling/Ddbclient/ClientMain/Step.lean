import Ddbclient.ClientMain.Loop

/-!
# What a step of the loop does

Four kinds of line lead through the body of the loop in six ways. `step_outcome` lists them; what runs
keep and where they end is derived from it.
-/

namespace Ddbclient
open Lib Lib.Checked StringUtil

theorem Client.runInteractive_eq_fault {g_display_width : CInt} {world : World} {cmd : Bytes} {fault : Fault} :
    Client.runInteractive g_display_width world cmd = .error (.fault fault) ↔
      ∃ result, world.run cmd = .ok result ∧
        Client.toString g_display_width world.terminal result = .error (.fault fault) := by
  unfold Client.runInteractive
  cases world.run cmd with
  | error what => simp [Except.mapError, bind, Except.bind]
  | ok result =>
      cases rendered : Client.toString g_display_width world.terminal result <;>
        simp [Except.mapError, bind, Except.bind, pure, Except.pure, rendered]

/-- The line ends a command: it is not blank and has no backslash at its end. -/
structure Completes (text : Bytes) : Prop where
  nonblank : text ≠ []
  unterminated : text.getLast? ≠ some backslash

theorem completes_iff (text : Bytes) : Completes text ↔ text ≠ [] ∧ text.getLast? ≠ some backslash := by
  constructor
  · intro completes
    exact ⟨completes.nonblank, completes.unterminated⟩
  · rintro ⟨nonblank, unterminated⟩
    exact ⟨nonblank, unterminated⟩

instance (text : Bytes) : Decidable (Completes text) := decidable_of_iff _ (completes_iff text).symm

theorem nonblank_of_continuation {text : Bytes} (continuation : text.getLast? = some backslash) : text ≠ [] := by
  rintro rfl
  cases continuation

inductive LineKind (text : Bytes) : Prop where
  | blank (blank : text = [])
  | quit (isQuit : text = quit)
  | continuation (continuation : text.getLast? = some backslash)
  | command (completes : Completes text) (notQuit : text ≠ quit)

theorem lineKind (text : Bytes) : LineKind text := by
  by_cases blank : text = []
  · exact .blank blank
  · by_cases isQuit : text = quit
    · exact .quit isQuit
    · by_cases continuation : text.getLast? = some backslash
      · exact .continuation continuation
      · exact .command ⟨blank, continuation⟩ isQuit

namespace Loop

/-- The text that the next line is appended to. -/
def pending (s : Loop) : Bytes := if s.isMultiLine then s.cmd else []

@[simp] theorem pending_fresh (g_display_width : CInt) : (fresh g_display_width).pending = [] := rfl

def assemble (s : Loop) (text : Bytes) : Loop := { s with cmd := s.pending ++ text }

def continued (s : Loop) (text : Bytes) : Loop :=
  { s with isMultiLine := true, cmd := s.pending ++ text.dropLast }

variable {s : Loop} {input : Input}

theorem step_blank (blank : input.text = []) : s.step input = ([], .again s) := if_pos blank

theorem step_quit (isQuit : input.text = quit) :
    s.step input = ([.linenoiseHistoryAdd quit, .linenoiseHistorySave, .action .exit, .print (bytes "Bye.\n")],
      .halt .left) := by
  unfold step
  rw [isQuit]
  rfl

theorem step_continuation (continuation : input.text.getLast? = some backslash) :
    s.step input = ([.linenoiseHistoryAdd input.text], .again (s.continued input.text)) := by
  have ends := (endsWith_singleton input.text backslash).mpr continuation
  have nonblank := nonblank_of_continuation continuation
  have notQuit : input.text ≠ quit := by
    intro isQuit
    rw [isQuit] at continuation
    exact absurd continuation (by decide)
  unfold step continued pending
  cases multi : s.isMultiLine <;> simp [nonblank, notQuit, ends, List.dropLast_eq_take]

theorem step_completion (completes : Completes input.text) (notQuit : input.text ≠ quit) :
    s.step input = (.linenoiseHistoryAdd input.text :: ((s.assemble input.text).dispatch input.world).1,
      ((s.assemble input.text).dispatch input.world).2) := by
  have ends : endsWith input.text [backslash] = false := by
    rw [← Bool.not_eq_true, endsWith_singleton]
    exact completes.unterminated
  unfold step assemble pending
  cases multi : s.isMultiLine <;> simp [completes.nonblank, notQuit, ends]

/-! ## What a command does -/

def isWidthCommand (cmd : Bytes) : Bool := isWidthQuery cmd || isWidthSetting cmd

def executeAction (cmd : Bytes) : Action :=
  if cmd.head? = some bang then .shell (cmd.drop 1) else .script cmd

def commandAction (g_display_width : CInt) (cmd : Bytes) : Action :=
  if isWidthQuery cmd then .widthQuery (reported g_display_width)
  else if isWidthSetting cmd then .widthSet (cmd.drop 3) (stoi (cmd.drop 3))
  else executeAction cmd

theorem commandAction_other {cmd : Bytes} (g_display_width : CInt) (other : isWidthCommand cmd = false) :
    commandAction g_display_width cmd = executeAction cmd := by
  obtain ⟨query, setting⟩ := Bool.or_eq_false_iff.mp other
  simp [commandAction, query, setting]

theorem executeAction_eq_script_iff {cmd script : Bytes} :
    executeAction cmd = .script script ↔ cmd.head? ≠ some bang ∧ cmd = script := by
  unfold executeAction
  split <;> simp_all

theorem commandAction_eq_script {g_display_width : CInt} {cmd script : Bytes}
    (sent : commandAction g_display_width cmd = .script script) : isWidthCommand cmd = false ∧ cmd = script := by
  unfold commandAction at sent
  split at sent
  · cases sent
  · split at sent
    · cases sent
    · rename_i query setting
      exact ⟨by simp [isWidthCommand, query, setting], (executeAction_eq_script_iff.mp sent).2⟩

def widthAfter (g_display_width : CInt) (cmd : Bytes) : CInt :=
  if isWidthQuery cmd then g_display_width
  else if isWidthSetting cmd then (stoi (cmd.drop 3)).getD g_display_width
  else g_display_width

theorem widthAfter_other {cmd : Bytes} (g_display_width : CInt) (other : isWidthCommand cmd = false) :
    widthAfter g_display_width cmd = g_display_width := by
  obtain ⟨query, setting⟩ := Bool.or_eq_false_iff.mp other
  simp [widthAfter, query, setting]

theorem actions_execute (s : Loop) (world : World) :
    actions (s.execute world).1 = [executeAction s.cmd] := by
  unfold execute executeAction
  split
  · by_cases failed : world.system s.cmd.tail = 0 <;> simp [failed, Event.action?]
  · split <;> simp [Event.action?]

theorem actions_dispatch (s : Loop) (world : World) :
    actions (s.dispatch world).1 = [commandAction s.g_display_width s.cmd] := by
  unfold dispatch commandAction
  split
  · rfl
  · split
    · dsimp only
      cases stoi (s.cmd.drop 3) with
      | none => rfl
      | some width => rfl
    · exact actions_execute s world

theorem dispatch_width_command (s : Loop) (world : World) (width : isWidthCommand s.cmd = true) :
    (s.dispatch world).2 = .again { s with g_display_width := widthAfter s.g_display_width s.cmd } := by
  unfold dispatch widthAfter
  by_cases query : isWidthQuery s.cmd = true
  · simp only [if_pos query]
  · have setting : isWidthSetting s.cmd = true := by simpa [isWidthCommand, query] using width
    simp only [if_neg query, if_pos setting]
    cases stoi (s.cmd.drop 3) with
    | none => rfl
    | some width => rfl

theorem dispatch_other_command (s : Loop) (world : World) (other : isWidthCommand s.cmd = false) :
    s.dispatch world = s.execute world := by
  obtain ⟨query, setting⟩ := Bool.or_eq_false_iff.mp other
  simp [dispatch, query, setting]

/-! ## What a step can do -/

inductive Executed (s : Loop) (world : World) : Next Loop Ended → Prop where
  | reset : Executed s world (.again (fresh s.g_display_width))
  | crashed {cmd : Bytes} {result : Constant} {fault : Fault} (sent : executeAction s.cmd = .script cmd)
      (answer : world.run cmd = .ok result)
      (rendered : Client.toString s.g_display_width world.terminal result = .error (.fault fault)) :
      Executed s world (.halt (.crashed fault))

theorem execute_executed (s : Loop) (world : World) : Executed s world (s.execute world).2 := by
  unfold execute
  split
  · exact .reset
  · rename_i server
    split
    · exact .reset
    · exact .reset
    · rename_i faults
      obtain ⟨result, answer, rendered⟩ := Client.runInteractive_eq_fault.mp faults
      exact .crashed (executeAction_eq_script_iff.mpr ⟨server, rfl⟩) answer rendered

theorem execute_crashed {s : Loop} {world : World} {cmd : Bytes} {result : Constant} {fault : Fault}
    (sent : executeAction s.cmd = .script cmd) (answer : world.run cmd = .ok result)
    (rendered : Client.toString s.g_display_width world.terminal result = .error (.fault fault)) :
    (s.execute world).2 = .halt (.crashed fault) := by
  obtain ⟨server, rfl⟩ := executeAction_eq_script_iff.mp sent
  rw [execute, if_neg server, Client.runInteractive_eq_fault.mpr ⟨result, answer, rendered⟩]

/-- The line completes a script, and rendering the result that the server gives for it runs into this fault. -/
structure FaultsWith (s : Loop) (input : Input) (fault : Fault) : Prop where
  completes : Completes input.text
  notQuit : input.text ≠ quit
  rendering : ∃ cmd result, commandAction s.g_display_width (s.pending ++ input.text) = .script cmd ∧
    input.world.run cmd = .ok result ∧
    Client.toString s.g_display_width input.world.terminal result = .error (.fault fault)

def Faults (s : Loop) (input : Input) : Prop := ∃ fault, s.FaultsWith input fault

/-- The ways through the body of the loop, each with the line that takes it and where it leads. -/
inductive Outcome (s : Loop) (input : Input) : Next Loop Ended → Prop where
  | blank (blank : input.text = []) : Outcome s input (.again s)
  | quit (isQuit : input.text = quit) : Outcome s input (.halt .left)
  | continuation (continuation : input.text.getLast? = some backslash) :
      Outcome s input (.again (s.continued input.text))
  | width (completes : Completes input.text) (notQuit : input.text ≠ quit)
      (width : isWidthCommand (s.pending ++ input.text) = true) :
      Outcome s input (.again { s.assemble input.text with
        g_display_width := widthAfter s.g_display_width (s.pending ++ input.text) })
  | reset (completes : Completes input.text) (notQuit : input.text ≠ quit)
      (other : isWidthCommand (s.pending ++ input.text) = false) :
      Outcome s input (.again (fresh s.g_display_width))
  | crashed {fault : Fault} (faults : s.FaultsWith input fault) : Outcome s input (.halt (.crashed fault))

theorem step_outcome (s : Loop) (input : Input) : Outcome s input (s.step input).2 := by
  cases lineKind input.text with
  | blank blank =>
      rw [step_blank blank]
      exact .blank blank
  | quit isQuit =>
      rw [step_quit isQuit]
      exact .quit isQuit
  | continuation continuation =>
      rw [step_continuation continuation]
      exact .continuation continuation
  | command completes notQuit =>
      rw [step_completion completes notQuit]
      cases width : isWidthCommand (s.pending ++ input.text) with
      | true =>
          rw [dispatch_width_command (s.assemble input.text) input.world width]
          exact .width completes notQuit width
      | false =>
          rw [dispatch_other_command (s.assemble input.text) input.world width]
          have executed := execute_executed (s.assemble input.text) input.world
          generalize ((s.assemble input.text).execute input.world).2 = next at executed ⊢
          cases executed with
          | reset => exact .reset completes notQuit width
          | crashed sent answer rendered =>
              have action := commandAction_other s.g_display_width width
              exact .crashed ⟨completes, notQuit, _, _, action.trans sent, answer, rendered⟩

/-- Where a command leads when the loop goes on. -/
inductive Completed (s : Loop) (input : Input) : Loop → Prop where
  | width (width : isWidthCommand (s.pending ++ input.text) = true) :
      Completed s input { s.assemble input.text with
        g_display_width := widthAfter s.g_display_width (s.pending ++ input.text) }
  | reset (other : isWidthCommand (s.pending ++ input.text) = false) :
      Completed s input (fresh s.g_display_width)

theorem step_completed {s s' : Loop} {input : Input} (completes : Completes input.text)
    (goes : (s.step input).2 = .again s') : Completed s input s' := by
  have outcome := step_outcome s input
  rw [goes] at outcome
  cases outcome with
  | blank blank => exact absurd blank completes.nonblank
  | continuation continuation => exact absurd continuation completes.unterminated
  | width _ _ width => exact .width width
  | reset _ _ other => exact .reset other

theorem step_width {s : Loop} {input : Input} (completes : Completes input.text) (notQuit : input.text ≠ quit)
    (width : isWidthCommand (s.pending ++ input.text) = true) :
    (s.step input).2 = .again { s.assemble input.text with
      g_display_width := widthAfter s.g_display_width (s.pending ++ input.text) } := by
  rw [step_completion completes notQuit]
  exact dispatch_width_command (s.assemble input.text) input.world width

theorem step_crashed {s : Loop} {input : Input} {fault : Fault} (faults : s.FaultsWith input fault) :
    (s.step input).2 = .halt (.crashed fault) := by
  obtain ⟨cmd, result, sent, answer, rendered⟩ := faults.rendering
  have other := (commandAction_eq_script sent).1
  rw [commandAction_other _ other] at sent
  rw [step_completion faults.completes faults.notQuit, dispatch_other_command _ _ other]
  exact execute_crashed sent answer rendered

theorem step_crashed_iff {s : Loop} {input : Input} {fault : Fault} :
    (s.step input).2 = .halt (.crashed fault) ↔ s.FaultsWith input fault := by
  constructor
  · intro crashes
    have outcome := step_outcome s input
    rw [crashes] at outcome
    cases outcome with
    | crashed faults => exact faults
  · exact step_crashed

theorem actions_completion {s : Loop} {input : Input} (completes : Completes input.text)
    (notQuit : input.text ≠ quit) :
    actions (s.step input).1 = [commandAction s.g_display_width (s.pending ++ input.text)] := by
  rw [step_completion completes notQuit, actions_cons, actions_dispatch]
  rfl

end Loop
end Ddbclient

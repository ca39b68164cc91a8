import Ddbclient.ClientMain.Exit

/-!
# Whole sessions

A session is a list of commands, each typed over as many lines as the user likes. What it does depends on the
commands alone.
-/

namespace Ddbclient
open Lib Lib.Checked

/-- Everything but the editor's own history can be seen. -/
def Event.visible : Event → Bool
  | .linenoiseHistoryAdd _ => false
  | _ => true

/-- A command as it is typed: pieces that each end a line with a backslash, blank lines anywhere, and a last
line. A width command is typed on one line, since it would stay in front of the next. Neither the last line nor the
whole command is `quit`: the one would end the session early, the other only when it is typed on one line. -/
structure Typed where
  before : List Input
  pieces : List Bytes
  last : Input
  lines : Loop.nonblankLines before = pieces.map (· ++ [backslash])
  completes : Completes last.text
  notQuit : last.text ≠ quit
  wholeNotQuit : pieces.flatten ++ last.text ≠ quit
  single : Loop.isWidthCommand (pieces.flatten ++ last.text) = true → pieces = []

namespace Typed

def command (typed : Typed) : Bytes := typed.pieces.flatten ++ typed.last.text

def inputs (typed : Typed) : List Input := typed.before ++ [typed.last]

def whole (typed : Typed) : Input := ⟨some typed.command, typed.last.world⟩

@[simp] theorem whole_text (typed : Typed) : typed.whole.text = typed.command := rfl

theorem completes_whole (typed : Typed) : Completes typed.whole.text :=
  ⟨fun none => typed.completes.nonblank (List.append_eq_nil_iff.mp none).2, by
    rw [whole_text, command, List.getLast?_append_of_ne_nil _ typed.completes.nonblank]
    exact typed.completes.unterminated⟩

end Typed

namespace Loop

theorem step_congr (s : Loop) {input other : Input} (text : input.text = other.text) (world : input.world = other.world) :
    s.step input = s.step other := by
  unfold step
  rw [text, world]

theorem execute_congr {s t : Loop} (cmd : s.cmd = t.cmd) (width : s.g_display_width = t.g_display_width)
    (world : World) : s.execute world = t.execute world := by
  unfold execute
  rw [cmd, width]

theorem visible_waiting {inputs : List Input} (waits : ∀ line ∈ nonblankLines inputs, line.getLast? = some backslash)
    (s : Loop) : (machine.run s inputs).1.filter Event.visible = [] := by
  induction inputs generalizing s with
  | nil => rfl
  | cons input inputs ih =>
      by_cases blank : input.text = []
      · rw [Machine.run_idle inputs (step_blank blank)]
        exact ih (by simpa [nonblankLines, blank] using waits) s
      · have head : nonblankLines (input :: inputs) = input.text :: nonblankLines inputs := by
          simp [nonblankLines, blank]
        rw [head, List.forall_mem_cons] at waits
        have goes := step_continuation (s := s) waits.1
        have action : (machine.step s input).2 = .again (s.continued input.text) := congrArg Prod.snd goes
        rw [Machine.run_cons_again inputs action, List.filter_append, ih waits.2]
        exact congrArg (fun outcome => outcome.1.filter Event.visible ++ []) goes

theorem run_blanks {inputs : List Input} (blanks : nonblankLines inputs = []) (s : Loop) :
    machine.run s inputs = ([], .again s) := by
  induction inputs with
  | nil => rfl
  | cons input inputs ih =>
      by_cases blank : input.text = []
      · rw [Machine.run_idle inputs (step_blank blank)]
        exact ih (by simpa [nonblankLines, blank] using blanks)
      · simp [nonblankLines, blank] at blanks

/-- The state in which a command is completed acts on it like the state before its first line on the whole. -/
theorem step_typed {s : Loop} (fresh : s.isMultiLine = false) (typed : Typed) :
    ∃ s', (machine.run s typed.before).2 = .again s' ∧
      (s'.step typed.last).1.filter Event.visible = (s.step typed.whole).1.filter Event.visible ∧
      (s'.step typed.last).2 = (s.step typed.whole).2 := by
  cases width : isWidthCommand typed.command with
  | true =>
      have alone := typed.single width
      have blanks : nonblankLines typed.before = [] := by rw [typed.lines, alone]; rfl
      have same : s.step typed.last = s.step typed.whole :=
        s.step_congr (by rw [Typed.whole_text, Typed.command, alone]; rfl) rfl
      exact ⟨s, by rw [run_blanks blanks], by rw [same], by rw [same]⟩
  | false =>
      obtain ⟨s', reached, -, waits, widths⟩ := run_continuations (s := s) typed.lines
      have empty : s.pending = [] := by rw [pending, fresh]; rfl
      rw [empty, List.nil_append] at waits
      have assembled : (s'.assemble typed.last.text).cmd = (s.assemble typed.whole.text).cmd := by
        change s'.pending ++ typed.last.text = s.pending ++ typed.command
        rw [waits, empty]
        rfl
      have cmd : (s'.assemble typed.last.text).cmd = typed.command := by
        change s'.pending ++ typed.last.text = _
        rw [waits]
        rfl
      have executed : (s'.assemble typed.last.text).dispatch typed.last.world =
          (s.assemble typed.whole.text).dispatch typed.whole.world := by
        rw [dispatch_other_command _ _ (by rw [cmd, width]), dispatch_other_command _ _ (by rw [← assembled, cmd, width])]
        exact execute_congr assembled widths _
      refine ⟨s', reached, ?_, ?_⟩
      · rw [step_completion typed.completes typed.notQuit, step_completion typed.completes_whole typed.wholeNotQuit, executed]
        rfl
      · rw [step_completion typed.completes typed.notQuit, step_completion typed.completes_whole typed.wholeNotQuit, executed]

theorem pending_of_fresh {s : Loop} (fresh : s.isMultiLine = false) : s.pending = [] := by
  rw [pending, fresh]
  rfl

theorem step_whole {s s' : Loop} (fresh : s.isMultiLine = false) (typed : Typed)
    (goes : (s.step typed.whole).2 = .again s') :
    s'.isMultiLine = false ∧ s'.g_display_width = widthAfter s.g_display_width typed.command := by
  have command : s.pending ++ typed.whole.text = typed.command := by rw [pending_of_fresh fresh]; rfl
  cases step_completed typed.completes_whole goes with
  | width width => exact ⟨fresh, by rw [command]⟩
  | reset other => exact ⟨rfl, (widthAfter_other _ (command ▸ other)).symm⟩

theorem run_typed {s : Loop} (fresh : s.isMultiLine = false) (commands : List Typed) :
    (machine.run s (commands.flatMap Typed.inputs)).1.filter Event.visible =
        (machine.run s (commands.map Typed.whole)).1.filter Event.visible ∧
      (machine.run s (commands.flatMap Typed.inputs)).2 = (machine.run s (commands.map Typed.whole)).2 := by
  refine Machine.run_flatMap (fun s => s.isMultiLine = false) (fun s typed fresh => ⟨?_, fun s' goes => ?_⟩) fresh commands
  · obtain ⟨s', reached, events, next⟩ := step_typed fresh typed
    have silent : (machine.run s typed.before).1.filter Event.visible = [] := by
      refine visible_waiting (fun line member => ?_) s
      rw [typed.lines] at member
      obtain ⟨piece, -, rfl⟩ := List.mem_map.mp member
      exact List.getLast?_concat
    rw [Typed.inputs, Machine.run_append_again _ _ reached, List.filter_append, silent, List.nil_append,
      Machine.run_singleton_events, Machine.run_singleton_next]
    exact ⟨events, next⟩
  · exact (step_whole fresh typed goes).1

/-! ## What the commands ask for -/

/-- The actions of commands that are carried out one after the other, each seeing the width that those before
it have set. -/
def commandActions (g_display_width : CInt) : List Bytes → List Action
  | [] => []
  | cmd :: commands =>
      commandAction g_display_width cmd :: commandActions (widthAfter g_display_width cmd) commands

theorem actions_visible (events : List Event) : actions (events.filter Event.visible) = actions events := by
  induction events with
  | nil => rfl
  | cons event events ih =>
      cases event with
      | linenoiseHistoryAdd line => exact ih
      | _ => rw [List.filter_cons_of_pos rfl, actions_cons, actions_cons, ih]

theorem actions_wholes {s : Loop} (fresh : s.isMultiLine = false) (commands : List Typed) :
    actions (machine.run s (commands.map Typed.whole)).1 <+:
        commandActions s.g_display_width (commands.map Typed.command) ∧
      ((∃ s', (machine.run s (commands.map Typed.whole)).2 = .again s') →
        actions (machine.run s (commands.map Typed.whole)).1 =
          commandActions s.g_display_width (commands.map Typed.command)) := by
  induction commands generalizing s with
  | nil => exact ⟨List.prefix_refl _, fun _ => rfl⟩
  | cons typed commands ih =>
      have acts : actions (machine.step s typed.whole).1 = [commandAction s.g_display_width typed.command] := by
        refine (actions_completion typed.completes_whole typed.wholeNotQuit).trans ?_
        rw [pending_of_fresh fresh]
        rfl
      rw [List.map_cons, List.map_cons, commandActions]
      cases action : (machine.step s typed.whole).2 with
      | halt ended =>
          rw [Machine.run_cons_halt _ action, acts]
          refine ⟨List.prefix_append [_] _, ?_⟩
          rintro ⟨s', goes⟩
          cases goes
      | again s' =>
          obtain ⟨fresh', width⟩ := step_whole fresh typed action
          obtain ⟨later, all⟩ := ih fresh'
          rw [Machine.run_cons_again _ action, actions_append, acts, ← width]
          refine ⟨(List.prefix_append_right_inj [_]).mpr later, ?_⟩
          intro goes
          rw [all goes]
          rfl

theorem actions_run_typed {s : Loop} (fresh : s.isMultiLine = false) (commands : List Typed) :
    actions (machine.run s (commands.flatMap Typed.inputs)).1 =
      actions (machine.run s (commands.map Typed.whole)).1 := by
  rw [← actions_visible, (run_typed fresh commands).1, actions_visible]

theorem run_typed_append {s : Loop} (fresh : s.isMultiLine = false) (commands : List Typed) (later : List Input) :
    (machine.run s (commands.flatMap Typed.inputs ++ later)).1.filter Event.visible =
        (machine.run s (commands.map Typed.whole ++ later)).1.filter Event.visible ∧
      (machine.run s (commands.flatMap Typed.inputs ++ later)).2 =
        (machine.run s (commands.map Typed.whole ++ later)).2 := by
  obtain ⟨events, next⟩ := run_typed fresh commands
  cases reached : (machine.run s (commands.map Typed.whole)).2 with
  | halt ended =>
      rw [Machine.run_append_halt _ _ reached, Machine.run_append_halt _ _ (next.trans reached)]
      exact ⟨events, next⟩
  | again s' =>
      rw [Machine.run_append_again _ _ reached, Machine.run_append_again _ _ (next.trans reached), List.filter_append,
        List.filter_append, events]
      exact ⟨rfl, rfl⟩

theorem session_congr {s : Loop} {inputs others : List Input}
    (events : (machine.run s inputs).1.filter Event.visible = (machine.run s others).1.filter Event.visible)
    (next : (machine.run s inputs).2 = (machine.run s others).2) :
    (session s inputs).1.filter Event.visible = (session s others).1.filter Event.visible ∧
      (session s inputs).2 = (session s others).2 := by
  unfold session
  generalize machine.run s inputs = one at events next ⊢
  generalize machine.run s others = two at events next ⊢
  obtain ⟨first, outcome⟩ := one
  obtain ⟨second, outcome'⟩ := two
  obtain rfl : outcome = outcome' := next
  cases outcome with
  | again s' => exact ⟨events, rfl⟩
  | halt ended =>
      cases ended with
      | crashed fault => exact ⟨events, rfl⟩
      | left =>
          dsimp only
          rw [List.filter_append, List.filter_append]
          exact ⟨congrArg (· ++ _) events, rfl⟩

/-- However its commands are laid out on lines, as far as `Typed` allows, a session prints and does the same, and
what is typed after it is taken in the same way. -/
theorem session_typed {s : Loop} (fresh : s.isMultiLine = false) (commands : List Typed) (later : List Input) :
    (session s (commands.flatMap Typed.inputs ++ later)).1.filter Event.visible =
        (session s (commands.map Typed.whole ++ later)).1.filter Event.visible ∧
      (session s (commands.flatMap Typed.inputs ++ later)).2 = (session s (commands.map Typed.whole ++ later)).2 := by
  obtain ⟨events, next⟩ := run_typed_append fresh commands later
  exact session_congr events next

theorem run_typed_ne_left {s : Loop} (fresh : s.isMultiLine = false) (commands : List Typed) :
    (machine.run s (commands.flatMap Typed.inputs)).2 ≠ .halt .left := by
  rw [(run_typed fresh commands).2, Ne, run_left_iff]
  rintro ⟨pre, last, post, split, isQuit, -⟩
  have member : last ∈ commands.map Typed.whole := split ▸ List.mem_append_right pre List.mem_cons_self
  obtain ⟨typed, -, rfl⟩ := List.mem_map.mp member
  exact typed.wholeNotQuit (Option.some.inj isQuit)

def sampleCommand : Typed where
  before := [typed "1 +\\", typed "", typed " 2 +\\"]
  pieces := [bytes "1 +", bytes " 2 +"]
  last := typed " 3"
  lines := by decide
  completes := by decide
  notQuit := by decide
  wholeNotQuit := by decide
  single := by decide

theorem session_typed_sum :
    (session start (sampleCommand.inputs ++ [typed "quit"])).1.filter Event.visible =
        (session start ([sampleCommand.whole] ++ [typed "quit"])).1.filter Event.visible ∧
      (session start (sampleCommand.inputs ++ [typed "quit"])).2 =
        (session start ([sampleCommand.whole] ++ [typed "quit"])).2 :=
  session_typed rfl [sampleCommand] [typed "quit"]

theorem session_append_quit {s : Loop} (inputs : List Input) {last : Input} (isQuit : last.text = quit) :
    session s (inputs ++ [last]) =
      match machine.run s inputs with
      | (events, .again _) =>
          (events ++ [.linenoiseHistoryAdd quit, .linenoiseHistorySave, .action .exit, .print (bytes "Bye.\n"), .close],
            .exited 0)
      | (events, .halt .left) => (events ++ [.close], .exited 0)
      | (events, .halt (.crashed fault)) => (events, .crashed fault) := by
  unfold session
  generalize ran : machine.run s inputs = outcome
  obtain ⟨events, next⟩ := outcome
  cases next with
  | again s' =>
      have quits : machine.step s' last = _ := step_quit isQuit
      rw [Machine.run_append_again _ _ (congrArg Prod.snd ran), Machine.run_cons_halt [] (congrArg Prod.snd quits), ran,
        quits]
      simp
  | halt ended =>
      rw [Machine.run_append_halt _ _ (congrArg Prod.snd ran), ran]
      cases ended <;> rfl

/-- A session of typed commands and `quit` does what the commands ask for, one after the other, and ends properly,
unless rendering a result faults: then it has done a part of that. -/
theorem session_quit {s : Loop} (fresh : s.isMultiLine = false) (commands : List Typed) {last : Input}
    (isQuit : last.text = quit) :
    let outcome := session s (commands.flatMap Typed.inputs ++ [last])
    outcome.2 = .exited 0 ∧
        actions outcome.1 = commandActions s.g_display_width (commands.map Typed.command) ++ [.exit] ∨
      ∃ fault, outcome.2 = .crashed fault ∧
        actions outcome.1 <+: commandActions s.g_display_width (commands.map Typed.command) := by
  obtain ⟨part, all⟩ := actions_wholes fresh commands
  rw [← actions_run_typed fresh commands] at part all
  rw [← (run_typed fresh commands).2] at all
  have notLeft := run_typed_ne_left fresh commands
  rw [session_append_quit _ isQuit]
  generalize machine.run s (commands.flatMap Typed.inputs) = outcome at part all notLeft ⊢
  obtain ⟨events, next⟩ := outcome
  cases next with
  | again s' => exact Or.inl ⟨rfl, by rw [actions_append, all ⟨s', rfl⟩]; rfl⟩
  | halt ended =>
      cases ended with
      | left => exact absurd rfl notLeft
      | crashed fault => exact Or.inr ⟨fault, rfl, part⟩

end Loop
end Ddbclient

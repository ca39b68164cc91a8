import Ddbclient.ClientMain.Continuation
import Ddbclient.Client.Visibility

/-!
# The display width over a run

The loop holds the last width that was accepted. What it reports about it and what `getTermWidth` makes of
it are compared here, and what a width that has been set does for the results that follow.
-/

namespace Ddbclient
open Lib Lib.Checked

def Action.accepted? : Action → Option CInt
  | .widthSet _ width => width
  | _ => none

def settings (events : List Event) : List CInt := (actions events).filterMap Action.accepted?

@[simp] theorem settings_append (first second : List Event) :
    settings (first ++ second) = settings first ++ settings second := by
  rw [settings, actions_append, List.filterMap_append]
  rfl

def lastSetting (events : List Event) (g_display_width : CInt) : CInt :=
  (settings events).getLast?.getD g_display_width

theorem lastSetting_append (first second : List Event) (g_display_width : CInt) :
    lastSetting (first ++ second) g_display_width = lastSetting second (lastSetting first g_display_width) := by
  unfold lastSetting
  rw [settings_append, List.getLast?_append]
  cases (settings second).getLast? with
  | none => rfl
  | some width => rfl

def Terminal.detected (terminal : Terminal) : CInt :=
  match terminal.COLUMNS with
  | some env_cols => if (atoi env_cols).val > 0 then atoi env_cols else terminal.ioctlWidth
  | none => terminal.ioctlWidth

theorem getTermWidth_of_not_pos {g_display_width : CInt} (unset : ¬ 0 < g_display_width.val) (terminal : Terminal) :
    getTermWidth g_display_width terminal = terminal.detected := if_neg unset

theorem exists_detected_ne (width : CInt) : ∃ terminal : Terminal, terminal.detected ≠ width := by
  by_cases one : width.val = 1
  · refine ⟨⟨some (bytes "2"), none⟩, fun same => ?_⟩
    have two : (Terminal.detected ⟨some (bytes "2"), none⟩).val = 2 := by decide
    rw [same] at two
    omega
  · refine ⟨⟨some (bytes "1"), none⟩, fun same => one ?_⟩
    rw [← same]
    decide

namespace Loop

/-! ## The last accepted setting -/

theorem accepted_executeAction (cmd : Bytes) : (executeAction cmd).accepted? = none := by
  unfold executeAction
  split
  · rfl
  · rfl

theorem accepted_commandAction (g_display_width : CInt) (cmd : Bytes) :
    (commandAction g_display_width cmd).accepted?.getD g_display_width = widthAfter g_display_width cmd := by
  unfold commandAction widthAfter
  split
  · rfl
  · split
    · rfl
    · rw [accepted_executeAction]
      rfl

theorem lastSetting_singleton {events : List Event} {action : Action} (did : actions events = [action])
    (g_display_width : CInt) : lastSetting events g_display_width = action.accepted?.getD g_display_width := by
  rw [lastSetting, settings, did]
  cases accepted : action.accepted? with
  | none => simp [accepted]
  | some width => simp [accepted]

theorem step_display_width {s s' : Loop} {input : Input} (action : (s.step input).2 = .again s') :
    s'.g_display_width = lastSetting (s.step input).1 s.g_display_width := by
  cases lineKind input.text with
  | blank blank =>
      rw [step_blank blank] at action ⊢
      cases action
      rfl
  | quit isQuit =>
      rw [step_quit isQuit] at action
      cases action
  | continuation continuation =>
      rw [step_continuation continuation] at action ⊢
      cases action
      rfl
  | command completes notQuit =>
      rw [lastSetting_singleton (actions_completion completes notQuit), accepted_commandAction]
      cases step_completed completes action with
      | width _ => rfl
      | reset other => exact (widthAfter_other _ other).symm

theorem run_display_width {s s' : Loop} {inputs : List Input} (reached : (machine.run s inputs).2 = .again s') :
    s'.g_display_width = lastSetting (machine.run s inputs).1 s.g_display_width := by
  refine Machine.again_induction (motive := fun s inputs => s'.g_display_width =
    lastSetting (machine.run s inputs).1 s.g_display_width) rfl ?_ reached
  intro s next input inputs action ih
  rw [ih, Machine.run_cons_again inputs action, lastSetting_append, step_display_width action]
  rfl

/-! ## The reported width and the used width -/

/-- The line completes this command. -/
structure CompletesCommand (s : Loop) (input : Input) (cmd : Bytes) : Prop where
  completes : Completes input.text
  notQuit : input.text ≠ quit
  command : s.pending ++ input.text = cmd

/-- What the query prints, in either spelling, at any line that completes it while the loop holds this width. -/
def Reports (s : Loop) (report : Option CInt) : Prop :=
  ∀ t : Loop, t.g_display_width = s.g_display_width → ∀ query ∈ [bytes "\\w", bytes "\\width"],
    ∀ input, CompletesCommand t input query → (t.step input).1 =
      [.linenoiseHistoryAdd input.text, .action (.widthQuery report), .print (bytes "Current display width: " ++
        (report.elim (bytes "Auto") fun width => decimal width.val) ++ [newline])]

theorem step_query {t : Loop} {query : Bytes} (isQuery : isWidthQuery query = true) {input : Input}
    (completes : CompletesCommand t input query) :
    (t.step input).1 = [.linenoiseHistoryAdd input.text, .action (.widthQuery (reported t.g_display_width)),
      .print (bytes "Current display width: " ++
        ((reported t.g_display_width).elim (bytes "Auto") fun width => decimal width.val) ++ [newline])] := by
  have cmd : (t.assemble input.text).cmd = query := completes.command
  rw [step_completion completes.completes completes.notQuit, dispatch, cmd, if_pos isQuery]
  rfl

theorem isWidthQuery_of_mem {query : Bytes} (member : query ∈ [bytes "\\w", bytes "\\width"]) :
    isWidthQuery query = true := by
  rw [List.mem_cons, List.mem_singleton] at member
  rcases member with rfl | rfl
  · decide
  · decide

theorem reports_iff (s : Loop) (report : Option CInt) : Reports s report ↔ report = reported s.g_display_width := by
  constructor
  · intro reports
    have query : CompletesCommand (fresh s.g_display_width) (typed "\\w") (bytes "\\w") :=
      ⟨by decide, by decide, rfl⟩
    have printed := reports (fresh s.g_display_width) rfl (bytes "\\w") List.mem_cons_self _ query
    rw [step_query (by decide) query] at printed
    cases (List.cons.inj (List.cons.inj printed).2).1
    rfl
  · rintro rfl t same query member input completes
    rw [step_query (isWidthQuery_of_mem member) completes, same]

/-- The report is a number exactly when the terminal has this width, whatever the environment is, and it is
`Auto` exactly when the setting is ignored. A rejected setting keeps both. -/
structure Agrees (s : Loop) : Prop where
  number : ∀ k, Reports s (some k) ↔ ∀ terminal, getTermWidth s.g_display_width terminal = k
  auto : Reports s none ↔ ∀ terminal, getTermWidth s.g_display_width terminal = terminal.detected
  rejected : ∀ t : Loop, t.g_display_width = s.g_display_width → ∀ argument, stoi argument = none →
    ∀ input, CompletesCommand t input (bytes "\\w " ++ argument) →
      ∃ s', (t.step input).2 = .again s' ∧ s'.g_display_width = s.g_display_width

theorem isWidthQuery_setting (argument : Bytes) : isWidthQuery (bytes "\\w " ++ argument) = false := by
  have setting : bytes "\\w " = [92, 119, 32] := by decide
  have short : bytes "\\w" = [92, 119] := by decide
  have long : bytes "\\width" = [92, 119, 105, 100, 116, 104] := by decide
  simp [isWidthQuery, setting, short, long]

theorem isWidthSetting_setting (argument : Bytes) : isWidthSetting (bytes "\\w " ++ argument) = true :=
  decide_eq_true rfl

theorem isWidthCommand_setting (argument : Bytes) : isWidthCommand (bytes "\\w " ++ argument) = true := by
  rw [isWidthCommand, isWidthSetting_setting, Bool.or_true]

theorem widthAfter_setting (g_display_width : CInt) (argument : Bytes) :
    widthAfter g_display_width (bytes "\\w " ++ argument) = (stoi argument).getD g_display_width := by
  have drops : (bytes "\\w " ++ argument).drop 3 = argument := rfl
  rw [widthAfter, isWidthQuery_setting, isWidthSetting_setting, drops]
  rfl

theorem step_rejected {s t : Loop} (same : t.g_display_width = s.g_display_width) {argument : Bytes}
    (rejected : stoi argument = none) {input : Input}
    (completes : CompletesCommand t input (bytes "\\w " ++ argument)) :
    ∃ s', (t.step input).2 = .again s' ∧ s'.g_display_width = s.g_display_width := by
  have width : isWidthCommand (t.pending ++ input.text) = true := by
    rw [completes.command]
    exact isWidthCommand_setting argument
  refine ⟨_, step_width completes.completes completes.notQuit width, ?_⟩
  change widthAfter t.g_display_width (t.pending ++ input.text) = s.g_display_width
  rw [completes.command, widthAfter_setting, rejected, same]
  rfl

theorem agrees_iff (s : Loop) : Agrees s ↔ 0 ≤ s.g_display_width.val := by
  constructor
  · intro agrees
    by_contra negative
    -- the number is reported, but the terminal's width is positive
    have report : Reports s (some s.g_display_width) := by
      rw [reports_iff, reported, if_neg (by omega)]
    have used := (agrees.number s.g_display_width).mp report ⟨none, none⟩
    have positive := getTermWidth_pos s.g_display_width ⟨none, none⟩
    rw [used] at positive
    omega
  · intro nonnegative
    by_cases set : 0 < s.g_display_width.val
    · have used (terminal : Terminal) := getTermWidth_of_pos set terminal
      have report : reported s.g_display_width = some s.g_display_width := if_neg (by omega)
      refine ⟨fun k => ?_, ?_, fun t same argument rejected input => step_rejected same rejected⟩
      · simp only [reports_iff, report, used, Option.some_inj]
        constructor
        · intro same _
          exact same.symm
        · intro same
          exact (same ⟨none, none⟩).symm
      · rw [reports_iff, report]
        apply iff_of_false (by simp)
        intro ignored
        obtain ⟨terminal, other⟩ := exists_detected_ne s.g_display_width
        exact other ((ignored terminal).symm.trans (used terminal))
    · have used (terminal : Terminal) := getTermWidth_of_not_pos set terminal
      have report : reported s.g_display_width = none := if_pos (by omega)
      refine ⟨fun k => ?_, ?_, fun t same argument rejected input => step_rejected same rejected⟩
      · rw [reports_iff, report]
        apply iff_of_false (by simp)
        intro same
        obtain ⟨terminal, other⟩ := exists_detected_ne k
        exact other ((used terminal).symm.trans (same terminal))
      · rw [reports_iff, report]
        exact iff_of_true rfl used

/-- In the state a run reaches, the report and the use agree exactly when the last accepted setting, if there
was one, is not negative: a negative width is reported as a number but never used. -/
theorem run_agrees_iff (inputs : List Input) (s : Loop) (reached : (machine.run start inputs).2 = .again s) :
    Agrees s ↔ ∀ width, (settings (machine.run start inputs).1).getLast? = some width → 0 ≤ width.val := by
  rw [agrees_iff, run_display_width reached, lastSetting]
  cases (settings (machine.run start inputs).1).getLast? with
  | none => exact iff_of_true (by decide) fun _ last => nomatch last
  | some width =>
      constructor
      · rintro nonnegative _ ⟨⟩
        exact nonnegative
      · intro all
        exact all width rfl

theorem run_agrees_at_120 :
    (machine.run start [typed "\\w 120", typed "\\w x"]).2 = .again ⟨false, bytes "\\w x", int 120⟩ ∧
      (Agrees ⟨false, bytes "\\w x", int 120⟩ ↔
        ∀ width, (settings (machine.run start [typed "\\w 120", typed "\\w x"]).1).getLast? = some width →
          0 ≤ width.val) :=
  ⟨by decide, run_agrees_iff [typed "\\w 120", typed "\\w x"] _ (by decide)⟩

theorem negative_width_disagrees :
    (machine.run start [typed "\\w -5"]).2 = .again ⟨false, bytes "\\w -5", int (-5)⟩ ∧
      actions (machine.run start [typed "\\w -5", typed "\\w"]).1 =
        [.widthSet (bytes "-5") (some (int (-5))), .widthQuery (some (int (-5)))] ∧
      (getTermWidth (int (-5)) ⟨none, none⟩).val = 80 ∧
      ¬ Agrees ⟨false, bytes "\\w -5", int (-5)⟩ := by
  refine ⟨by decide, by decide, by decide, ?_⟩
  rw [agrees_iff]
  decide

/-! ## The results after a setting -/

theorem settings_prefix {s before : Loop} {first : List Input} (second : List Input)
    (reached : (machine.run s first).2 = .again before) :
    settings (machine.run s first).1 <+: settings (machine.run s (first ++ second)).1 := by
  rw [Machine.run_append_again first second reached, settings_append]
  exact List.prefix_append _ _

theorem visited_display_width {s before : Loop} {later : List Input} {input : Input}
    (unset : settings (machine.run s later).1 = []) (visited : (before, input) ∈ machine.visited s later) :
    before.g_display_width = s.g_display_width := by
  obtain ⟨first, second, rfl, reached⟩ := Machine.mem_visited_iff.mp visited
  have earlier := settings_prefix (input :: second) reached
  rw [unset, List.prefix_nil] at earlier
  rw [run_display_width reached, lastSetting, earlier]
  rfl

theorem commandAction_of_script {s : Loop} {input : Input} {cmd : Bytes}
    (sent : .script cmd ∈ actions (s.step input).1) :
    Completes input.text ∧ input.text ≠ quit ∧
      commandAction s.g_display_width (s.pending ++ input.text) = .script cmd := by
  cases lineKind input.text with
  | blank blank =>
      rw [step_blank blank] at sent
      cases sent
  | quit isQuit =>
      rw [step_quit isQuit] at sent
      simp [Event.action?] at sent
  | continuation continuation =>
      rw [step_continuation continuation] at sent
      simp [Event.action?] at sent
  | command completes notQuit =>
      rw [actions_completion completes notQuit, List.mem_singleton] at sent
      exact ⟨completes, notQuit, sent.symm⟩

def elapsed (world : World) : Bytes := [newline] ++ (bytes "OK. Elapsed: " ++ world.seconds ++ bytes " sec.\n\n")

theorem execute_ok {s : Loop} {world : World} {text : Bytes} (server : s.cmd.head? ≠ some bang)
    (printed : Client.runInteractive s.g_display_width world s.cmd = .ok text) :
    s.execute world = ([.action (.script s.cmd), .print text], .again (fresh s.g_display_width)) := by
  rw [execute, if_neg server, printed]

theorem step_prints {s : Loop} {input : Input} {cmd : Bytes} {result : Constant} {out : Bytes}
    (sent : .script cmd ∈ actions (s.step input).1) (answer : input.world.run cmd = .ok result)
    (rendered : Client.toString s.g_display_width input.world.terminal result = .ok out) :
    .print (out ++ elapsed input.world) ∈ (s.step input).1 := by
  obtain ⟨completes, notQuit, action⟩ := commandAction_of_script sent
  obtain ⟨other, rfl⟩ := commandAction_eq_script action
  rw [commandAction_other _ other] at action
  have server := (executeAction_eq_script_iff.mp action).1
  have printed : Client.runInteractive s.g_display_width input.world (s.pending ++ input.text) =
      .ok (out ++ elapsed input.world) := by
    simp [Client.runInteractive, answer, rendered, elapsed, Except.mapError, bind, Except.bind, pure, Except.pure]
  have executes := execute_ok (s := s.assemble input.text) server printed
  rw [step_completion completes notQuit, dispatch_other_command _ _ other, executes]
  exact List.mem_cons_of_mem _ (List.mem_cons_of_mem _ List.mem_cons_self)

theorem decimal_ne_nil (x : Int) : decimal x ≠ [] :=
  List.append_ne_nil_of_right_ne_nil _ (mt List.map_eq_nil_iff.mp Nat.toDigits_ne_nil)

theorem completes_setting (k : Int) : Completes (bytes "\\w " ++ decimal k) := by
  refine ⟨List.append_ne_nil_of_right_ne_nil _ (decimal_ne_nil k), fun last => ?_⟩
  rw [List.getLast?_append_of_ne_nil _ (decimal_ne_nil k)] at last
  have digit := (decimal_bounds k _ (List.mem_of_getLast? last)).2
  exact absurd digit (by decide)

theorem step_setting {s : Loop} {input : Input} (single : s.isMultiLine = false) (k : CInt)
    (text : input.text = bytes "\\w " ++ decimal k.val) :
    ∃ s', (s.step input).2 = .again s' ∧ s'.g_display_width = k := by
  have completes := completes_setting k.val
  have whole : s.pending ++ input.text = bytes "\\w " ++ decimal k.val := by
    rw [pending, single, text]
    rfl
  rw [← text] at completes
  have notQuit : input.text ≠ quit := by
    intro isQuit
    have head := congrArg List.head? (text.symm.trans isQuit)
    exact absurd head (by simp [show bytes "\\w " = [92, 119, 32] by decide, show quit = [113, 117, 105, 116] by decide])
  refine ⟨_, step_width completes notQuit (whole ▸ isWidthCommand_setting _), ?_⟩
  change widthAfter s.g_display_width (s.pending ++ input.text) = k
  rw [whole, widthAfter_setting, stoi_decimal]
  rfl

theorem warning_iff_threshold {g_display_width : CInt} {terminal : Terminal} {table : Table} {getString out : Bytes}
    (columns : table.columns ≠ [])
    (returned : Client.toString g_display_width terminal (Constant.ofTable table getString) = .ok out) :
    out = Client.warning table.columns.length ↔
      3 ≤ table.columns.length ∧ (getTermWidth g_display_width terminal).val < 8 * table.columns.length + 5 := by
  rw [Client.toString_ofTable] at returned
  rw [(Client.tableToString_eq_ok.mp returned).2, Client.text_eq_warning_iff columns, Client.refused_iff columns]

theorem result_displayed {s : Loop} {input : Input} {cmd getString : Bytes} {table : Table} {n : Nat}
    (wide : 8 * (n : Int) + 5 ≤ s.g_display_width.val) (sent : .script cmd ∈ actions (s.step input).1)
    (answer : input.world.run cmd = .ok (Constant.ofTable table getString)) (few : table.columns.length ≤ n) :
    (∀ out, Client.toString s.g_display_width input.world.terminal (Constant.ofTable table getString) = .ok out →
      out ≠ Client.warning table.columns.length ∧ .print (out ++ elapsed input.world) ∈ (s.step input).1) ∧
    (table.columns ≠ [] → Client.totalLength table < 2 ^ 31 →
      ∃ out, Client.toString s.g_display_width input.world.terminal (Constant.ofTable table getString) = .ok out) := by
  have positive : 0 < s.g_display_width.val := by omega
  have used := getTermWidth_of_pos positive input.world.terminal
  constructor
  · intro out returned
    have columns := (Client.tableToString_eq_ok.mp returned).1.columns
    refine ⟨fun isWarning => ?_, step_prints sent answer returned⟩
    have narrow := ((warning_iff_threshold columns returned).mp isWarning).2
    rw [used] at narrow
    omega
  · intro columns small
    have few : table.columns.length * 5 < 2 ^ 31 := by
      have := s.g_display_width.property.2
      omega
    exact ⟨_, Client.toString_returns s.g_display_width input.world.terminal getString small few columns⟩

/-- The warning is given exactly below `8 n + 5`, for three columns or more. So once a width of at least
`8 n + 5` has been set, tables of at most `n` columns are printed until it is set again. -/
theorem width_advice :
    (∀ (g_display_width : CInt) (terminal : Terminal) (table : Table) (getString : Bytes), table.columns ≠ [] →
      (∀ out, Client.toString g_display_width terminal (Constant.ofTable table getString) = .ok out →
        (out = Client.warning table.columns.length ↔
          3 ≤ table.columns.length ∧ (getTermWidth g_display_width terminal).val < 8 * table.columns.length + 5)) ∧
      (Client.totalLength table < 2 ^ 31 → table.columns.length * 5 < 2 ^ 31 →
        ∃ out, Client.toString g_display_width terminal (Constant.ofTable table getString) = .ok out)) ∧
    ∀ (s : Loop) (n : Nat) (k : CInt) (setting : Input), s.isMultiLine = false → 8 * (n : Int) + 5 ≤ k.val →
      setting.text = bytes "\\w " ++ decimal k.val →
      ∃ s', (s.step setting).2 = .again s' ∧
        ∀ later, settings (machine.run s' later).1 = [] →
        ∀ before input, (before, input) ∈ machine.visited s' later →
        ∀ cmd table getString, .script cmd ∈ actions (before.step input).1 →
          input.world.run cmd = .ok (Constant.ofTable table getString) → table.columns.length ≤ n →
          (∀ out, Client.toString before.g_display_width input.world.terminal (Constant.ofTable table getString) = .ok out →
            out ≠ Client.warning table.columns.length ∧ .print (out ++ elapsed input.world) ∈ (before.step input).1) ∧
          (table.columns ≠ [] → Client.totalLength table < 2 ^ 31 →
            ∃ out, Client.toString before.g_display_width input.world.terminal (Constant.ofTable table getString) = .ok out) := by
  constructor
  · intro g_display_width terminal table getString columns
    refine ⟨fun out returned => warning_iff_threshold columns returned, fun small few => ?_⟩
    exact ⟨_, Client.toString_returns g_display_width terminal getString small few columns⟩
  · intro s n k setting single wide text
    obtain ⟨s', action, width⟩ := step_setting single k text
    refine ⟨s', action, fun later unset before input visited cmd table getString sent answer few => ?_⟩
    have held : before.g_display_width = k := (visited_display_width unset visited).trans width
    exact result_displayed (by rwa [held]) sent answer few

theorem width_advice_at_13 :
    (∀ out, Client.toString Client.width80 ⟨none, none⟩ (Constant.ofTable Client.twoRows []) = .ok out →
      (out = Client.warning 2 ↔ 3 ≤ 2 ∧ (80 : Int) < 8 * 2 + 5)) ∧
    ∃ s', (start.step (typed "\\w 13")).2 = .again s' ∧
      ∀ later, settings (machine.run s' later).1 = [] →
      ∀ before input, (before, input) ∈ machine.visited s' later →
      ∀ cmd table getString, .script cmd ∈ actions (before.step input).1 →
        input.world.run cmd = .ok (Constant.ofTable table getString) → table.columns.length ≤ 1 →
        (∀ out, Client.toString before.g_display_width input.world.terminal (Constant.ofTable table getString) = .ok out →
          out ≠ Client.warning table.columns.length ∧ .print (out ++ elapsed input.world) ∈ (before.step input).1) ∧
        (table.columns ≠ [] → Client.totalLength table < 2 ^ 31 →
          ∃ out, Client.toString before.g_display_width input.world.terminal (Constant.ofTable table getString) = .ok out) :=
  ⟨(width_advice.1 Client.width80 ⟨none, none⟩ Client.twoRows [] (by decide)).1,
    width_advice.2 start 1 (int 13) (typed "\\w 13") rfl (by decide) (by decide)⟩

/-- Lengths past the range of `int`, and tables without columns, are outside of what the advice covers: the
sum of the header lengths overflows before the warning, a header of `2 ^ 31` bytes cannot be underlined at
any width, and the width left for no columns is divided by zero. -/
theorem width_advice_fails :
    (∀ out, Client.toString (int 20) ⟨none, none⟩
      (Constant.ofTable (Client.dashed [2 ^ 31 - 1, 1, 0] (Client.few_of_le (show 3 ≤ 1001 by decide))) []) ≠ .ok out) ∧
    (start.step (typed "\\w 13")).2 = .again ⟨false, bytes "\\w 13", int 13⟩ ∧
    (∀ out, Client.toString (int 13) ⟨none, none⟩
      (Constant.ofTable (Client.dashed [2 ^ 31] (Client.few_of_le (show 1 ≤ 1001 by decide))) []) ≠ .ok out) ∧
    Client.toString (int 13) ⟨none, none⟩ (Constant.ofTable Client.noColumns []) =
      .error (.fault .divideByZero) := by
  refine ⟨fun out returned => ?_, by decide, ?_, by decide⟩
  · have sums := (Client.tableToString_eq_ok.mp returned).1.sums
    have lengths : [2 ^ 31 - 1, 1, 0].map ofSize = [2147483647, 1, 0] := by decide +kernel
    rw [Client.naturalWidths_dashed, lengths] at sums
    exact absurd sums.2.1 (by decide)
  · have one : (Client.dashed [2 ^ 31] (Client.few_of_le (show 1 ≤ 1001 by decide))).columns.length = 1 :=
      Client.length_dashed _
    have columns : (Client.dashed [2 ^ 31] (Client.few_of_le (show 1 ≤ 1001 by decide))).columns ≠ [] :=
      List.ne_nil_of_length_pos (by rw [one]; decide)
    have lengths : [2 ^ 31].map ofSize = [-2147483648] := by decide +kernel
    apply Client.tableToString_dashed _ List.mem_cons_self (by decide +kernel)
    · rw [Client.refused_iff columns, one]
      decide
    · rw [Client.Layout.Shrunk, Client.Layout.available, Client.naturalWidths_dashed, lengths, one]
      decide

end Loop
end Ddbclient

import Ddbclient.ClientMain.Step

/-!
# Commands over several lines

What an iteration does depends on the loop only through the text that waits for more, the flag, and
the display width. From this: when a command leaves nothing behind, and that a command typed over
several lines is the command typed on one.
-/

namespace Ddbclient
open Lib Lib.Checked

namespace Loop

/-! ## States that cannot be told apart -/

structure Alike (s t : Loop) : Prop where
  isMultiLine : s.isMultiLine = t.isMultiLine
  pending : s.pending = t.pending
  g_display_width : s.g_display_width = t.g_display_width

theorem Alike.assemble {s t : Loop} (alike : Alike s t) (text : Bytes) : s.assemble text = t.assemble text := by
  simp only [Loop.assemble, alike.isMultiLine, alike.pending, alike.g_display_width]

theorem Alike.continued {s t : Loop} (alike : Alike s t) (text : Bytes) : s.continued text = t.continued text := by
  simp only [Loop.continued, alike.pending, alike.g_display_width]

theorem Alike.step {s t : Loop} (alike : Alike s t) {input : Input} (nonblank : input.text ≠ []) :
    s.step input = t.step input := by
  cases lineKind input.text with
  | blank blank => exact absurd blank nonblank
  | quit isQuit => rw [step_quit isQuit, step_quit isQuit]
  | continuation continuation =>
      rw [step_continuation continuation, step_continuation continuation, alike.continued]
  | command completes notQuit =>
      rw [step_completion completes notQuit, step_completion completes notQuit, alike.assemble]

theorem Alike.refl (s : Loop) : Alike s s := ⟨rfl, rfl, rfl⟩

theorem Alike.run_events {s t : Loop} (alike : Alike s t) (inputs : List Input) :
    (machine.run s inputs).1 = (machine.run t inputs).1 := by
  apply Machine.run_events_eq _ alike
  intro s t input alike
  change (s.step input).1 = (t.step input).1 ∧ _
  by_cases blank : input.text = []
  · rw [step_blank blank, step_blank blank]
    have stays (u : Loop) : (machine.step u input).2 = .again u := congrArg Prod.snd (step_blank blank)
    exact ⟨rfl, Or.inl ⟨s, t, stays s, stays t, alike⟩⟩
  · have same := alike.step blank
    refine ⟨congrArg Prod.fst same, ?_⟩
    cases next : (t.step input).2 with
    | again t' =>
        have goes : (s.step input).2 = .again t' := (congrArg Prod.snd same).trans next
        exact Or.inl ⟨t', t', goes, next, Alike.refl t'⟩
    | halt result =>
        have stops : (s.step input).2 = .halt result := (congrArg Prod.snd same).trans next
        exact Or.inr ⟨result, stops, next⟩

/-! ## What a command leaves behind -/

/-- Whatever is typed from here on, the loop acts as one that has just been started with the same
display width. -/
def ActsFresh (s : Loop) : Prop :=
  ∀ later : List Input,
    actions (machine.run s later).1 = actions (machine.run (fresh s.g_display_width) later).1

theorem actsFresh_of_not_isMultiLine {s : Loop} (single : s.isMultiLine = false) : s.ActsFresh := by
  intro later
  have alike : Alike s (fresh s.g_display_width) := ⟨single, by rw [pending, single]; rfl, rfl⟩
  rw [alike.run_events later]

def quietWorld : World := ⟨fun _ => .ok ⟨true, none, []⟩, fun _ => 0, ⟨none, none⟩, bytes "0.000"⟩

def typed (line : String) : Input := ⟨some (bytes line), quietWorld⟩

/-- Text that waits is seen at the next line: what is sent is not that line alone. -/
theorem not_actsFresh_of_pending {s : Loop} (waiting : s.pending ≠ []) : ¬ s.ActsFresh := by
  intro actsFresh
  have completes : Completes (typed "x").text := by decide
  have notQuit : (typed "x").text ≠ quit := by decide
  have same := actsFresh [typed "x"]
  rw [Machine.run_singleton_events, Machine.run_singleton_events] at same
  change actions (s.step _).1 = actions (step _ _).1 at same
  rw [actions_completion completes notQuit, actions_completion completes notQuit, List.singleton_inj] at same
  have sent : commandAction s.g_display_width (s.pending ++ bytes "x") = .script (bytes "x") := same
  exact waiting (List.append_left_eq_self.mp (commandAction_eq_script sent).2)

theorem actsFresh_next_iff {s s' : Loop} {input : Input} (completes : Completes input.text)
    (goes : (s.step input).2 = .again s') :
    s'.ActsFresh ↔ (s.isMultiLine = true → isWidthCommand (s.pending ++ input.text) = false) := by
  cases step_completed completes goes with
  | reset other => exact iff_of_true (actsFresh_of_not_isMultiLine rfl) fun _ => other
  | width width =>
      rw [width]
      cases multi : s.isMultiLine with
      | false => exact iff_of_true (actsFresh_of_not_isMultiLine multi) (by decide)
      | true =>
          apply iff_of_false _ (by decide)
          apply not_actsFresh_of_pending
          intro empty
          -- the width command itself still waits
          have waits : s.pending ++ input.text = [] := by simpa [pending, assemble, multi] using empty
          exact completes.nonblank (List.append_eq_nil_iff.mp waits).2

/-- In a run, every completed command leaves nothing behind exactly when no width command is typed over
several lines: those skip the reset at the end of the body, and stay in front of what is typed next. -/
theorem commands_leave_nothing_iff (s : Loop) (inputs : List Input) :
    (∀ before input, (before, input) ∈ machine.visited s inputs →
        Completes input.text → input.text ≠ quit →
        ∀ after, (before.step input).2 = .again after → after.ActsFresh) ↔
      ∀ before input, (before, input) ∈ machine.visited s inputs →
        Completes input.text → input.text ≠ quit →
        before.isMultiLine = true → isWidthCommand (before.pending ++ input.text) = false := by
  constructor
  · intro clean before input visited completes notQuit multi
    by_contra width
    have goes := step_width completes notQuit (Bool.of_not_eq_false width)
    have leaves := clean before input visited completes notQuit _ goes
    exact width ((actsFresh_next_iff completes goes).mp leaves multi)
  · intro condition before input visited completes notQuit after goes
    exact (actsFresh_next_iff completes goes).mpr (condition before input visited completes notQuit)

/-- `\w \` and `100` set the width, but then `1` is read as `\w 1001`. -/
theorem width_setting_stays :
    ∃ before after, (before, typed "100") ∈ machine.visited start [typed "\\w \\", typed "100"] ∧
      Completes (typed "100").text ∧ (typed "100").text ≠ quit ∧ (before.step (typed "100")).2 = .again after ∧
      actions (machine.run after [typed "1"]).1 = [.widthSet (bytes "1001") (some (int 1001))] ∧
      actions (machine.run (fresh after.g_display_width) [typed "1"]).1 = [.script (bytes "1")] := by
  have visited : (⟨true, bytes "\\w ", int 80⟩, typed "100") ∈
      machine.visited start [typed "\\w \\", typed "100"] := List.mem_cons_of_mem _ List.mem_cons_self
  refine ⟨_, ⟨true, bytes "\\w 100", int 100⟩, visited, ?_, ?_, ?_, ?_, ?_⟩ <;> decide

/-! ## Several lines and one -/

def nonblankLines (inputs : List Input) : List Bytes := (inputs.map Input.text).filter (· ≠ [])

theorem run_continuations {s : Loop} {inputs : List Input} {pieces : List Bytes}
    (lines : nonblankLines inputs = pieces.map (· ++ [backslash])) :
    ∃ s', (machine.run s inputs).2 = .again s' ∧ actions (machine.run s inputs).1 = [] ∧
      s'.pending = s.pending ++ pieces.flatten ∧ s'.g_display_width = s.g_display_width := by
  induction inputs generalizing s pieces with
  | nil =>
      obtain rfl : pieces = [] := List.map_eq_nil_iff.mp lines.symm
      exact ⟨s, rfl, rfl, (List.append_nil _).symm, rfl⟩
  | cons input inputs ih =>
      by_cases blank : input.text = []
      · rw [Machine.run_idle inputs (step_blank blank)]
        exact ih (by simpa [nonblankLines, blank] using lines)
      · have head : nonblankLines (input :: inputs) = input.text :: nonblankLines inputs := by
          simp [nonblankLines, blank]
        rw [head] at lines
        obtain ⟨piece, rest, rfl, text, others⟩ := List.map_eq_cons_iff.mp lines.symm
        have continuation : input.text.getLast? = some backslash := by rw [← text, List.getLast?_concat]
        have goes := step_continuation (s := s) continuation
        obtain ⟨s', reached, silent, waits, width⟩ := ih (s := s.continued input.text) others.symm
        have action : (machine.step s input).2 = .again (s.continued input.text) := congrArg Prod.snd goes
        refine ⟨s', ?_, ?_, ?_, width⟩
        · rw [Machine.run_cons_again inputs action, reached]
        · rw [Machine.run_cons_again inputs action, actions_append, silent]
          exact congrArg (fun outcome => actions outcome.1 ++ []) goes
        · have joined : (s.continued input.text).pending = s.pending ++ piece := by
            rw [← text]
            simp [continued, pending]
          rw [waits, joined, List.flatten_cons, List.append_assoc]

/-- Lines that end in a backslash, blank lines, and a last line act as the single line made of the
pieces in front of the backslashes: nothing is done before the last line, and what is done at it is
what is done at the single line. -/
theorem lines_act_as_one {s : Loop} (single : s.isMultiLine = false) {before : List Input} {last whole : Input}
    (pieces : List Bytes) (lines : nonblankLines before = pieces.map (· ++ [backslash]))
    (nonempty : last.text ≠ []) (unterminated : last.text.getLast? ≠ some backslash) (notQuit : last.text ≠ quit)
    (joined : whole.text = pieces.flatten ++ last.text) (wholeNotQuit : whole.text ≠ quit) :
    ∃ s' action, (machine.run s before).2 = .again s' ∧ actions (machine.run s before).1 = [] ∧
      actions (s'.step last).1 = [action] ∧ actions (s.step whole).1 = [action] := by
  have empty : s.pending = [] := by rw [pending, single]; rfl
  obtain ⟨s', reached, silent, waits, width⟩ := run_continuations (s := s) lines
  rw [empty, List.nil_append] at waits
  have completes : Completes whole.text := by
    rw [joined]
    exact ⟨fun none => nonempty (List.append_eq_nil_iff.mp none).2, by
      rwa [List.getLast?_append_of_ne_nil _ nonempty]⟩
  refine ⟨s', _, reached, silent, actions_completion ⟨nonempty, unterminated⟩ notQuit, ?_⟩
  rw [actions_completion completes wholeNotQuit, empty, List.nil_append, waits, width, joined]

theorem lines_act_as_one_split_width :
    ∃ s' action, (machine.run start [typed "\\", ⟨none, quietWorld⟩, typed "\\w\\"]).2 = .again s' ∧
      actions (machine.run start [typed "\\", ⟨none, quietWorld⟩, typed "\\w\\"]).1 = [] ∧
      actions (s'.step (typed " 120")).1 = [action] ∧ actions (start.step (typed "\\w 120")).1 = [action] :=
  lines_act_as_one rfl [[], bytes "\\w"] (by decide) (by decide) (by decide) (by decide) (by decide) (by decide)

/-! ## Commands put together from the lines -/

/-- The pending text after one more line: a blank line leaves it as it is, a continuation line adds what is in
front of its backslash, and a line that completes a command ends it. -/
def pendingAfter (text : Bytes) (input : Input) : Bytes :=
  if input.text = [] then text
  else if input.text.getLast? = some backslash then text ++ input.text.dropLast
  else []

/-- The text that these lines leave pending, whatever the loop makes of them. -/
def pendingText (inputs : List Input) : Bytes := inputs.foldl pendingAfter []

/-- Where a width command is completed, no continuation is pending. -/
def WidthsOnOneLine (s : Loop) (inputs : List Input) : Prop :=
  ∀ before input, (before, input) ∈ machine.visited s inputs → Completes input.text → input.text ≠ quit →
    before.isMultiLine = true → isWidthCommand (before.pending ++ input.text) = false

theorem pendingAfter_completes {input : Input} (completes : Completes input.text) (text : Bytes) :
    pendingAfter text input = [] := by
  rw [pendingAfter, if_neg completes.nonblank, if_neg completes.unterminated]

theorem pending_continued (s : Loop) (text : Bytes) : (s.continued text).pending = s.pending ++ text.dropLast := rfl

theorem step_pending {s s' : Loop} {input : Input} (goes : (s.step input).2 = .again s')
    (oneLine : Completes input.text → input.text ≠ quit → s.isMultiLine = true →
      isWidthCommand (s.pending ++ input.text) = false) :
    s'.pending = pendingAfter s.pending input := by
  have outcome := step_outcome s input
  rw [goes] at outcome
  cases outcome with
  | blank blank => rw [pendingAfter, if_pos blank]
  | continuation continuation =>
      rw [pendingAfter, if_neg (nonblank_of_continuation continuation), if_pos continuation, pending_continued]
  | width completes notQuit width =>
      rw [pendingAfter_completes completes]
      cases multi : s.isMultiLine with
      | false => exact if_neg (by simp [assemble, multi])
      | true => cases width.symm.trans (oneLine completes notQuit multi)
  | reset completes _ _ => rw [pendingAfter_completes completes, pending_fresh]

/-- What the loop holds is the pending text of the lines, as long as no width command is typed over several. -/
theorem run_pending {s s' : Loop} {inputs : List Input} (reached : (machine.run s inputs).2 = .again s')
    (oneLine : s.WidthsOnOneLine inputs) : s'.pending = inputs.foldl pendingAfter s.pending := by
  refine Machine.again_induction (motive := fun s inputs =>
    s.WidthsOnOneLine inputs → s'.pending = inputs.foldl pendingAfter s.pending) (fun _ => rfl) ?_ reached oneLine
  intro s next input inputs action ih oneLine
  have visited := Machine.visited_cons_again inputs action
  have here := step_pending action (oneLine s input (visited ▸ List.mem_cons_self))
  have later : next.WidthsOnOneLine inputs := fun before other member =>
    oneLine before other (visited ▸ List.mem_cons_of_mem _ member)
  rw [ih later, here, List.foldl_cons]

-- a width command over two lines is finished, but the loop still holds it in front of the next continuation
example : pendingText [typed "\\w \\", typed "100", typed "qu\\"] = bytes "qu" ∧
    (machine.run start [typed "\\w \\", typed "100", typed "qu\\"]).2 = .again ⟨true, bytes "\\w 100qu", int 100⟩ := by
  decide

/-- Then a line that completes a command makes the loop do what the command asks for that its lines say. -/
theorem actions_completed {s : Loop} {before : List Input} {input : Input}
    (reached : (machine.run start before).2 = .again s) (oneLine : start.WidthsOnOneLine before)
    (completes : Completes input.text) (notQuit : input.text ≠ quit) :
    actions (s.step input).1 = [commandAction s.g_display_width (pendingText before ++ input.text)] := by
  rw [actions_completion completes notQuit, run_pending reached oneLine]
  rfl

/-! ## Where the loop ends -/

theorem step_left_iff (s : Loop) (input : Input) : (s.step input).2 = .halt .left ↔ input.text = quit := by
  constructor
  · intro leaves
    have outcome := step_outcome s input
    rw [leaves] at outcome
    cases outcome with
    | quit isQuit => exact isQuit
  · intro isQuit
    rw [step_quit isQuit]

theorem completes_quit : Completes quit := by decide

theorem leaves_at_quit_iff {s : Loop} {input : Input} (text : Bytes) :
    ((s.step input).2 = .halt .left ↔ Completes input.text ∧ text ++ input.text = quit) ↔
      (text ≠ [] → input.text ≠ [] → input.text ≠ quit ∧ text ++ input.text ≠ quit) := by
  rw [step_left_iff]
  by_cases empty : text = []
  · refine iff_of_true ?_ fun waits => absurd empty waits
    rw [empty, List.nil_append]
    exact ⟨fun isQuit => ⟨isQuit ▸ completes_quit, isQuit⟩, And.right⟩
  · by_cases blank : input.text = []
    · refine iff_of_true (iff_of_false ?_ fun exits => exits.1.nonblank blank) fun _ nonblank => absurd blank nonblank
      rw [blank]
      decide
    · have left : input.text = quit → text ++ input.text ≠ quit := by
        intro isQuit joined
        rw [isQuit] at joined
        exact empty (List.append_left_eq_self.mp joined)
      have right : text ++ input.text = quit → Completes input.text := by
        intro joined
        refine ⟨blank, ?_⟩
        rw [← List.getLast?_append_of_ne_nil text blank, joined]
        decide
      constructor
      · intro agree _ _
        refine ⟨fun isQuit => left isQuit (agree.mp isQuit).2, fun joined => ?_⟩
        exact left (agree.mpr ⟨right joined, joined⟩) joined
      · intro apart
        obtain ⟨notQuit, notJoined⟩ := apart empty blank
        exact iff_of_false notQuit fun exits => notJoined exits.2

/-- What holds of each of these lines that the loop reads, of the lines before it, and of the state it is read in.
The loop has started with the earlier lines. -/
def AtEachLine (earlier inputs : List Input) (holds : List Input → Loop → Input → Prop) : Prop :=
  ∀ first input rest s, inputs = first ++ input :: rest → (machine.run start (earlier ++ first)).2 = .again s →
    holds (earlier ++ first) s input

/-- From every state that the loop reaches, it ends exactly at the lines that complete the command `quit`, provided
that no line reads `quit` while text is pending and that no pending text becomes `quit` with the line after it, and
only then. The test for `quit` looks at the line, not at the command. -/
theorem leaves_at_quit_run_iff (earlier inputs : List Input) :
    (AtEachLine earlier inputs fun before s input =>
        ((s.step input).2 = .halt .left ↔ Completes input.text ∧ pendingText before ++ input.text = quit)) ↔
      AtEachLine earlier inputs fun before _ input =>
        pendingText before ≠ [] → input.text ≠ [] → input.text ≠ quit ∧ pendingText before ++ input.text ≠ quit := by
  constructor
  · intro agrees first input rest s split reached
    exact (leaves_at_quit_iff _).mp (agrees first input rest s split reached)
  · intro apart first input rest s split reached
    exact (leaves_at_quit_iff _).mpr (apart first input rest s split reached)

/-- `select 1;\` is thrown away by the line `quit`, and `qu\`, `it` is sent to the server. -/
theorem quit_is_a_line :
    (∃ s, (machine.run start [typed "select 1;\\"]).2 = .again s ∧ (s.step (typed "quit")).2 = .halt .left ∧
      pendingText [typed "select 1;\\"] ++ (typed "quit").text ≠ quit) ∧
    ∃ s, (machine.run start [typed "qu\\"]).2 = .again s ∧ Completes (typed "it").text ∧
      pendingText [typed "qu\\"] ++ (typed "it").text = quit ∧ (s.step (typed "it")).2 ≠ .halt .left ∧
      actions (s.step (typed "it")).1 = [.script quit] := by
  constructor
  · refine ⟨⟨true, bytes "select 1;", int 80⟩, ?_, ?_, ?_⟩ <;> decide
  · refine ⟨⟨true, bytes "qu", int 80⟩, ?_, ?_, ?_, ?_, ?_⟩ <;> decide

end Loop
end Ddbclient

import Ddbclient.ClientMain.Continuation
import Ddbclient.FileReader

/-!
# How the program ends

The interactive loop ends at the line `quit`, and after it the history is stored and the connection
closed. A script given on the command line is run once, and its outcome is the exit status.
-/

namespace Ddbclient
open Lib Lib.Checked

/-! ## Interactive sessions -/

inductive Status where
  | running
  | exited (status : Nat)
  | crashed (fault : Fault)
  deriving DecidableEq

/-- The loop and what follows it in `main`. -/
def session (s : Loop) (inputs : List Input) : List Event × Status :=
  match machine.run s inputs with
  | (events, .again _) => (events, .running)
  | (events, .halt .left) => (events ++ [.close], .exited 0)
  | (events, .halt (.crashed fault)) => (events, .crashed fault)

structure Ends (outcome : List Event × Status) : Prop where
  status : outcome.2 = .exited 0
  saved : .linenoiseHistorySave ∈ outcome.1
  closed : .close ∈ outcome.1

def endOfInput (later : Nat → World) (calls : Nat) : List Input :=
  (List.range calls).map fun call => ⟨none, later call⟩

namespace Loop

/-- The run reaches the line `quit`, and no step before it faults. -/
def ReachesQuit (s : Loop) (inputs : List Input) : Prop :=
  ∃ pre last post, inputs = pre ++ last :: post ∧ last.line = some quit ∧
    ∀ before input, (before, input) ∈ machine.visited s pre → ¬ before.Faults input

/-- No line is `quit`, and no step faults. -/
def ReadsAll (s : Loop) (inputs : List Input) : Prop :=
  ∀ before input, (before, input) ∈ machine.visited s inputs → input.text ≠ quit ∧ ¬ before.Faults input

/-- The run reaches a line at which rendering a result runs into this fault. -/
def ReachesFault (s : Loop) (inputs : List Input) (fault : Fault) : Prop :=
  ∃ before input, (before, input) ∈ machine.visited s inputs ∧ before.FaultsWith input fault

theorem line_eq_quit_iff (input : Input) : input.line = some quit ↔ input.text = quit := by
  unfold Input.text
  cases input.line with
  | none => exact iff_of_false (fun null => nomatch null) (by decide)
  | some line => exact Option.some_inj

theorem step_again_iff (s : Loop) (input : Input) :
    (∃ s', (s.step input).2 = .again s') ↔ input.text ≠ quit ∧ ¬ s.Faults input := by
  constructor
  · rintro ⟨s', goes⟩
    constructor
    · intro isQuit
      cases goes.symm.trans ((step_left_iff s input).mpr isQuit)
    · rintro ⟨fault, faults⟩
      cases goes.symm.trans (step_crashed faults)
  · rintro ⟨notQuit, safe⟩
    cases outcome : (s.step input).2 with
    | again s' => exact ⟨s', rfl⟩
    | halt result =>
        cases result with
        | left => exact absurd ((step_left_iff s input).mp outcome) notQuit
        | crashed fault => exact absurd ⟨fault, step_crashed_iff.mp outcome⟩ safe

theorem run_again_iff (s : Loop) (inputs : List Input) :
    (∃ s', (machine.run s inputs).2 = .again s') ↔ s.ReadsAll inputs :=
  Machine.run_again_iff.trans (forall₃_congr fun before input _ => step_again_iff before input)

theorem run_crashed_iff (s : Loop) (inputs : List Input) (fault : Fault) :
    (machine.run s inputs).2 = .halt (.crashed fault) ↔ s.ReachesFault inputs fault := by
  constructor
  · intro crashes
    obtain ⟨first, input, second, before, rfl, reached, stops⟩ := Machine.run_halt_iff.mp crashes
    exact ⟨before, input, Machine.mem_visited_iff.mpr ⟨first, second, rfl, reached⟩, step_crashed_iff.mp stops⟩
  · rintro ⟨before, input, visited, faults⟩
    obtain ⟨first, second, rfl, reached⟩ := Machine.mem_visited_iff.mp visited
    exact Machine.run_halt_iff.mpr ⟨first, input, second, before, rfl, reached, step_crashed faults⟩

theorem run_left_iff (s : Loop) (inputs : List Input) :
    (machine.run s inputs).2 = .halt .left ↔ s.ReachesQuit inputs := by
  constructor
  · intro leaves
    obtain ⟨pre, last, post, s', rfl, reached, stops⟩ := Machine.run_halt_iff.mp leaves
    have isQuit := (step_left_iff s' last).mp stops
    have readsAll := (s.run_again_iff pre).mp ⟨s', reached⟩
    refine ⟨pre, last, post, rfl, (line_eq_quit_iff last).mpr isQuit, ?_⟩
    intro before input visited
    exact (readsAll before input visited).2
  · rintro ⟨pre, last, post, rfl, isQuit, safe⟩
    cases reached : (machine.run s pre).2 with
    | again s' =>
        have stops := (step_left_iff s' last).mpr ((line_eq_quit_iff last).mp isQuit)
        exact Machine.run_halt_iff.mpr ⟨pre, last, post, s', rfl, reached, stops⟩
    | halt result =>
        -- an earlier line has ended the loop, and not by a fault
        rw [Machine.run_append_halt pre _ reached, reached]
        cases result with
        | left => rfl
        | crashed fault =>
            obtain ⟨before, input, visited, faults⟩ := (s.run_crashed_iff pre fault).mp reached
            exact absurd ⟨fault, faults⟩ (safe before input visited)

theorem saved_of_left {s : Loop} {inputs : List Input} (leaves : (machine.run s inputs).2 = .halt .left) :
    .linenoiseHistorySave ∈ (machine.run s inputs).1 := by
  obtain ⟨pre, last, post, s', rfl, reached, stops⟩ := Machine.run_halt_iff.mp leaves
  have quits : machine.step s' last = _ := step_quit ((step_left_iff s' last).mp stops)
  rw [Machine.run_append_again pre _ reached, Machine.run_cons_halt post stops, quits]
  simp

theorem run_endOfInput (s : Loop) (later : Nat → World) (calls : Nat) :
    machine.run s (endOfInput later calls) = ([], .again s) := by
  unfold endOfInput
  induction List.range calls with
  | nil => rfl
  | cons call rest ih =>
      have idle : s.step ⟨none, later call⟩ = ([], .again s) := step_blank rfl
      exact (Machine.run_idle _ idle).trans ih

end Loop

theorem session_status (s : Loop) (inputs : List Input) :
    (session s inputs).2 = match (machine.run s inputs).2 with
      | .again _ => .running
      | .halt .left => .exited 0
      | .halt (.crashed fault) => .crashed fault := by
  unfold session
  generalize machine.run s inputs = outcome
  obtain ⟨events, next⟩ := outcome
  cases next with
  | again s' => rfl
  | halt result => cases result <;> rfl

theorem session_running_iff (s : Loop) (inputs : List Input) :
    (session s inputs).2 = .running ↔ s.ReadsAll inputs := by
  rw [← s.run_again_iff, session_status]
  cases (machine.run s inputs).2 with
  | again s' => exact iff_of_true rfl ⟨s', rfl⟩
  | halt result => cases result <;> exact iff_of_false nofun (fun ⟨s', goes⟩ => nomatch goes)

theorem session_crashed_iff (s : Loop) (inputs : List Input) (fault : Fault) :
    (session s inputs).2 = .crashed fault ↔ s.ReachesFault inputs fault := by
  rw [← s.run_crashed_iff, session_status]
  cases (machine.run s inputs).2 with
  | again s' => exact iff_of_false nofun nofun
  | halt result =>
      cases result with
      | left => exact iff_of_false nofun nofun
      | crashed fault' => simp

theorem quits_of_exited {s : Loop} {inputs : List Input} {status : Nat}
    (exits : (session s inputs).2 = .exited status) : s.ReachesQuit inputs := by
  rw [← s.run_left_iff]
  rw [session_status] at exits
  split at exits
  · cases exits
  · assumption
  · cases exits

theorem session_endOfInput (s : Loop) (inputs : List Input) (later : Nat → World) (calls : Nat) :
    session s (inputs ++ endOfInput later calls) = session s inputs := by
  have same : machine.run s (inputs ++ endOfInput later calls) = machine.run s inputs := by
    cases reached : (machine.run s inputs).2 with
    | again s' =>
        rw [Machine.run_append_again _ _ reached, s'.run_endOfInput, List.append_nil, ← reached]
    | halt result => exact Machine.run_append_halt _ _ reached
  rw [session, same, session]

theorem ends_session_iff (s : Loop) (inputs : List Input) : Ends (session s inputs) ↔ s.ReachesQuit inputs := by
  constructor
  · intro ends
    exact quits_of_exited ends.status
  · intro quits
    have leaves := (s.run_left_iff inputs).mpr quits
    have saved := Loop.saved_of_left leaves
    unfold session
    generalize machine.run s inputs = outcome at leaves saved ⊢
    obtain ⟨events, next⟩ := outcome
    cases leaves
    exact ⟨rfl, List.mem_append_left _ saved, List.mem_append_right _ List.mem_cons_self⟩

/-- At the end of its input the session ends, properly and after finitely many calls of `linenoise`, exactly
when `quit` was typed before: a null pointer is passed over like a blank line, for ever. -/
theorem session_ends_iff (s : Loop) (inputs : List Input) (later : Nat → World) :
    (∃ calls, Ends (session s (inputs ++ endOfInput later calls))) ↔ s.ReachesQuit inputs := by
  simp only [session_endOfInput, ends_session_iff]
  exact exists_const Nat

theorem session_without_lines :
    ¬ ∃ calls, Ends (session .start ([] ++ endOfInput (fun _ => Loop.quietWorld) calls)) := by
  rintro ⟨calls, ends⟩
  rw [session_endOfInput] at ends
  cases ends.status

/-! ## Scripts on the command line -/

structure Options where
  file : Option Bytes
  script : Option Bytes

def runScript (run : Bytes → Except Bytes Constant) (script : Bytes) : List Event × Nat :=
  match run script with
  | .ok result => ([.action (.script script), .print (result.getString ++ [newline])], 0)
  | .error what => ([.action (.script script), .print (bytes "ERROR " ++ what ++ [newline])], 140)

/-- `main` on the options `-f` and `-s`, once the client has connected. When neither is given it goes on
to the interactive loop. -/
def batch (options : Options) (files : Bytes → FileState) (run : Bytes → Except Bytes Constant) :
    Option (List Event × Nat) :=
  match options.file, options.script with
  | some _, some _ =>
      some ([.print (bytes "Ambiguous parameter: file and script, keep one of them!\n")], 128)
  | some filename, none =>
      let read := FileReader.new.read filename (files filename)
      let (events, status) := runScript run read.script
      some (.print read.printed :: events, status)
  | none, some script => some (runScript run script)
  | none, none => none

/-- The server got the text of the file, perhaps with a final newline added, and returned a result. -/
def Ran (run : Bytes → Except Bytes Constant) (events : List Event) (content : Bytes) : Prop :=
  ∃ script result, .action (.script script) ∈ events ∧ (script = content ∨ script = content ++ [newline]) ∧
    run script = .ok result

theorem runScript_status (run : Bytes → Except Bytes Constant) (script : Bytes) :
    (runScript run script).2 = 0 ↔ ∃ result, run script = .ok result := by
  unfold runScript
  cases run script with
  | ok result => exact iff_of_true rfl ⟨result, rfl⟩
  | error what => exact iff_of_false (fun status => nomatch status) fun ⟨_, ok⟩ => nomatch ok

theorem sent_runScript_iff (run : Bytes → Except Bytes Constant) (script sent : Bytes) :
    .action (.script sent) ∈ (runScript run script).1 ↔ sent = script := by
  unfold runScript
  cases run script <;> simp

def fileScript (filename : Bytes) (file : FileState) : Bytes := (FileReader.new.read filename file).script

theorem fileScript_readable (filename content : Bytes) :
    fileScript filename (.readable content) = content ∨
      fileScript filename (.readable content) = content ++ [newline] := by
  rw [fileScript, FileReader.read_readable]
  split
  · exact Or.inl rfl
  · exact Or.inr rfl

theorem batch_file (filename : Bytes) (files : Bytes → FileState) (run : Bytes → Except Bytes Constant) :
    batch ⟨some filename, none⟩ files run =
      some (.print (FileReader.new.read filename (files filename)).printed ::
          (runScript run (fileScript filename (files filename))).1,
        (runScript run (fileScript filename (files filename))).2) := rfl

theorem sent_batch_iff (run : Bytes → Except Bytes Constant) (printed script sent : Bytes) :
    .action (.script sent) ∈ .print printed :: (runScript run script).1 ↔ sent = script := by
  rw [List.mem_cons, sent_runScript_iff]
  exact or_iff_right fun action => nomatch action

/-- What the options make the client send, or nothing when the program goes on interactively. -/
def sent (options : Options) (files : Bytes → FileState) (run : Bytes → Except Bytes Constant) :
    Option (List Action) :=
  (batch options files run).map fun outcome => actions outcome.1

theorem actions_runScript (run : Bytes → Except Bytes Constant) (script : Bytes) :
    actions (runScript run script).1 = [.script script] := by
  unfold runScript
  cases run script with
  | ok result => rfl
  | error what => rfl

theorem sent_file (filename : Bytes) (files : Bytes → FileState) (run : Bytes → Except Bytes Constant) :
    sent ⟨some filename, none⟩ files run = some [.script (fileScript filename (files filename))] := by
  rw [sent, batch_file, Option.map_some, actions_cons, actions_runScript]
  rfl

theorem sent_script (script : Bytes) (files : Bytes → FileState) (run : Bytes → Except Bytes Constant) :
    sent ⟨none, some script⟩ files run = some [.script script] :=
  congrArg some (actions_runScript run script)

/-- The text of a script file is sent as it is, with a final newline added when it lacks one, and so is
what `-s` gives up to that newline. -/
theorem sent_unchanged (filename content : Bytes) (files : Bytes → FileState)
    (run : Bytes → Except Bytes Constant) (readable : files filename = .readable content) :
    sent ⟨some filename, none⟩ files run =
        some [.script (if content = [] ∨ content.getLast? = some newline then content else content ++ [newline])] ∧
      ∃ ending, (ending = [] ∨ ending = [newline]) ∧
        sent ⟨none, some content⟩ files run = some [.script content] ∧
        sent ⟨some filename, none⟩ files run = some [.script (content ++ ending)] := by
  have fromFile := sent_file filename files run
  rw [readable] at fromFile
  refine ⟨?_, ?_⟩
  · rw [fromFile, fileScript, FileReader.read_readable]
  · rcases fileScript_readable filename content with same | completed
    · refine ⟨[], Or.inl rfl, sent_script content files run, ?_⟩
      rw [fromFile, same, List.append_nil]
    · refine ⟨[newline], Or.inr rfl, sent_script content files run, ?_⟩
      rw [fromFile, completed]

theorem sent_unchanged_unterminated :
    sent ⟨some (bytes "a.dos"), none⟩ (fun _ => .readable (bytes "\r\n1")) (fun _ => .error []) =
        some [.script (bytes "\r\n1\n")] ∧
      ∃ ending, (ending = [] ∨ ending = [newline]) ∧
        sent ⟨none, some (bytes "\r\n1")⟩ (fun _ => .readable (bytes "\r\n1")) (fun _ => .error []) =
          some [.script (bytes "\r\n1")] ∧
        sent ⟨some (bytes "a.dos"), none⟩ (fun _ => .readable (bytes "\r\n1")) (fun _ => .error []) =
          some [.script (bytes "\r\n1" ++ ending)] :=
  sent_unchanged (bytes "a.dos") (bytes "\r\n1") (fun _ => .readable (bytes "\r\n1")) (fun _ => .error []) rfl

theorem ran_readable_iff (filename content printed : Bytes) (run : Bytes → Except Bytes Constant) :
    Ran run (.print printed :: (runScript run (fileScript filename (.readable content))).1) content ↔
      ∃ result, run (fileScript filename (.readable content)) = .ok result := by
  constructor
  · rintro ⟨script, result, sent, -, ok⟩
    obtain rfl := (sent_batch_iff run printed _ script).mp sent
    exact ⟨result, ok⟩
  · rintro ⟨result, ok⟩
    exact ⟨_, result, (sent_batch_iff run printed _ _).mpr rfl, fileScript_readable filename content, ok⟩

/-- The exit status of `-f` tells whether the file was read and its text run, and no script is sent
otherwise, exactly when the file is readable: whatever reading returned is run. -/
theorem batch_honest_iff (filename : Bytes) (files : Bytes → FileState) (run : Bytes → Except Bytes Constant) :
    ∃ events status, batch ⟨some filename, none⟩ files run = some (events, status) ∧
      ((status = 0 ↔ ∃ content, files filename = .readable content ∧ Ran run events content) ∧
          ((∀ content, files filename ≠ .readable content) → ∀ script, .action (.script script) ∉ events) ↔
        ∃ content, files filename = .readable content) := by
  refine ⟨_, _, batch_file filename files run, ?_⟩
  constructor
  · rintro ⟨-, nothingSent⟩
    by_contra unread
    exact nothingSent (not_exists.mp unread) _ ((sent_batch_iff run _ _ _).mpr rfl)
  · rintro ⟨content, readable⟩
    refine ⟨?_, fun unread => absurd readable (unread content)⟩
    rw [runScript_status, readable, ← ran_readable_iff filename content (FileReader.new.read filename (.readable content)).printed]
    constructor
    · intro ran
      exact ⟨content, rfl, ran⟩
    · rintro ⟨content', same, ran⟩
      obtain rfl := FileState.readable.inj same
      exact ran

/-- A missing file is reported and yet leads to status 0, and so does one that breaks off. -/
theorem batch_dishonest :
    batch ⟨some (bytes "a.dos"), none⟩ (fun _ => .unopened) (fun _ => .ok ⟨false, none, []⟩) =
        some ([.print (FileReader.failedToOpen (bytes "a.dos")), .action (.script []), .print [newline]], 0) ∧
      batch ⟨some (bytes "a.dos"), none⟩ (fun _ => .broken (bytes "t.clear!()\nt.app"))
          (fun _ => .ok ⟨false, none, []⟩) =
        some ([.print [], .action (.script (bytes "t.clear!()\n")), .print [newline]], 0) := by
  refine ⟨?_, ?_⟩ <;> decide

end Ddbclient

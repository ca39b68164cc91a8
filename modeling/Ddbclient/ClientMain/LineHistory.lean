import Ddbclient.ClientMain.Ending

/-!
# The history of the line editor

Besides `CommandHistory` the program has the history of `linenoise`. What a run does with it: it is loaded first,
takes every line that is typed, and is saved at `quit`.
-/

namespace Ddbclient
open Lib Lib.Checked

inductive Note where
  | load
  | add (line : Bytes)
  | save
  deriving DecidableEq

def Event.note? : Event → Option Note
  | .linenoiseHistoryAdd line => some (.add line)
  | .linenoiseHistorySave => some .save
  | _ => none

def ProgramEvent.note? : ProgramEvent → Option Note
  | .linenoiseHistoryLoad => some .load
  | .did event => event.note?
  | _ => none

def notes (events : List ProgramEvent) : List Note := events.filterMap ProgramEvent.note?

theorem notes_append (first second : List ProgramEvent) : notes (first ++ second) = notes first ++ notes second :=
  List.filterMap_append

theorem notes_did (events : List Event) : notes (events.map .did) = events.filterMap Event.note? := by
  rw [notes, List.filterMap_map]
  rfl

/-! ## The loop -/

namespace Loop

def added (input : Input) : List Note := if input.text = [] then [] else [.add input.text]

def saved (next : Next Loop Ended) : List Note := if next = .halt .left then [.save] else []

theorem notes_execute (s : Loop) (world : World) : (s.execute world).1.filterMap Event.note? = [] := by
  unfold execute
  split
  · dsimp only
    split <;> rfl
  · split <;> rfl

theorem notes_dispatch (s : Loop) (world : World) : (s.dispatch world).1.filterMap Event.note? = [] := by
  unfold dispatch
  split
  · rfl
  · split
    · dsimp only
      cases stoi (s.cmd.drop 3) <;> rfl
    · exact notes_execute s world

theorem notes_step (s : Loop) (input : Input) :
    (s.step input).1.filterMap Event.note? = added input ++ saved (s.step input).2 := by
  have stays (notQuit : input.text ≠ quit) : saved (s.step input).2 = [] :=
    if_neg (mt (step_left_iff s input).mp notQuit)
  cases lineKind input.text with
  | blank blank =>
      rw [step_blank blank, added, if_pos blank]
      rfl
  | quit isQuit =>
      rw [step_quit isQuit, added, isQuit]
      rfl
  | continuation continuation =>
      rw [step_continuation continuation, added, if_neg (nonblank_of_continuation continuation)]
      rfl
  | command completes notQuit =>
      rw [stays notQuit, step_completion completes notQuit, added, if_neg completes.nonblank, List.append_nil,
        List.filterMap_cons, notes_dispatch]
      rfl

theorem notes_run (s : Loop) (inputs : List Input) :
    (machine.run s inputs).1.filterMap Event.note? =
      (machine.taken s inputs).flatMap added ++ saved (machine.run s inputs).2 :=
  machine.filterMap_run notes_step (fun _ => rfl) s inputs

theorem ne_quit_of_again {s s' : Loop} {inputs : List Input} (reached : (machine.run s inputs).2 = .again s') :
    ∀ input ∈ inputs, input.text ≠ quit := by
  refine Machine.again_induction (motive := fun _ inputs => ∀ input ∈ inputs, input.text ≠ quit) nofun ?_ reached
  intro s next input inputs action ih
  refine List.forall_mem_cons.mpr ⟨fun isQuit => ?_, ih⟩
  cases action.symm.trans ((step_left_iff s input).mpr isQuit)

end Loop

/-! ## Sessions -/

/-- The inputs that are taken until this end: all of them while it has not come, the first `quit` as the last of them
when the loop is left, and the line whose result cannot be rendered as the last of them when the program dies. -/
structure TakenUntil (s : Loop) (inputs taken : List Input) (ending : Ending) : Prop where
  part : taken <+: inputs
  all : ending = .running → taken = inputs
  left : ending = .exited 0 ↔ ∃ input ∈ taken, input.text = quit
  last : ∀ input ∈ taken.dropLast, input.text ≠ quit
  crashed : ∀ fault, ending = .crashed fault →
    ∃ first input s', taken = first ++ [input] ∧ (machine.run s first).2 = .again s' ∧ s'.FaultsWith input fault

section Halts
variable {s s' : Loop} {first : List Input} {input : Input} (second : List Input)
  (reached : (machine.run s first).2 = .again s')
include reached

theorem takenUntil_running : TakenUntil s first first .running where
  part := List.prefix_refl _
  all _ := rfl
  left := iff_of_false nofun fun ⟨input, member, isQuit⟩ => Loop.ne_quit_of_again reached input member isQuit
  last input member := Loop.ne_quit_of_again reached input (List.mem_of_mem_dropLast member)
  crashed := nofun

theorem takenUntil_left (isQuit : input.text = quit) :
    TakenUntil s (first ++ input :: second) (first ++ [input]) (.exited 0) where
  part := ⟨second, List.append_assoc first [input] second⟩
  all := nofun
  left := iff_of_true rfl ⟨input, List.mem_append_right _ List.mem_cons_self, isQuit⟩
  last := by
    rw [List.dropLast_concat]
    exact Loop.ne_quit_of_again reached
  crashed := nofun

theorem takenUntil_crashed {fault : Fault} (faults : s'.FaultsWith input fault) :
    TakenUntil s (first ++ input :: second) (first ++ [input]) (.crashed fault) where
  part := ⟨second, List.append_assoc first [input] second⟩
  all := nofun
  left := by
    refine iff_of_false nofun fun ⟨other, member, isQuit⟩ => ?_
    rcases List.mem_append.mp member with earlier | now
    · exact Loop.ne_quit_of_again reached other earlier isQuit
    · exact faults.notQuit (List.mem_singleton.mp now ▸ isQuit)
  last := by
    rw [List.dropLast_concat]
    exact Loop.ne_quit_of_again reached
  crashed := by
    rintro _ ⟨⟩
    exact ⟨first, input, s', rfl, reached, faults⟩

end Halts

theorem takenUntil_session (s : Loop) (inputs : List Input) :
    TakenUntil s inputs (machine.taken s inputs) (session s inputs).2.ending := by
  rw [session_status]
  cases ended : (machine.run s inputs).2 with
  | again s' =>
      rw [Machine.taken_of_again ended]
      exact takenUntil_running ended
  | halt result =>
      obtain ⟨first, input, second, s', rfl, reached, stops⟩ := Machine.run_halt_iff.mp ended
      rw [Machine.taken_of_halt second reached stops]
      have outcome := Loop.step_outcome s' input
      rw [show (s'.step input).2 = .halt result from stops] at outcome
      cases outcome with
      | quit isQuit => exact takenUntil_left second reached isQuit
      | crashed faults => exact takenUntil_crashed second reached faults

/-! ## Whole runs -/

/-- The program gets as far as reading lines. -/
structure Chats (env : Environment) : Prop where
  connected : ∃ c o, Connected env c o ∧ o.Interactive
  greeted : Greeted env

theorem notes_after (first : List ProgramEvent) (rest : Execution) :
    notes (rest.after first).events = notes first ++ notes rest.events := notes_append first rest.events

theorem notes_runScript (run : Bytes → Except Bytes Constant) (script : Bytes) :
    (runScript run script).1.filterMap Event.note? = [] := by
  unfold runScript
  cases run script <;> rfl

theorem notes_batch {options : Options} {files : Bytes → FileState} {run : Bytes → Except Bytes Constant}
    {events : List Event} {status : Nat} (ran : batch options files run = some (events, status)) :
    events.filterMap Event.note? = [] := by
  unfold batch at ran
  split at ran
  · cases ran
    rfl
  · cases ran
    exact notes_runScript run _
  · have same := congrArg (fun outcome => outcome.1.filterMap Event.note?) (Option.some.inj ran)
    exact same.symm.trans (notes_runScript run _)
  · cases ran

theorem notes_interact_greeted {env : Environment} (greeted : Greeted env) :
    notes (interact env).events = (session .start env.inputs).1.filterMap Event.note? := by
  obtain ⟨⟨v, version⟩, words, asked⟩ := greeted
  rw [interact, version]
  dsimp only
  rw [asked]
  dsimp only
  rw [notes_did, List.filterMap_append]
  rfl

theorem notes_interact_ungreeted {env : Environment} (ungreeted : ¬ Greeted env) : notes (interact env).events = [] := by
  unfold interact
  cases version : env.run (bytes "version()") with
  | error what => rfl
  | ok v =>
      dsimp only
      cases asked : getKeyWords env with
      | error what => rfl
      | ok words => exact absurd ⟨⟨v, version⟩, words, asked⟩ ungreeted

theorem notes_session (s : Loop) (inputs : List Input) :
    (session s inputs).1.filterMap Event.note? =
      (machine.taken s inputs).flatMap Loop.added ++
        if (session s inputs).2.ending = .exited 0 then [.save] else [] := by
  have ran := Loop.notes_run s inputs
  unfold session
  generalize machine.run s inputs = outcome at ran ⊢
  obtain ⟨events, next⟩ := outcome
  cases next with
  | again s' => exact ran
  | halt result =>
      cases result with
      | left =>
          rw [List.filterMap_append, ran]
          exact List.append_nil _
      | crashed fault => exact ran

theorem notes_accepted {env : Environment} {c : Connection} {o : Options} (accepted : Accepted env.argv c o) :
    notes (main env).events =
      .load :: match env.connect c with
        | .ok true => notes (runOrInteract env o).events
        | _ => [] := by
  rw [main_accepted accepted, notes_after]
  cases env.connect c with
  | error what => rfl
  | ok connected => cases connected <;> rfl

theorem notes_runOrInteract {env : Environment} {o : Options} (chats : ¬ (o.Interactive ∧ Greeted env)) :
    notes (runOrInteract env o).events = [] := by
  have silent {events : List Event} {status : Nat} (ran : batch o env.files env.run = some (events, status)) :
      notes (runOrInteract env o).events = [] := by
    rw [runOrInteract, ran]
    dsimp only
    rw [notes_did, notes_batch ran]
  cases optionsKind o env.files with
  | ambiguous ambiguous => exact silent (batch_ambiguous env.run ambiguous)
  | chosen script chosen =>
      obtain ⟨printed, ran, -⟩ := batch_chosen env.run chosen
      exact silent ran
  | interactive interactive =>
      rw [runOrInteract_interactive interactive, notes_interact_ungreeted fun greeted => chats ⟨interactive, greeted⟩]

end Ddbclient

import Mathlib.Data.List.Basic

/-!
# Machines that read inputs and emit events

A machine takes one input at a time, emits events and either goes on in a new state or halts with a
result. `run` feeds it a list of inputs, `visited` lists the steps it takes on them.
-/

namespace Lib

inductive Next (State Result : Type) where
  | again (state : State)
  | halt (result : Result)
  deriving DecidableEq

structure Machine (State Input Event Result : Type) where
  step : State → Input → List Event × Next State Result

namespace Machine

variable {State Input Event Result : Type} (machine : Machine State Input Event Result)

def run (state : State) : List Input → List Event × Next State Result
  | [] => ([], .again state)
  | input :: inputs =>
      match machine.step state input with
      | (events, .again state') => (events ++ (run state' inputs).1, (run state' inputs).2)
      | (events, .halt result) => (events, .halt result)

/-- The steps of a run: the state before each of them and its input. -/
def visited (state : State) : List Input → List (State × Input)
  | [] => []
  | input :: inputs =>
      (state, input) :: match (machine.step state input).2 with
        | .again state' => visited state' inputs
        | .halt _ => []

variable {machine}

@[simp] theorem run_nil (state : State) : machine.run state [] = ([], .again state) := rfl

theorem run_cons_again {state state' : State} {input : Input} (inputs : List Input)
    (action : (machine.step state input).2 = .again state') :
    machine.run state (input :: inputs) =
      ((machine.step state input).1 ++ (machine.run state' inputs).1, (machine.run state' inputs).2) := by
  generalize result : machine.step state input = outcome at action ⊢
  obtain ⟨events, next⟩ := outcome
  subst action
  rw [run, result]

theorem run_cons_halt {state : State} {input : Input} {result : Result} (inputs : List Input)
    (action : (machine.step state input).2 = .halt result) :
    machine.run state (input :: inputs) = ((machine.step state input).1, .halt result) := by
  generalize outcome : machine.step state input = pair at action ⊢
  obtain ⟨events, next⟩ := pair
  subst action
  rw [run, outcome]

theorem visited_cons_again {state state' : State} {input : Input} (inputs : List Input)
    (action : (machine.step state input).2 = .again state') :
    machine.visited state (input :: inputs) = (state, input) :: machine.visited state' inputs := by
  rw [visited, action]

theorem run_singleton_events (state : State) (input : Input) :
    (machine.run state [input]).1 = (machine.step state input).1 := by
  cases action : (machine.step state input).2 with
  | again state' => rw [run_cons_again [] action, run_nil, List.append_nil]
  | halt result => rw [run_cons_halt [] action]

theorem run_singleton_next (state : State) (input : Input) :
    (machine.run state [input]).2 = (machine.step state input).2 := by
  cases action : (machine.step state input).2 with
  | again state' => rw [run_cons_again [] action, run_nil]
  | halt result => rw [run_cons_halt [] action]

/-- Induction over the steps of a run that has not halted. -/
theorem again_induction {state' : State} {motive : State → List Input → Prop} (nil : motive state' [])
    (cons : ∀ {state next input inputs}, (machine.step state input).2 = .again next → motive next inputs →
      motive state (input :: inputs))
    {state : State} {inputs : List Input} (reached : (machine.run state inputs).2 = .again state') :
    motive state inputs := by
  induction inputs generalizing state with
  | nil => cases reached; exact nil
  | cons input inputs ih =>
      cases action : (machine.step state input).2 with
      | halt result => rw [run_cons_halt inputs action] at reached; cases reached
      | again next =>
          rw [run_cons_again inputs action] at reached
          exact cons action (ih reached)

theorem run_append_again {state state' : State} (first second : List Input)
    (reached : (machine.run state first).2 = .again state') :
    machine.run state (first ++ second) =
      ((machine.run state first).1 ++ (machine.run state' second).1, (machine.run state' second).2) := by
  refine again_induction (motive := fun state first => machine.run state (first ++ second) =
    ((machine.run state first).1 ++ (machine.run state' second).1, (machine.run state' second).2)) rfl ?_ reached
  intro state next input first action ih
  rw [List.cons_append, run_cons_again _ action, run_cons_again first action, ih, List.append_assoc]

theorem run_append_halt {state : State} {result : Result} (first second : List Input)
    (halted : (machine.run state first).2 = .halt result) :
    machine.run state (first ++ second) = machine.run state first := by
  induction first generalizing state with
  | nil => cases halted
  | cons input first ih =>
      cases action : (machine.step state input).2 with
      | halt result => rw [List.cons_append, run_cons_halt _ action, run_cons_halt _ action]
      | again next =>
          rw [run_cons_again first action] at halted
          rw [List.cons_append, run_cons_again _ action, run_cons_again _ action, ih halted]

theorem visited_append_again {state state' : State} (first second : List Input)
    (reached : (machine.run state first).2 = .again state') :
    machine.visited state (first ++ second) = machine.visited state first ++ machine.visited state' second := by
  refine again_induction (motive := fun state first => machine.visited state (first ++ second) =
    machine.visited state first ++ machine.visited state' second) rfl ?_ reached
  intro state next input first action ih
  rw [List.cons_append, visited_cons_again _ action, visited_cons_again _ action, ih, List.cons_append]

theorem run_again_iff {state : State} {inputs : List Input} :
    (∃ state', (machine.run state inputs).2 = .again state') ↔
      ∀ before input, (before, input) ∈ machine.visited state inputs →
        ∃ after, (machine.step before input).2 = .again after := by
  induction inputs generalizing state with
  | nil => exact iff_of_true ⟨state, rfl⟩ fun _ _ visited => nomatch visited
  | cons input inputs ih =>
      cases action : (machine.step state input).2 with
      | halt result =>
          rw [run_cons_halt inputs action]
          apply iff_of_false
          · rintro ⟨state', goes⟩
            cases goes
          · intro all
            obtain ⟨after, goes⟩ := all state input List.mem_cons_self
            cases goes.symm.trans action
      | again next =>
          rw [run_cons_again inputs action, ih, visited_cons_again inputs action]
          constructor
          · intro later before other visited
            rcases List.mem_cons.mp visited with head | tail
            · cases head
              exact ⟨next, action⟩
            · exact later before other tail
          · intro all before other visited
            exact all before other (List.mem_cons_of_mem _ visited)

theorem run_halt_iff {state : State} {inputs : List Input} {result : Result} :
    (machine.run state inputs).2 = .halt result ↔
      ∃ first input second state', inputs = first ++ input :: second ∧
        (machine.run state first).2 = .again state' ∧ (machine.step state' input).2 = .halt result := by
  constructor
  · intro halts
    induction inputs generalizing state with
    | nil => cases halts
    | cons input inputs ih =>
        cases action : (machine.step state input).2 with
        | halt stopped =>
            rw [run_cons_halt inputs action] at halts
            cases halts
            exact ⟨[], input, inputs, state, rfl, rfl, action⟩
        | again next =>
            rw [run_cons_again inputs action] at halts
            obtain ⟨first, last, second, state', rfl, reached, stops⟩ := ih halts
            refine ⟨input :: first, last, second, state', rfl, ?_, stops⟩
            rw [run_cons_again first action, reached]
  · rintro ⟨first, input, second, state', rfl, reached, stops⟩
    rw [run_append_again first _ reached, run_cons_halt second stops]

theorem mem_visited_iff {state before : State} {input : Input} {inputs : List Input} :
    (before, input) ∈ machine.visited state inputs ↔
      ∃ first second, inputs = first ++ input :: second ∧ (machine.run state first).2 = .again before := by
  constructor
  · intro visited
    induction inputs generalizing state with
    | nil => cases visited
    | cons head inputs ih =>
        rcases List.mem_cons.mp visited with now | later
        · cases now
          exact ⟨[], inputs, rfl, rfl⟩
        · cases action : (machine.step state head).2 with
          | halt result =>
              rw [action] at later
              cases later
          | again next =>
              rw [action] at later
              obtain ⟨first, second, rfl, reached⟩ := ih later
              refine ⟨head :: first, second, rfl, ?_⟩
              rw [run_cons_again first action, reached]
  · rintro ⟨first, second, rfl, reached⟩
    rw [visited_append_again first _ reached]
    exact List.mem_append_right _ List.mem_cons_self

theorem run_idle {state : State} {input : Input} (inputs : List Input)
    (idle : machine.step state input = ([], .again state)) :
    machine.run state (input :: inputs) = machine.run state inputs := by
  rw [run_cons_again inputs (congrArg Prod.snd idle), idle, List.nil_append]

/-- Two states related by a relation that every step keeps, with equal events and with equal results
when both halt, emit the same events on every input. -/
theorem run_events_eq {Related : State → State → Prop}
    (same : ∀ s t input, Related s t → (machine.step s input).1 = (machine.step t input).1 ∧
      ((∃ s' t', (machine.step s input).2 = .again s' ∧ (machine.step t input).2 = .again t' ∧ Related s' t') ∨
        ∃ result, (machine.step s input).2 = .halt result ∧ (machine.step t input).2 = .halt result))
    {s t : State} (related : Related s t) (inputs : List Input) :
    (machine.run s inputs).1 = (machine.run t inputs).1 := by
  induction inputs generalizing s t with
  | nil => rfl
  | cons input inputs ih =>
      obtain ⟨events, ⟨s', t', goes, follows, still⟩ | ⟨result, stops, alike⟩⟩ := same s t input related
      · rw [run_cons_again _ goes, run_cons_again _ follows, events, ih still]
      · rw [run_cons_halt _ stops, run_cons_halt _ alike, events]

/-! ## The inputs of a run -/

variable (machine) in
/-- The inputs that a run takes before it halts. -/
def taken (state : State) (inputs : List Input) : List Input := (machine.visited state inputs).map Prod.snd

theorem taken_cons_again {state state' : State} {input : Input} (inputs : List Input)
    (action : (machine.step state input).2 = .again state') :
    machine.taken state (input :: inputs) = input :: machine.taken state' inputs := by
  rw [taken, visited_cons_again inputs action, List.map_cons, taken]

theorem taken_cons_halt {state : State} {input : Input} {result : Result} (inputs : List Input)
    (action : (machine.step state input).2 = .halt result) : machine.taken state (input :: inputs) = [input] := by
  rw [taken, visited, action]
  rfl

theorem taken_of_again {state state' : State} {inputs : List Input}
    (reached : (machine.run state inputs).2 = .again state') : machine.taken state inputs = inputs := by
  refine again_induction (motive := fun state inputs => machine.taken state inputs = inputs) rfl ?_ reached
  intro state next input inputs action ih
  rw [taken_cons_again inputs action, ih]

theorem taken_of_halt {state state' : State} {result : Result} {first : List Input} {input : Input}
    (second : List Input) (reached : (machine.run state first).2 = .again state')
    (stops : (machine.step state' input).2 = .halt result) :
    machine.taken state (first ++ input :: second) = first ++ [input] := by
  refine again_induction (motive := fun state first =>
    machine.taken state (first ++ input :: second) = first ++ [input]) (taken_cons_halt second stops) ?_ reached
  intro state next head first action ih
  rw [List.cons_append, taken_cons_again _ action, ih, List.cons_append]

variable (machine) in
/-- When what is noted of every step depends only on its input and on how it ends, what is noted of a run depends
only on the inputs that it takes and on how it ends. -/
theorem filterMap_run {Note : Type} {note : Event → Option Note} {ofInput : Input → List Note}
    {ofNext : Next State Result → List Note}
    (noted : ∀ state input, (machine.step state input).1.filterMap note =
      ofInput input ++ ofNext (machine.step state input).2)
    (goesOn : ∀ state, ofNext (.again state) = []) (state : State) (inputs : List Input) :
    (machine.run state inputs).1.filterMap note =
      (machine.taken state inputs).flatMap ofInput ++ ofNext (machine.run state inputs).2 := by
  induction inputs generalizing state with
  | nil => exact (goesOn state).symm
  | cons input inputs ih =>
      have here := noted state input
      cases action : (machine.step state input).2 with
      | again next =>
          rw [action, goesOn, List.append_nil] at here
          rw [run_cons_again inputs action, taken_cons_again inputs action, List.filterMap_append, here, ih,
            List.flatMap_cons, List.append_assoc]
      | halt result =>
          rw [action] at here
          rw [run_cons_halt inputs action, taken_cons_halt inputs action, here, List.flatMap_singleton]

/-! ## Steps made of several inputs -/

section Blocks

variable {Block : Type} {inputs : Block → List Input} {single : Block → Input} {visible : Event → Bool}
  (Rest : State → Prop)

/-- Blocks of inputs that each act, from a state of rest, like one input, act together like the inputs that stand
for them. -/
theorem run_flatMap
    (act : ∀ s block, Rest s →
      ((machine.run s (inputs block)).1.filter visible = (machine.step s (single block)).1.filter visible ∧
        (machine.run s (inputs block)).2 = (machine.step s (single block)).2) ∧
      ∀ s', (machine.step s (single block)).2 = .again s' → Rest s')
    {s : State} (rest : Rest s) (blocks : List Block) :
    (machine.run s (blocks.flatMap inputs)).1.filter visible = (machine.run s (blocks.map single)).1.filter visible ∧
      (machine.run s (blocks.flatMap inputs)).2 = (machine.run s (blocks.map single)).2 := by
  induction blocks generalizing s with
  | nil => exact ⟨rfl, rfl⟩
  | cons block blocks ih =>
      obtain ⟨⟨events, next⟩, still⟩ := act s block rest
      rw [List.flatMap_cons, List.map_cons]
      cases action : (machine.step s (single block)).2 with
      | halt result =>
          rw [action] at next
          rw [run_append_halt _ _ next, run_cons_halt _ action, next]
          exact ⟨events, rfl⟩
      | again s' =>
          rw [action] at next
          obtain ⟨later, final⟩ := ih (still s' action)
          rw [run_append_again _ _ next, run_cons_again _ action, List.filter_append, List.filter_append, events, later]
          exact ⟨rfl, final⟩

end Blocks

end Machine
end Lib

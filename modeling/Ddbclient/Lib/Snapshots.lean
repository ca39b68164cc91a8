import Mathlib.Logic.Function.Basic
import Mathlib.Data.List.Induction

/-!
# Sessions that work on snapshots of one cell

Every session loads the cell once, goes on with a value of its own and at the end saves that value,
whatever the cell holds by then. A run interleaves the steps of any number of sessions. Its lineage are
the sessions that the cell rests on: the one that saved last, the one whose save that one had loaded, and
so on. The cell holds what they would have left one after another; of the other sessions nothing remains.
-/

namespace Lib.Snapshots

variable {Id Cell Local Cell' Local' Op : Type*}

/-- What one session does. A save depends on the session's own value only. -/
structure Writer (Cell Local Op : Type*) where
  load : Cell → Local
  update : Local → Op → Local
  save : Local → Cell → Cell
  overwrites : ∀ value cell cell', save value cell = save value cell'

inductive Action (Id Op : Type*) where
  | load (id : Id)
  | update (id : Id) (op : Op)
  | save (id : Id)
  deriving DecidableEq

def Action.op : Action Id Op → Option Op
  | .update _ op => some op
  | _ => none

def updates (actions : List (Action Id Op)) : List Op := actions.filterMap Action.op

theorem updates_concat (actions : List (Action Id Op)) (action : Action Id Op) :
    updates (actions ++ [action]) = updates actions ++ action.op.toList := by
  cases action <;> simp [updates, Action.op]

inductive Phase (Local : Type*) where
  | waiting
  | working (value : Local)
  | done

def Phase.map (f : Local → Local') : Phase Local → Phase Local'
  | .waiting => .waiting
  | .working value => .working (f value)
  | .done => .done

structure State (Id Cell Local : Type*) where
  cell : Cell
  phase : Id → Phase Local

namespace State

def start (cell : Cell) : State Id Cell Local := ⟨cell, fun _ => .waiting⟩

def map (f : Cell → Cell') (g : Local → Local') (s : State Id Cell Local) : State Id Cell' Local' :=
  ⟨f s.cell, Phase.map g ∘ s.phase⟩

@[simp] theorem map_cell (f : Cell → Cell') (g : Local → Local') (s : State Id Cell Local) :
    (s.map f g).cell = f s.cell := rfl

@[simp] theorem map_phase (f : Cell → Cell') (g : Local → Local') (s : State Id Cell Local) (id : Id) :
    (s.map f g).phase id = (s.phase id).map g := rfl

def Idle (s : State Id Cell Local) : Prop := ∀ id value, s.phase id ≠ .working value

def set [DecidableEq Id] (s : State Id Cell Local) (cell : Cell) (id : Id) (phase : Phase Local) :
    State Id Cell Local :=
  ⟨cell, Function.update s.phase id phase⟩

variable [DecidableEq Id]

theorem set_phase_self (s : State Id Cell Local) (cell : Cell) (id : Id) (phase : Phase Local) :
    (s.set cell id phase).phase id = phase := by
  simp [set]

theorem set_phase_of_ne (s : State Id Cell Local) (cell : Cell) {id other : Id} (phase : Phase Local)
    (different : other ≠ id) : (s.set cell id phase).phase other = s.phase other := by
  simp [set, different]

theorem map_set (f : Cell → Cell') (g : Local → Local') (s : State Id Cell Local) (cell : Cell) (id : Id)
    (phase : Phase Local) : (s.set cell id phase).map f g = (s.map f g).set (f cell) id (phase.map g) := by
  simp [set, map, Function.comp_update]

theorem phase_of_set {s : State Id Cell Local} {cell : Cell} {id other : Id} {phase phase' : Phase Local}
    (after : (s.set cell id phase).phase other = phase') :
    (other = id ∧ phase = phase') ∨ (other ≠ id ∧ s.phase other = phase') := by
  by_cases same : other = id
  · subst same
    exact Or.inl ⟨rfl, (s.set_phase_self cell other phase).symm.trans after⟩
  · exact Or.inr ⟨same, (s.set_phase_of_ne cell phase same).symm.trans after⟩

end State

namespace Writer

variable [DecidableEq Id] (w : Writer Cell Local Op)

def step (s : State Id Cell Local) : Action Id Op → Option (State Id Cell Local)
  | .load id =>
      match s.phase id with
      | .waiting => some (s.set s.cell id (.working (w.load s.cell)))
      | _ => none
  | .update id op =>
      match s.phase id with
      | .working value => some (s.set s.cell id (.working (w.update value op)))
      | _ => none
  | .save id =>
      match s.phase id with
      | .working value => some (s.set (w.save value s.cell) id .done)
      | _ => none

def run (s : State Id Cell Local) (actions : List (Action Id Op)) : Option (State Id Cell Local) :=
  actions.foldlM w.step s

/-- No session loads while another one is under way. -/
def LoadsAlone (s : State Id Cell Local) (actions : List (Action Id Op)) : Prop :=
  ∀ earlier id later, actions = earlier ++ .load id :: later → ∀ s', w.run s earlier = some s' → s'.Idle

inductive Stepped (s : State Id Cell Local) : Action Id Op → State Id Cell Local → Prop where
  | load {id : Id} (waiting : s.phase id = .waiting) :
      Stepped s (.load id) (s.set s.cell id (.working (w.load s.cell)))
  | update {id : Id} {value : Local} (op : Op) (working : s.phase id = .working value) :
      Stepped s (.update id op) (s.set s.cell id (.working (w.update value op)))
  | save {id : Id} {value : Local} (working : s.phase id = .working value) :
      Stepped s (.save id) (s.set (w.save value s.cell) id .done)

variable {w}

theorem stepped {s s' : State Id Cell Local} {action : Action Id Op} (taken : w.step s action = some s') :
    w.Stepped s action s' := by
  cases action with
  | load id =>
      cases phase : s.phase id <;> simp only [step, phase, reduceCtorEq, Option.some.injEq] at taken
      exact taken ▸ .load phase
  | update id op =>
      cases phase : s.phase id <;> simp only [step, phase, reduceCtorEq, Option.some.injEq] at taken
      exact taken ▸ .update op phase
  | save id =>
      cases phase : s.phase id <;> simp only [step, phase, reduceCtorEq, Option.some.injEq] at taken
      exact taken ▸ .save phase

theorem run_concat (s : State Id Cell Local) (actions : List (Action Id Op)) (action : Action Id Op) :
    w.run s (actions ++ [action]) = (w.run s actions).bind fun s' => w.step s' action := by
  simp [run, List.foldlM_append]

/-- What holds at the start and after every step holds after every run. -/
theorem run_induction {s : State Id Cell Local} {motive : List (Action Id Op) → State Id Cell Local → Prop}
    (start : motive [] s)
    (next : ∀ {actions before action after}, w.run s actions = some before → motive actions before →
      w.Stepped before action after → motive (actions ++ [action]) after)
    {actions : List (Action Id Op)} {s' : State Id Cell Local} (ran : w.run s actions = some s') :
    motive actions s' := by
  induction actions using List.reverseRecOn generalizing s' with
  | nil => cases ran; exact start
  | append_singleton actions action ih =>
      rw [run_concat, Option.bind_eq_some_iff] at ran
      obtain ⟨before, earlier, taken⟩ := ran
      exact next earlier (ih earlier) (stepped taken)

end Writer

/-! ## Runs seen through a morphism -/

structure Morphism (v : Writer Cell Local Op) (w : Writer Cell' Local' Op) where
  cell : Cell → Cell'
  value : Local → Local'
  load : ∀ c, w.load (cell c) = value (v.load c)
  update : ∀ l op, w.update (value l) op = value (v.update l op)
  save : ∀ l c, w.save (value l) (cell c) = cell (v.save l c)

namespace Morphism

variable {v : Writer Cell Local Op} {w : Writer Cell' Local' Op} (f : Morphism v w)

def state (s : State Id Cell Local) : State Id Cell' Local' := s.map f.cell f.value

theorem idle_state_iff (s : State Id Cell Local) : (f.state s).Idle ↔ s.Idle := by
  refine forall_congr' fun id => ?_
  cases phase : s.phase id <;> simp [state, State.map, phase, Phase.map]

variable [DecidableEq Id]

theorem step_state (s : State Id Cell Local) (action : Action Id Op) :
    w.step (f.state s) action = (v.step s action).map f.state := by
  cases action with
  | load id =>
      cases phase : s.phase id <;>
        simp [Writer.step, state, State.map_set, phase, Phase.map, f.load]
  | update id op =>
      cases phase : s.phase id <;>
        simp [Writer.step, state, State.map_set, phase, Phase.map, f.update]
  | save id =>
      cases phase : s.phase id <;>
        simp [Writer.step, state, State.map_set, phase, Phase.map, f.save]

theorem run_state (s : State Id Cell Local) (actions : List (Action Id Op)) :
    w.run (f.state s) actions = (v.run s actions).map f.state := by
  induction actions using List.reverseRecOn with
  | nil => rfl
  | append_singleton actions action ih =>
      rw [Writer.run_concat, Writer.run_concat, ih]
      cases v.run s actions with
      | none => rfl
      | some before => exact f.step_state before action

end Morphism

/-! ## Lineages -/

/-- The writer whose cell lists the sessions it rests on, each with its updates. -/
def tracker (Op : Type*) : Writer (List (List Op)) (List (List Op) × List Op) Op where
  load sessions := (sessions, [])
  update value op := (value.1, value.2 ++ [op])
  save value _ := value.1 ++ [value.2]
  overwrites _ _ _ := rfl

abbrev Traced (Id Op : Type*) := State Id (List (List Op)) (List (List Op) × List Op)

structure InOrder (actions : List (Action Id Op)) (traced : Traced Id Op) : Prop where
  cell : traced.cell.flatten.Sublist (updates actions)
  value : ∀ id value, traced.phase id = .working value → (value.1.flatten ++ value.2).Sublist (updates actions)

structure Complete (actions : List (Action Id Op)) (traced : Traced Id Op) : Prop where
  cell : traced.Idle → traced.cell.flatten = updates actions
  value : ∀ id value, traced.phase id = .working value → value.1.flatten ++ value.2 = updates actions
  alone : ∀ id id' value value', traced.phase id = .working value → traced.phase id' = .working value' → id = id'

theorem Complete.of_idle {actions : List (Action Id Op)} {traced : Traced Id Op} (idle : traced.Idle)
    (whole : traced.cell.flatten = updates actions) : Complete actions traced :=
  ⟨fun _ => whole, fun id value working => absurd working (idle id value),
    fun id _ value _ working => absurd working (idle id value)⟩

theorem Complete.of_only {actions : List (Action Id Op)} {traced : Traced Id Op} {id : Id}
    {value : List (List Op) × List Op} (working : traced.phase id = .working value)
    (only : ∀ other value', traced.phase other = .working value' → other = id)
    (whole : value.1.flatten ++ value.2 = updates actions) : Complete actions traced := by
  refine ⟨fun idle => absurd working (idle id value), fun other value' working' => ?_, ?_⟩
  · obtain rfl := only other value' working'
    cases working.symm.trans working'
    exact whole
  · intro first second _ _ working working'
    exact (only first _ working).trans (only second _ working').symm

variable [DecidableEq Id]

/-- The sessions that the cell rests on after a run, the one that saved last at the end, each with its
updates. -/
def lineage (actions : List (Action Id Op)) : List (List Op) :=
  match (tracker Op).run (.start []) actions with
  | some s => s.cell
  | none => []

variable (w : Writer Cell Local Op)

/-- The cell after sessions that run one after another. -/
def Writer.replay (cell : Cell) (sessions : List (List Op)) : Cell :=
  sessions.foldl (fun cell ops => w.save (ops.foldl w.update (w.load cell)) cell) cell

theorem Writer.replay_concat (cell : Cell) (sessions : List (List Op)) (ops : List Op) :
    w.replay cell (sessions ++ [ops]) =
      w.save (ops.foldl w.update (w.load (w.replay cell sessions))) (w.replay cell sessions) := by
  simp [replay]

def replaying (cell : Cell) : Morphism (tracker Op) w where
  cell := w.replay cell
  value traced := traced.2.foldl w.update (w.load (w.replay cell traced.1))
  load _ := rfl
  update traced op := by simp [tracker]
  save traced _ := by
    rw [w.overwrites _ _ (w.replay cell traced.1)]
    exact (w.replay_concat cell traced.1 traced.2).symm

variable {w}

/-- Every run of a writer is a run of the tracker, whose cell is the lineage. -/
theorem tracked {cell : Cell} {actions : List (Action Id Op)} {s : State Id Cell Local}
    (ran : w.run (.start cell) actions = some s) :
    ∃ traced, (tracker Op).run (.start []) actions = some traced ∧ lineage actions = traced.cell ∧
      s = (replaying w cell).state traced := by
  have runs := (replaying w cell).run_state (.start []) actions
  rw [show (replaying w cell).state (.start []) = .start cell from rfl, ran] at runs
  obtain ⟨traced, tracedRun, same⟩ := Option.map_eq_some_iff.mp runs.symm
  exact ⟨traced, tracedRun, by rw [lineage, tracedRun], same.symm⟩

theorem cell_eq_replay {cell : Cell} {actions : List (Action Id Op)} {s : State Id Cell Local}
    (ran : w.run (.start cell) actions = some s) : s.cell = w.replay cell (lineage actions) := by
  obtain ⟨traced, -, sessions, rfl⟩ := tracked ran
  rw [sessions]
  rfl

/-! ## What a lineage consists of -/

theorem InOrder.stepped {actions : List (Action Id Op)} {action : Action Id Op} {before after : Traced Id Op}
    (ordered : InOrder actions before) (taken : (tracker Op).Stepped before action after) :
    InOrder (actions ++ [action]) after := by
  have more : (updates actions).Sublist (updates (actions ++ [action])) := by
    rw [updates_concat]
    exact List.sublist_append_left _ _
  cases taken with
  | load waiting =>
      refine ⟨ordered.cell.trans more, fun other value working => ?_⟩
      rcases State.phase_of_set working with ⟨-, own⟩ | ⟨-, untouched⟩
      · cases own
        exact (List.append_nil _).symm ▸ ordered.cell.trans more
      · exact (ordered.value other value untouched).trans more
  | update op current =>
      refine ⟨ordered.cell.trans more, fun other value working => ?_⟩
      rcases State.phase_of_set working with ⟨-, own⟩ | ⟨-, untouched⟩
      · cases own
        rw [updates_concat]
        exact (List.append_assoc _ _ _).symm ▸ (ordered.value _ _ current).append (List.Sublist.refl [op])
      · exact (ordered.value other value untouched).trans more
  | save current =>
      refine ⟨?_, fun other value working => ?_⟩
      · change (List.flatten (_ ++ [_])).Sublist _
        rw [List.flatten_concat]
        exact (ordered.value _ _ current).trans more
      · rcases State.phase_of_set working with ⟨-, own⟩ | ⟨-, untouched⟩
        · cases own
        · exact (ordered.value other value untouched).trans more

theorem lineage_sublist {cell : Cell} {actions : List (Action Id Op)} {s : State Id Cell Local}
    (ran : w.run (.start cell) actions = some s) : (lineage actions).flatten.Sublist (updates actions) := by
  obtain ⟨traced, tracedRun, sessions, -⟩ := tracked ran
  rw [sessions]
  have start : InOrder ([] : List (Action Id Op)) (.start []) :=
    ⟨List.Sublist.refl _, fun _ _ working => nomatch working⟩
  exact (Writer.run_induction start (fun _ ordered taken => ordered.stepped taken) tracedRun).cell

theorem Complete.stepped {actions : List (Action Id Op)} {action : Action Id Op} {before after : Traced Id Op}
    (complete : Complete actions before) (taken : (tracker Op).Stepped before action after)
    (free : ∀ id, action = .load id → before.Idle) : Complete (actions ++ [action]) after := by
  cases taken with
  | @load id waiting =>
      have idle := free id rfl
      refine .of_only (before.set_phase_self _ id _) (fun other value working => ?_) ?_
      · rcases State.phase_of_set working with ⟨own, -⟩ | ⟨-, untouched⟩
        · exact own
        · exact absurd untouched (idle other value)
      · rw [updates_concat]
        exact congrArg (· ++ []) (complete.cell idle)
  | @update id value op current =>
      refine .of_only (before.set_phase_self _ id _) (fun other value' working => ?_) ?_
      · rcases State.phase_of_set working with ⟨own, -⟩ | ⟨-, untouched⟩
        · exact own
        · exact complete.alone _ _ _ _ untouched current
      · rw [updates_concat, ← complete.value id value current]
        exact (List.append_assoc _ _ _).symm
  | @save id value current =>
      refine .of_idle (fun other value' working => ?_) ?_
      · rcases State.phase_of_set working with ⟨-, own⟩ | ⟨different, untouched⟩
        · cases own
        · exact different (complete.alone _ _ _ _ untouched current)
      · rw [updates_concat]
        change List.flatten (_ ++ [_]) = _ ++ []
        rw [List.flatten_concat, List.append_nil]
        exact complete.value id value current

/-- When sessions do not overlap, nothing is lost. -/
theorem lineage_of_loadsAlone {cell : Cell} {actions : List (Action Id Op)} {s : State Id Cell Local}
    (ran : w.run (.start cell) actions = some s) (alone : w.LoadsAlone (.start cell) actions) (idle : s.Idle) :
    (lineage actions).flatten = updates actions := by
  obtain ⟨traced, tracedRun, sessions, rfl⟩ := tracked ran
  have start : Complete ([] : List (Action Id Op)) (.start []) :=
    .of_idle (fun _ _ working => nomatch working) rfl
  have complete : w.LoadsAlone (.start cell) actions → Complete actions traced := by
    refine Writer.run_induction (motive := fun actions traced => w.LoadsAlone (.start cell) actions →
      Complete actions traced) (fun _ => start) ?_ tracedRun
    intro actions before action after earlier complete taken alone
    refine (complete fun done id later split => alone done id (later ++ [action]) (by simp [split])).stepped taken ?_
    rintro id rfl
    have runs := (replaying w cell).run_state (.start []) actions
    rw [earlier] at runs
    exact ((replaying w cell).idle_state_iff before).mp (alone actions id [] rfl _ runs)
  rw [sessions]
  exact (complete alone).cell (((replaying w cell).idle_state_iff traced).mp idle)

end Lib.Snapshots

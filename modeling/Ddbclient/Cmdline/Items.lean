import Ddbclient.Cmdline.Parser

/-!
# What a command line asks for

How the words of a command line are read depends only on the names and the kinds of the options. It is done
here in two steps, a list of items and then their effects, and `parse` is shown to do the same in one.
-/

namespace Ddbclient.Cmdline
open Lib

inductive Kind where
  | flag
  | valued (readable : Bytes → Bool)

namespace Kind

def hasValue : Kind → Bool
  | flag => false
  | valued _ => true

def accepts : Kind → Option Bytes → Bool
  | flag, value => value.isNone
  | valued readable, value => value.any readable

end Kind

/-- What reading needs to know of the options: the kind of each, and the short names. -/
structure Grammar where
  kind : Bytes → Option Kind
  lookup : Parser.Lookup

variable {τ : Type} [ValueType τ]

/-! ## One option -/

namespace OptionBase

def kind : OptionBase τ → Kind
  | .withoutValue _ => .flag
  | .withValue option => .valued fun value => (option.read value).isSome

theorem hasValue_eq (option : OptionBase τ) : option.hasValue = option.kind.hasValue := by
  cases option <;> rfl

/-- A call of `set`, with or without a value, whether it succeeds or not. -/
def receive (value : Option Bytes) (option : OptionBase τ) : OptionBase τ :=
  match value with
  | none => option.set.getD option
  | some value => (option.setValue value).getD option

theorem name_receive (value : Option Bytes) (option : OptionBase τ) : (option.receive value).name = option.name := by
  cases value with
  | none => exact name_set option
  | some value => exact name_setValue value option

theorem kind_receive (value : Option Bytes) (option : OptionBase τ) : (option.receive value).kind = option.kind := by
  cases value with
  | none => cases option <;> rfl
  | some value =>
      cases option with
      | withoutValue option => rfl
      | withValue option =>
          unfold receive setValue
          dsimp only
          cases option.read value <;> rfl

theorem set_isSome (option : OptionBase τ) : option.set.isSome = option.kind.accepts none := by
  cases option <;> rfl

theorem setValue_isSome (value : Bytes) (option : OptionBase τ) :
    (option.setValue value).isSome = option.kind.accepts (some value) := by
  cases option with
  | withoutValue option => rfl
  | withValue option =>
      change _ = (option.read value).isSome
      unfold setValue
      dsimp only
      cases option.read value <;> rfl

theorem receive_refused {value : Option Bytes} {option : OptionBase τ} (refused : option.kind.accepts value = false) :
    option.receive value = option := by
  cases value with
  | none =>
      rw [← set_isSome, Option.isSome_eq_false_iff, Option.isNone_iff_eq_none] at refused
      rw [receive, refused, Option.getD_none]
  | some value =>
      rw [← setValue_isSome, Option.isSome_eq_false_iff, Option.isNone_iff_eq_none] at refused
      rw [receive, refused, Option.getD_none]

end OptionBase

/-! ## Items -/

inductive Item where
  | assign (name : Bytes) (value : Option Bytes)
  | other (arg : Bytes)
  | mistake (message : Bytes)
  deriving DecidableEq

namespace Item

def apply (p : Parser τ) : Item → Parser τ
  | assign name none => p.setOption name
  | assign name (some value) => p.setOptionValue name value
  | other arg => p.pushOther arg
  | mistake message => p.pushError message

def refusal (name : Bytes) : Option Bytes → Bytes
  | none => Parser.needsValue name
  | some value => Parser.invalidValue name value

def problem (g : Grammar) : Item → Option Bytes
  | assign name value =>
      match g.kind name with
      | none => some (Parser.undefinedOption name)
      | some kind => if kind.accepts value then none else some (refusal name value)
  | other _ => none
  | mistake message => some message

theorem problem_assign_iff {g : Grammar} {name : Bytes} {value : Option Bytes} :
    (assign name value).problem g = none ↔ ∃ kind, g.kind name = some kind ∧ kind.accepts value = true := by
  rw [problem]
  cases g.kind name with
  | none => simp
  | some kind => simp

def other? : Item → Option Bytes
  | other arg => some arg
  | _ => none

def assignment? : Item → Option (Bytes × Option Bytes)
  | assign name value => some (name, value)
  | _ => none

end Item

def assignments (items : List Item) : List (Bytes × Option Bytes) := items.filterMap Item.assignment?

namespace Parser

def grammar (p : Parser τ) (lookup : Lookup) : Grammar :=
  ⟨fun name => (p.options.find? name).map fun option => option.kind, lookup⟩

theorem apply_assign (p : Parser τ) (name : Bytes) (value : Option Bytes) :
    (Item.assign name value).apply p =
      match p.options.find? name with
      | none => p.pushError (undefinedOption name)
      | some option =>
          if option.kind.accepts value then p.update name (OptionBase.receive value) (OptionBase.name_receive value)
          else p.pushError (Item.refusal name value) := by
  cases value with
  | none =>
      change p.setOption name = _
      unfold setOption
      cases p.options.find? name with
      | none => rfl
      | some option =>
          dsimp only
          rw [← OptionBase.set_isSome]
          cases option.set <;> rfl
  | some value =>
      change p.setOptionValue name value = _
      unfold setOptionValue
      cases p.options.find? name with
      | none => rfl
      | some option =>
          dsimp only
          rw [← OptionBase.setValue_isSome]
          cases option.setValue value <;> rfl

/-! ## The effects of items -/

theorem errors_apply (p : Parser τ) (lookup : Lookup) (item : Item) :
    (item.apply p).errors = p.errors ++ (item.problem (p.grammar lookup)).toList := by
  cases item with
  | other arg => exact (List.append_nil _).symm
  | mistake message => rfl
  | assign name value =>
      rw [apply_assign, Item.problem, grammar]
      dsimp only
      cases p.options.find? name with
      | none => rfl
      | some option =>
          change _ = p.errors ++ (if option.kind.accepts value then none else some (Item.refusal name value)).toList
          dsimp only
          split
          · exact (List.append_nil _).symm
          · rfl

theorem others_apply (p : Parser τ) (item : Item) : (item.apply p).others = p.others ++ item.other?.toList := by
  cases item with
  | other arg => rfl
  | mistake message => exact (List.append_nil _).symm
  | assign name value =>
      rw [apply_assign]
      have same : p.others = p.others ++ (Item.assign name value).other?.toList := (List.append_nil _).symm
      cases p.options.find? name with
      | none => exact same
      | some option =>
          dsimp only
          split <;> exact same

def receive (options : Options τ) (assignment : Bytes × Option Bytes) : Options τ :=
  options.modify assignment.1 (OptionBase.receive assignment.2) (OptionBase.name_receive assignment.2)

theorem options_apply (p : Parser τ) (item : Item) :
    (item.apply p).options = (assignments [item]).foldl receive p.options := by
  cases item with
  | other arg => rfl
  | mistake message => rfl
  | assign name value =>
      change _ = receive p.options (name, value)
      rw [apply_assign]
      cases found : p.options.find? name with
      | none =>
          refine (Table.modify_eq_self _ fun option present => ?_).symm
          exact absurd (found.symm.trans present) (by simp)
      | some option =>
          dsimp only
          split
          · rfl
          · rename_i refused
            refine (Table.modify_eq_self _ fun option' present => ?_).symm
            obtain rfl := Option.some.inj (found.symm.trans present)
            exact OptionBase.receive_refused (Bool.not_eq_true _ ▸ refused)

theorem options_foldl_apply (items : List Item) (p : Parser τ) :
    (items.foldl Item.apply p).options = (assignments items).foldl receive p.options := by
  induction items generalizing p with
  | nil => rfl
  | cons item items ih =>
      rw [List.foldl_cons, ih, options_apply, ← List.foldl_append]
      congr 1
      exact (List.filterMap_append (l := [item])).symm

theorem kind_receive (options : Options τ) (assignment : Bytes × Option Bytes) (name : Bytes) :
    ((receive options assignment).find? name).map OptionBase.kind = (options.find? name).map OptionBase.kind := by
  rw [receive, Table.find?_modify, Option.map_map]
  refine congrArg (fun f => (options.find? name).map f) (funext fun option => ?_)
  rw [Function.comp_apply]
  split
  · exact OptionBase.kind_receive _ option
  · rfl

theorem grammar_apply (p : Parser τ) (lookup : Lookup) (item : Item) :
    (item.apply p).grammar lookup = p.grammar lookup := by
  refine congrArg (fun kind => Grammar.mk kind lookup) (funext fun name => ?_)
  rw [options_apply]
  cases item with
  | assign name' value => exact kind_receive p.options (name', value) name
  | other arg => rfl
  | mistake message => rfl

theorem grammar_foldl_apply (items : List Item) (p : Parser τ) (lookup : Lookup) :
    (items.foldl Item.apply p).grammar lookup = p.grammar lookup := by
  induction items generalizing p with
  | nil => rfl
  | cons item items ih => rw [List.foldl_cons, ih, grammar_apply]

theorem errors_foldl_apply (items : List Item) (p : Parser τ) (lookup : Lookup) :
    (items.foldl Item.apply p).errors = p.errors ++ items.filterMap (Item.problem (p.grammar lookup)) := by
  induction items generalizing p with
  | nil => exact (List.append_nil _).symm
  | cons item items ih =>
      rw [List.foldl_cons, ih, errors_apply p lookup, grammar_apply, List.append_assoc]
      congr 1
      exact (List.filterMap_append (l := [item])).symm

theorem others_foldl_apply (items : List Item) (p : Parser τ) :
    (items.foldl Item.apply p).others = p.others ++ items.filterMap Item.other? := by
  induction items generalizing p with
  | nil => exact (List.append_nil _).symm
  | cons item items ih =>
      rw [List.foldl_cons, ih, others_apply, List.append_assoc]
      congr 1
      exact (List.filterMap_append (l := [item])).symm

end Parser

/-! ## Reading the words -/

namespace Grammar

variable (g : Grammar)

def takesValue (name : Bytes) : Bool := (g.kind name).any Kind.hasValue

def readOption (name : Bytes) (next : Option Bytes) : Item × Bool :=
  if g.takesValue name then (.assign name next, next.isSome) else (.assign name none, false)

def readShort (initial : UInt8) : Item :=
  match g.lookup.lookup initial with
  | none => .mistake (Parser.undefinedShort initial)
  | some [] => .mistake (Parser.ambiguousShort initial)
  | some name => .assign name none

def readLast (last : UInt8) (next : Option Bytes) : Item × Bool :=
  match g.lookup.lookup last with
  | none => (.mistake (Parser.undefinedShort last), false)
  | some [] => (.mistake (Parser.ambiguousShort last), false)
  | some name => g.readOption name next

def readArg (arg : Bytes) (next : Option Bytes) : List Item × Bool :=
  if bytes "--" <+: arg then
    let text := arg.drop 2
    if equals ∈ text then
      ([.assign (text.takeWhile (· ≠ equals)) (some ((text.dropWhile (· ≠ equals)).drop 1))], false)
    else
      let (item, consumed) := g.readOption text next
      ([item], consumed)
  else if bytes "-" <+: arg then
    match (arg.drop 1).getLast? with
    | none => ([], false)
    | some last =>
        let (item, consumed) := g.readLast last next
        ((arg.drop 1).dropLast.map g.readShort ++ [item], consumed)
  else ([.other arg], false)

def items : List Bytes → List Item
  | [] => []
  | [arg] => (g.readArg arg none).1
  | arg :: next :: args =>
      match g.readArg arg (some next) with
      | (read, true) => read ++ items args
      | (read, false) => read ++ items (next :: args)

theorem items_cons_cons (arg next : Bytes) (args : List Bytes) :
    g.items (arg :: next :: args) =
      (g.readArg arg (some next)).1 ++ g.items (if (g.readArg arg (some next)).2 then args else next :: args) := by
  rw [items]
  split <;> simp_all

variable {g}

theorem items_induction {motive : Item → Prop} {args : List Bytes}
    (step : ∀ arg next, ∀ item ∈ (g.readArg arg next).1, motive item) : ∀ item ∈ g.items args, motive item := by
  fun_induction items g args with
  | case1 => exact fun item member => nomatch member
  | case2 arg => exact step arg none
  | case3 arg next args read consumed ih =>
      have here := step arg (some next)
      rw [consumed] at here
      exact List.forall_mem_append.mpr ⟨here, ih⟩
  | case4 arg next args read alone ih =>
      have here := step arg (some next)
      rw [alone] at here
      exact List.forall_mem_append.mpr ⟨here, ih⟩

theorem readOption_ne_mistake {name message : Bytes} {next : Option Bytes} :
    (g.readOption name next).1 ≠ .mistake message := by
  unfold readOption
  split <;> exact Item.noConfusion

/-- The item is not a mistake, or it is about a short option that nothing is known of. -/
def Known (g : Grammar) (item : Item) : Prop :=
  ∀ message, item = .mistake message → ∃ initial, g.lookup.lookup initial = none ∧ message = Parser.undefinedShort initial

section Named
variable (named : ∀ initial, g.lookup.lookup initial ≠ some [])
include named

theorem known_readShort (initial : UInt8) : g.Known (g.readShort initial) := by
  intro message mistake
  unfold readShort at mistake
  split at mistake
  · rename_i absent
    exact ⟨initial, absent, (Item.mistake.inj mistake).symm⟩
  · rename_i empty
    exact absurd empty (named initial)
  · cases mistake

theorem known_readLast (last : UInt8) (next : Option Bytes) : g.Known (g.readLast last next).1 := by
  intro message mistake
  unfold readLast at mistake
  split at mistake
  · rename_i absent
    exact ⟨last, absent, (Item.mistake.inj mistake).symm⟩
  · rename_i empty
    exact absurd empty (named last)
  · exact absurd mistake readOption_ne_mistake

theorem known_items (args : List Bytes) : ∀ item ∈ g.items args, g.Known item := by
  refine items_induction fun arg next => ?_
  unfold readArg
  split
  · dsimp only
    split
    · exact List.forall_mem_singleton.mpr fun message mistake => nomatch mistake
    · exact List.forall_mem_singleton.mpr fun message mistake => absurd mistake readOption_ne_mistake
  · split
    · split
      · exact fun item member => nomatch member
      · refine List.forall_mem_append.mpr ⟨?_, List.forall_mem_singleton.mpr (known_readLast named _ next)⟩
        exact List.forall_mem_map.mpr fun initial _ => known_readShort named initial
    · exact List.forall_mem_singleton.mpr fun message mistake => nomatch mistake

end Named

end Grammar

namespace Parser

theorem hasValue_eq (p : Parser τ) (lookup : Lookup) (name : Bytes) :
    p.hasValue name = (p.grammar lookup).takesValue name := by
  rw [hasValue, Grammar.takesValue, grammar, Option.any_map]
  exact congrArg (fun f => (p.options.find? name).any f) (funext OptionBase.hasValue_eq)

theorem parseShort_eq (lookup : Lookup) (p : Parser τ) (initial : UInt8) :
    parseShort lookup p initial = ((p.grammar lookup).readShort initial).apply p := by
  unfold parseShort Grammar.readShort grammar
  dsimp only
  cases lookup.lookup initial with
  | none => rfl
  | some name => cases name <;> rfl

theorem foldl_parseShort (lookup : Lookup) (initials : List UInt8) (p : Parser τ) :
    initials.foldl (parseShort lookup) p = (initials.map (p.grammar lookup).readShort).foldl Item.apply p := by
  induction initials generalizing p with
  | nil => rfl
  | cons initial initials ih => rw [List.foldl_cons, ih, parseShort_eq, grammar_apply, List.map_cons, List.foldl_cons]

theorem parseLong_eq (p : Parser τ) (lookup : Lookup) (name : Bytes) (next : Option Bytes) :
    parseLong p name next =
      (((p.grammar lookup).readOption name next).1.apply p, ((p.grammar lookup).readOption name next).2) := by
  unfold parseLong
  rw [Grammar.readOption, ← hasValue_eq, hasValue]
  cases found : p.options.find? name with
  | none =>
      change _ = (p.setOption name, false)
      rw [setOption, found]
  | some option =>
      rw [Option.any_some]
      dsimp only
      cases valued : option.hasValue with
      | false => rfl
      | true =>
          cases next with
          | some value => rfl
          | none =>
              -- without a value `set` fails on such an option
              change _ = (p.setOption name, false)
              rw [setOption, found]
              cases option with
              | withoutValue option => cases valued
              | withValue option => rfl

theorem parseLast_eq (lookup : Lookup) (p : Parser τ) (last : UInt8) (next : Option Bytes) :
    parseLast lookup p last next =
      (((p.grammar lookup).readLast last next).1.apply p, ((p.grammar lookup).readLast last next).2) := by
  unfold parseLast Grammar.readLast
  rw [show (p.grammar lookup).lookup = lookup from rfl]
  cases lookup.lookup last with
  | none => rfl
  | some name =>
      cases name with
      | nil => rfl
      | cons first rest =>
          dsimp only
          rw [Grammar.readOption, ← hasValue_eq]
          cases next with
          | none => cases p.hasValue (first :: rest) <;> rfl
          | some value => cases p.hasValue (first :: rest) <;> rfl

theorem parseArg_eq (lookup : Lookup) (p : Parser τ) (arg : Bytes) (next : Option Bytes) :
    parseArg lookup p arg next =
      (((p.grammar lookup).readArg arg next).1.foldl Item.apply p, ((p.grammar lookup).readArg arg next).2) := by
  unfold parseArg Grammar.readArg
  split
  · dsimp only
    split
    · rfl
    · exact parseLong_eq p lookup _ next
  · split
    · cases (arg.drop 1).getLast? with
      | none => rfl
      | some last =>
          dsimp only
          rw [parseLast_eq, foldl_parseShort, grammar_foldl_apply, List.foldl_append]
          rfl
    · rfl

theorem parseLoop_eq (lookup : Lookup) (p : Parser τ) (args : List Bytes) :
    parseLoop lookup p args = ((p.grammar lookup).items args).foldl Item.apply p := by
  fun_induction parseLoop lookup p args with
  | case1 p => rfl
  | case2 p arg => exact congrArg Prod.fst (parseArg_eq lookup p arg none)
  | case3 p arg next args p' read ih =>
      rw [parseArg_eq] at read
      obtain ⟨rfl, consumed⟩ := Prod.mk.inj read
      rw [ih, grammar_foldl_apply, ← List.foldl_append, Grammar.items_cons_cons, consumed, if_pos rfl]
  | case4 p arg next args p' read ih =>
      rw [parseArg_eq] at read
      obtain ⟨rfl, consumed⟩ := Prod.mk.inj read
      rw [ih, grammar_foldl_apply, ← List.foldl_append, Grammar.items_cons_cons, consumed, if_neg Bool.false_ne_true]

end Parser
end Ddbclient.Cmdline

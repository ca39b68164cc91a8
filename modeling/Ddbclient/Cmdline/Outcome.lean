import Ddbclient.Cmdline.Items
import Ddbclient.Cmdline.Values
import Mathlib.Data.List.Duplicate

/-!
# What parsing leaves behind

The errors that `parse` reports and the values that the options have afterwards, from what the command line
asks for.
-/

namespace Ddbclient.Cmdline
open Lib Lib.Checked

variable {τ : Type} [ValueType τ]

/-! ## Short names -/

namespace OptionBase

def shortName? (option : OptionBase τ) : Option (UInt8 × Bytes) :=
  if option.name = [] ∨ option.shortName = 0 then none else some (option.shortName, option.name)

end OptionBase

namespace Parser

def shortNames (options : List (OptionBase τ)) : Lookup := options.filterMap OptionBase.shortName?

def Unambiguous (p : Parser τ) : Prop := ((shortNames p.options.entries).map Prod.fst).Nodup

instance (p : Parser τ) : Decidable p.Unambiguous := inferInstanceAs (Decidable (List.Nodup _))

def rules (p : Parser τ) : Grammar := p.grammar (shortNames p.options.entries).reverse

def ambiguous (initial : UInt8) : Bytes := bytes "short option '" ++ [initial] ++ bytes "' is ambiguous"

theorem lookup_isSome_iff (lookup : Lookup) (initial : UInt8) :
    (lookup.lookup initial).isSome = true ↔ initial ∈ lookup.map Prod.fst := by
  rw [List.lookup_isSome_iff, List.mem_map]
  refine exists_congr fun entry => and_congr_right fun _ => ?_
  rw [beq_iff_eq, eq_comm]

theorem lookupLoop_cons (option : OptionBase τ) (options : List (OptionBase τ)) (lookup : Lookup) :
    lookupLoop (option :: options) lookup =
      match option.shortName? with
      | none => lookupLoop options lookup
      | some (initial, name) =>
          if initial ∈ lookup.map Prod.fst then .error (ambiguous initial)
          else lookupLoop options ((initial, name) :: lookup) := by
  rw [lookupLoop, OptionBase.shortName?]
  simp only [List.length_eq_zero_iff, lookup_isSome_iff]
  by_cases unnamed : option.name = []
  · simp [unnamed]
  · by_cases absent : option.shortName = 0
    · simp [unnamed, absent]
    · simp [unnamed, absent, ambiguous]

theorem lookupLoop_spec (options : List (OptionBase τ)) (lookup : Lookup) (before : (lookup.map Prod.fst).Nodup) :
    let all := (shortNames options).reverse ++ lookup
    (all.map Prod.fst).Nodup ∧ lookupLoop options lookup = .ok all ∨
      ∃ initial, List.Duplicate initial (all.map Prod.fst) ∧ lookupLoop options lookup = .error (ambiguous initial) := by
  induction options generalizing lookup with
  | nil => exact Or.inl ⟨before, rfl⟩
  | cons option options ih =>
      rw [lookupLoop_cons]
      cases short : option.shortName? with
      | none =>
          have same : shortNames (option :: options) = shortNames options := List.filterMap_cons_none short
          rw [same]
          exact ih lookup before
      | some entry =>
          obtain ⟨initial, name⟩ := entry
          have more : shortNames (option :: options) = (initial, name) :: shortNames options :=
            List.filterMap_cons_some short
          rw [more, List.reverse_cons, List.append_assoc, List.singleton_append]
          dsimp only
          by_cases twice : initial ∈ lookup.map Prod.fst
          · rw [if_pos twice]
            refine Or.inr ⟨initial, ?_, rfl⟩
            rw [List.map_append, List.map_cons]
            exact (List.Mem.duplicate_cons_self twice).mono_sublist (List.sublist_append_right _ _)
          · rw [if_neg twice]
            exact ih ((initial, name) :: lookup) (List.nodup_cons.mpr ⟨twice, before⟩)

theorem lookupLoop_unambiguous {p : Parser τ} (unambiguous : p.Unambiguous) :
    lookupLoop p.options.entries [] = .ok (shortNames p.options.entries).reverse := by
  rcases lookupLoop_spec p.options.entries [] List.nodup_nil with ⟨-, ok⟩ | ⟨initial, twice, -⟩
  · rwa [List.append_nil] at ok
  · rw [List.append_nil, List.map_reverse] at twice
    exact absurd (List.nodup_reverse.mpr unambiguous) twice.not_nodup

end Parser

/-! ## Options after a row of assignments -/

namespace OptionBase

def receiveAll (values : List (Option Bytes)) (option : OptionBase τ) : OptionBase τ :=
  values.foldl (fun option value => option.receive value) option

theorem receiveAll_cons (value : Option Bytes) (values : List (Option Bytes)) (option : OptionBase τ) :
    option.receiveAll (value :: values) = (option.receive value).receiveAll values := rfl

theorem name_receiveAll (values : List (Option Bytes)) (option : OptionBase τ) :
    (option.receiveAll values).name = option.name := by
  induction values generalizing option with
  | nil => rfl
  | cons value values ih => rw [receiveAll_cons, ih, name_receive]

def lastRead {T : τ} (option : OptionWithValue T) (values : List (Option Bytes)) : Option (Value T) :=
  (values.filterMap fun value => value.bind option.read).getLast?

theorem receiveAll_withoutValue (values : List (Option Bytes)) (option : OptionWithoutValue) :
    (withoutValue (τ := τ) option).receiveAll values =
      .withoutValue { option with has := option.has || values.any Option.isNone } := by
  induction values generalizing option with
  | nil => exact congrArg (fun has => withoutValue { option with has := has }) (Bool.or_false _).symm
  | cons value values ih =>
      cases value with
      | none => exact (ih _).trans (by simp)
      | some value => exact (ih option).trans (by simp)

theorem lastRead_cons {T : τ} (option : OptionWithValue T) (value : Option Bytes) (values : List (Option Bytes)) :
    lastRead option (value :: values) = (lastRead option values).or (value.bind option.read) := by
  unfold lastRead
  cases read : value.bind option.read with
  | none => simp [read]
  | some actual =>
      rw [List.filterMap_cons, read, List.getLast?_cons]
      cases (values.filterMap fun value => value.bind option.read).getLast? <;> rfl

theorem receive_unread {T : τ} {option : OptionWithValue T} {value : Bytes} (unread : option.read value = none) :
    (withValue option).receive (some value) = .withValue option := by
  unfold receive setValue
  dsimp only
  rw [unread]
  rfl

theorem receive_read {T : τ} {option : OptionWithValue T} {value : Bytes} {actual : Value T}
    (read : option.read value = some actual) :
    (withValue option).receive (some value) = .withValue { option with actual := actual, has := true } := by
  unfold receive setValue
  dsimp only
  rw [read]
  rfl

theorem receiveAll_withValue {T : τ} (values : List (Option Bytes)) (option : OptionWithValue T) :
    (withValue option).receiveAll values =
      .withValue { option with
        actual := (lastRead option values).getD option.actual
        has := option.has || values.any fun value => value.any fun value => (option.read value).isSome } := by
  induction values generalizing option with
  | nil => exact congrArg (fun has => withValue { option with has := has }) (Bool.or_false _).symm
  | cons value values ih =>
      rw [receiveAll_cons, lastRead_cons, List.any_cons]
      cases value with
      | none =>
          rw [Option.bind_none, Option.or_none]
          exact ih option
      | some value =>
          rw [Option.bind_some, Option.any_some]
          cases read : option.read value with
          | none =>
              rw [receive_unread read, ih, Option.or_none]
              rfl
          | some actual =>
              have same : lastRead { option with actual := actual, has := true } values = lastRead option values := rfl
              rw [receive_read read, ih, same]
              cases lastRead option values <;> simp

theorem hasSet_receiveAll (values : List (Option Bytes)) (option : OptionBase τ) :
    (option.receiveAll values).hasSet = (option.hasSet || values.any option.kind.accepts) := by
  cases option with
  | withoutValue option => rw [receiveAll_withoutValue]; rfl
  | withValue option => rw [receiveAll_withValue]; rfl

theorem must_receiveAll (values : List (Option Bytes)) (option : OptionBase τ) :
    (option.receiveAll values).must = option.must := by
  cases option with
  | withoutValue option => rw [receiveAll_withoutValue]; rfl
  | withValue option => rw [receiveAll_withValue]; rfl

theorem kind_receiveAll (values : List (Option Bytes)) (option : OptionBase τ) :
    (option.receiveAll values).kind = option.kind := by
  induction values generalizing option with
  | nil => rfl
  | cons value values ih => rw [receiveAll_cons, ih, kind_receive]

theorem shortName?_receiveAll (values : List (Option Bytes)) (option : OptionBase τ) :
    (option.receiveAll values).shortName? = option.shortName? := by
  have short : (option.receiveAll values).shortName = option.shortName := by
    cases option with
    | withoutValue option => rw [receiveAll_withoutValue]; rfl
    | withValue option => rw [receiveAll_withValue]; rfl
  rw [shortName?, short, name_receiveAll, shortName?]

theorem valid_eq (option : OptionBase τ) : option.valid = (!option.must || option.hasSet) := by
  cases option with
  | withoutValue option => rfl
  | withValue option => rw [valid, must, hasSet, Bool.not_and, Bool.not_not]

end OptionBase

/-! ## The parser afterwards -/

def given (items : List Item) (name : Bytes) : List (Option Bytes) :=
  ((assignments items).filter fun assignment => assignment.1 = name).map Prod.snd

theorem mem_given_iff {items : List Item} {name : Bytes} {value : Option Bytes} :
    value ∈ given items name ↔ .assign name value ∈ items := by
  rw [given, List.mem_map]
  constructor
  · rintro ⟨assignment, assigned, rfl⟩
    obtain ⟨among, named⟩ := List.mem_filter.mp assigned
    obtain ⟨item, inside, found⟩ := List.mem_filterMap.mp among
    obtain rfl := of_decide_eq_true named
    cases item with
    | other arg => cases found
    | mistake message => cases found
    | assign name' value' => cases found; exact inside
  · intro inside
    refine ⟨(name, value), List.mem_filter.mpr ⟨?_, decide_eq_true rfl⟩, rfl⟩
    exact List.mem_filterMap.mpr ⟨_, inside, rfl⟩

namespace Parser

theorem entries_foldl_apply (items : List Item) (p : Parser τ) :
    (items.foldl Item.apply p).options.entries =
      p.options.entries.map fun option => option.receiveAll (given items option.name) := by
  rw [options_foldl_apply]
  refine (Table.entries_foldl_modify Prod.fst (f := fun assignment => OptionBase.receive assignment.2)
    (fun assignment => OptionBase.name_receive assignment.2) (assignments items) p.options).trans ?_
  refine List.map_congr_left fun option _ => ?_
  rw [OptionBase.receiveAll, given, List.foldl_map, Table.changed]
  exact congrArg (List.foldl _ option) (List.filter_congr fun _ _ => decide_eq_decide.mpr Iff.rfl)

theorem find?_foldl_apply (items : List Item) (p : Parser τ) (name : Bytes) :
    (items.foldl Item.apply p).options.find? name =
      (p.options.find? name).map fun option => option.receiveAll (given items name) := by
  rw [Table.find?_map (fun option => option.name_receiveAll (given items option.name)) (entries_foldl_apply items p)]
  exact Table.find?_map_congr fun option named => by rw [named]

/-- The needed options that neither have been set before nor are given a value that can be read. -/
def unmet (p : Parser τ) (items : List Item) : List Bytes :=
  (p.options.entries.filter fun option =>
    option.must && !(option.hasSet || (given items option.name).any option.kind.accepts)).map fun option => option.name

theorem needErrors_foldl_apply (items : List Item) (p : Parser τ) :
    (items.foldl Item.apply p).needErrors = (p.unmet items).map needOption := by
  have unset : ((fun option => !option.valid) ∘ fun option : OptionBase τ => option.receiveAll (given items option.name)) =
      fun option => option.must && !(option.hasSet || (given items option.name).any option.kind.accepts) := by
    funext option
    rw [Function.comp_apply, OptionBase.valid_eq, OptionBase.must_receiveAll, OptionBase.hasSet_receiveAll]
    simp
  rw [needErrors, entries_foldl_apply, unmet, List.filter_map, unset, List.map_map, List.map_map]
  exact List.map_congr_left fun option _ => congrArg needOption (option.name_receiveAll _)

/-! ## A call of `parse` -/

def restarted (p : Parser τ) (program : Bytes) : Parser τ :=
  { p with others := [], errors := [], prog_name := if p.prog_name = [] then program else p.prog_name }

variable {p : Parser τ} (program : Bytes) (args : List Bytes)

theorem parse_ambiguous (ambiguity : ¬ p.Unambiguous) :
    ∃ initial, List.Duplicate initial ((shortNames p.options.entries).map Prod.fst) ∧
      p.parse (program :: args) = ((p.restarted program).pushError (ambiguous initial), false) := by
  rcases lookupLoop_spec p.options.entries [] List.nodup_nil with ⟨distinct, -⟩ | ⟨initial, twice, error⟩
  · rw [List.append_nil, List.map_reverse, List.nodup_reverse] at distinct
    exact absurd distinct ambiguity
  · refine ⟨initial, ?_, ?_⟩
    · rw [List.append_nil, List.map_reverse, List.duplicate_iff_two_le_count, List.count_reverse] at twice
      exact List.duplicate_iff_two_le_count.mpr twice
    · rw [parse]
      dsimp only
      rw [error]
      rfl

def reader [DecidableEq τ] (p : Parser τ) (T : τ) (name : Bytes) : Bytes → Option (Value T) :=
  match p.options.find? name with
  | some (.withValue (T := T') option) => if same : T' = T then same ▸ option.read else fun _ => none
  | _ => fun _ => none

theorem reader_eq [DecidableEq τ] {T : τ} {name : Bytes} {option : OptionWithValue T}
    (found : p.options.find? name = some (.withValue option)) : p.reader T name = option.read := by
  rw [reader, found]
  exact dif_pos rfl

theorem exists_of_get [DecidableEq τ] {T : τ} {name : Bytes} {actual : Value T} (got : p.get T name = .ok actual) :
    ∃ option : OptionWithValue T, p.options.find? name = some (.withValue option) := by
  rw [get] at got
  split at got
  · cases got
  · cases got
  · rename_i T' option found
    split at got
    · rename_i same
      subst same
      exact ⟨option, found⟩
    · cases got

section Unambiguous
variable (unambiguous : p.Unambiguous)
include unambiguous

theorem parse_eq :
    p.parse (program :: args) =
      let q := (p.rules.items args).foldl Item.apply (p.restarted program)
      ({ q with errors := q.errors ++ q.needErrors }, decide ((q.errors ++ q.needErrors).length = 0)) := by
  rw [parse]
  dsimp only
  rw [lookupLoop_unambiguous unambiguous]
  dsimp only
  rw [parseLoop_eq]
  rfl

theorem errors_parse_needErrors :
    (p.parse (program :: args)).1.errors =
      (p.rules.items args).filterMap (Item.problem p.rules) ++ (p.parse (program :: args)).1.needErrors := by
  rw [parse_eq program args unambiguous]
  dsimp only
  rw [errors_foldl_apply _ _ (shortNames p.options.entries).reverse]
  rfl

theorem errors_parse :
    (p.parse (program :: args)).1.errors =
      (p.rules.items args).filterMap (Item.problem p.rules) ++ (p.unmet (p.rules.items args)).map needOption := by
  rw [errors_parse_needErrors program args unambiguous, parse_eq program args unambiguous]
  exact congrArg _ (needErrors_foldl_apply _ _)

theorem result_parse :
    (p.parse (program :: args)).2 = decide ((p.parse (program :: args)).1.errors.length = 0) := by
  rw [parse_eq program args unambiguous]

theorem others_parse :
    (p.parse (program :: args)).1.others = (p.rules.items args).filterMap Item.other? := by
  rw [parse_eq program args unambiguous]
  exact others_foldl_apply _ _

theorem accepts_iff :
    (p.parse (program :: args)).2 = true ↔
      (p.rules.items args).filterMap (Item.problem p.rules) = [] ∧ p.unmet (p.rules.items args) = [] := by
  rw [result_parse program args unambiguous, errors_parse program args unambiguous, decide_eq_true_eq, List.length_eq_zero_iff,
    List.append_eq_nil_iff, List.map_eq_nil_iff]

theorem find?_parse (name : Bytes) :
    (p.parse (program :: args)).1.options.find? name =
      (p.options.find? name).map fun option => option.receiveAll (given (p.rules.items args) name) := by
  rw [parse_eq program args unambiguous]
  exact find?_foldl_apply _ _ name

theorem options_parse :
    (p.parse (program :: args)).1.options = (assignments (p.rules.items args)).foldl receive p.options := by
  rw [parse_eq program args unambiguous]
  exact options_foldl_apply _ _

theorem shortNames_parse : shortNames (p.parse (program :: args)).1.options.entries = shortNames p.options.entries := by
  rw [parse_eq program args unambiguous]
  change shortNames ((p.rules.items args).foldl Item.apply (p.restarted program)).options.entries = _
  rw [entries_foldl_apply, shortNames, List.filterMap_map]
  exact List.filterMap_congr fun option _ => option.shortName?_receiveAll _

theorem rules_parse : (p.parse (program :: args)).1.rules = p.rules := by
  rw [rules, rules, shortNames_parse program args unambiguous]
  refine congrArg (fun kind => Grammar.mk kind _) (funext fun name => ?_)
  rw [find?_parse program args unambiguous, Option.map_map]
  exact congrArg (fun f => (p.options.find? name).map f) (funext fun option => option.kind_receiveAll _)

theorem exist_parse (name : Bytes) :
    (p.parse (program :: args)).1.exist name =
      match p.options.find? name with
      | none => .error (noFlag name)
      | some option => .ok (option.hasSet || (given (p.rules.items args) name).any option.kind.accepts) := by
  rw [exist, find?_parse program args unambiguous]
  cases p.options.find? name with
  | none => rfl
  | some option => exact congrArg Except.ok (option.hasSet_receiveAll _)

theorem get_parse [DecidableEq τ] (T : τ) (name : Bytes) :
    (p.parse (program :: args)).1.get T name =
      (p.get T name).map fun actual =>
        ((given (p.rules.items args) name).filterMap fun value => value.bind (p.reader T name)).getLast?.getD actual := by
  rw [get, find?_parse program args unambiguous, get, reader]
  cases p.options.find? name with
  | none => rfl
  | some option =>
      rw [Option.map_some]
      cases option with
      | withoutValue option => rw [OptionBase.receiveAll_withoutValue]; rfl
      | withValue option =>
          rename_i T'
          rw [OptionBase.receiveAll_withValue]
          dsimp only
          by_cases same : T' = T
          · subst same
            simp only [dif_pos, OptionBase.lastRead]
            rfl
          · simp only [dif_neg same]
            rfl

/-- After a call, an option exists if it did before or has been given something that it takes, and its value is
the last one that could be read, whatever else the command line holds. -/
theorem parse_values [DecidableEq τ] (T : τ) (name : Bytes) :
    (p.parse (program :: args)).1.exist name =
        (match p.options.find? name with
          | none => .error (noFlag name)
          | some option => .ok (option.hasSet || (given (p.rules.items args) name).any option.kind.accepts)) ∧
      (p.parse (program :: args)).1.get T name =
        (p.get T name).map fun actual =>
          ((given (p.rules.items args) name).filterMap fun value => value.bind (p.reader T name)).getLast?.getD actual :=
  ⟨exist_parse program args unambiguous name, get_parse program args unambiguous T name⟩

end Unambiguous

def onlyPort : Except Bytes (Parser Scalar) :=
  Parser.new.addWithReader .int (bytes "port") 112 (bytes "the port") true (int 0)
    (rangeReader (int 1) (int 65535))

theorem parse_values_port : ∃ p, onlyPort = .ok p ∧
    (p.parse [bytes "d", bytes "-p", bytes "7", bytes "--port=0"]).1.exist (bytes "port") = .ok true ∧
    (p.parse [bytes "d", bytes "-p", bytes "7", bytes "--port=0"]).1.get .int (bytes "port") =
      .ok (int 7) := by
  refine ⟨_, rfl, ?_, ?_⟩
  · exact (parse_values _ _ (by decide) Scalar.int _).1.trans rfl
  · exact (parse_values _ _ (by decide) Scalar.int _).2.trans rfl

theorem lookup_rules_ne_nil (initial : UInt8) : p.rules.lookup.lookup initial ≠ some [] := by
  intro found
  obtain ⟨first, second, split, -⟩ := List.lookup_eq_some_iff.mp found
  have member : (initial, []) ∈ shortNames p.options.entries := by
    have reversed : (shortNames p.options.entries).reverse = first ++ (initial, []) :: second := split
    rw [← List.mem_reverse, reversed]
    exact List.mem_append_right first List.mem_cons_self
  obtain ⟨option, -, short⟩ := List.mem_filterMap.mp member
  unfold OptionBase.shortName? at short
  split at short
  · cases short
  · rename_i named
    exact named (Or.inl (Prod.mk.inj (Option.some.inj short)).2)

/-- Everything that a call of `parse` reports, in order. No short option is found ambiguous while the words are
read: that is found before, or not at all. -/
theorem parse_reports (p : Parser τ) :
    if p.Unambiguous then
      let items := p.rules.items args
      (p.parse (program :: args)).1.errors =
          items.filterMap (Item.problem p.rules) ++ (p.unmet items).map needOption ∧
        (∀ item ∈ items, p.rules.Known item) ∧
        (p.parse (program :: args)).1.others = items.filterMap Item.other? ∧
        ((p.parse (program :: args)).2 = true ↔ items.filterMap (Item.problem p.rules) = [] ∧ p.unmet items = [])
    else ∃ initial, List.Duplicate initial ((shortNames p.options.entries).map Prod.fst) ∧
      p.parse (program :: args) = ((p.restarted program).pushError (ambiguous initial), false) := by
  split
  · rename_i unambiguous
    exact ⟨errors_parse program args unambiguous, Grammar.known_items lookup_rules_ne_nil args, others_parse program args unambiguous,
      accepts_iff program args unambiguous⟩
  · rename_i ambiguity
    exact parse_ambiguous program args ambiguity

end Parser
end Ddbclient.Cmdline

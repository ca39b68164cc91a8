import Ddbclient.Cmdline.Usage
import Mathlib.Data.List.Forall2

/-!
# An option that is kept to itself

Two command lines may differ in the values of one option only. When that option takes any value, they lead to the
same errors, the same usage text and the same values of all other options.
-/

namespace Ddbclient.Cmdline
open Lib

/-- Items that differ at most in a value of one option. -/
inductive Item.SameBut (secret : Bytes) : Item → Item → Prop where
  | same (item : Item) : SameBut secret item item
  | value (first second : Bytes) : SameBut secret (.assign secret (some first)) (.assign secret (some second))

abbrev SameItemsBut (secret : Bytes) : List Item → List Item → Prop := List.Forall₂ (Item.SameBut secret)

theorem given_append (first second : List Item) (name : Bytes) :
    given (first ++ second) name = given first name ++ given second name := by
  rw [given, assignments, List.filterMap_append, List.filter_append, List.map_append]
  rfl

theorem given_cons (item : Item) (items : List Item) (name : Bytes) :
    given (item :: items) name = given [item] name ++ given items name := given_append [item] items name

theorem given_assign (name : Bytes) (value : Option Bytes) : given [.assign name value] name = [value] := by
  simp [given, assignments, Item.assignment?]

theorem given_assign_other {name other : Bytes} (different : other ≠ name) (value : Option Bytes) :
    given [.assign name value] other = [] := by
  simp [given, assignments, Item.assignment?, different.symm]

section Alike
variable {secret : Bytes} {items items' : List Item} (alike : SameItemsBut secret items items')
include alike

theorem given_other {name : Bytes} (other : name ≠ secret) : given items name = given items' name := by
  induction alike with
  | nil => rfl
  | @cons item item' rest rest' related _ ih =>
      rw [given_cons item rest, given_cons item' rest', ih]
      cases related with
      | same item => rfl
      | value first second => rw [given_assign_other other, given_assign_other other]

theorem any_given {name : Bytes} {accepts : Option Bytes → Bool}
    (uniform : name = secret → ∀ value, accepts (some value) = true) :
    (given items name).any accepts = (given items' name).any accepts := by
  by_cases hidden : name = secret
  · subst hidden
    induction alike with
    | nil => rfl
    | @cons item item' rest rest' related _ ih =>
        rw [given_cons item rest, given_cons item' rest', List.any_append, List.any_append, ih]
        cases related with
        | same item => rfl
        | value first second => simp [given_assign, uniform]
  · rw [given_other alike hidden]

end Alike

variable {τ : Type} [ValueType τ]

namespace Parser

def TakesAny (p : Parser τ) (secret : Bytes) : Prop :=
  ∃ kind, p.rules.kind secret = some kind ∧ ∀ value, kind.accepts (some value) = true

/-- What can be seen of a parser without the value of one option. -/
structure SameBut [DecidableEq τ] (secret : Bytes) (q q' : Parser τ) : Prop where
  errors : q.errors = q'.errors
  usage : q.usage = q'.usage
  exist : ∀ name, q.exist name = q'.exist name
  get : ∀ T name, name ≠ secret → q.get T name = q'.get T name

section Parse
variable {p : Parser τ} {secret : Bytes} (takesAny : p.TakesAny secret) {items items' : List Item}
  (alike : SameItemsBut secret items items')
include takesAny alike

theorem problems_alike : items.filterMap (Item.problem p.rules) = items'.filterMap (Item.problem p.rules) := by
  induction alike with
  | nil => rfl
  | cons related _ ih =>
      rw [List.filterMap_cons, List.filterMap_cons, ih]
      cases related with
      | same item => rfl
      | value first second =>
          obtain ⟨kind, declared, all⟩ := takesAny
          have fine (value : Bytes) : Item.problem p.rules (.assign secret (some value)) = none :=
            Item.problem_assign_iff.mpr ⟨kind, declared, all value⟩
          rw [fine, fine]

theorem any_given_alike {option : OptionBase τ} (found : p.options.find? option.name = some option) :
    (given items option.name).any option.kind.accepts = (given items' option.name).any option.kind.accepts := by
  apply any_given alike
  rintro rfl value
  obtain ⟨kind, declared, all⟩ := takesAny
  have same : some option.kind = some kind := by
    rw [← declared, rules, grammar]
    dsimp only
    rw [found, Option.map_some]
  rw [Option.some.inj same]
  exact all value

theorem unmet_alike : p.unmet items = p.unmet items' := by
  unfold unmet
  congr 1
  apply List.filter_congr
  intro option member
  rw [any_given_alike takesAny alike (p.options.find?_key_of_mem member)]

omit alike in
theorem parse_sameBut [DecidableEq τ] (unambiguous : p.Unambiguous) (program : Bytes) {args args' : List Bytes}
    (alike : SameItemsBut secret (p.rules.items args) (p.rules.items args')) :
    SameBut secret (p.parse (program :: args)).1 (p.parse (program :: args')).1 ∧
      (p.parse (program :: args)).2 = (p.parse (program :: args')).2 := by
  have errors : (p.parse (program :: args)).1.errors = (p.parse (program :: args')).1.errors := by
    rw [errors_parse program args unambiguous, errors_parse program args' unambiguous, problems_alike takesAny alike,
      unmet_alike takesAny alike]
  refine ⟨⟨errors, ?_, ?_, ?_⟩, ?_⟩
  · rw [usage_parse, usage_parse]
    rfl
  · intro name
    rw [exist_parse program args unambiguous, exist_parse program args' unambiguous]
    cases found : p.options.find? name with
    | none => rfl
    | some option =>
        obtain rfl := Table.key_of_find? found
        dsimp only
        rw [any_given_alike takesAny alike found]
  · intro T name other
    rw [get_parse program args unambiguous, get_parse program args' unambiguous, given_other alike other]
  · rw [result_parse program args unambiguous, result_parse program args' unambiguous, errors]

end Parse

end Parser
end Ddbclient.Cmdline

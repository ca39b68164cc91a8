import Ddbclient.Cmdline.Outcome

/-!
# The usage text

The usage text is printed when a command line has been read, and it must not depend on what was read.
-/

namespace Ddbclient.Cmdline
open Lib

variable {τ : Type} [ValueType τ]

namespace OptionBase

theorem usageLine_receiveAll (max_width : Nat) (values : List (Option Bytes)) (option : OptionBase τ) :
    Parser.usageLine max_width (option.receiveAll values) = Parser.usageLine max_width option := by
  cases option with
  | withoutValue option => rw [receiveAll_withoutValue]; rfl
  | withValue option => rw [receiveAll_withValue]; rfl

theorem shortDescription_receiveAll (values : List (Option Bytes)) (option : OptionBase τ) :
    (option.receiveAll values).shortDescription = option.shortDescription := by
  cases option with
  | withoutValue option => rw [receiveAll_withoutValue]; rfl
  | withValue option => rw [receiveAll_withValue]; rfl

end OptionBase

namespace Parser

def frame (p : Parser τ) : List Bytes × Bytes × Bytes := (p.ordered, p.prog_name, p.ftr)

theorem frame_apply (p : Parser τ) (item : Item) : (item.apply p).frame = p.frame := by
  cases item with
  | other arg => rfl
  | mistake message => rfl
  | assign name value =>
      rw [apply_assign]
      cases p.options.find? name with
      | none => rfl
      | some option =>
          dsimp only
          split <;> rfl

theorem frame_foldl_apply (items : List Item) (p : Parser τ) : (items.foldl Item.apply p).frame = p.frame := by
  induction items generalizing p with
  | nil => rfl
  | cons item items ih => rw [List.foldl_cons, ih, frame_apply]

theorem orderedOptions_foldl_apply (items : List Item) (p : Parser τ) :
    (items.foldl Item.apply p).orderedOptions =
      p.orderedOptions.map fun option => option.receiveAll (given items option.name) := by
  have ordered : (items.foldl Item.apply p).ordered = p.ordered := congrArg Prod.fst (frame_foldl_apply items p)
  rw [orderedOptions, ordered, orderedOptions, List.map_filterMap]
  apply List.filterMap_congr
  intro name _
  rw [find?_foldl_apply]
  cases found : p.options.find? name with
  | none => rfl
  | some option => rw [Option.map_some, Option.map_some, Table.key_of_find? found]

theorem usage_foldl_apply (items : List Item) (p : Parser τ) : (items.foldl Item.apply p).usage = p.usage := by
  have frame := frame_foldl_apply items p
  simp only [Parser.frame, Prod.mk.injEq] at frame
  unfold usage
  simp only [orderedOptions_foldl_apply, frame, List.foldl_map, List.flatMap_map, OptionBase.usageLine_receiveAll,
    OptionBase.shortDescription_receiveAll, OptionBase.must_receiveAll, OptionBase.name_receiveAll]

theorem usage_parse (p : Parser τ) (argv : List Bytes) :
    (p.parse argv).1.usage = (p.restarted (argv.headD [])).usage := by
  cases argv with
  | nil =>
      have unnamed : (if p.prog_name = [] then [] else p.prog_name) = p.prog_name := by
        split
        · rename_i empty
          exact empty.symm
        · rfl
      rw [List.headD_nil, restarted, unnamed]
      rfl
  | cons program args =>
      by_cases unambiguous : p.Unambiguous
      · rw [parse_eq program args unambiguous]
        exact usage_foldl_apply _ (p.restarted program)
      · obtain ⟨initial, -, parsed⟩ := parse_ambiguous program args unambiguous
        rw [parsed]
        rfl

/-! ## Its lines -/

theorem orderedOptions_names (p : Parser τ) : p.orderedOptions.map (fun option => option.name) = p.ordered := by
  rw [orderedOptions, List.map_filterMap]
  have named : ∀ name ∈ p.ordered, (p.options.find? name).map (fun option => option.name) = some name := by
    intro name member
    have declared : name ∈ p.options.names := p.ordered_perm.mem_iff.mp member
    obtain ⟨option, found⟩ := Option.isSome_iff_exists.mp (Table.find?_isSome_iff.mpr declared)
    rw [found, Option.map_some, Table.key_of_find? found]
  rw [List.filterMap_congr named, List.filterMap_some]

theorem mem_orderedOptions (p : Parser τ) {option : OptionBase τ} :
    option ∈ p.orderedOptions ↔ option ∈ p.options.entries := by
  rw [orderedOptions, List.mem_filterMap]
  constructor
  · rintro ⟨name, -, found⟩
    exact Table.mem_of_find? found
  · intro member
    exact ⟨option.name, p.ordered_perm.mem_iff.mpr (List.mem_map_of_mem member), p.options.find?_key_of_mem member⟩

def maxWidth (p : Parser τ) : Nat := p.orderedOptions.foldl (fun max_width option => max max_width option.name.length) 0

theorem le_maxWidth {p : Parser τ} {option : OptionBase τ} (member : option ∈ p.orderedOptions) :
    option.name.length ≤ p.maxWidth := by
  have folded : p.maxWidth = (p.orderedOptions.map fun option => option.name.length).foldl max 0 := by
    rw [List.foldl_map]
    rfl
  rw [folded]
  exact (List.max?_eq_some_iff.mp List.max?_cons').2 _ (List.mem_cons_of_mem _ (List.mem_map_of_mem member))

def heading (option : OptionBase τ) : Bytes :=
  (if option.shortName ≠ 0 then bytes "  -" ++ [option.shortName] ++ bytes ", " else bytes "      ") ++
    bytes "--" ++ option.name

theorem length_heading (option : OptionBase τ) : (heading option).length = option.name.length + 8 := by
  have initials : (if option.shortName ≠ 0 then bytes "  -" ++ [option.shortName] ++ bytes ", "
      else bytes "      ").length = 6 := by
    split <;> rfl
  rw [heading, List.length_append, List.length_append, initials, show (bytes "--").length = 2 from rfl]
  omega

/-- The usage text of a program of this name: a line for each option, in the order in which they were added, with its
names on the left, blanks behind them, and its description, and the descriptions all start in one column. -/
structure Documents (p : Parser τ) (prog_name text : Bytes) (left : OptionBase τ → Bytes) : Prop where
  text_eq : text =
    bytes "usage: " ++ prog_name ++ bytes " " ++
      ((p.orderedOptions.filter OptionBase.must).flatMap fun option => option.shortDescription ++ bytes " ") ++
      bytes "[options] ... " ++ p.ftr ++ [newline] ++ bytes "options:\n" ++
      p.orderedOptions.flatMap fun option => left option ++ option.description ++ [newline]
  order : p.orderedOptions.map (fun option => option.name) = p.ordered
  all : ∀ option, option ∈ p.orderedOptions ↔ option ∈ p.options.entries
  once : p.ordered.Nodup
  names : ∀ option ∈ p.orderedOptions, ∃ blanks, 4 ≤ blanks ∧ left option = heading option ++ List.replicate blanks space
  column : ∃ width, ∀ option ∈ p.orderedOptions, (left option).length = width

theorem nodup_ordered (p : Parser τ) : p.ordered.Nodup := by
  apply p.ordered_perm.nodup_iff.mpr
  rw [Options.names, List.Nodup, List.pairwise_map]
  exact p.options.sorted.imp ne_of_lt

theorem flatMap_must (options : List (OptionBase τ)) :
    (options.flatMap fun option => if option.must then option.shortDescription ++ bytes " " else []) =
      (options.filter OptionBase.must).flatMap fun option => option.shortDescription ++ bytes " " := by
  induction options with
  | nil => rfl
  | cons option options ih =>
      rw [List.flatMap_cons, ih, List.filter_cons]
      split <;> rfl

/-- Whatever the command line is, even one without words, the usage text afterwards documents the options of the
program, and only the name of the program in it depends on the command line. -/
theorem usage_documents (p : Parser τ) :
    ∃ left, ∀ argv,
      Documents p (if p.prog_name = [] then argv.headD [] else p.prog_name) (p.parse argv).1.usage left := by
  refine ⟨fun option => heading option ++ List.replicate (p.maxWidth + 4 - option.name.length) space, ?_⟩
  intro argv
  constructor
  · rw [usage_parse, usage, flatMap_must]
    rfl
  · exact p.orderedOptions_names
  · intro option
    exact p.mem_orderedOptions
  · exact p.nodup_ordered
  · intro option member
    have fits := le_maxWidth member
    exact ⟨_, by omega, rfl⟩
  · refine ⟨p.maxWidth + 12, ?_⟩
    intro option member
    have fits := le_maxWidth member
    rw [List.length_append, length_heading, List.length_replicate]
    omega

end Parser
end Ddbclient.Cmdline

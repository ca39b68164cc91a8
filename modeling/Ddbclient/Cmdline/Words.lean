import Ddbclient.Cmdline.Outcome
import Mathlib.Data.List.Perm.Subperm

/-!
# Well-formed command lines

The ways in which options can be written. What is written in these ways, in any order, is read as it was
meant, and nothing else is accepted.
-/

namespace Ddbclient.Cmdline
open Lib Lib.Checked

structure Flag (g : Grammar) where
  name : Bytes
  kind_eq : g.kind name = some .flag

structure Setting (g : Grammar) where
  name : Bytes
  value : Bytes
  takes : ∃ readable, g.kind name = some (.valued readable) ∧ readable value = true

structure Grammar.Abbreviates (g : Grammar) (initial : UInt8) (name : Bytes) : Prop where
  lookup_eq : g.lookup.lookup initial = some name
  named : name ≠ []

structure ShortFlag (g : Grammar) extends Flag g where
  initial : UInt8
  short : g.Abbreviates initial name

structure ShortSetting (g : Grammar) extends Setting g where
  initial : UInt8
  short : g.Abbreviates initial name

/-- One or two words that belong together: `--name`, `--name=value`, `--name value`, `-abc`, `-abc value`, or a
word that is not an option. Short options do not begin with a dash, since two dashes begin a long one. -/
inductive Word (g : Grammar) where
  | long (flag : Flag g) (plain : equals ∉ flag.name)
  | joined (setting : Setting g) (plain : equals ∉ setting.name)
  | separate (setting : Setting g) (plain : equals ∉ setting.name)
  | cluster (flags : List (ShortFlag g)) (single : (flags.map ShortFlag.initial).head? ≠ some dash)
  | clusterWith (flags : List (ShortFlag g)) (last : ShortSetting g)
      (single : (flags.map ShortFlag.initial ++ [last.initial]).head? ≠ some dash)
  | other (arg : Bytes) (plain : ¬ bytes "-" <+: arg)

namespace Word

variable {g : Grammar}

def render : Word g → List Bytes
  | long flag _ => [bytes "--" ++ flag.name]
  | joined setting _ => [bytes "--" ++ setting.name ++ equals :: setting.value]
  | separate setting _ => [bytes "--" ++ setting.name, setting.value]
  | cluster flags _ => [dash :: flags.map ShortFlag.initial]
  | clusterWith flags last _ => [dash :: (flags.map ShortFlag.initial ++ [last.initial]), last.value]
  | other arg _ => [arg]

def items : Word g → List Item
  | long flag _ => [.assign flag.name none]
  | joined setting _ => [.assign setting.name (some setting.value)]
  | separate setting _ => [.assign setting.name (some setting.value)]
  | cluster flags _ => flags.map fun flag => .assign flag.name none
  | clusterWith flags last _ => (flags.map fun flag => .assign flag.name none) ++ [.assign last.name (some last.value)]
  | other arg _ => [.other arg]

end Word

/-! ## What is written is read -/

namespace Grammar

variable {g : Grammar}

theorem readOption_flag (flag : Flag g) (next : Option Bytes) :
    g.readOption flag.name next = (.assign flag.name none, false) := by
  rw [readOption, takesValue, flag.kind_eq]
  rfl

theorem readOption_setting (setting : Setting g) (next : Option Bytes) :
    g.readOption setting.name next = (.assign setting.name next, next.isSome) := by
  obtain ⟨readable, kind, -⟩ := setting.takes
  rw [readOption, takesValue, kind]
  rfl

theorem readShort_eq {initial : UInt8} {name : Bytes} (short : g.Abbreviates initial name) :
    g.readShort initial = .assign name none := by
  rw [readShort, short.lookup_eq]
  cases name with
  | nil => exact absurd rfl short.named
  | cons first rest => rfl

theorem readLast_eq {initial : UInt8} {name : Bytes} (short : g.Abbreviates initial name) (next : Option Bytes) :
    g.readLast initial next = g.readOption name next := by
  rw [readLast, short.lookup_eq]
  cases name with
  | nil => exact absurd rfl short.named
  | cons first rest => rfl

theorem map_readShort (flags : List (ShortFlag g)) :
    (flags.map ShortFlag.initial).map g.readShort = flags.map fun flag => .assign flag.name none := by
  rw [List.map_map]
  exact List.map_congr_left fun flag _ => readShort_eq flag.short

theorem readArg_long {text : Bytes} (plain : equals ∉ text) (next : Option Bytes) :
    g.readArg (bytes "--" ++ text) next = ([(g.readOption text next).1], (g.readOption text next).2) := by
  rw [readArg, if_pos (List.prefix_append _ _)]
  exact if_neg plain

theorem takeWhile_equals {name : Bytes} (plain : equals ∉ name) (value : Bytes) :
    (name ++ equals :: value).takeWhile (· ≠ equals) = name ∧
      (name ++ equals :: value).dropWhile (· ≠ equals) = equals :: value := by
  have all : ∀ b ∈ name, decide (b ≠ equals) = true := by
    intro b member
    exact decide_eq_true fun same => plain (same ▸ member)
  refine ⟨?_, ?_⟩
  · rw [List.takeWhile_append_of_pos all, List.takeWhile_cons_of_neg (by simp), List.append_nil]
  · rw [List.dropWhile_append_of_pos all, List.dropWhile_cons_of_neg (by simp)]

theorem readArg_joined {name : Bytes} (plain : equals ∉ name) (value : Bytes) (next : Option Bytes) :
    g.readArg (bytes "--" ++ name ++ equals :: value) next = ([.assign name (some value)], false) := by
  obtain ⟨before, after⟩ := takeWhile_equals plain value
  have text : (bytes "--" ++ (name ++ equals :: value)).drop 2 = name ++ equals :: value := rfl
  rw [List.append_assoc, readArg, if_pos (List.prefix_append _ _)]
  dsimp only
  rw [text, if_pos (by simp), before, after]
  rfl

theorem not_long {initials : Bytes} (single : initials.head? ≠ some dash) : ¬ bytes "--" <+: dash :: initials := by
  rintro ⟨rest, joined⟩
  have tail : dash :: rest = initials := (List.cons.inj joined).2
  exact single (by rw [← tail]; rfl)

theorem dash_begins (initials : Bytes) : bytes "-" <+: dash :: initials := List.prefix_append [dash] initials

theorem readArg_lone (next : Option Bytes) : g.readArg [dash] next = ([], false) := rfl

theorem readArg_cluster {front : Bytes} {last : UInt8} (single : (front ++ [last]).head? ≠ some dash)
    (next : Option Bytes) :
    g.readArg (dash :: (front ++ [last])) next =
      (front.map g.readShort ++ [(g.readLast last next).1], (g.readLast last next).2) := by
  have text : (dash :: (front ++ [last])).drop 1 = front ++ [last] := rfl
  rw [readArg, if_neg (not_long single), if_pos (dash_begins _), text, List.getLast?_concat, List.dropLast_concat]

theorem items_cons {arg : Bytes} {read : List Item} (alone : ∀ next, g.readArg arg next = (read, false))
    (args : List Bytes) : g.items (arg :: args) = read ++ g.items args := by
  cases args with
  | nil =>
      change (g.readArg arg none).1 = _
      rw [alone]
      exact (List.append_nil read).symm
  | cons next args => rw [items_cons_cons, alone, if_neg Bool.false_ne_true]

theorem items_pair {arg value : Bytes} {read : List Item} (pair : g.readArg arg (some value) = (read, true))
    (args : List Bytes) : g.items (arg :: value :: args) = read ++ g.items args := by
  rw [items_cons_cons, pair, if_pos rfl]

theorem items_word (word : Word g) (args : List Bytes) : g.items (word.render ++ args) = word.items ++ g.items args := by
  cases word with
  | long flag plain =>
      refine items_cons (fun next => ?_) args
      rw [readArg_long plain, readOption_flag]
      rfl
  | joined setting plain => exact items_cons (readArg_joined plain setting.value) args
  | separate setting plain =>
      refine items_pair ?_ args
      rw [readArg_long plain, readOption_setting]
      rfl
  | cluster flags single =>
      refine items_cons (fun next => ?_) args
      rcases List.eq_nil_or_concat' flags with rfl | ⟨front, last, rfl⟩
      · exact readArg_lone next
      · have split : (front ++ [last]).map ShortFlag.initial = front.map ShortFlag.initial ++ [last.initial] :=
          List.map_append
        rw [split] at single ⊢
        refine (readArg_cluster single next).trans ?_
        rw [map_readShort, readLast_eq last.short, readOption_flag, Word.items, List.map_append]
        rfl
  | clusterWith flags last single =>
      refine items_pair ?_ args
      refine (readArg_cluster single (some last.value)).trans ?_
      rw [map_readShort, readLast_eq last.short, readOption_setting]
      rfl
  | other arg plain =>
      refine items_cons (fun next => ?_) args
      have notLong : ¬ bytes "--" <+: arg := fun long => plain ((show bytes "-" <+: bytes "--" by decide).trans long)
      rw [readArg, if_neg notLong, if_neg plain]
      rfl

theorem items_words_append (words : List (Word g)) (args : List Bytes) :
    g.items (words.flatMap Word.render ++ args) = words.flatMap Word.items ++ g.items args := by
  induction words with
  | nil => rfl
  | cons word words ih =>
      rw [List.flatMap_cons, List.append_assoc, items_word, ih, List.flatMap_cons, List.append_assoc]

theorem items_words (words : List (Word g)) : g.items (words.flatMap Word.render) = words.flatMap Word.items := by
  simpa [items] using items_words_append words []

/-! ## What is accepted is well formed -/

theorem setting_of_accepted {name value : Bytes} (accepted : (Item.assign name (some value)).problem g = none) :
    ∃ setting : Setting g, setting.name = name ∧ setting.value = value := by
  obtain ⟨kind, found, accepts⟩ := Item.problem_assign_iff.mp accepted
  cases kind with
  | flag => cases accepts
  | valued readable => exact ⟨⟨name, value, readable, found, accepts⟩, rfl, rfl⟩

theorem flag_of_accepted {name : Bytes} (accepted : (Item.assign name none).problem g = none) :
    ∃ flag : Flag g, flag.name = name := by
  obtain ⟨kind, found, accepts⟩ := Item.problem_assign_iff.mp accepted
  cases kind with
  | flag => exact ⟨⟨name, found⟩, rfl⟩
  | valued readable => cases accepts

theorem readOption_accepted {name : Bytes} {next : Option Bytes}
    (accepted : (g.readOption name next).1.problem g = none) :
    (∃ flag : Flag g, flag.name = name ∧ (g.readOption name next).2 = false) ∨
      ∃ setting : Setting g, setting.name = name ∧ next = some setting.value ∧ (g.readOption name next).2 = true := by
  unfold readOption at accepted ⊢
  split at accepted
  · rename_i takes
    rw [if_pos takes]
    cases next with
    | some value =>
        obtain ⟨setting, named, rfl⟩ := setting_of_accepted accepted
        exact Or.inr ⟨setting, named, rfl, rfl⟩
    | none =>
        obtain ⟨flag, named⟩ := flag_of_accepted accepted
        exact Or.inl ⟨flag, named, rfl⟩
  · rename_i takes
    rw [if_neg takes]
    obtain ⟨flag, named⟩ := flag_of_accepted accepted
    exact Or.inl ⟨flag, named, rfl⟩

theorem abbreviates_of_readShort {initial : UInt8} (accepted : (g.readShort initial).problem g = none) :
    ∃ flag : ShortFlag g, flag.initial = initial := by
  unfold readShort at accepted
  split at accepted
  · cases accepted
  · cases accepted
  · rename_i name named looked
    obtain ⟨flag, rfl⟩ := flag_of_accepted accepted
    exact ⟨⟨flag, initial, looked, named⟩, rfl⟩

theorem flags_of_readShort {initials : Bytes} (accepted : ∀ item ∈ initials.map g.readShort, item.problem g = none) :
    ∃ flags : List (ShortFlag g), flags.map ShortFlag.initial = initials := by
  induction initials with
  | nil => exact ⟨[], rfl⟩
  | cons initial initials ih =>
      rw [List.map_cons, List.forall_mem_cons] at accepted
      obtain ⟨flag, rfl⟩ := abbreviates_of_readShort accepted.1
      obtain ⟨flags, rfl⟩ := ih accepted.2
      exact ⟨flag :: flags, rfl⟩

theorem readLast_accepted {last : UInt8} {next : Option Bytes} (accepted : (g.readLast last next).1.problem g = none) :
    (∃ flag : ShortFlag g, flag.initial = last ∧ (g.readLast last next).2 = false) ∨
      ∃ setting : ShortSetting g, setting.initial = last ∧ next = some setting.value ∧ (g.readLast last next).2 = true := by
  cases looked : g.lookup.lookup last with
  | none => rw [readLast, looked] at accepted; cases accepted
  | some name =>
      cases name with
      | nil => rw [readLast, looked] at accepted; cases accepted
      | cons first rest =>
          have short : g.Abbreviates last (first :: rest) := ⟨looked, List.cons_ne_nil first rest⟩
          rw [readLast_eq short] at accepted ⊢
          rcases readOption_accepted accepted with ⟨flag, named, alone⟩ | ⟨setting, named, rfl, both⟩
          · exact Or.inl ⟨⟨flag, last, named ▸ short⟩, rfl, alone⟩
          · exact Or.inr ⟨⟨setting, last, named ▸ short⟩, rfl, rfl, both⟩

theorem single_of_not_long {initials : Bytes} (notLong : ¬ bytes "--" <+: dash :: initials) :
    initials.head? ≠ some dash := by
  intro double
  obtain ⟨rest, rfl⟩ : ∃ rest, initials = dash :: rest := by
    cases initials with
    | nil => cases double
    | cons first rest => exact ⟨rest, congrArg (· :: rest) (Option.some.inj double)⟩
  exact notLong ⟨rest, rfl⟩

/-- Every word that is read without an error is well formed, with the word behind it if it has been consumed. -/
theorem exists_word {arg : Bytes} {next : Option Bytes}
    (accepted : ∀ item ∈ (g.readArg arg next).1, item.problem g = none) :
    ∃ word : Word g, (g.readArg arg next).2 = false ∧ word.render = [arg] ∨
      ∃ value, next = some value ∧ (g.readArg arg next).2 = true ∧ word.render = [arg, value] := by
  by_cases long : bytes "--" <+: arg
  · obtain ⟨text, rfl⟩ := long
    by_cases joined : equals ∈ text
    · obtain ⟨name, value, rfl, plain⟩ := List.eq_append_cons_of_mem joined
      rw [← List.append_assoc, readArg_joined plain] at accepted ⊢
      obtain ⟨setting, rfl, rfl⟩ := setting_of_accepted (accepted _ List.mem_cons_self)
      exact ⟨.joined setting plain, Or.inl ⟨rfl, rfl⟩⟩
    · rw [readArg_long joined] at accepted ⊢
      rcases readOption_accepted (accepted _ List.mem_cons_self) with ⟨flag, rfl, alone⟩ | ⟨setting, rfl, rfl, both⟩
      · exact ⟨.long flag joined, Or.inl ⟨alone, rfl⟩⟩
      · exact ⟨.separate setting joined, Or.inr ⟨setting.value, rfl, both, rfl⟩⟩
  · by_cases short : bytes "-" <+: arg
    · obtain ⟨initials, rfl⟩ := short
      change ¬ bytes "--" <+: dash :: initials at long
      change ∀ item ∈ (g.readArg (dash :: initials) next).1, item.problem g = none at accepted
      change ∃ word : Word g, (g.readArg (dash :: initials) next).2 = false ∧ _ ∨
        ∃ value, next = some value ∧ (g.readArg (dash :: initials) next).2 = true ∧ _
      have single : initials.head? ≠ some dash := single_of_not_long long
      rcases List.eq_nil_or_concat' initials with rfl | ⟨front, last, rfl⟩
      · exact ⟨.cluster [] single, Or.inl ⟨rfl, rfl⟩⟩
      · rw [readArg_cluster single] at accepted ⊢
        obtain ⟨inFront, atLast⟩ := List.forall_mem_append.mp accepted
        obtain ⟨flags, rfl⟩ := flags_of_readShort inFront
        rcases readLast_accepted (atLast _ List.mem_cons_self) with ⟨flag, rfl, alone⟩ | ⟨setting, rfl, rfl, both⟩
        · refine ⟨.cluster (flags ++ [flag]) ?_, Or.inl ⟨alone, ?_⟩⟩
          · rwa [List.map_append]
          · rw [Word.render, List.map_append]
            rfl
        · exact ⟨.clusterWith flags setting single, Or.inr ⟨setting.value, rfl, both, rfl⟩⟩
    · refine ⟨.other arg short, Or.inl ⟨?_, rfl⟩⟩
      rw [readArg, if_neg long, if_neg short]

theorem exists_words {args : List Bytes} (accepted : ∀ item ∈ g.items args, item.problem g = none) :
    ∃ words : List (Word g), words.flatMap Word.render = args := by
  fun_induction items g args with
  | case1 => exact ⟨[], rfl⟩
  | case2 arg =>
      obtain ⟨word, ⟨-, rendered⟩ | ⟨value, absent, -⟩⟩ := exists_word accepted
      · exact ⟨[word], by rw [List.flatMap_singleton, rendered]⟩
      · cases absent
  | case3 arg next args read both ih =>
      obtain ⟨here, later⟩ := List.forall_mem_append.mp accepted
      obtain ⟨words, rfl⟩ := ih later
      have step : ∀ item ∈ (g.readArg arg (some next)).1, item.problem g = none := by rwa [both]
      obtain ⟨word, ⟨alone, -⟩ | ⟨value, found, -, rendered⟩⟩ := exists_word step
      · rw [both] at alone
        cases alone
      · obtain rfl := Option.some.inj found
        exact ⟨word :: words, by rw [List.flatMap_cons, rendered]; rfl⟩
  | case4 arg next args read alone ih =>
      obtain ⟨here, later⟩ := List.forall_mem_append.mp accepted
      obtain ⟨words, rendered'⟩ := ih later
      have step : ∀ item ∈ (g.readArg arg (some next)).1, item.problem g = none := by rwa [alone]
      obtain ⟨word, ⟨-, rendered⟩ | ⟨value, -, both, -⟩⟩ := exists_word step
      · exact ⟨word :: words, by rw [List.flatMap_cons, rendered, rendered']; rfl⟩
      · rw [alone] at both
        cases both

theorem accepted_items (word : Word g) : ∀ item ∈ word.items, item.problem g = none := by
  have ofFlag (flag : Flag g) : (Item.assign flag.name none).problem g = none :=
    Item.problem_assign_iff.mpr ⟨.flag, flag.kind_eq, rfl⟩
  have ofSetting (setting : Setting g) : (Item.assign setting.name (some setting.value)).problem g = none := by
    obtain ⟨readable, kind, read⟩ := setting.takes
    exact Item.problem_assign_iff.mpr ⟨.valued readable, kind, read⟩
  cases word with
  | long flag plain => exact List.forall_mem_singleton.mpr (ofFlag flag)
  | joined setting plain => exact List.forall_mem_singleton.mpr (ofSetting setting)
  | separate setting plain => exact List.forall_mem_singleton.mpr (ofSetting setting)
  | cluster flags single => exact List.forall_mem_map.mpr fun flag _ => ofFlag flag.toFlag
  | clusterWith flags last single =>
      exact List.forall_mem_append.mpr ⟨List.forall_mem_map.mpr fun flag _ => ofFlag flag.toFlag,
        List.forall_mem_singleton.mpr (ofSetting last.toSetting)⟩
  | other arg plain => exact List.forall_mem_singleton.mpr rfl

theorem accepted_words (words : List (Word g)) : ∀ item ∈ words.flatMap Word.items, item.problem g = none :=
  List.forall_mem_flatMap.mpr fun word _ => accepted_items word

end Grammar

/-! ## Parsing well-formed command lines -/

namespace Parser

variable {τ : Type} [ValueType τ] {p : Parser τ}

def written (words : List (Word p.rules)) (name : Bytes) : List (Option Bytes) := given (words.flatMap Word.items) name

theorem accepts_of_written {words : List (Word p.rules)} {name : Bytes} {value : Option Bytes}
    (member : value ∈ written words name) {option : OptionBase τ} (found : p.options.find? name = some option) :
    option.kind.accepts value = true := by
  have inside := mem_given_iff.mp member
  obtain ⟨kind, known, accepts⟩ := Item.problem_assign_iff.mp (Grammar.accepted_words words _ inside)
  have same : p.rules.kind name = some option.kind := by
    change (p.options.find? name).map _ = _
    rw [found, Option.map_some]
  obtain rfl := Option.some.inj (known.symm.trans same)
  exact accepts

theorem any_accepts_written (words : List (Word p.rules)) {name : Bytes} {option : OptionBase τ}
    (found : p.options.find? name = some option) :
    (written words name).any option.kind.accepts = !(written words name).isEmpty := by
  cases given : written words name with
  | nil => rfl
  | cons value values =>
      have accepts := accepts_of_written (given ▸ List.mem_cons_self) found
      rw [List.any_cons, accepts]
      rfl

def missing (p : Parser τ) (words : List (Word p.rules)) : List Bytes :=
  (p.options.entries.filter fun option =>
    option.must && !(option.hasSet || !(written words option.name).isEmpty)).map fun option => option.name

theorem missing_eq_nil_iff (words : List (Word p.rules)) : p.missing words = [] ↔
    ∀ option ∈ p.options.entries, option.must = true → option.hasSet = true ∨ written words option.name ≠ [] := by
  rw [missing, List.map_eq_nil_iff, List.filter_eq_nil_iff]
  refine forall_congr' fun option => imp_congr_right fun _ => ?_
  cases option.must <;> cases option.hasSet <;> simp

theorem unmet_words (words : List (Word p.rules)) : p.unmet (words.flatMap Word.items) = p.missing words := by
  refine congrArg _ (List.filter_congr fun option member => ?_)
  have found := p.options.find?_key_of_mem member
  change (option.must && !(option.hasSet || (written words option.name).any option.kind.accepts)) = _
  rw [any_accepts_written words found]

theorem problems_words (words : List (Word p.rules)) :
    (words.flatMap Word.items).filterMap (Item.problem p.rules) = [] :=
  List.filterMap_eq_nil_iff.mpr (Grammar.accepted_words words)

theorem accepts_words_iff (unambiguous : p.Unambiguous) (program : Bytes) (words : List (Word p.rules)) :
    (p.parse (program :: words.flatMap Word.render)).2 = true ↔ p.missing words = [] := by
  rw [accepts_iff program _ unambiguous, Grammar.items_words, problems_words, unmet_words, eq_self_iff_true, true_and]

theorem words_of_accepts (unambiguous : p.Unambiguous) {program : Bytes} {args : List Bytes}
    (accepts : (p.parse (program :: args)).2 = true) :
    ∃ words : List (Word p.rules), words.flatMap Word.render = args ∧ p.missing words = [] := by
  obtain ⟨clean, -⟩ := (accepts_iff program args unambiguous).mp accepts
  obtain ⟨words, rfl⟩ := Grammar.exists_words (List.filterMap_eq_nil_iff.mp clean)
  exact ⟨words, rfl, (accepts_words_iff unambiguous program words).mp accepts⟩

theorem getLast?_filterMap {α β : Type} {f : α → Option β} {values : List α} (all : ∀ a ∈ values, (f a).isSome = true) :
    (values.filterMap f).getLast? = values.getLast?.bind f := by
  rcases List.eq_nil_or_concat' values with rfl | ⟨front, last, rfl⟩
  · rfl
  · obtain ⟨b, read⟩ := Option.isSome_iff_exists.mp (all last (by simp))
    rw [List.filterMap_append, List.filterMap_cons_some read, List.getLast?_concat, Option.bind_some, read]
    exact List.getLast?_concat

theorem get_words [DecidableEq τ] (unambiguous : p.Unambiguous) (program : Bytes) (words : List (Word p.rules))
    (T : τ) (name : Bytes) :
    (p.parse (program :: words.flatMap Word.render)).1.get T name =
      (p.get T name).map fun actual =>
        ((written words name).getLast?.bind fun value => value.bind (p.reader T name)).getD actual := by
  rw [get_parse program _ unambiguous, Grammar.items_words]
  cases before : p.get T name with
  | error what => rfl
  | ok actual =>
      rw [← getLast?_filterMap]
      · rfl
      · intro value member
        obtain ⟨option, found⟩ := exists_of_get before
        have accepts := accepts_of_written member found
        rw [reader_eq found]
        cases value with
        | none => cases accepts
        | some value => exact accepts

theorem exist_words (unambiguous : p.Unambiguous) (program : Bytes) (words : List (Word p.rules)) {name : Bytes}
    {option : OptionBase τ} (found : p.options.find? name = some option) :
    (p.parse (program :: words.flatMap Word.render)).1.exist name =
      .ok (option.hasSet || !(written words name).isEmpty) := by
  rw [exist_parse program _ unambiguous, Grammar.items_words, found]
  exact congrArg (fun given => Except.ok (option.hasSet || given)) (any_accepts_written words found)

/-- Exactly the well-formed command lines that leave no needed option out are accepted. -/
theorem accepts_iff_words (unambiguous : p.Unambiguous) (program : Bytes) (args : List Bytes) :
    (p.parse (program :: args)).2 = true ↔
      ∃ words : List (Word p.rules), words.flatMap Word.render = args ∧
        ∀ option ∈ p.options.entries, option.must = true → option.hasSet = true ∨ written words option.name ≠ [] := by
  constructor
  · intro accepts
    obtain ⟨words, rendered, none⟩ := words_of_accepts unambiguous accepts
    exact ⟨words, rendered, (missing_eq_nil_iff words).mp none⟩
  · rintro ⟨words, rfl, all⟩
    exact (accepts_words_iff unambiguous program words).mpr ((missing_eq_nil_iff words).mpr all)

theorem accepts_iff_words_port : ∃ p, onlyPort = .ok p ∧
    ((p.parse [bytes "d", bytes "-p"]).2 = true ↔
      ∃ words : List (Word p.rules), words.flatMap Word.render = [bytes "-p"] ∧
        ∀ option ∈ p.options.entries, option.must = true → option.hasSet = true ∨ written words option.name ≠ []) :=
  ⟨_, rfl, accepts_iff_words (by decide) (bytes "d") [bytes "-p"]⟩

/-- What is written in any of the ways, in any order, arrives: the values that are written last, the words that
are not options, and no error but for needed options that are left out. -/
theorem parse_words [DecidableEq τ] (unambiguous : p.Unambiguous) (program : Bytes) (words : List (Word p.rules)) :
    (p.parse (program :: words.flatMap Word.render)).1.errors = (p.missing words).map needOption ∧
      (p.parse (program :: words.flatMap Word.render)).1.others =
        (words.flatMap Word.items).filterMap Item.other? ∧
      (∀ name, (p.parse (program :: words.flatMap Word.render)).1.exist name =
        (p.exist name).map fun before => before || !(written words name).isEmpty) ∧
      ∀ T name, (p.parse (program :: words.flatMap Word.render)).1.get T name =
        (p.get T name).map fun actual =>
          ((written words name).getLast?.bind fun value => value.bind (p.reader T name)).getD actual := by
  refine ⟨?_, ?_, fun name => ?_, get_words unambiguous program words⟩
  · rw [errors_parse program _ unambiguous, Grammar.items_words, problems_words, unmet_words, List.nil_append]
  · rw [others_parse program _ unambiguous, Grammar.items_words]
  · cases found : p.options.find? name with
    | some option =>
        rw [exist_words unambiguous program words found, exist, found]
        rfl
    | none =>
        rw [exist_parse program _ unambiguous, exist, found]
        rfl

theorem parse_words_port : ∃ p, onlyPort = .ok p ∧ ∃ words : List (Word p.rules),
    words.flatMap Word.render = [bytes "x", bytes "--port=9", bytes "-p", bytes "7"] ∧
      (p.parse (bytes "d" :: words.flatMap Word.render)).1.errors = [] ∧
      (p.parse (bytes "d" :: words.flatMap Word.render)).1.get .int (bytes "port") = .ok (int 7) := by
  refine ⟨_, rfl, [.other (bytes "x") (by decide),
    .joined ⟨bytes "port", bytes "9", _, rfl, rfl⟩ (by decide),
    .clusterWith [] ⟨⟨bytes "port", bytes "7", _, rfl, rfl⟩, 112, ⟨rfl, by decide⟩⟩ (by decide)], rfl, ?_, ?_⟩
  · exact (parse_words (by decide) (bytes "d") _).1.trans rfl
  · exact ((parse_words (by decide) (bytes "d") _).2.2.2 Scalar.int (bytes "port")).trans rfl

/-! ## Counting words -/

def valuedName? : Item → Option Bytes
  | .assign name (some _) => some name
  | _ => none

theorem length_valued_le (word : Word p.rules) : (word.items.filterMap valuedName?).length ≤ word.render.length := by
  have flags (flags : List (ShortFlag p.rules)) :
      (flags.map fun flag => Item.assign flag.name none).filterMap valuedName? = [] :=
    List.filterMap_eq_nil_iff.mpr (List.forall_mem_map.mpr fun flag _ => rfl)
  cases word with
  | long flag plain => exact Nat.zero_le _
  | joined setting plain => exact Nat.le_refl _
  | separate setting plain => exact Nat.le_succ _
  | cluster initials single =>
      rw [Word.items, flags]
      exact Nat.zero_le _
  | clusterWith initials last single =>
      rw [Word.items, List.filterMap_append, flags]
      exact Nat.le_succ _
  | other arg plain => exact Nat.zero_le _

theorem length_valued_words_le (words : List (Word p.rules)) :
    ((words.flatMap Word.items).filterMap valuedName?).length ≤ (words.flatMap Word.render).length := by
  induction words with
  | nil => exact Nat.le_refl 0
  | cons word words ih =>
      rw [List.flatMap_cons, List.filterMap_append, List.length_append, List.flatMap_cons, List.length_append]
      exact Nat.add_le_add (length_valued_le word) ih

/-- An accepted command line has at least as many words as there are needed options. -/
theorem needed_le_args (unambiguous : p.Unambiguous) {program : Bytes} {args : List Bytes}
    (accepts : (p.parse (program :: args)).2 = true) :
    (p.options.entries.filter fun option => option.must && !option.hasSet).length ≤ args.length := by
  obtain ⟨words, rfl, complete⟩ := words_of_accepts unambiguous accepts
  let needed := p.options.entries.filter fun option => option.must && !option.hasSet
  have distinct : (needed.map fun option => option.name).Nodup := by
    have sorted : needed.Pairwise fun a b => a.name < b.name := p.options.sorted.filter _
    exact List.pairwise_map.mpr (sorted.imp ne_of_lt)
  have valued : needed.map (fun option => option.name) ⊆ (words.flatMap Word.items).filterMap valuedName? := by
    intro name member
    obtain ⟨option, needs, rfl⟩ := List.mem_map.mp member
    obtain ⟨stored, must, unset⟩ : option ∈ p.options.entries ∧ option.must = true ∧ option.hasSet = false := by
      simpa [needed] using needs
    have writes : written words option.name ≠ [] := by
      have present := List.filter_eq_nil_iff.mp (List.map_eq_nil_iff.mp complete) option stored
      simpa [must, unset] using present
    obtain ⟨value, wrote⟩ := List.exists_mem_of_ne_nil _ writes
    have accepts := accepts_of_written wrote (p.options.find?_key_of_mem stored)
    refine List.mem_filterMap.mpr ⟨_, mem_given_iff.mp wrote, ?_⟩
    cases option with
    | withoutValue option => cases must
    | withValue option =>
        cases value with
        | none => cases accepts
        | some value => rfl
  calc needed.length
    _ = (needed.map fun option => option.name).length := (List.length_map _).symm
    _ ≤ ((words.flatMap Word.items).filterMap valuedName?).length := (List.Nodup.subperm distinct valued).length_le
    _ ≤ (words.flatMap Word.render).length := length_valued_words_le words

/-! ## Parsing again -/

theorem items_append_of_accepts (unambiguous : p.Unambiguous) {program : Bytes} {args : List Bytes}
    (accepts : (p.parse (program :: args)).2 = true) (more : List Bytes) :
    p.rules.items (args ++ more) = p.rules.items args ++ p.rules.items more := by
  obtain ⟨words, rfl, -⟩ := words_of_accepts unambiguous accepts
  rw [Grammar.items_words_append, Grammar.items_words]

theorem needErrors_congr {p q : Parser τ} (same : p.options = q.options) : p.needErrors = q.needErrors := by
  rw [needErrors, same, needErrors]

/-- After an accepted command line, a second call reads on as if the two had been one: the values that are set
stay, and what is missing has been asked for in both together. -/
theorem parse_again (unambiguous : p.Unambiguous) {program : Bytes} {args : List Bytes}
    (accepts : (p.parse (program :: args)).2 = true) (program' : Bytes) (more : List Bytes) :
    let q := (p.parse (program :: args)).1
    (q.parse (program' :: more)).1.options = (p.parse (program :: (args ++ more))).1.options ∧
      (q.parse (program' :: more)).1.errors = (p.parse (program :: (args ++ more))).1.errors ∧
      (q.parse (program' :: more)).2 = (p.parse (program :: (args ++ more))).2 ∧
      q.others ++ (q.parse (program' :: more)).1.others = (p.parse (program :: (args ++ more))).1.others := by
  intro q
  have joined := items_append_of_accepts unambiguous accepts more
  have clean := ((accepts_iff program args unambiguous).mp accepts).1
  have unambiguous' : q.Unambiguous := by
    rw [Unambiguous, shortNames_parse program args unambiguous]
    exact unambiguous
  have rules : q.rules = p.rules := rules_parse program args unambiguous
  have options : (q.parse (program' :: more)).1.options = (p.parse (program :: (args ++ more))).1.options := by
    rw [options_parse program' more unambiguous', rules, options_parse program args unambiguous,
      options_parse program _ unambiguous, joined, ← List.foldl_append, assignments, assignments, assignments,
      List.filterMap_append]
  have errors : (q.parse (program' :: more)).1.errors = (p.parse (program :: (args ++ more))).1.errors := by
    rw [errors_parse_needErrors program' more unambiguous', errors_parse_needErrors program _ unambiguous, rules, joined,
      List.filterMap_append, clean, List.nil_append, needErrors_congr options]
  refine ⟨options, errors, ?_, ?_⟩
  · rw [result_parse program' more unambiguous', result_parse program _ unambiguous, errors]
  · rw [others_parse program' more unambiguous', others_parse program args unambiguous,
      others_parse program _ unambiguous, rules, joined, List.filterMap_append]

theorem parse_again_port : ∃ p, onlyPort = .ok p ∧
    let q := (p.parse [bytes "d", bytes "-p", bytes "7"]).1
    (q.parse [bytes "d", bytes "x"]).2 = (p.parse [bytes "d", bytes "-p", bytes "7", bytes "x"]).2 :=
  ⟨_, rfl, (parse_again (by decide) (by decide) (bytes "d") [bytes "x"]).2.2.1⟩

end Parser
end Ddbclient.Cmdline

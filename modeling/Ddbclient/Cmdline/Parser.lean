import Ddbclient.StringUtil
import Ddbclient.Lib.Table
import Mathlib.Data.List.Lex

/-!
# The command line parser

`cmdline::parser` keeps the options of a program by their names, reads the words of a command line into
them, and collects the errors it meets on the way.
-/

namespace Ddbclient

instance byteLinearOrder : LinearOrder UInt8 where
  le_refl := UInt8.le_refl
  le_trans _ _ _ := UInt8.le_trans
  lt_iff_le_not_ge a b := by
    rw [UInt8.not_le]
    exact ⟨fun less => ⟨UInt8.le_of_lt less, less⟩, And.right⟩
  le_antisymm _ _ := UInt8.le_antisymm
  le_total := UInt8.le_total
  toDecidableLE := inferInstance

namespace Cmdline
open Lib

abbrev equals : UInt8 := 61

/-- The types that the value of an option may have, and what the templates use of each of them. -/
class ValueType (τ : Type) where
  Value : τ → Type
  readableTypename : τ → Bytes
  defaultValue (T : τ) : Value T → Bytes
  defaultReader (T : τ) : Bytes → Option (Value T)

export ValueType (Value readableTypename defaultValue defaultReader)

/-! ## Options -/

structure OptionWithoutValue where
  nam : Bytes
  snam : UInt8
  desc : Bytes
  has : Bool

/-- An option with a value and its reader, which gives nothing when it throws. -/
structure OptionWithValue {τ : Type} [ValueType τ] (T : τ) where
  nam : Bytes
  snam : UInt8
  need : Bool
  desc : Bytes
  has : Bool
  default : Value T
  actual : Value T
  read : Bytes → Option (Value T)

variable {τ : Type} [ValueType τ]

namespace OptionWithValue

def fullDescription (T : τ) (need : Bool) (default : Value T) (desc : Bytes) : Bytes :=
  desc ++ bytes " (" ++ readableTypename T ++
    (if need then [] else bytes " [=" ++ defaultValue T default ++ bytes "]") ++ bytes ")"

def new (T : τ) (name : Bytes) (short_name : UInt8) (need : Bool) (default : Value T) (desc : Bytes)
    (reader : Bytes → Option (Value T)) : OptionWithValue T :=
  ⟨name, short_name, need, fullDescription T need default desc, false, default, default, reader⟩

end OptionWithValue

inductive OptionBase (τ : Type) [ValueType τ] where
  | withoutValue (option : OptionWithoutValue)
  | withValue {T : τ} (option : OptionWithValue T)

namespace OptionBase

def name : OptionBase τ → Bytes
  | .withoutValue option => option.nam
  | .withValue option => option.nam

def shortName : OptionBase τ → UInt8
  | .withoutValue option => option.snam
  | .withValue option => option.snam

def description : OptionBase τ → Bytes
  | .withoutValue option => option.desc
  | .withValue option => option.desc

def shortDescription : OptionBase τ → Bytes
  | .withoutValue option => bytes "--" ++ option.nam
  | .withValue (T := T) option => bytes "--" ++ option.nam ++ bytes "=" ++ readableTypename T

def hasValue : OptionBase τ → Bool
  | .withoutValue _ => false
  | .withValue _ => true

def hasSet : OptionBase τ → Bool
  | .withoutValue option => option.has
  | .withValue option => option.has

def valid : OptionBase τ → Bool
  | .withoutValue _ => true
  | .withValue option => !(option.need && !option.has)

def must : OptionBase τ → Bool
  | .withoutValue _ => false
  | .withValue option => option.need

/-- `set()`; nothing when it returns false, and the option stays as it was. -/
def set : OptionBase τ → Option (OptionBase τ)
  | .withoutValue option => some (.withoutValue { option with has := true })
  | .withValue _ => none

/-- `set(value)`; nothing when it returns false, and the option stays as it was. -/
def setValue (value : Bytes) : OptionBase τ → Option (OptionBase τ)
  | .withoutValue _ => none
  | .withValue option =>
      match option.read value with
      | some actual => some (.withValue { option with actual := actual, has := true })
      | none => none

theorem name_set (option : OptionBase τ) : (option.set.getD option).name = option.name := by
  cases option <;> rfl

theorem name_setValue (value : Bytes) (option : OptionBase τ) :
    ((option.setValue value).getD option).name = option.name := by
  cases option with
  | withoutValue option => rfl
  | withValue option =>
      unfold setValue
      dsimp only
      cases option.read value <;> rfl

end OptionBase

abbrev Options (τ : Type) [ValueType τ] := Table fun option : OptionBase τ => option.name

def Options.names (options : Options τ) : List Bytes := options.entries.map fun option => option.name

/-! ## The parser -/

/-- `ordered` holds the options in the order in which they were added, each as its name. -/
structure Parser (τ : Type) [ValueType τ] where
  options : Options τ
  ordered : List Bytes
  ftr : Bytes
  prog_name : Bytes
  others : List Bytes
  errors : List Bytes
  ordered_perm : ordered.Perm options.names

namespace Parser

def new : Parser τ := ⟨Table.empty, [], [], [], [], [], List.Perm.nil⟩

def register (p : Parser τ) (option : OptionBase τ) : Except Bytes (Parser τ) :=
  if absent : p.options.find? option.name = none then
    .ok { p with
      options := p.options.insert option absent
      ordered := p.ordered ++ [option.name]
      ordered_perm := (List.perm_append_singleton _ _).trans
        ((p.ordered_perm.cons option.name).trans ((Table.place_perm option p.options.entries).map _).symm) }
  else .error (bytes "multiple definition: " ++ option.name)

def add (p : Parser τ) (name : Bytes) (short_name : UInt8) (desc : Bytes) : Except Bytes (Parser τ) :=
  p.register (.withoutValue ⟨name, short_name, desc, false⟩)

def addWithReader (p : Parser τ) (T : τ) (name : Bytes) (short_name : UInt8) (desc : Bytes) (need : Bool)
    (default : Value T) (reader : Bytes → Option (Value T)) : Except Bytes (Parser τ) :=
  p.register (.withValue (.new T name short_name need default desc reader))

def addWithValue (p : Parser τ) (T : τ) (name : Bytes) (short_name : UInt8) (desc : Bytes) (need : Bool)
    (default : Value T) : Except Bytes (Parser τ) :=
  p.addWithReader T name short_name desc need default (defaultReader T)

def noFlag (name : Bytes) : Bytes := bytes "there is no flag: --" ++ name

def exist (p : Parser τ) (name : Bytes) : Except Bytes Bool :=
  match p.options.find? name with
  | none => .error (noFlag name)
  | some option => .ok option.hasSet

def get [DecidableEq τ] (p : Parser τ) (T : τ) (name : Bytes) : Except Bytes (Value T) :=
  match p.options.find? name with
  | none => .error (noFlag name)
  | some (.withoutValue _) => .error (bytes "type mismatch flag '" ++ name ++ bytes "'")
  | some (.withValue (T := T') option) =>
      if same : T' = T then .ok (same ▸ option.actual)
      else .error (bytes "type mismatch flag '" ++ name ++ bytes "'")

/-! ## Parsing -/

def pushError (p : Parser τ) (message : Bytes) : Parser τ := { p with errors := p.errors ++ [message] }

def pushOther (p : Parser τ) (arg : Bytes) : Parser τ := { p with others := p.others ++ [arg] }

def undefinedOption (name : Bytes) : Bytes := bytes "undefined option: --" ++ name

def needsValue (name : Bytes) : Bytes := bytes "option needs value: --" ++ name

def invalidValue (name value : Bytes) : Bytes := bytes "option value is invalid: --" ++ name ++ bytes "=" ++ value

def undefinedShort (initial : UInt8) : Bytes := bytes "undefined short option: -" ++ [initial]

def ambiguousShort (initial : UInt8) : Bytes := bytes "ambiguous short option: -" ++ [initial]

def update (p : Parser τ) (name : Bytes) (f : OptionBase τ → OptionBase τ)
    (keeps : ∀ option, (f option).name = option.name) : Parser τ :=
  { p with
    options := p.options.modify name f keeps
    ordered_perm := by
      rw [Options.names, Table.map_key_modify]
      exact p.ordered_perm }

def setOption (p : Parser τ) (name : Bytes) : Parser τ :=
  match p.options.find? name with
  | none => p.pushError (undefinedOption name)
  | some option =>
      match option.set with
      | none => p.pushError (needsValue name)
      | some _ => p.update name (fun option => option.set.getD option) OptionBase.name_set

def setOptionValue (p : Parser τ) (name value : Bytes) : Parser τ :=
  match p.options.find? name with
  | none => p.pushError (undefinedOption name)
  | some option =>
      match option.setValue value with
      | none => p.pushError (invalidValue name value)
      | some _ => p.update name (fun option => (option.setValue value).getD option) (OptionBase.name_setValue value)

abbrev Lookup := List (UInt8 × Bytes)

def lookupLoop : List (OptionBase τ) → Lookup → Except Bytes Lookup
  | [], lookup => .ok lookup
  | option :: options, lookup =>
      let initial := option.shortName
      if option.name.length = 0 then lookupLoop options lookup
      else if initial = 0 then lookupLoop options lookup
      else if (lookup.lookup initial).isSome then
        .error (bytes "short option '" ++ [initial] ++ bytes "' is ambiguous")
      else lookupLoop options ((initial, option.name) :: lookup)

def hasValue (p : Parser τ) (name : Bytes) : Bool := (p.options.find? name).any fun option => option.hasValue

def parseLong (p : Parser τ) (name : Bytes) (next : Option Bytes) : Parser τ × Bool :=
  match p.options.find? name with
  | none => (p.pushError (undefinedOption name), false)
  | some option =>
      if option.hasValue then
        match next with
        | none => (p.pushError (needsValue name), false)
        | some value => (p.setOptionValue name value, true)
      else (p.setOption name, false)

def parseShort (lookup : Lookup) (p : Parser τ) (initial : UInt8) : Parser τ :=
  match lookup.lookup initial with
  | none => p.pushError (undefinedShort initial)
  | some [] => p.pushError (ambiguousShort initial)
  | some name => p.setOption name

def parseLast (lookup : Lookup) (p : Parser τ) (last : UInt8) (next : Option Bytes) : Parser τ × Bool :=
  match lookup.lookup last with
  | none => (p.pushError (undefinedShort last), false)
  | some [] => (p.pushError (ambiguousShort last), false)
  | some name =>
      match next with
      | some value => if p.hasValue name then (p.setOptionValue name value, true) else (p.setOption name, false)
      | none => (p.setOption name, false)

/-- One iteration of the loop over the words: what it makes of the parser, and whether it has consumed the
next word as well. -/
def parseArg (lookup : Lookup) (p : Parser τ) (arg : Bytes) (next : Option Bytes) : Parser τ × Bool :=
  if bytes "--" <+: arg then
    let text := arg.drop 2
    if equals ∈ text then
      let name := text.takeWhile (· ≠ equals)
      let val := (text.dropWhile (· ≠ equals)).drop 1
      (p.setOptionValue name val, false)
    else parseLong p text next
  else if bytes "-" <+: arg then
    match (arg.drop 1).getLast? with
    | none => (p, false)
    | some last => parseLast lookup ((arg.drop 1).dropLast.foldl (parseShort lookup) p) last next
  else (p.pushOther arg, false)

def parseLoop (lookup : Lookup) (p : Parser τ) : List Bytes → Parser τ
  | [] => p
  | [arg] => (parseArg lookup p arg none).1
  | arg :: next :: args =>
      match parseArg lookup p arg (some next) with
      | (p, true) => parseLoop lookup p args
      | (p, false) => parseLoop lookup p (next :: args)

def needOption (name : Bytes) : Bytes := bytes "need option: --" ++ name

def needErrors (p : Parser τ) : List Bytes :=
  (p.options.entries.filter fun option => !option.valid).map fun option => needOption option.name

def parse (p : Parser τ) : List Bytes → Parser τ × Bool
  | [] => ({ p with others := [], errors := [bytes "argument number must be longer than 0"] }, false)
  | program :: args =>
      let p := { p with others := [], errors := [], prog_name := if p.prog_name = [] then program else p.prog_name }
      match lookupLoop p.options.entries [] with
      | .error message => (p.pushError message, false)
      | .ok lookup =>
          let p := parseLoop lookup p args
          let p := { p with errors := p.errors ++ p.needErrors }
          (p, p.errors.length = 0)

def error (p : Parser τ) : Bytes := p.errors.headD []

/-! ## The usage text -/

def usageLine (max_width : Nat) (option : OptionBase τ) : Bytes :=
  (if option.shortName ≠ 0 then bytes "  -" ++ [option.shortName] ++ bytes ", " else bytes "      ") ++
    bytes "--" ++ option.name ++ List.replicate (max_width + 4 - option.name.length) space ++
    option.description ++ [newline]

def orderedOptions (p : Parser τ) : List (OptionBase τ) := p.ordered.filterMap p.options.find?

def usage (p : Parser τ) : Bytes :=
  let ordered := p.orderedOptions
  let max_width := ordered.foldl (fun max_width option => max max_width option.name.length) 0
  bytes "usage: " ++ p.prog_name ++ bytes " " ++
    ordered.flatMap (fun option => if option.must then option.shortDescription ++ bytes " " else []) ++
    bytes "[options] ... " ++ p.ftr ++ [newline] ++ bytes "options:\n" ++ ordered.flatMap (usageLine max_width)

/-! ## Parsing, or else leaving the program -/

/-- A call of `exit`, after a text has been written to `cerr`. -/
structure Exit where
  status : Nat
  cerr : Bytes

def help : Bytes := bytes "help"

def check (p : Parser τ) (argc : Nat) (ok : Bool) : Except Bytes (Option Exit) := do
  let helped ← if argc = 1 ∧ ok = false then pure true else p.exist help
  if helped then return some ⟨0, p.usage⟩
  else if ok = false then return some ⟨1, p.error ++ [newline] ++ p.usage⟩
  else return none

def addHelp (p : Parser τ) : Except Bytes (Parser τ) :=
  if (p.options.find? help).isNone then p.add help 63 (bytes "print this message") else .ok p

def parseCheck (p : Parser τ) (argv : List Bytes) : Except Bytes (Parser τ × Option Exit) := do
  let p ← p.addHelp
  let (p, ok) := p.parse argv
  let exits ← p.check argv.length ok
  return (p, exits)

end Parser
end Cmdline
end Ddbclient

import Ddbclient.ClientMain.Ending

/-!
# From the words to the connection

What the user writes on the command line, in whatever order and style, is what the program connects with and
what it runs.
-/

namespace Ddbclient
open Lib Lib.Checked Cmdline Cmdline.Parser

abbrev CommandWord := Word programParser.rules

section Meaning
variable (words : List CommandWord)

def textOf (name : Bytes) : Bytes := ((written words name).getLast?.bind fun value => value).getD []

def portOf : CInt :=
  ((written words (bytes "port")).getLast?.bind fun value => value.bind (rangeReader (int 1) (int 65535))).getD
    (int 8848)

def isWritten (name : Bytes) : Bool := !(written words name).isEmpty

def connectionOf : Connection where
  host := textOf words (bytes "host")
  port := portOf words
  username := textOf words (bytes "username")
  password := textOf words (bytes "password")
  useSSL := isWritten words (bytes "secure")

def optionalText (name : Bytes) : Option Bytes := if isWritten words name then some (textOf words name) else none

def optionsOf : Options := ⟨optionalText words (bytes "file"), optionalText words (bytes "script")⟩

end Meaning

variable {words : List CommandWord} (program : Bytes)

def neededNames : List Bytes := [bytes "host", bytes "username", bytes "password"]

structure Complete (words : List CommandWord) : Prop where
  needed : ∀ name ∈ neededNames, isWritten words name = true
  unasked : isWritten words Parser.help = false

theorem needed_of_must : ∀ option ∈ programParser.options.entries, option.must = true →
    option.name ∈ neededNames ∧ option.hasSet = false := by decide

theorem must_of_needed : ∀ name ∈ neededNames,
    ∃ option ∈ programParser.options.entries, option.must = true ∧ option.name = name := by decide

theorem isWritten_iff {name : Bytes} : isWritten words name = true ↔ written words name ≠ [] := by
  rw [isWritten, Bool.not_eq_true', List.isEmpty_eq_false_iff]

theorem missing_nil_iff :
    programParser.missing words = [] ↔ ∀ name ∈ neededNames, isWritten words name = true := by
  rw [missing_eq_nil_iff]
  constructor
  · intro complete name needed
    obtain ⟨option, stored, must, rfl⟩ := must_of_needed name needed
    have unset := (needed_of_must option stored must).2
    exact isWritten_iff.mpr ((complete option stored must).resolve_left (by simp [unset]))
  · intro complete option stored must
    exact Or.inr (isWritten_iff.mp (complete _ (needed_of_must option stored must).1))

theorem getString_words (name : Bytes) (declared : programParser.get .string name = .ok [])
    (plain : programParser.reader .string name = fun text => some text) :
    getString (programParser.parse (program :: words.flatMap Word.render)).1 name = .ok (textOf words name) := by
  rw [getString, get_words programParser_unambiguous, declared, plain]
  change Except.ok (((written words name).getLast?.bind fun value => value.bind some).getD []) = _
  simp only [Option.bind_fun_some]
  rfl

theorem exist_isWritten (name : Bytes) {option : OptionBase Scalar}
    (declared : programParser.options.find? name = some option) (unset : option.hasSet = false) :
    (programParser.parse (program :: words.flatMap Word.render)).1.exist name = .ok (isWritten words name) := by
  rw [exist_words programParser_unambiguous program words declared, unset]
  rfl

theorem getOptional_words (name : Bytes) {option : OptionBase Scalar}
    (declared : programParser.options.find? name = some option) (unset : option.hasSet = false)
    (isString : programParser.get .string name = .ok [])
    (plain : programParser.reader .string name = fun text => some text) :
    getOptional (programParser.parse (program :: words.flatMap Word.render)).1 name = .ok (optionalText words name) := by
  unfold getOptional optionalText
  rw [exist_isWritten program name declared unset]
  cases isWritten words name with
  | false => rfl
  | true =>
      change (do return some (← getString _ name)) = _
      rw [getString_words program name isString plain]
      rfl

theorem readOptions_words :
    readOptions (programParser.parse (program :: words.flatMap Word.render)).1 = .ok (optionsOf words) := by
  unfold readOptions
  rw [getOptional_words program (bytes "file") rfl rfl rfl rfl,
    getOptional_words program (bytes "script") rfl rfl rfl rfl]
  rfl

theorem getInt_words :
    getInt (programParser.parse (program :: words.flatMap Word.render)).1 (bytes "port") = .ok (portOf words) := by
  rw [getInt, get_words programParser_unambiguous]
  rfl

theorem accepts_of_needed (needed : ∀ name ∈ neededNames, isWritten words name = true) :
    (programParser.parse (program :: words.flatMap Word.render)).2 = true :=
  (accepts_words_iff programParser_unambiguous program words).mpr (missing_nil_iff.mpr needed)

theorem exist_help_words :
    (programParser.parse (program :: words.flatMap Word.render)).1.exist Parser.help =
      .ok (isWritten words Parser.help) := exist_isWritten program Parser.help rfl rfl

theorem not_asksHelp_of_complete (complete : Complete words) : ¬ AsksHelp (program :: words.flatMap Word.render) := by
  rintro (alone | asks)
  · have enough := four_le_of_accepted (accepts_of_needed program complete.needed)
    omega
  · rw [exist_help_words, complete.unasked] at asks
    cases asks

theorem accepted_of_complete (complete : Complete words) :
    Accepted (program :: words.flatMap Word.render) (connectionOf words) (optionsOf words) where
  unasked := not_asksHelp_of_complete program complete
  accepted := accepts_of_needed program complete.needed
  connects := by
    have enough := four_le_of_accepted (accepts_of_needed program complete.needed)
    unfold readConnection
    rw [if_neg (Nat.not_lt.mpr enough), exist_help_words, complete.unasked,
      getString_words program (bytes "host") rfl rfl, getInt_words,
      getString_words program (bytes "username") rfl rfl,
      getString_words program (bytes "password") rfl rfl,
      exist_isWritten program (bytes "secure") rfl rfl]
    rfl
  scripts := readOptions_words program

theorem complete_of_accepted {args : List Bytes} {c : Connection} {o : Options} (accepted : Accepted (program :: args) c o) :
    ∃ words : List CommandWord, words.flatMap Word.render = args ∧ Complete words := by
  obtain ⟨words, rfl, none⟩ := words_of_accepts programParser_unambiguous accepted.accepted
  refine ⟨words, rfl, missing_nil_iff.mp none, ?_⟩
  cases asks : isWritten words Parser.help with
  | false => rfl
  | true => exact absurd (Or.inr (by rw [exist_help_words, asks])) accepted.unasked

/-- The program goes on exactly when its command line is made of well-formed words, with a host, a user name and
a password among them and no `--help`. It then connects with the values that are written last, in whatever
order and style, and runs the script or file that is written last. -/
theorem accepted_iff_words (args : List Bytes) (c : Connection) (o : Options) :
    Accepted (program :: args) c o ↔ ∃ words : List CommandWord,
      words.flatMap Word.render = args ∧ Complete words ∧ c = connectionOf words ∧ o = optionsOf words := by
  constructor
  · intro accepted
    obtain ⟨words, rfl, complete⟩ := complete_of_accepted program accepted
    obtain ⟨rfl, rfl⟩ := accepted.unique (accepted_of_complete program complete)
    exact ⟨words, rfl, complete, rfl, rfl⟩
  · rintro ⟨words, rfl, complete, rfl, rfl⟩
    exact accepted_of_complete program complete

end Ddbclient

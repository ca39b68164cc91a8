import Ddbclient.Cmdline.Parser
import Mathlib.Data.Nat.Bits

/-!
# A command line in one string

`parse` also takes the whole command line as one string. Blanks end an argument unless they are quoted, and a
backslash takes the character behind it as it is.
-/

namespace Ddbclient.Cmdline

abbrev quote : UInt8 := 34

def unexpectedBackslash : Bytes := bytes "unexpected occurrence of '\\' at end of string"

def unclosedQuote : Bytes := bytes "quote is not closed"

def splitLoop : Bytes → Bytes → Bool → List Bytes → Except Bytes (List Bytes)
  | [], buf, in_quote, args =>
      if in_quote then .error unclosedQuote
      else if buf.length > 0 then .ok (args ++ [buf])
      else .ok args
  | c :: arg, buf, in_quote, args =>
      if c = quote then splitLoop arg buf (!in_quote) args
      else if c = space ∧ in_quote = false then splitLoop arg [] in_quote (args ++ [buf])
      else if c = backslash then
        match arg with
        | [] => .error unexpectedBackslash
        | c :: arg => splitLoop arg (buf ++ [c]) in_quote args
      else splitLoop arg (buf ++ [c]) in_quote args

def splitArgs (arg : Bytes) : Except Bytes (List Bytes) := splitLoop arg [] false []

/-- `args[i].c_str()` as the parser reads it: up to the first zero. -/
def cString (arg : Bytes) : Bytes := arg.takeWhile (· ≠ 0)

namespace Parser

variable {τ : Type} [ValueType τ]

def parseArgs (p : Parser τ) (args : List Bytes) : Parser τ × Bool := p.parse (args.map cString)

def printArgs (args : List Bytes) : Bytes := args.flatMap fun arg => [quote] ++ arg ++ [quote, newline]

/-- The parser afterwards, the value that `parse` returns, and what it writes to `cout`. -/
def parseText (p : Parser τ) (arg : Bytes) : Parser τ × Bool × Bytes :=
  match splitArgs arg with
  | .error message => (p.pushError message, false, [])
  | .ok args => ((p.parseArgs args).1, (p.parseArgs args).2, printArgs args)

end Parser

/-! ## Writing a command line -/

def escape (c : UInt8) : Bytes := if c = quote ∨ c = backslash then [backslash, c] else [c]

def quoted (arg : Bytes) : Bytes := quote :: (arg.flatMap escape ++ [quote])

/-- Every argument in quotes, followed by a blank: without the last one, an empty argument at the end is lost. -/
def commandText (args : List Bytes) : Bytes := args.flatMap fun arg => quoted arg ++ [space]

section Steps

variable (arg buf : Bytes) (in_quote : Bool) (args : List Bytes)

theorem splitLoop_quote : splitLoop (quote :: arg) buf in_quote args = splitLoop arg buf (!in_quote) args := by
  rw [splitLoop.eq_def]
  exact if_pos rfl

theorem splitLoop_space : splitLoop (space :: arg) buf false args = splitLoop arg [] false (args ++ [buf]) := by
  rw [splitLoop.eq_def]
  simp only [show space ≠ quote by decide, and_self, if_false, if_true]

theorem splitLoop_backslash (c : UInt8) :
    splitLoop (backslash :: c :: arg) buf in_quote args = splitLoop arg (buf ++ [c]) in_quote args := by
  rw [splitLoop.eq_def]
  simp only [show backslash ≠ quote by decide, show backslash ≠ space by decide, false_and, if_false, if_true]

theorem splitLoop_dangling : splitLoop [backslash] buf in_quote args = .error unexpectedBackslash := by
  rw [splitLoop.eq_def]
  simp only [show backslash ≠ quote by decide, show backslash ≠ space by decide, false_and, if_false, if_true]

theorem splitLoop_plain {c : UInt8} (notQuote : c ≠ quote) (notBackslash : c ≠ backslash)
    (inside : ¬ (c = space ∧ in_quote = false)) :
    splitLoop (c :: arg) buf in_quote args = splitLoop arg (buf ++ [c]) in_quote args := by
  rw [splitLoop.eq_def]
  simp only [notQuote, notBackslash, inside, if_false]

end Steps

theorem splitLoop_escape (c : UInt8) (arg buf : Bytes) (args : List Bytes) :
    splitLoop (escape c ++ arg) buf true args = splitLoop arg (buf ++ [c]) true args := by
  unfold escape
  by_cases special : c = quote ∨ c = backslash
  · rw [if_pos special]
    exact splitLoop_backslash arg buf true args c
  · rw [if_neg special]
    exact splitLoop_plain arg buf true args (fun same => special (Or.inl same)) (fun same => special (Or.inr same)) nofun

theorem splitLoop_escaped (text arg buf : Bytes) (args : List Bytes) :
    splitLoop (text.flatMap escape ++ arg) buf true args = splitLoop arg (buf ++ text) true args := by
  induction text generalizing buf with
  | nil => rw [List.flatMap_nil, List.nil_append, List.append_nil]
  | cons c text ih =>
      rw [List.flatMap_cons, List.append_assoc, splitLoop_escape, ih, List.append_assoc, List.singleton_append]

theorem splitLoop_quoted (text arg : Bytes) (args : List Bytes) :
    splitLoop (quoted text ++ space :: arg) [] false args = splitLoop arg [] false (args ++ [text]) := by
  have opened : quoted text ++ space :: arg = quote :: (text.flatMap escape ++ quote :: space :: arg) := by simp [quoted]
  rw [opened, splitLoop_quote, Bool.not_false, splitLoop_escaped, splitLoop_quote, Bool.not_true, splitLoop_space,
    List.nil_append]

theorem splitLoop_commandText (written args : List Bytes) :
    splitLoop (commandText written) [] false args = .ok (args ++ written) := by
  induction written generalizing args with
  | nil => rw [List.append_nil]; rfl
  | cons text written ih =>
      have first : commandText (text :: written) = quoted text ++ space :: commandText written := by simp [commandText]
      rw [first, splitLoop_quoted, ih, List.append_assoc, List.singleton_append]

theorem splitArgs_commandText (args : List Bytes) : splitArgs (commandText args) = .ok args :=
  splitLoop_commandText args []

/-! ## Texts that are refused -/

/-- The number of quotes that are not behind a backslash; nothing when the last backslash has no character behind
it. -/
def countQuotes : Bytes → Option Nat
  | [] => some 0
  | c :: text =>
      if c = backslash then
        match text with
        | [] => none
        | _ :: text => countQuotes text
      else (countQuotes text).map fun count => if c = quote then count + 1 else count

inductive Outcome : Option Nat → Bool → Except Bytes (List Bytes) → Prop where
  | dangling (in_quote : Bool) : Outcome none in_quote (.error unexpectedBackslash)
  | unclosed {count : Nat} {in_quote : Bool} (odd : count.bodd ≠ in_quote) :
      Outcome (some count) in_quote (.error unclosedQuote)
  | split {count : Nat} {in_quote : Bool} (even : count.bodd = in_quote) (args : List Bytes) :
      Outcome (some count) in_quote (.ok args)

theorem Outcome.quote {count : Option Nat} {in_quote : Bool} {result : Except Bytes (List Bytes)}
    (outcome : Outcome count (!in_quote) result) : Outcome (count.map (· + 1)) in_quote result := by
  cases outcome with
  | dangling => exact .dangling in_quote
  | unclosed odd =>
      refine .unclosed fun even => odd ?_
      rw [Nat.bodd_succ] at even
      rw [← even, Bool.not_not]
  | split even args =>
      refine .split ?_ args
      rw [Nat.bodd_succ, even, Bool.not_not]

theorem splitLoop_outcome (text buf : Bytes) (in_quote : Bool) (args : List Bytes) :
    Outcome (countQuotes text) in_quote (splitLoop text buf in_quote args) := by
  induction text using countQuotes.induct generalizing buf in_quote args with
  | case1 =>
      cases in_quote with
      | true => exact .unclosed Bool.false_ne_true
      | false =>
          change Outcome (some 0) false (if buf.length > 0 then .ok (args ++ [buf]) else .ok args)
          split
          · exact .split rfl _
          · exact .split rfl _
  | case2 =>
      rw [splitLoop_dangling]
      exact .dangling in_quote
  | case3 c text ih =>
      rw [splitLoop_backslash, countQuotes.eq_def]
      exact ih (buf ++ [c]) in_quote args
  | case4 c text notBackslash ih =>
      have count : countQuotes (c :: text) =
          (countQuotes text).map fun count => if c = quote then count + 1 else count := by
        rw [countQuotes.eq_def]
        exact if_neg notBackslash
      rw [count]
      by_cases isQuote : c = quote
      · subst isQuote
        rw [splitLoop_quote]
        simp only [if_true]
        exact (ih buf (!in_quote) args).quote
      · simp only [if_neg isQuote, Option.map_id']
        by_cases blank : c = space ∧ in_quote = false
        · obtain ⟨rfl, rfl⟩ := blank
          rw [splitLoop_space]
          exact ih [] false _
        · rw [splitLoop_plain text buf in_quote args isQuote notBackslash blank]
          exact ih (buf ++ [c]) in_quote args

namespace Parser

variable {τ : Type} [ValueType τ]

/-- Any arguments can be written as one string, and the parser then does what it does with the arguments. A string
is not read at all exactly when it ends behind a lone backslash or inside quotes. -/
theorem parse_text (p : Parser τ) :
    (∀ args, p.parseText (commandText args) = ((p.parseArgs args).1, (p.parseArgs args).2, printArgs args)) ∧
      ∀ text, match countQuotes text with
        | none => p.parseText text = (p.pushError unexpectedBackslash, false, [])
        | some count =>
            if count.bodd then p.parseText text = (p.pushError unclosedQuote, false, [])
            else ∃ args, p.parseText text = ((p.parseArgs args).1, (p.parseArgs args).2, printArgs args) := by
  constructor
  · intro args
    rw [parseText, splitArgs_commandText]
  · intro text
    have outcome : Outcome (countQuotes text) false (splitArgs text) := splitLoop_outcome text [] false []
    unfold parseText
    generalize countQuotes text = quotes at outcome ⊢
    generalize splitArgs text = result at outcome ⊢
    cases outcome with
    | dangling => rfl
    | unclosed odd => exact (if_pos (Bool.of_not_eq_false odd)).mpr rfl
    | split even args => exact (if_neg (Bool.eq_false_iff.mp even)).mpr ⟨args, rfl⟩

end Parser
end Ddbclient.Cmdline

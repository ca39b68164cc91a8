import Ddbclient.Lib.Checked
import Ddbclient.Lib.Search
import Mathlib.Data.List.TakeWhile

/-!
# Byte strings

A `std::string` is a list of bytes. Besides `StringUtil` this file holds the functions of the C++
library that the client calls on strings and numbers.
-/

namespace Ddbclient
open Lib.Checked Lib.Search

abbrev Bytes := List UInt8

def bytes (text : String) : Bytes := text.toUTF8.data.toList

abbrev newline : UInt8 := 10
abbrev space : UInt8 := 32
abbrev dash : UInt8 := 45
abbrev dot : UInt8 := 46
abbrev backslash : UInt8 := 92

namespace StringUtil

def endsWith (str suffix : Bytes) : Bool :=
  if str.length < suffix.length then false
  else str.drop (str.length - suffix.length) = suffix

theorem endsWith_iff (str suffix : Bytes) : endsWith str suffix = true ↔ suffix <:+ str := by
  unfold endsWith
  split
  · rename_i short
    simp only [Bool.false_eq_true, false_iff]
    intro ends
    have := ends.length_le
    omega
  · rw [decide_eq_true_eq, eq_comm, ← List.suffix_iff_eq_drop]

theorem endsWith_singleton (str : Bytes) (b : UInt8) :
    endsWith str [b] = true ↔ str.getLast? = some b := by
  rw [endsWith_iff, List.getLast?_eq_some_iff]
  exact exists_congr fun _ => eq_comm

def contains (str substr : Bytes) : Bool := (find substr str).isSome

theorem contains_singleton (str : Bytes) (b : UInt8) : contains str [b] = true ↔ b ∈ str := by
  rw [contains, find_isSome_iff, List.singleton_infix_iff]

end StringUtil

/-- `std::to_string` and `operator<<` of an `int`. -/
def decimal (x : Int) : Bytes :=
  (if x < 0 then [dash] else []) ++ (Nat.toDigits 10 x.natAbs).map Char.toUInt8

theorem isDigit_bounds {c : Char} (digit : c.isDigit = true) : 48 ≤ c.toNat ∧ c.toNat ≤ 57 := by
  simp only [Char.isDigit, Bool.and_eq_true, decide_eq_true_eq, UInt32.le_iff_toNat_le] at digit
  exact digit

theorem toNat_toUInt8 {c : Char} (digit : c.isDigit = true) : c.toUInt8.toNat = c.toNat := by
  have bounds := isDigit_bounds digit
  change (c.val.toUInt8).toNat = c.val.toNat
  change _ ∧ c.val.toNat ≤ 57 at bounds
  rw [UInt32.toNat_toUInt8, Nat.mod_eq_of_lt (by omega)]

theorem toUInt8_isDigit {c : Char} (digit : c.isDigit = true) : 48 ≤ c.toUInt8 ∧ c.toUInt8 ≤ 57 := by
  rw [UInt8.le_iff_toNat_le, UInt8.le_iff_toNat_le, toNat_toUInt8 digit]
  exact isDigit_bounds digit

theorem decimal_bounds (x : Int) : ∀ b ∈ decimal x, 45 ≤ b ∧ b ≤ 57 := by
  intro b member
  rcases List.mem_append.mp member with sign | digit
  · split at sign
    · obtain rfl := List.mem_singleton.mp sign
      decide
    · cases sign
  · obtain ⟨c, digits, rfl⟩ := List.mem_map.mp digit
    obtain ⟨low, high⟩ := toUInt8_isDigit (Nat.isDigit_of_mem_toDigits (by decide) (by decide) digits)
    exact ⟨Nat.le_trans (by decide) low, high⟩

def isspace (b : UInt8) : Bool := b = space || (9 ≤ b && b ≤ 13)

def isdigit (b : UInt8) : Bool := 48 ≤ b && b ≤ 57

/-- The number that `strtol` reads in base 10, before it is brought into any range: leading blanks,
an optional sign, digits. Nothing when there are no digits. -/
def readNumber (str : Bytes) : Option Int :=
  let (negative, str) : Bool × Bytes := match str.dropWhile isspace with
    | 45 :: rest => (true, rest)
    | 43 :: rest => (false, rest)
    | rest => (false, rest)
  match str.takeWhile isdigit with
  | [] => none
  | digits =>
      let value : Int := digits.foldl (fun value b => 10 * value + (b.toNat - 48 : Nat)) 0
      some (if negative then -value else value)

/-- `std::stoi`; nothing when it throws `invalid_argument` or `out_of_range`. -/
def stoi (str : Bytes) : Option CInt :=
  match readNumber str with
  | none => none
  | some value => if fits : InInt value then some ⟨value, fits⟩ else none

/-- `atoi`, as the library computes it: `strtol` clamps to the range of `long`, the result is then
reduced to `int`. -/
def atoi (str : Bytes) : CInt :=
  int (max (-2 ^ 63) (min (2 ^ 63 - 1) ((readNumber str).getD 0)))

/-! ## Reading back what was printed -/

theorem isdigit_toUInt8 {c : Char} (digit : c.isDigit = true) : isdigit c.toUInt8 = true := by
  obtain ⟨low, high⟩ := toUInt8_isDigit digit
  simp only [isdigit, low, high, decide_true, Bool.and_self]

def digitsValue (start : Int) (digits : Bytes) : Int :=
  digits.foldl (fun value b => 10 * value + (b.toNat - 48 : Nat)) start

theorem digitsValue_toUInt8 {digits : List Char} (all : ∀ c ∈ digits, c.isDigit = true) (start : Nat) :
    digitsValue start (digits.map Char.toUInt8) = Nat.ofDigitChars 10 digits start := by
  induction digits generalizing start with
  | nil => rfl
  | cons c digits ih =>
      have later := ih (fun d member => all d (List.mem_cons_of_mem _ member)) (10 * start + (c.toNat - 48))
      rw [Nat.ofDigitChars_cons]
      refine Eq.trans ?_ later
      simp only [digitsValue, List.map_cons, List.foldl_cons, toNat_toUInt8 (all c List.mem_cons_self)]
      rfl

theorem isspace_eq_false {b : UInt8} (low : 45 ≤ b) : isspace b = false := by
  have low : 45 ≤ b.toNat := low
  have notSpace : b ≠ space := by
    rintro rfl
    exact absurd low (by decide)
  have above : ¬ b ≤ 13 := by
    intro high
    have : b.toNat ≤ 13 := high
    omega
  simp only [isspace, notSpace, above, decide_false, Bool.and_false, Bool.or_self]

theorem takeWhile_isdigit {digits : Bytes} (all : ∀ b ∈ digits, isdigit b = true) : digits.takeWhile isdigit = digits :=
  List.takeWhile_eq_self_iff.mpr all

theorem readNumber_negative {digits : Bytes} (nonempty : digits ≠ []) (all : ∀ b ∈ digits, isdigit b = true) :
    readNumber (dash :: digits) = some (-digitsValue 0 digits) := by
  have blanks : (dash :: digits).dropWhile isspace = dash :: digits := rfl
  rw [readNumber, blanks]
  simp only [takeWhile_isdigit all]
  cases digits with
  | nil => exact absurd rfl nonempty
  | cons b rest => rfl

theorem readNumber_digits {digits : Bytes} (nonempty : digits ≠ []) (all : ∀ b ∈ digits, isdigit b = true) :
    readNumber digits = some (digitsValue 0 digits) := by
  cases digits with
  | nil => exact absurd rfl nonempty
  | cons b rest =>
      have low : 48 ≤ b := by
        have := all b List.mem_cons_self
        simp only [isdigit, Bool.and_eq_true, decide_eq_true_eq] at this
        exact this.1
      have blanks : (b :: rest).dropWhile isspace = b :: rest := by
        rw [List.dropWhile_cons, isspace_eq_false (Nat.le_trans (by decide) low)]
        rfl
      have notDash : b ≠ 45 := by
        rintro rfl
        exact absurd low (by decide)
      have notPlus : b ≠ 43 := by
        rintro rfl
        exact absurd low (by decide)
      unfold readNumber
      rw [blanks]
      split
      rename_i sign str signed
      split at signed
      · rename_i same
        exact absurd (List.cons.inj same).1 notDash
      · rename_i same
        exact absurd (List.cons.inj same).1 notPlus
      · cases signed
        rw [takeWhile_isdigit all]
        rfl

theorem readNumber_decimal (x : Int) : readNumber (decimal x) = some x := by
  have chars : ∀ c ∈ Nat.toDigits 10 x.natAbs, c.isDigit = true :=
    fun c member => Nat.isDigit_of_mem_toDigits (by decide) (by decide) member
  have value : digitsValue 0 ((Nat.toDigits 10 x.natAbs).map Char.toUInt8) = x.natAbs := by
    rw [← Int.natCast_zero, digitsValue_toUInt8 chars 0, Nat.ofDigitChars_ten_toDigits]
  have all : ∀ b ∈ (Nat.toDigits 10 x.natAbs).map Char.toUInt8, isdigit b = true :=
    List.forall_mem_map.mpr fun c member => isdigit_toUInt8 (chars c member)
  have nonempty : (Nat.toDigits 10 x.natAbs).map Char.toUInt8 ≠ [] :=
    mt List.map_eq_nil_iff.mp Nat.toDigits_ne_nil
  unfold decimal
  by_cases negative : x < 0
  · rw [if_pos negative, List.singleton_append, readNumber_negative nonempty all, value]
    exact congrArg some (by omega)
  · rw [if_neg negative, List.nil_append, readNumber_digits nonempty all, value]
    exact congrArg some (by omega)

theorem stoi_decimal (x : CInt) : stoi (decimal x.val) = some x := by
  rw [stoi, readNumber_decimal]
  exact dif_pos x.property

end Ddbclient

import Ddbclient.Cmdline.Parser

/-!
# Strings and numbers on the command line

The two types of values that the program declares options for. What is printed of a value is read back as
that value.
-/

namespace Ddbclient.Cmdline
open Lib.Checked

inductive Scalar where
  | string
  | int
  deriving DecidableEq

/-- What is left of a text behind leading blanks, a sign and digits. -/
def unreadNumber (str : Bytes) : Bytes :=
  (match str.dropWhile isspace with
    | 45 :: rest => rest
    | 43 :: rest => rest
    | rest => rest).dropWhile isdigit

/-- `lexical_cast<int>`: a number is extracted from the text, and the stream is at its end. -/
def lexicalCastInt (arg : Bytes) : Option CInt := if unreadNumber arg = [] then stoi arg else none

instance : ValueType Scalar where
  Value
    | .string => Bytes
    | .int => CInt
  readableTypename
    | .string => bytes "string"
    | .int => bytes "int"
  defaultValue
    | .string, text => text
    | .int, x => decimal x.val
  defaultReader
    | .string, text => some text
    | .int, text => lexicalCastInt text

def rangeReader (low high : CInt) (s : Bytes) : Option CInt :=
  match lexicalCastInt s with
  | none => none
  | some ret => if low.val ≤ ret.val ∧ ret.val ≤ high.val then some ret else none

theorem dropWhile_isdigit {digits : Bytes} (all : ∀ b ∈ digits, isdigit b = true) : digits.dropWhile isdigit = [] :=
  List.dropWhile_eq_nil_iff.mpr all

theorem unreadNumber_negative {digits : Bytes} (all : ∀ b ∈ digits, isdigit b = true) :
    unreadNumber (dash :: digits) = [] := dropWhile_isdigit all

theorem unreadNumber_digits {digits : Bytes} (all : ∀ b ∈ digits, isdigit b = true) : unreadNumber digits = [] := by
  cases digits with
  | nil => rfl
  | cons b rest =>
      have low : 48 ≤ b := by
        have := all b List.mem_cons_self
        simp only [isdigit, Bool.and_eq_true, decide_eq_true_eq] at this
        exact this.1
      have blanks : (b :: rest).dropWhile isspace = b :: rest :=
        List.dropWhile_cons_of_neg (by simp [isspace_eq_false (Nat.le_trans (by decide) low)])
      have unsigned (sign : UInt8) (below : sign < 48) : b ≠ sign := by
        rintro rfl
        exact absurd low (UInt8.not_le.mpr below)
      unfold unreadNumber
      rw [blanks]
      split
      · rename_i same
        exact absurd (List.cons.inj same).1 (unsigned 45 (by decide))
      · rename_i same
        exact absurd (List.cons.inj same).1 (unsigned 43 (by decide))
      · exact dropWhile_isdigit all

theorem unreadNumber_decimal (x : Int) : unreadNumber (decimal x) = [] := by
  have all : ∀ b ∈ (Nat.toDigits 10 x.natAbs).map Char.toUInt8, isdigit b = true :=
    List.forall_mem_map.mpr fun c member => isdigit_toUInt8 (Nat.isDigit_of_mem_toDigits (by decide) (by decide) member)
  unfold decimal
  by_cases negative : x < 0
  · rw [if_pos negative]
    exact unreadNumber_negative all
  · rw [if_neg negative, List.nil_append]
    exact unreadNumber_digits all

theorem lexicalCastInt_decimal (x : CInt) : lexicalCastInt (decimal x.val) = some x := by
  rw [lexicalCastInt, if_pos (unreadNumber_decimal x.val), stoi_decimal]

theorem rangeReader_decimal {low high x : CInt} (inRange : low.val ≤ x.val ∧ x.val ≤ high.val) :
    rangeReader low high (decimal x.val) = some x := by
  rw [rangeReader, lexicalCastInt_decimal]
  exact if_pos inRange

theorem rangeReader_inRange {low high x : CInt} {text : Bytes} (read : rangeReader low high text = some x) :
    low.val ≤ x.val ∧ x.val ≤ high.val := by
  rw [rangeReader] at read
  cases number : lexicalCastInt text with
  | none =>
      rw [number] at read
      cases read
  | some ret =>
      rw [number] at read
      obtain ⟨inRange, same⟩ := Option.ite_none_right_eq_some.mp read
      obtain rfl := Option.some.inj same
      exact inRange

theorem defaultReader_defaultValue (T : Scalar) (value : Value T) : defaultReader T (defaultValue T value) = some value := by
  cases T with
  | string => rfl
  | int => exact lexicalCastInt_decimal value

end Ddbclient.Cmdline

import Mathlib.Algebra.Order.Ring.Int
import Mathlib.Data.List.Basic

/-!
# Checked C++ integer arithmetic

A computation returns, throws an exception, or runs into a fault. The operations on `int` are exact
on the integers and fault where the 32-bit result does not exist.
-/

namespace Lib.Checked

/-- `negativeLength` is a negative `int` passed as an unsigned length. -/
inductive Fault where
  | overflow
  | divideByZero
  | negativeLength
  deriving DecidableEq, Repr

inductive Failure (Exception : Type) where
  | exception (what : Exception)
  | fault (fault : Fault)
  deriving DecidableEq, Repr

def InInt (x : Int) : Prop := -2 ^ 31 ≤ x ∧ x < 2 ^ 31

instance (x : Int) : Decidable (InInt x) := inferInstanceAs (Decidable (_ ∧ _))

abbrev CInt := {x : Int // InInt x}

theorem inInt_bmod (x : Int) : InInt (x.bmod (2 ^ 32)) :=
  ⟨Int.le_bmod (by decide), Int.bmod_lt (by decide)⟩

/-- `static_cast<int>`: reduction modulo `2 ^ 32`, and so every literal of type `int`. -/
def int (x : Int) : CInt := ⟨x.bmod (2 ^ 32), inInt_bmod x⟩

/-- `static_cast<int>` of an unsigned size: reduction modulo `2 ^ 32` into the range of `int`. -/
def ofSize (size : Nat) : Int := (size : Int).bmod (2 ^ 32)

theorem ofSize_eq {size : Nat} (small : size < 2 ^ 31) : ofSize size = size := by
  unfold ofSize
  rw [Int.bmod_eq_of_le] <;> omega

theorem bmod_le_self {x : Int} (nonnegative : 0 ≤ x) (m : Nat) : x.bmod m ≤ x := by
  have quotient : 0 ≤ (m : Int) * (x / m) :=
    Int.mul_nonneg (Int.natCast_nonneg m) (Int.ediv_nonneg nonnegative (Int.natCast_nonneg m))
  have division := Int.emod_add_mul_ediv x m
  rw [Int.bmod_def]
  split <;> omega

theorem ofSize_le (size : Nat) : ofSize size ≤ size := bmod_le_self (Int.natCast_nonneg size) _

variable {Exception : Type}

def check (x : Int) : Except (Failure Exception) Int :=
  if InInt x then .ok x else .error (.fault .overflow)

def add (a b : Int) : Except (Failure Exception) Int := check (a + b)

def sub (a b : Int) : Except (Failure Exception) Int := check (a - b)

def mul (a b : Int) : Except (Failure Exception) Int := check (a * b)

def div (a b : Int) : Except (Failure Exception) Int :=
  if b = 0 then .error (.fault .divideByZero) else check (a.tdiv b)

theorem check_eq_ok {x y : Int} : (check x : Except (Failure Exception) Int) = .ok y ↔ InInt x ∧ y = x := by
  unfold check
  split <;> simp_all [eq_comm]

@[simp] theorem add_eq_ok {a b y : Int} :
    (add a b : Except (Failure Exception) Int) = .ok y ↔ InInt (a + b) ∧ y = a + b := check_eq_ok

@[simp] theorem sub_eq_ok {a b y : Int} :
    (sub a b : Except (Failure Exception) Int) = .ok y ↔ InInt (a - b) ∧ y = a - b := check_eq_ok

@[simp] theorem mul_eq_ok {a b y : Int} :
    (mul a b : Except (Failure Exception) Int) = .ok y ↔ InInt (a * b) ∧ y = a * b := check_eq_ok

@[simp] theorem div_eq_ok {a b y : Int} :
    (div a b : Except (Failure Exception) Int) = .ok y ↔ b ≠ 0 ∧ InInt (a.tdiv b) ∧ y = a.tdiv b := by
  unfold div
  split
  · simp_all
  · rename_i nonzero
    simp [check_eq_ok, nonzero]

section Except

variable {ε α β : Type}

theorem bind_eq_ok {x : Except ε α} {f : α → Except ε β} {b : β} :
    (x >>= f) = .ok b ↔ ∃ a, x = .ok a ∧ f a = .ok b := by
  cases x with
  | error e => simp [bind, Except.bind]
  | ok a => simp [bind, Except.bind]

theorem error_else_ok_eq_ok {c : Prop} [Decidable c] {e : ε} {a b : α} :
    (if c then .error e else .ok a : Except ε α) = .ok b ↔ ¬ c ∧ b = a := by
  by_cases fails : c <;> simp [fails, eq_comm]

theorem pure_eq_ok {a b : α} : (pure a : Except ε α) = .ok b ↔ b = a :=
  ⟨fun done => (Except.ok.inj done).symm, fun done => congrArg Except.ok done.symm⟩

/-- A loop that writes to a stream: what each round writes, one after the other. -/
def collect (write : α → Except ε (List β)) : List α → Except ε (List β)
  | [] => .ok []
  | a :: rest => do
      let head ← write a
      let tail ← collect write rest
      return head ++ tail

theorem collect_eq_ok {write : α → Except ε (List β)} {safe : α → Prop} {written : α → List β}
    {items : List α} {out : List β}
    (each : ∀ a ∈ items, ∀ piece, write a = .ok piece ↔ safe a ∧ piece = written a) :
    collect write items = .ok out ↔ (∀ a ∈ items, safe a) ∧ out = items.flatMap written := by
  induction items generalizing out with
  | nil => simp [collect, eq_comm]
  | cons a rest ih =>
      have later (tail : List β) : collect write rest = .ok tail ↔ _ :=
        ih fun b member => each b (List.mem_cons_of_mem _ member)
      simp only [collect, bind_eq_ok, later, each a List.mem_cons_self, List.forall_mem_cons, List.flatMap_cons]
      constructor
      · rintro ⟨_, ⟨first, rfl⟩, _, ⟨others, rfl⟩, done⟩
        cases done
        exact ⟨⟨first, others⟩, rfl⟩
      · rintro ⟨⟨first, others⟩, rfl⟩
        exact ⟨_, ⟨first, rfl⟩, _, ⟨others, rfl⟩, rfl⟩

end Except

end Lib.Checked

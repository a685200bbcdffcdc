import Mathlib.Algebra.Ring.Int.Defs
import Mathlib.Algebra.Ring.Nat

/-! How a run of the C code can stop abnormally, and the conversions between its
integer types. `int` is 32 bits, `size_t` and `uint64_t` are 64 bits. -/
namespace VmpRl.CRuntime

inductive Stop where
  | nullDeref
  | outOfBounds
  | endless
  | exit (status : Int)
  deriving DecidableEq, Repr

abbrev Run := Except Stop

def toInt (n : Int) : Int := Int.bmod n (2 ^ 32)
def toSize (n : Int) : Nat := (n % 2 ^ 64).toNat

theorem toIntSmall {n : Nat} (small : n < 2 ^ 31) : toInt n = n := by
  unfold toInt
  rw [Int.bmod_def]
  omega

@[simp] theorem toSizeNat {n : Nat} (small : n < 2 ^ 64) : toSize n = n := by
  unfold toSize
  omega

theorem toSizeToInt {n : Nat} (small : n < 2 ^ 31) : toSize (toInt n) = n := by
  rw [toIntSmall small]
  exact toSizeNat (by omega)

def Survives (n : Nat) : Prop := toSize (toInt n) = n

instance (n : Nat) : Decidable (Survives n) := by unfold Survives; infer_instance

theorem survivesSmall {n : Nat} (bound : n < 2 ^ 64 - 2 ^ 31) : Survives n ↔ n < 2 ^ 31 := by
  constructor
  · intro same
    have low : -2 ^ 31 ≤ toInt n := Int.le_bmod (by decide)
    have high : toInt n < 2 ^ 31 := Int.bmod_lt (by decide)
    unfold Survives toSize at same
    omega
  · exact toSizeToInt

/- `a - b` in size_t, which wraps below zero. -/
def sizeSub (a : Nat) (b : Int) : Nat := if b ≤ a then (a - b).toNat else toSize (a - b)

theorem sizeSubExact {a b : Nat} (inside : b ≤ a) : sizeSub a b = a - b := by
  unfold sizeSub
  rw [if_pos (by omega)]
  omega

def Returns {α : Type} (r : Run α) : Prop := ∃ value, r = .ok value

def present {γ : Type} : Option γ → Run γ
  | none => .error .outOfBounds
  | some value => .ok value

end VmpRl.CRuntime

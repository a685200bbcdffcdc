import Mathlib.Algebra.Ring.Nat
import Mathlib.Data.List.Induction
import Mathlib.Data.List.TakeWhile

/-! Byte sequences, fixed-width big-endian words and NUL-terminated strings.
No message format and no program is named here. -/
namespace VmpRl.Octets

abbrev Bytes := List UInt8

def ascii (text : String) : Bytes := text.toList.map (fun c => UInt8.ofNat c.toNat)

def be : Nat → Nat → Bytes
  | 0, _ => []
  | width+1, n => be width (n / 256) ++ [UInt8.ofNat n]

def readBE (raw : Bytes) : Nat := raw.foldl (fun value b => value * 256 + b.toNat) 0

@[simp] theorem lengthBE (width n : Nat) : (be width n).length = width := by
  induction width generalizing n with
  | zero => rfl
  | succ width ih => simp [be, ih]

theorem readBEAppend (raw : Bytes) (b : UInt8) :
    readBE (raw ++ [b]) = readBE raw * 256 + b.toNat := by
  simp [readBE]

theorem readBEWritten (width n : Nat) (fits : n < 256 ^ width) : readBE (be width n) = n := by
  induction width generalizing n with
  | zero =>
    have zero : n = 0 := by simpa using fits
    subst n
    rfl
  | succ width ih =>
    have high : n / 256 < 256 ^ width := by
      apply Nat.div_lt_of_lt_mul
      rw [Nat.mul_comm, ← Nat.pow_succ]
      exact fits
    rw [be, readBEAppend, ih _ high]
    have low : (UInt8.ofNat n).toNat = n % 256 := UInt8.toNat_ofNat'
    omega

theorem readBEBound (raw : Bytes) : readBE raw < 256 ^ raw.length := by
  induction raw using List.reverseRecOn with
  | nil => decide
  | append_singleton raw b ih =>
    have byte : b.toNat < 256 := b.toNat_lt
    rw [readBEAppend, List.length_append, List.length_singleton, Nat.pow_succ]
    omega

theorem beRead (raw : Bytes) : be raw.length (readBE raw) = raw := by
  induction raw using List.reverseRecOn with
  | nil => rfl
  | append_singleton raw b ih =>
    have byte : b.toNat < 256 := b.toNat_lt
    have high : readBE (raw ++ [b]) / 256 = readBE raw := by
      rw [readBEAppend]
      omega
    have low : UInt8.ofNat (readBE (raw ++ [b])) = b := by
      apply UInt8.toNat_inj.mp
      rw [readBEAppend, UInt8.toNat_ofNat']
      omega
    rw [List.length_append, List.length_singleton, be, high, low, ih]

structure CString where
  bytes : Bytes
  noNul : 0 ∉ bytes
  deriving DecidableEq

theorem takeWhileNoNul (raw : Bytes) : (0 : UInt8) ∉ raw.takeWhile (· ≠ 0) := by
  intro member
  have kept := List.all_takeWhile (p := fun b : UInt8 => decide (b ≠ 0)) (l := raw)
  have nonzero := List.all_eq_true.mp kept 0 member
  simp at nonzero

def cut (raw : Bytes) : CString := ⟨raw.takeWhile (· ≠ 0), takeWhileNoNul raw⟩

def cstr (text : String) : CString := cut (ascii text)

theorem cutNoNul {raw : Bytes} (clean : 0 ∉ raw) : (cut raw).bytes = raw := by
  apply List.takeWhile_eq_self_iff.mpr
  intro b member
  have different : b ≠ 0 := fun same => clean (same ▸ member)
  simpa using different

@[simp] theorem cutCString (s : CString) : cut s.bytes = s := by
  cases s with
  | mk bytes noNul => simp only [CString.mk.injEq, cut]; exact cutNoNul noNul

end VmpRl.Octets

import Mathlib.Algebra.Group.Nat.Defs
import Mathlib.Data.Nat.Notation
import Mathlib.Tactic.Lemma
import InstallPolicy.Bytes

/-!
Little-endian fields: a number below `256 ^ width` is recovered from its `width` bytes, and every
field of `width` bytes is the field of the number that it spells.
-/

namespace InstallPolicy.Bytes

lemma value_littleEndian (width n : ℕ) : value (littleEndian width n) = n % 256 ^ width := by
  induction width generalizing n with
  | zero => simp [littleEndian, value, Nat.mod_one]
  | succ width ih =>
    have h : (UInt8.ofNat n).toNat = n % 256 := by simp
    rw [littleEndian, value, ih, h, Nat.pow_succ, Nat.mul_comm _ 256, Nat.mod_mul]

lemma value_littleEndian_of_lt {width n : ℕ} (h : n < 256 ^ width) :
    value (littleEndian width n) = n := by
  rw [value_littleEndian, Nat.mod_eq_of_lt h]

lemma value_lt (bs : Bytes) : value bs < 256 ^ bs.length := by
  induction bs with
  | nil => simp [value]
  | cons b bs ih =>
    have := b.toNat_lt
    rw [value, List.length_cons, Nat.pow_succ]
    omega

lemma littleEndian_value (bs : Bytes) : littleEndian bs.length (value bs) = bs := by
  induction bs with
  | nil => rfl
  | cons b bs ih =>
    have hb := b.toNat_lt
    have hd : (b.toNat + 256 * value bs) / 256 = value bs := by omega
    have hm : UInt8.ofNat (b.toNat + 256 * value bs) = b := by
      apply UInt8.toNat_inj.1
      simp only [UInt8.toNat_ofNat']
      omega
    rw [value, List.length_cons, littleEndian, hd, hm, ih]

end InstallPolicy.Bytes

import Mathlib.Data.List.Induction
import Mathlib.Algebra.Group.Nat.Defs
import MicroBus.Bytes

/-!
# Numbers in octets, and filler

Fixed-width octet strings and the numbers below the power of 256 that belongs to their width
are in exact correspondence: each conversion undoes the other. Filler does not depend on the whole
words in front.
-/

namespace MicroBus.Bytes

/-- One more octet is one more base-256 digit. -/
theorem ofBigEndian_append_singleton (b : Bytes) (x : UInt8) :
    ofBigEndian (b ++ [x]) = ofBigEndian b * 256 + x.toNat := by
  simp only [ofBigEndian, List.foldl_append, List.foldl_cons, List.foldl_nil]

theorem ofBigEndian_lt (b : Bytes) : ofBigEndian b < 256 ^ b.length := by
  induction b using List.reverseRecOn with
  | nil => simp [ofBigEndian]
  | append_singleton b x ih =>
    have hx := x.toNat_lt
    rw [ofBigEndian_append_singleton, List.length_append, List.length_singleton, pow_succ]
    omega

/-- Reading back a number of fixed width gives the number, reduced to that width. -/
theorem ofBigEndian_bigEndian (width n : Nat) :
    ofBigEndian (bigEndian width n) = n % 256 ^ width := by
  induction width generalizing n with
  | zero => simp [bigEndian, ofBigEndian, Nat.mod_one]
  | succ width ih =>
    have hsplit : n % 256 ^ (width + 1) = n % 256 + 256 * (n / 256 % 256 ^ width) := by
      rw [pow_succ, Nat.mul_comm, Nat.mod_mul]
    rw [bigEndian, ofBigEndian_append_singleton, ih, hsplit, UInt8.toNat_ofNat']
    omega

theorem ofBigEndian_bigEndian_of_lt {width n : Nat} (h : n < 256 ^ width) :
    ofBigEndian (bigEndian width n) = n := by
  rw [ofBigEndian_bigEndian, Nat.mod_eq_of_lt h]

/-- Octets are the digits of the number that they stand for. -/
theorem bigEndian_ofBigEndian (b : Bytes) : bigEndian b.length (ofBigEndian b) = b := by
  induction b using List.reverseRecOn with
  | nil => rfl
  | append_singleton b x ih =>
    have hx := x.toNat_lt
    have hq : (ofBigEndian b * 256 + x.toNat) / 256 = ofBigEndian b := by omega
    have hr : UInt8.ofNat (ofBigEndian b * 256 + x.toNat) = x := by
      apply UInt8.toNat_inj.mp
      rw [UInt8.toNat_ofNat']
      omega
    rw [List.length_append, List.length_singleton, bigEndian, ofBigEndian_append_singleton, hq, hr,
      ih]

/-- Behind whole words filler is counted as if they were not there. -/
theorem padded_append {front : Bytes} (h : front.length % 4 = 0) (b : Bytes) :
    padded (front ++ b) = front ++ padded b := by
  have hf : align (front ++ b).length - (front ++ b).length = align b.length - b.length := by
    rw [List.length_append, align, align]
    omega
  rw [padded, padded, filler, filler, hf, List.append_assoc]

end MicroBus.Bytes

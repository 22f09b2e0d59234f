/-!
# Octet strings and four-byte alignment

Everything on the bus is a list of octets in network order. This module holds the two
conversions between numbers and fixed-width octet strings, the rounding up to whole words
that every attribute obeys, and a length test that never walks past the bound it tests.
-/

namespace MicroBus

/-- An octet string. -/
abbrev Bytes := List UInt8

namespace Bytes

/-- The word whose four octets are zero. -/
def zeroWord : Bytes := [0, 0, 0, 0]

/-- The least multiple of four that is not below `n`. -/
def align (n : Nat) : Nat := (n + 3) / 4 * 4

theorem le_align (n : Nat) : n ≤ align n := by
  unfold align
  omega

theorem align_lt (n : Nat) : align n < n + 4 := by
  unfold align
  omega

theorem align_mod (n : Nat) : align n % 4 = 0 := by
  unfold align
  omega

theorem align_eq_self {n : Nat} (h : n % 4 = 0) : align n = n := by
  unfold align
  omega

/-- The zero octets that take a string of length `n` to the next word boundary. -/
def filler (n : Nat) : Bytes := List.replicate (align n - n) 0

/-- An octet string with zero octets up to the next word boundary. -/
def padded (b : Bytes) : Bytes := b ++ filler b.length

theorem length_filler (n : Nat) : (filler n).length = align n - n := by
  simp only [filler, List.length_replicate]

theorem length_padded (b : Bytes) : (padded b).length = align b.length := by
  have h := le_align b.length
  simp only [padded, List.length_append, length_filler]
  omega

/-- The last `width` base-256 digits of `n`, most significant first. -/
def bigEndian : Nat → Nat → Bytes
  | 0, _ => []
  | width + 1, n => bigEndian width (n / 256) ++ [UInt8.ofNat n]

/-- The number whose base-256 digits, most significant first, are the given octets. -/
def ofBigEndian (b : Bytes) : Nat := b.foldl (fun n x => n * 256 + x.toNat) 0

@[simp] theorem length_bigEndian (width n : Nat) : (bigEndian width n).length = width := by
  induction width generalizing n with
  | zero => rfl
  | succ width ih => simp [bigEndian, ih]

/-- An octet string without the zero octets at its end. -/
def trimEnd (b : Bytes) : Bytes := (b.reverse.dropWhile (· == 0)).reverse

/-- Whether `b` has at least `n` elements; only the first `n` are visited. -/
def atLeast {α : Type} : Nat → List α → Bool
  | 0, _ => true
  | _ + 1, [] => false
  | n + 1, _ :: rest => atLeast n rest

theorem atLeast_iff {α : Type} {n : Nat} {b : List α} : atLeast n b = true ↔ n ≤ b.length := by
  induction n generalizing b with
  | zero => simp [atLeast]
  | succ n ih => cases b <;> simp [atLeast, ih]

end Bytes

end MicroBus

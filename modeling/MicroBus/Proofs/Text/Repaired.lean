import Mathlib.Algebra.Order.BigOperators.Group.List
import Mathlib.Algebra.Order.Group.Nat
import Mathlib.Algebra.Group.Action.Defs
import MicroBus.Proofs.Text.Order

/-!
# The length of repaired text

A repair finds no more characters than it reads octets: an octet begins a character, goes on with
one, or ends an ill-formed part, and each of these is one character at most. A character takes up
to four octets, so repaired text is at most four times as long as the octets it was made of.
-/

namespace MicroBus.Text

namespace Repair

/-- The characters of a repair, with the one that has begun. -/
def count (r : Repair) : Nat := r.found.length + if r.begun.isSome then 1 else 0

theorem count_first (found : List Char) (b : UInt8) : (first found b).count = found.length + 1 := by
  unfold first
  split
  · rfl
  · split <;> rfl

/-- An octet adds one character at most. -/
theorem count_read_le (r : Repair) (b : UInt8) : (r.read b).count ≤ r.count + 1 := by
  obtain ⟨found, begun⟩ := r
  unfold read
  cases begun with
  | none => exact Nat.le_of_eq (count_first found b)
  | some p =>
    simp only
    split
    · split
      · exact Nat.le_succ _
      · exact Nat.le_succ _
    · exact Nat.le_of_eq (count_first (replacement :: found) b)

theorem count_foldl_le (b : Bytes) (r : Repair) : (b.foldl read r).count ≤ r.count + b.length := by
  induction b generalizing r with
  | nil => exact Nat.le_refl _
  | cons x b ih =>
    have hread := count_read_le r x
    have hrest := ih (r.read x)
    rw [List.foldl_cons, List.length_cons]
    omega

/-- A finished repair has all the characters found and one for a character cut off. -/
theorem length_toList_text (r : Repair) : r.text.toList.length = r.count := by
  obtain ⟨found, begun⟩ := r
  cases begun <;> simp [text, count]

end Repair

/-- A character takes four octets at most. -/
theorem utf8ByteSize_le (s : String) : s.utf8ByteSize ≤ 4 * s.toList.length := by
  have hsum := List.sum_le_card_nsmul (s.toList.map Char.utf8Size) 4
    (List.forall_mem_map.mpr fun c _ => c.utf8Size_le_four)
  rw [List.length_map, smul_eq_mul, Nat.mul_comm] at hsum
  rw [← length_utf8, utf8_eq_flatMap, List.length_flatMap]
  simpa only [String.length_utf8EncodeChar] using hsum

/-- Repaired text is at most four times as long as the octets it was made of. -/
theorem utf8ByteSize_ofUtf8Repaired_le (b : Bytes) :
    (ofUtf8Repaired b).utf8ByteSize ≤ 4 * b.length := by
  unfold ofUtf8Repaired
  split
  · next s hs =>
    rw [← length_utf8, utf8_of_ofUtf8? hs]
    omega
  · have hcount := Repair.count_foldl_le b ⟨[], none⟩
    have hsize := utf8ByteSize_le (b.foldl Repair.read ⟨[], none⟩).text
    rw [Repair.length_toList_text] at hsize
    rw [show Repair.count ⟨[], none⟩ = 0 from rfl] at hcount
    omega

end MicroBus.Text

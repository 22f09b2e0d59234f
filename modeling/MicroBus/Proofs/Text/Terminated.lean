import Mathlib.Data.List.TakeWhile
import MicroBus.Proofs.Text.Order

/-!
# Terminated text

A text is put into an attribute with a zero octet behind it and is read up to the first zero octet.
No character but the zero character has a zero octet in UTF-8, so what is read is the text up to its
first zero character, and a text without one is read as it was put.
-/

namespace MicroBus.Text

/-- A text up to its first zero character. -/
def untilZero (s : String) : String := String.ofList (s.toList.takeWhile (· ≠ '\x00'))

/-- A text without a zero character ends nowhere before its end. -/
theorem untilZero_eq {s : String} (h : '\x00' ∉ s.toList) : untilZero s = s := by
  have ht : s.toList.takeWhile (· ≠ '\x00') = s.toList := by
    rw [List.takeWhile_eq_self_iff]
    intro c hc
    have hne : c ≠ '\x00' := fun he => h (he ▸ hc)
    simpa using hne
  rw [untilZero, ht, String.ofList_toList]

/-- Only the zero character has a zero octet. -/
theorem ne_zero_of_mem_utf8EncodeChar {c : Char} (h : c ≠ '\x00') :
    ∀ x ∈ String.utf8EncodeChar c, x ≠ 0 := by
  have hc : c.val.toNat ≠ 0 := fun he => h (Char.toNat_inj.mp he)
  have hmax := val_lt c
  unfold String.utf8EncodeChar
  generalize c.val.toNat = n at hc hmax
  simp only
  -- Each octet but that of an ASCII character has its highest bit set.
  repeat' split
  all_goals
    simp only [List.mem_cons, List.not_mem_nil, or_false, ne_eq, ← UInt8.toNat_inj,
      UInt8.toNat_ofNat', UInt8.toNat_ofNat]
    omega

/-- Octets of a text are read up to their first zero octet as the text is up to its first zero
character, if there is a zero octet behind them. -/
theorem takeWhile_utf8_append (s : String) (rest : Bytes) :
    (utf8 s ++ 0 :: rest).takeWhile (· != 0) = utf8 (untilZero s) := by
  rw [utf8_eq_flatMap, utf8_eq_flatMap, untilZero, String.toList_ofList]
  induction s.toList with
  | nil => rfl
  | cons c l ih =>
    by_cases hc : c = '\x00'
    · subst hc
      rfl
    · have hne : ∀ x ∈ String.utf8EncodeChar c, (x != 0) = true := fun x hx =>
        bne_iff_ne.mpr (ne_zero_of_mem_utf8EncodeChar hc x hx)
      rw [List.flatMap_cons, List.append_assoc, List.takeWhile_append_of_pos hne, ih,
        List.takeWhile_cons_of_pos (by simpa using hc), List.flatMap_cons]

/-- A text that was put with its terminator is read up to its first zero character. -/
theorem ofUtf8Repaired_takeWhile (s : String) :
    ofUtf8Repaired ((utf8 s ++ [0]).takeWhile (· != 0)) = untilZero s := by
  rw [takeWhile_utf8_append, ofUtf8Repaired_utf8]

end MicroBus.Text

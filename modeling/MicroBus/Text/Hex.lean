import MicroBus.Bytes

/-!
# Hexadecimal text

Identifiers are shown as eight lower-case hexadecimal digits, most significant first.
-/

namespace MicroBus.Text

/-- The lower-case digit of a number below sixteen. -/
def hexDigit (n : Nat) : Char :=
  if n < 10 then Char.ofNat (48 + n) else Char.ofNat (87 + n)

/-- The last `width` base-16 digits of `n`, most significant first. -/
def hexDigits : Nat → Nat → List Char
  | 0, _ => []
  | width + 1, n => hexDigits width (n / 16) ++ [hexDigit (n % 16)]

theorem length_hexDigits (width n : Nat) : (hexDigits width n).length = width := by
  induction width generalizing n with
  | zero => rfl
  | succ width ih => simp [hexDigits, ih]

/-- An identifier as eight hexadecimal digits. -/
def hex32 (w : UInt32) : String := String.ofList (hexDigits 8 w.toNat)

end MicroBus.Text

import MicroBus.Number.Binary64

/-!
# The shortest decimal that reads back

A finite positive double is a significand times a power of two, and the reals that round to it
form an interval whose ends belong to it exactly if the significand is even. Of the decimals in
that interval the shortest one is wanted, and of several the nearest. For one, two and up to
seventeen digits the two decimals next to the double are tried, in exact arithmetic.
-/

namespace MicroBus

/-- A positive decimal: the number of its digits times a power of ten. -/
structure Decimal where
  /-- The digits, as a number. -/
  significand : Nat
  /-- The power of ten of the last digit. -/
  exponent : Int

/-- The number `significand * 2 ^ exponent`. -/
structure Dyadic where
  /-- The factor in front of the power of two. -/
  significand : Nat
  /-- The power of two. -/
  exponent : Int

namespace Dyadic

/-- The power of two with this exponent, and one for a negative exponent. -/
def twoTo (q : Int) : Nat := Nat.pow 2 q.toNat

/-- The power of ten with this exponent, and one for a negative exponent. -/
def tenTo (k : Int) : Nat := Nat.pow 10 k.toNat

/-- Whether `x * 10 ^ k` is below `y * 2 ^ q`. -/
def decimalBelow (x : Nat) (k : Int) (y : Nat) (q : Int) : Bool :=
  x * tenTo k * twoTo (-q) < y * twoTo q * tenTo (-k)

/-- Whether `y * 2 ^ q` is below `x * 10 ^ k`. -/
def decimalAbove (x : Nat) (k : Int) (y : Nat) (q : Int) : Bool :=
  y * twoTo q * tenTo (-k) < x * tenTo k * twoTo (-q)

/-- The greatest number of units `10 ^ k` that is not above `y * 2 ^ q`. -/
def decimalFloor (k : Int) (y : Nat) (q : Int) : Nat :=
  y * twoTo q * tenTo (-k) / (tenTo k * twoTo (-q))

/-- The power of ten of the leading digit of a positive dyadic. -/
def leadingPower (v : Dyadic) : Int :=
  let guess := Int.fdiv ((v.significand.log2 + v.exponent) * 30103) 100000
  if decimalAbove 1 (guess + 1) v.significand v.exponent then guess else guess + 1

end Dyadic

namespace Binary64

/-- The magnitude of a finite double. -/
def magnitude (d : Binary64) : Dyadic :=
  if d.exponentBits = 0 then ⟨d.fractionBits, -1074⟩
  else ⟨1 <<< 52 + d.fractionBits, d.exponentBits - 1075⟩

/-- Whether `x * 10 ^ k` rounds to the double. The interval reaches half way to either
neighbour; the lower neighbour of a power of two is twice as near. -/
def roundsFrom (d : Binary64) (x : Nat) (k : Int) : Bool :=
  let v := d.magnitude
  let q := v.exponent - 2
  let low := 4 * v.significand - (if d.fractionBits = 0 ∧ 1 < d.exponentBits then 1 else 2)
  let high := 4 * v.significand + 2
  if v.significand % 2 = 0 then
    !Dyadic.decimalBelow x k low q && !Dyadic.decimalAbove x k high q
  else Dyadic.decimalAbove x k low q && Dyadic.decimalBelow x k high q

/-- The decimal with the last digit at `10 ^ k` that is nearest to the double among those that
round to it; a tie goes to the even digit. -/
def onGrid? (d : Binary64) (k : Int) : Option Decimal :=
  let v := d.magnitude
  let below := Dyadic.decimalFloor k v.significand v.exponent
  let above := below + 1
  match d.roundsFrom below k, d.roundsFrom above k with
  | false, false => none
  | true, false => some ⟨below, k⟩
  | false, true => some ⟨above, k⟩
  | true, true =>
    let middle := 2 * below + 1
    let doubled := v.exponent + 1
    if Dyadic.decimalAbove middle k v.significand doubled then some ⟨below, k⟩
    else if Dyadic.decimalBelow middle k v.significand doubled then some ⟨above, k⟩
    else some ⟨if below % 2 = 0 then below else above, k⟩

/-- The first decimal found on the grids for the next `count` numbers of digits. -/
def firstOnGrid (d : Binary64) (count : Nat) (k : Int) : Decimal :=
  match count with
  | 0 => ⟨0, 0⟩
  | count + 1 =>
    match d.onGrid? k with
    | some x => x
    | none => firstOnGrid d count (k - 1)

/-- The shortest decimal that rounds to a finite double that is not zero, and the nearest of
those. -/
def shortest (d : Binary64) : Decimal := firstOnGrid d 17 d.magnitude.leadingPower

end Binary64

end MicroBus

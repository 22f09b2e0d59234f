/-!
# Binary floating point by its bits

A double is the sixty-four bits that travel on the wire. Comparison follows IEEE 754: the two
zeros are equal and a NaN equals nothing. Single precision widens without rounding.
-/

namespace MicroBus

/-- A double, held as its IEEE 754 binary64 bits. -/
structure Binary64 where
  /-- Sign, exponent and fraction, in sixty-four bits. -/
  bits : UInt64
  deriving DecidableEq

namespace Binary64

/-- The eleven exponent bits. -/
def exponentBits (d : Binary64) : Nat := d.bits.toNat >>> 52 % 2048

/-- The fifty-two fraction bits. -/
def fractionBits (d : Binary64) : Nat := d.bits.toNat % (1 <<< 52)

/-- Whether the sign bit is set. -/
def negative (d : Binary64) : Bool := d.bits.toNat >>> 63 = 1

/-- Whether the value is a number, neither infinite nor a NaN. -/
def isFinite (d : Binary64) : Bool := d.exponentBits ≠ 2047

/-- Whether the value is a NaN. -/
def isNaN (d : Binary64) : Bool := d.exponentBits = 2047 ∧ d.fractionBits ≠ 0

/-- Whether the value is one of the two zeros. -/
def isZero (d : Binary64) : Bool := d.exponentBits = 0 ∧ d.fractionBits = 0

/-- Equality by value: a NaN equals nothing, and the zeros equal each other. -/
def sameValue (a b : Binary64) : Bool :=
  !a.isNaN && !b.isNaN && (a = b || a.isZero && b.isZero)

/-- The bits of a machine double. -/
def ofFloat (f : Float) : Binary64 := ⟨f.toBits⟩

end Binary64

/-- A single, held as its IEEE 754 binary32 bits. -/
structure Binary32 where
  /-- Sign, exponent and fraction, in thirty-two bits. -/
  bits : UInt32
  deriving DecidableEq

/-- The double of the same value. Zeros and numbers keep their value, infinities stay
infinite and NaNs stay NaNs. -/
def Binary32.widen (s : Binary32) : Binary64 :=
  let w := s.bits.toNat
  let sign := w >>> 31 <<< 63
  let exponent := w >>> 23 % 256
  let fraction := w % (1 <<< 23)
  let magnitude :=
    if exponent = 255 then 2047 <<< 52 + fraction <<< 29
    else if exponent ≠ 0 then (exponent + 896) <<< 52 + fraction <<< 29
    else if fraction = 0 then 0
    else
      let top := fraction.log2
      (top + 874) <<< 52 + (fraction - 1 <<< top) <<< (52 - top)
  ⟨UInt64.ofNat (sign + magnitude)⟩

end MicroBus

import MicroBus.Json.Basic

/-!
# JSON numbers

A number is an optional sign, digits without a needless leading zero, an optional fraction and
an optional exponent. Without the last two it is an integer as long as 64 bits hold it. Any
other number is a significand of at most 64 bits, gathered digit by digit until the next one no
longer fits, that is scaled by a power of ten in one rounding step for each division or
multiplication. Numbers beyond the range of a double are refused.
-/

namespace MicroBus.Json

/-- The value of a decimal digit. -/
def digit? (c : Char) : Option Nat :=
  if '0' ≤ c ∧ c ≤ '9' then some (c.toNat - 48) else none

/-- The leading digits of a text, and what follows them. -/
def digits (cs : List Char) : List Nat × List Char :=
  (cs.takeWhile fun c => (digit? c).isSome).filterMap digit? |>
    fun ds => (ds, cs.dropWhile fun c => (digit? c).isSome)

/-- The number that decimal digits write. -/
def natOfDigits (ds : List Nat) : Nat := ds.foldl (fun n d => n * 10 + d) 0

/-- The written parts of a number. -/
structure Numeral where
  /-- Whether a minus sign comes first. -/
  negative : Bool
  /-- The digits before the point. -/
  whole : List Nat
  /-- The digits after the point, if there is one. -/
  fraction : Option (List Nat)
  /-- The exponent, if there is one: whether it is negative, and its digits. -/
  exponent : Option (Bool × List Nat)

namespace Numeral

/-- The exponent at the end of a number. -/
def readExponent (cs : List Char) : Option (Option (Bool × List Nat)) :=
  match cs with
  | [] => some none
  | e :: rest =>
    if e = 'e' ∨ e = 'E' then
      let (negative, rest) :=
        match rest with
        | '+' :: r => (false, r)
        | '-' :: r => (true, r)
        | r => (false, r)
      match digits rest with
      | (d :: ds, []) => some (some (negative, d :: ds))
      | _ => none
    else none

/-- The parts of a text that is a number as a whole. -/
def read (cs : List Char) : Option Numeral :=
  let (negative, rest) :=
    match cs with
    | '-' :: r => (true, r)
    | r => (false, r)
  match digits rest with
  | ([], _) => none
  | (0 :: _ :: _, _) => none
  | (whole, '.' :: rest) =>
    match digits rest with
    | ([], _) => none
    | (fraction, rest) =>
      (readExponent rest).map fun exponent => ⟨negative, whole, some fraction, exponent⟩
  | (whole, rest) => (readExponent rest).map fun exponent => ⟨negative, whole, none, exponent⟩

/-- Appends digits to a significand while 64 bits hold it, and counts the digits that were
appended. -/
def absorb (significand count : Nat) : List Nat → Nat × Nat
  | [] => (significand, count)
  | d :: ds =>
    let next := significand * 10 + d
    if next < 0x10000000000000000 then absorb next (count + 1) ds else (significand, count)

/-- The significand scaled by a power of ten, or nothing if that lies beyond the range of a
double. -/
def scale (f : Float) (exponent : Int) : Option Float :=
  if exponent.natAbs ≤ 308 then
    let power := Float.ofScientific 1 false exponent.natAbs
    if 0 ≤ exponent then
      let scaled := f * power
      if scaled.isInf then none else some scaled
    else some (f / power)
  else if f == 0 then some f
  else if 0 ≤ exponent then none
  else scale (f / 1e308) (exponent + 308)
termination_by exponent.natAbs

/-- The greatest exponent that is read as such; a greater one stands for no finite number
but zero. -/
def maxExponent : Nat := 2147483647

/-- The magnitude of a number that is not a plain integer. -/
def magnitude (significand : Nat) (shift : Int) (exponent : Option (Bool × List Nat)) :
    Option Float :=
  let f := (UInt64.ofNat significand).toFloat
  match exponent with
  | none => scale f shift
  | some (negative, ds) =>
    let e := natOfDigits ds
    if maxExponent < e then
      if significand ≠ 0 ∧ !negative then none else some 0
    else scale f (if negative then shift - e else shift + e)

/-- The tree of a number, or nothing if it is out of range. -/
def toJson (n : Numeral) : Option Json :=
  let signed (f : Float) : Json := .double (Binary64.ofFloat (if n.negative then -f else f))
  let (head, taken) := absorb 0 0 n.whole
  let dropped := n.whole.length - taken
  match n.fraction with
  | some ds =>
    let (significand, count) := absorb head 0 ds
    (magnitude significand (dropped - count) n.exponent).map signed
  | none =>
    if dropped = 0 ∧ n.exponent.isNone then
      if !n.negative then some (.int head)
      else if head = 0 ∨ 0x8000000000000000 < head then some (signed (UInt64.ofNat head).toFloat)
      else some (.int (-head))
    else (magnitude head dropped n.exponent).map signed

end Numeral

/-- The tree of a text that is a number as a whole. -/
def number? (cs : List Char) : Option Json := (Numeral.read cs).bind Numeral.toJson

end MicroBus.Json

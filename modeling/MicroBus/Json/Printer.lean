import MicroBus.Json.Basic
import MicroBus.Number.Shortest
import MicroBus.Text.Hex

/-!
# JSON trees to text

Trees are shown over several lines with an indent of two spaces; empty containers stay on one
line. Texts escape the quotation mark, the backslash and the control characters. A double has
the fewest digits that read back, in plain form while its leading power of ten lies between -5
and 15, and always a point or an exponent.
-/

namespace MicroBus.Json

/-- A run of one character. -/
def run (c : Char) (n : Nat) : List Char := List.replicate n c

/-- The least leading power of ten that is shown in plain form. -/
def minPlain : Int := -5

/-- The least leading power of ten above the plain forms. -/
def maxPlain : Int := 16

/-- The digits of a decimal without trailing zeros; at least one is kept. -/
def significantDigits (n : Nat) : List Char :=
  match (Nat.toDigits 10 n).reverse.dropWhile (· = '0') with
  | [] => ['0']
  | ds => ds.reverse

/-- The text of decimal digits whose first one stands for the power `e` of ten. -/
def decimalText (ds : List Char) (e : Int) : List Char :=
  if minPlain ≤ e ∧ e < maxPlain then
    if e < 0 then ['0', '.'] ++ run '0' (-e - 1).toNat ++ ds
    else
      let whole := e.toNat + 1
      if ds.length ≤ whole then ds ++ run '0' (whole - ds.length) ++ ['.', '0']
      else ds.take whole ++ ['.'] ++ ds.drop whole
  else
    let fraction := if ds.length ≤ 1 then [] else '.' :: ds.drop 1
    let sign := if e < 0 then '-' else '+'
    ds.take 1 ++ fraction ++ ['e', sign] ++ Nat.toDigits 10 e.natAbs

/-- The text of a finite double. -/
def doubleText (d : Binary64) : String :=
  let sign := if d.negative then ['-'] else []
  let magnitude :=
    if d.isZero then ['0', '.', '0']
    else
      let x := d.shortest
      let all := (Nat.toDigits 10 x.significand).length
      decimalText (significantDigits x.significand) (x.exponent + all - 1)
  String.ofList (sign ++ magnitude)

/-- The text of an integer. -/
def intText (i : Int) : String :=
  let digits := String.ofList (Nat.toDigits 10 i.natAbs)
  if i < 0 then "-" ++ digits else digits

/-- A character inside a text. -/
def escape (c : Char) : List Char :=
  if c = '\x22' then ['\\', '\x22']
  else if c = '\\' then ['\\', '\\']
  else if c = '\x08' then ['\\', 'b']
  else if c = '\x0c' then ['\\', 'f']
  else if c = '\n' then ['\\', 'n']
  else if c = '\r' then ['\\', 'r']
  else if c = '\t' then ['\\', 't']
  else if c.toNat < 32 then ['\\', 'u'] ++ Text.hexDigits 4 c.toNat
  else [c]

/-- A text between quotation marks. -/
def quote (s : String) : String :=
  String.ofList ('\x22' :: s.toList.flatMap escape ++ ['\x22'])

/-- The start of a line at a depth. -/
def line (depth : Nat) : String := String.ofList ('\n' :: run ' ' (2 * depth))

mutual

/-- Appends a tree to a text; `depth` is that of the line it stands in. -/
def printOnto (out : String) (depth : Nat) : Json → String
  | .null => out ++ "null"
  | .bool b => out ++ (if b then "true" else "false")
  | .int i => out ++ intText i
  | .double d => out ++ doubleText d
  | .str s => out ++ quote s
  | .arr items =>
    if items.isEmpty then out ++ "[]"
    else printItems (out ++ "[") (depth + 1) true items ++ line depth ++ "]"
  | .obj members =>
    if members.isEmpty then out ++ "\x7b\x7d"
    else printMembers (out ++ "\x7b") (depth + 1) true members ++ line depth ++ "\x7d"

/-- Appends items, each on a line of its own. -/
def printItems (out : String) (depth : Nat) (first : Bool) : List Json → String
  | [] => out
  | j :: rest =>
    let head := if first then out else out ++ ","
    printItems (printOnto (head ++ line depth) depth j) depth false rest

/-- Appends members, each on a line of its own. -/
def printMembers (out : String) (depth : Nat) (first : Bool) : List (String × Json) → String
  | [] => out
  | (name, j) :: rest =>
    let head := if first then out else out ++ ","
    printMembers (printOnto (head ++ line depth ++ quote name ++ ": ") depth j) depth false rest

end

/-- The text of a tree over several lines. -/
def pretty (j : Json) : String := printOnto "" 0 j

end MicroBus.Json

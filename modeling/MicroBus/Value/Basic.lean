import MicroBus.Bytes
import MicroBus.Number.Binary64

/-!
# Values

The values that calls carry: scalars, text, opaque octets, tables of named entries and arrays.
A table is a list: it keeps the order it was given and may repeat a name. The accessors read
a value as one of the narrower types, and a look-up by name finds the last entry.
-/

namespace MicroBus

/-- A value to be sent, or one that was received. -/
inductive Value where
  /-- No value. -/
  | null
  /-- A truth value. -/
  | bool (b : Bool)
  /-- A signed integer. -/
  | int (i : Int64)
  /-- An unsigned integer. -/
  | uint (u : UInt64)
  /-- A double, held by its bits. -/
  | double (d : Binary64)
  /-- Text. -/
  | str (s : String)
  /-- Octets that need not be text. -/
  | bytes (b : Bytes)
  /-- Named entries. -/
  | table (entries : List (String × Value))
  /-- Unnamed items. -/
  | array (items : List Value)

/-- Named entries in the order they were given or received. -/
abbrev Entries := List (String × Value)

namespace Value

instance : Inhabited Value := ⟨null⟩

/-- The word by which diagnostics name the shape of a value. -/
def kind : Value → String
  | null => "null"
  | bool _ => "bool"
  | int _ => "integer"
  | uint _ => "integer"
  | double _ => "double"
  | str _ => "string"
  | bytes _ => "bytes"
  | table _ => "table"
  | array _ => "array"

/-- The text, if the value is text. -/
def asText? : Value → Option String
  | str s => some s
  | _ => none

/-- The value as a signed integer; a truth value counts as 0 or 1. -/
def asInt64? : Value → Option Int64
  | int i => some i
  | uint u => if u.toNat < 0x8000000000000000 then some u.toInt64 else none
  | bool b => some (if b then 1 else 0)
  | _ => none

/-- The value as an unsigned 32-bit number. Identifiers travel as signed words, so a negative
number of 32 bits stands for its two's complement. -/
def asUInt32? : Value → Option UInt32
  | int i =>
    if -0x80000000 ≤ i.toInt ∧ i.toInt < 0x100000000 then some i.toUInt64.toUInt32 else none
  | uint u => if u.toNat < 0x100000000 then some u.toUInt32 else none
  | _ => none

/-- The double, if the value is one. -/
def asDouble? : Value → Option Binary64
  | double d => some d
  | _ => none

/-- What the last entry of this name holds. -/
def findLast? (name : String) (entries : List (String × α)) : Option α :=
  entries.foldl (fun found e => if e.1 = name then some e.2 else found) none

/-- What the last entry of this name holds, if the value is a table. -/
def get? (v : Value) (name : String) : Option Value :=
  match v with
  | table entries => findLast? name entries
  | _ => none

mutual

/-- Equality of values: of one shape, doubles by value, entries and items in order. -/
def same : Value → Value → Bool
  | null, null => true
  | bool a, bool b => a = b
  | int a, int b => a = b
  | uint a, uint b => a = b
  | double a, double b => a.sameValue b
  | str a, str b => a = b
  | bytes a, bytes b => a == b
  | table a, table b => sameEntries a b
  | array a, array b => sameItems a b
  | _, _ => false

/-- Equality of entry lists, by names and values in order. -/
def sameEntries : List (String × Value) → List (String × Value) → Bool
  | [], [] => true
  | (m, a) :: as, (n, b) :: bs => m = n && same a b && sameEntries as bs
  | _, _ => false

/-- Equality of item lists, in order. -/
def sameItems : List Value → List Value → Bool
  | [], [] => true
  | a :: as, b :: bs => same a b && sameItems as bs
  | _, _ => false

end

end Value

end MicroBus

import MicroBus.Text.Utf8
import MicroBus.Value.Order

/-!
# What a receiver makes of a value

The wire keeps less than a value holds: truth values become integers, unsigned integers are
read as signed ones of their width, text and octets lose zero octets in groups of four in front
and all zero octets behind and are then told apart by being UTF-8 or not, and the entries of a
table arrive in ascending order of their names. Everything else arrives as it was sent.
-/

namespace MicroBus.Value

/-- An octet string without the leading groups of four zero octets. -/
def dropZeroWords : Bytes → Bytes
  | 0 :: 0 :: 0 :: 0 :: rest => dropZeroWords rest
  | b => b

/-- What arrives of text or octets. -/
def receivedText (b : Bytes) : Value :=
  let kept := Bytes.trimEnd (dropZeroWords b)
  match Text.ofUtf8? kept with
  | some s => .str s
  | none => .bytes kept

/-- What arrives of an unsigned integer: its 32-bit or 64-bit pattern in two's complement. -/
def receivedUInt (u : UInt64) : Int64 :=
  if u.toNat < 0x100000000 then u.toUInt32.toInt32.toInt64 else u.toInt64

mutual

/-- What arrives of a value. -/
def received : Value → Value
  | .null => .null
  | .bool b => .int (if b then 1 else 0)
  | .int i => .int i
  | .uint u => .int (receivedUInt u)
  | .double d => .double d
  | .str s => receivedText (Text.utf8 s)
  | .bytes b => receivedText b
  | .table entries => .table (sortByName (receivedEntries entries))
  | .array items => .array (receivedItems items)

/-- What arrives of the values of entries, in the order of the entries. -/
def receivedEntries : List (String × Value) → List (String × Value)
  | [] => []
  | (name, v) :: rest => (name, received v) :: receivedEntries rest

/-- What arrives of items. -/
def receivedItems : List Value → List Value
  | [] => []
  | v :: rest => received v :: receivedItems rest

end

theorem receivedEntries_eq (entries : Entries) :
    receivedEntries entries = entries.map fun e => (e.1, e.2.received) := by
  induction entries with
  | nil => rfl
  | cons e rest ih => simp only [receivedEntries, ih, List.map_cons]

theorem receivedItems_eq (items : List Value) : receivedItems items = items.map received := by
  induction items with
  | nil => rfl
  | cons v rest ih => simp only [receivedItems, ih, List.map_cons]

end MicroBus.Value

import MicroBus.Attribute.Header
import MicroBus.Text.Utf8
import MicroBus.Value.Measure
import MicroBus.Wire.Tag

/-!
# The layout of a value

The octets of a value, put together from the octets of its parts without any limit. A value is
encodable when its names fit two octets, its nesting stays within the limit and its size fits
the length field; then, and only then, the encoder writes exactly this layout.
-/

namespace MicroBus.Value

/-- The type under which a value is written. -/
def tag : Value → Tag
  | .null => .unspecified
  | .bool _ => .int8
  | .int i => if -0x80000000 ≤ i.toInt ∧ i.toInt < 0x80000000 then .int32 else .int64
  | .uint u => if u.toNat < 0x100000000 then .int32 else .int64
  | .double _ => .double
  | .str _ => .string
  | .bytes _ => .string
  | .table _ => .table
  | .array _ => .array

mutual

/-- The number of octets of a payload. -/
def payloadSize : Value → Nat
  | .null => 0
  | .bool _ => 1
  | .int i => if -0x80000000 ≤ i.toInt ∧ i.toInt < 0x80000000 then 4 else 8
  | .uint u => if u.toNat < 0x100000000 then 4 else 8
  | .double _ => 8
  | .str s => s.utf8ByteSize + 1
  | .bytes b => b.length + 1
  | .table entries => sizeOfEntries entries
  | .array items => sizeOfItems items

/-- The number of octets of entries with their filler. -/
def sizeOfEntries : List (String × Value) → Nat
  | [] => 0
  | (name, v) :: rest =>
    Bytes.align (4 + Bytes.align (3 + name.utf8ByteSize) + payloadSize v) + sizeOfEntries rest

/-- The number of octets of items, which have the empty name, with their filler. -/
def sizeOfItems : List Value → Nat
  | [] => 0
  | v :: rest => Bytes.align (4 + Bytes.align 3 + payloadSize v) + sizeOfItems rest

end

/-- The number of octets of a named value without its trailing filler. -/
def sizeAs (name : String) (v : Value) : Nat :=
  4 + Bytes.align (3 + name.utf8ByteSize) + payloadSize v

/-- A named value around the octets of its payload. -/
def layoutAround (name : String) (tag : Tag) (size : Nat) (payload : Bytes) : Bytes :=
  Header.encode ⟨tag.code, size, true⟩ ++ Bytes.bigEndian 2 name.utf8ByteSize ++ Text.utf8 name
    ++ [0] ++ Bytes.filler (3 + name.utf8ByteSize) ++ payload ++ Bytes.filler size

mutual

/-- The octets of a payload. -/
def payload : Value → Bytes
  | .null => []
  | .bool b => [if b then 1 else 0]
  | .int i => Bytes.bigEndian (payloadSize (.int i)) i.toUInt64.toNat
  | .uint u => Bytes.bigEndian (payloadSize (.uint u)) u.toNat
  | .double d => Bytes.bigEndian 8 d.bits.toNat
  | .str s => Text.utf8 s ++ [0]
  | .bytes b => b ++ [0]
  | .table entries => ((sortByName (payloadsOfEntries entries)).map Prod.snd).flatten
  | .array items => payloadOfItems items

/-- The octets of each entry with its name, in the order of the entries. -/
def payloadsOfEntries : List (String × Value) → List (String × Bytes)
  | [] => []
  | (name, v) :: rest =>
    (name, layoutAround name v.tag (sizeAs name v) (payload v)) :: payloadsOfEntries rest

/-- The octets of items. -/
def payloadOfItems : List Value → Bytes
  | [] => []
  | v :: rest => layoutAround "" v.tag (sizeAs "" v) (payload v) ++ payloadOfItems rest

end

/-- The octets of a named value. -/
def layout (name : String) (v : Value) : Bytes :=
  layoutAround name v.tag (sizeAs name v) (payload v)

/-- Whether a name fits its length field. -/
def NameFits (name : String) : Prop := name.utf8ByteSize ≤ 0xFFFF

mutual

/-- Every name of an entry in a value fits its length field. -/
def NamesFit : Value → Prop
  | .table entries => NamesOfEntriesFit entries
  | .array items => NamesOfItemsFit items
  | _ => True

/-- Every name of these entries, and of the entries in their values, fits. -/
def NamesOfEntriesFit : List (String × Value) → Prop
  | [] => True
  | (name, v) :: rest => NameFits name ∧ NamesFit v ∧ NamesOfEntriesFit rest

/-- Every name of an entry in these items fits. -/
def NamesOfItemsFit : List Value → Prop
  | [] => True
  | v :: rest => NamesFit v ∧ NamesOfItemsFit rest

end

/-- A named value that has octets: names, nesting and size are within the limits. -/
structure Encodable (name : String) (v : Value) : Prop where
  /-- The name itself fits. -/
  name_fits : NameFits name
  /-- The names in the value fit. -/
  names_fit : NamesFit v
  /-- No value lies in more containers than allowed. -/
  depth_le : v.depth ≤ maxDepth
  /-- The size fits the length field. -/
  size_le : sizeAs name v ≤ Header.maxLength

end MicroBus.Value

import MicroBus.Attribute.Header
import MicroBus.Text.Utf8
import MicroBus.Value.Order
import MicroBus.Wire.Draft
import MicroBus.Wire.Tag

/-!
# Values to octets

A value is written as a named attribute: the word of an extended header with the type and the
length, two octets for the length of the name, the name with a zero octet after it, filler to
the next word, the payload, and filler again. A container holds its entries in this form, the
entries of a table in ascending order of their names. The length field is filled in last, so a
fault leaves four zero octets in its place.
-/

namespace MicroBus

namespace Wire

/-- The greatest length of a name. -/
def maxNameLength : Nat := 0xFFFF

/-- The type and the octets of a signed integer: four octets if they hold it, else eight. -/
def ofInt64 (i : Int64) : Tag × Bytes :=
  if -0x80000000 ≤ i.toInt ∧ i.toInt < 0x80000000 then
    (.int32, Bytes.bigEndian 4 i.toUInt64.toNat)
  else (.int64, Bytes.bigEndian 8 i.toUInt64.toNat)

/-- The type and the octets of an unsigned integer: four octets if they hold it, else eight. -/
def ofUInt64 (u : UInt64) : Tag × Bytes :=
  if u.toNat < 0x100000000 then (.int32, Bytes.bigEndian 4 u.toNat)
  else (.int64, Bytes.bigEndian 8 u.toNat)

/-- The name of an attribute with its length in front, its terminator and its filler. -/
def nameOctets (name : String) : Bytes :=
  Bytes.padded (Bytes.bigEndian 2 name.utf8ByteSize ++ Text.utf8 name ++ [0])

/-- An attribute around the draft of its payload. -/
def wrap (name : String) (tag : Tag) (payload : Draft) : Draft :=
  if maxNameLength < name.utf8ByteSize then .stopped Bytes.zeroWord (.overflow .attributeName)
  else
    let body := nameOctets name ++ payload.bytes
    match payload.fault with
    | some f => .stopped (Bytes.zeroWord ++ body) f
    | none =>
      match Header.make tag.code (4 + body.length) true with
      | .error f => .stopped (Bytes.zeroWord ++ body) f
      | .ok h => .done (Bytes.padded (h.encode ++ body))

/-- The drafts of table entries, written in ascending order of their names. -/
def inNameOrder (drafts : List (String × Draft)) : Draft :=
  Draft.inTurn ((sortByName drafts).map Prod.snd)

mutual

/-- The draft of a named value, with as many levels as may still be opened. -/
def draft (levels : Nat) (name : String) (v : Value) : Draft :=
  match levels with
  | 0 => .stopped [] (.tooDeep maxDepth)
  | levels + 1 =>
    match v with
    | .null => wrap name .unspecified (.done [])
    | .bool b => wrap name .int8 (.done [if b then 1 else 0])
    | .int i => wrap name (ofInt64 i).1 (.done (ofInt64 i).2)
    | .uint u => wrap name (ofUInt64 u).1 (.done (ofUInt64 u).2)
    | .double d => wrap name .double (.done (Bytes.bigEndian 8 d.bits.toNat))
    | .str s => wrap name .string (.done (Text.utf8 s ++ [0]))
    | .bytes b => wrap name .string (.done (b ++ [0]))
    | .table entries => wrap name .table (inNameOrder (draftEntries levels [] entries))
    | .array items => wrap name .array (Draft.inTurn (draftItems levels [] items))

/-- The drafts of entries, in the order of the entries, after those already made (newest
first). -/
def draftEntries (levels : Nat) (made : List (String × Draft)) (entries : List (String × Value)) :
    List (String × Draft) :=
  match entries with
  | [] => made.reverse
  | (name, v) :: rest => draftEntries levels ((name, draft levels name v) :: made) rest

/-- The drafts of items, which have the empty name, after those already made (newest first). -/
def draftItems (levels : Nat) (made : List Draft) (items : List Value) : List Draft :=
  match items with
  | [] => made.reverse
  | v :: rest => draftItems levels (draft levels "" v :: made) rest

end

theorem draftEntries_eq (levels : Nat) (made : List (String × Draft)) (entries : Entries) :
    draftEntries levels made entries =
      made.reverse ++ entries.map fun e => (e.1, draft levels e.1 e.2) := by
  induction entries generalizing made with
  | nil => simp [draftEntries]
  | cons e rest ih => simp [draftEntries, ih]

theorem draftItems_eq (levels : Nat) (made : List Draft) (items : List Value) :
    draftItems levels made items = made.reverse ++ items.map (draft levels "") := by
  induction items generalizing made with
  | nil => simp [draftItems]
  | cons v rest ih => simp [draftItems, ih]

/-- The draft of the entries of an outermost table. -/
def entriesDraft (entries : Entries) : Draft :=
  inNameOrder (draftEntries (maxDepth + 1) [] entries)

/-- The draft of the items of an outermost array. -/
def itemsDraft (items : List Value) : Draft :=
  Draft.inTurn (draftItems (maxDepth + 1) [] items)

end Wire

/-- A container around its contents: a plain word with the whole length, and the contents. -/
def sealContainer (contents : Bytes) : Except Fault Bytes :=
  match Header.make 0 (4 + contents.length) false with
  | .error _ => .error (.overflow .container)
  | .ok h => .ok (h.encode ++ contents)

/-- The octets of a named value. -/
def encodeNamed (name : String) (v : Value) : Except Fault Bytes :=
  (Wire.draft (maxDepth + 1) name v).toExcept

/-- The octets of a table as a container. -/
def encodeTable (entries : Entries) : Except Fault Bytes := do
  sealContainer (← (Wire.entriesDraft entries).toExcept)

/-- The octets of an array as a container. -/
def encodeArray (items : List Value) : Except Fault Bytes := do
  sealContainer (← (Wire.itemsDraft items).toExcept)

end MicroBus

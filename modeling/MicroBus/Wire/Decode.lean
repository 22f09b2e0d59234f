import MicroBus.Attribute.Walk
import MicroBus.Text.Utf8
import MicroBus.Value.Basic
import MicroBus.Wire.Tag

/-!
# Octets to values

The identifier of an attribute says how its payload is read. Scalars take their leading octets
and ignore the rest, text loses filler in front and terminators behind, and containers are read
attribute by attribute. Depth is checked before anything else, so hostile nesting ends at the
limit.
-/

namespace MicroBus

namespace Wire

/-- The leading octets of a scalar as an unsigned number. -/
def leading (s : Scalar) (data : Bytes) : Except Fault Nat :=
  if Bytes.atLeast s.width data then .ok (Bytes.ofBigEndian (data.take s.width))
  else .error (.badPayload s data.length)

/-- The leading octets of a scalar as a signed number in two's complement. -/
def leadingInt (s : Scalar) (data : Bytes) : Except Fault Value := do
  let n ← leading s data
  .ok (.int (Int64.ofInt (Int.bmod n (1 <<< (8 * s.width)))))

/-- Drops zero words in front, as long as more than a word is left. -/
def dropFront : Bytes → Bytes
  | a :: b :: c :: d :: e :: rest =>
    if a = 0 ∧ b = 0 ∧ c = 0 ∧ d = 0 then dropFront (e :: rest)
    else a :: b :: c :: d :: e :: rest
  | short => short

/-- The value of a text payload: text if its octets are well formed, else the octets. -/
def text (data : Bytes) : Value :=
  let b := Bytes.trimEnd (dropFront data)
  match Text.ofUtf8? b with
  | some s => .str s
  | none => .bytes b

/-- The name of an attribute as text; without a name it is empty. -/
def nameText (a : Attribute) : String :=
  match a.name with
  | none => ""
  | some n => Text.ofUtf8Repaired n

/-- An attribute as a table entry, with a reader for its payload. -/
def entry (read : UInt8 → Bytes → Except Fault Value) (a : Attribute) :
    Except Fault (String × Value) := do
  let v ← read a.id a.data
  .ok (nameText a, v)

/-- A run of attributes as table entries, with a reader for their payloads. -/
def entriesOf (read : UInt8 → Bytes → Except Fault Value) (b : Bytes) : Except Fault Entries :=
  (walk b).decode (entry read)

/-- A run of attributes as array items, with a reader for their payloads. Names are ignored. -/
def itemsOf (read : UInt8 → Bytes → Except Fault Value) (b : Bytes) :
    Except Fault (List Value) :=
  (walk b).decode fun a => read a.id a.data

/-- The value of a payload of the type `code`, with as many levels as may still be opened. -/
def value (levels : Nat) (code : UInt8) (data : Bytes) : Except Fault Value :=
  match levels with
  | 0 => .error (.tooDeep maxDepth)
  | levels + 1 => do
    match ← Tag.ofCode code with
    | .unspecified => .ok .null
    | .table => .table <$> entriesOf (value levels) data
    | .array => .array <$> itemsOf (value levels) data
    | .string => .ok (text data)
    | .int8 => leadingInt .int8 data
    | .int16 => leadingInt .int16 data
    | .int32 => leadingInt .int32 data
    | .int64 => leadingInt .int64 data
    | .double => do
      let n ← leading .double data
      .ok (.double ⟨UInt64.ofNat n⟩)

/-- The value of an outermost payload. -/
def outermost (code : UInt8) (data : Bytes) : Except Fault Value := value (maxDepth + 1) code data

/-- The contents of a container: what follows its word, up to its length. -/
def contents (b : Bytes) : Except Fault Bytes := do
  let h ← Header.parse b
  .ok ((b.drop 4).take (h.length - 4))

end Wire

/-- The entries of an outermost run of attributes. -/
def decodeEntries (b : Bytes) : Except Fault Entries := Wire.entriesOf Wire.outermost b

/-- The entries of the table whose container is at the head of `b`. -/
def decodeTable (b : Bytes) : Except Fault Entries := do
  decodeEntries (← Wire.contents b)

/-- The items of the array whose container is at the head of `b`. -/
def decodeArray (b : Bytes) : Except Fault (List Value) := do
  Wire.itemsOf Wire.outermost (← Wire.contents b)

/-- The name and the value of the first attribute in `b`. -/
def decodeNamed (b : Bytes) : Except Fault (String × Value) :=
  match ((Cursor.start b).next).1 with
  | some (.ok a) => Wire.entry Wire.outermost a
  | some (.error f) => .error f
  | none => .error (.truncated .wholeAttribute 4 b.length)

end MicroBus

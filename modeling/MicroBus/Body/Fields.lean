import MicroBus.Body.Field
import MicroBus.Wire.Decode

/-!
# Reading a message body

The fields of a body are its unnamed attributes. Of several with one number the last counts.
A body may also be a bare table, whose attributes all carry names.
-/

namespace MicroBus

/-- The attributes of a message body, in the order of the wire. -/
structure Fields where
  /-- The attributes. -/
  attributes : List Attribute

namespace Fields

/-- The attributes of a body. Without any octets there are none. -/
def parse (body : Bytes) : Except Fault Fields :=
  match body with
  | [] => .ok ⟨[]⟩
  | _ => do
    let attributes ← (walk (← Wire.contents body)).toExcept
    .ok ⟨attributes⟩

/-- Whether the body carried nothing. -/
def isEmpty (fs : Fields) : Bool := fs.attributes.isEmpty

/-- Whether every attribute carries a name. -/
def allExtended (fs : Fields) : Bool := fs.attributes.all Attribute.isExtended

/-- The last attribute of a field. -/
def get? (fs : Fields) (field : Field) : Option Attribute :=
  fs.attributes.reverse.find? fun a => a.id = field.code && !a.isExtended

/-- The unsigned word of a field. -/
def word? (fs : Fields) (field : Field) : Except Fault (Option UInt32) :=
  match fs.get? field with
  | none => .ok none
  | some a => do
    let n ← Wire.leading .word a.data
    .ok (some (UInt32.ofNat n))

/-- The text of a field, up to its first zero octet. -/
def text? (fs : Fields) (field : Field) : Option String :=
  (fs.get? field).map fun a => Text.ofUtf8Repaired (a.data.takeWhile (· != 0))

/-- The table entries of a field. -/
def entries? (fs : Fields) (field : Field) : Except Fault (Option Entries) :=
  match fs.get? field with
  | none => .ok none
  | some a => some <$> decodeEntries a.data

/-- The whole body as table entries. -/
def asEntries (fs : Fields) : Except Fault Entries :=
  fs.attributes.mapM (Wire.entry Wire.outermost)

end Fields

end MicroBus

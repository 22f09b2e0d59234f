import MicroBus.Frame.Kind
import MicroBus.Body.Field

/-!
# Faults of the wire format

Each way in which octets can fail to be a message, or a value can fail to have octets, is one
constructor that carries its cause. The wording is in one function, `Fault.message`.
-/

namespace MicroBus

/-- A scalar that has a fixed width on the wire. -/
inductive Scalar where
  /-- An unsigned word of a message body. -/
  | word
  /-- An 8-bit integer. -/
  | int8
  /-- A 16-bit integer. -/
  | int16
  /-- A 32-bit integer. -/
  | int32
  /-- A 64-bit integer. -/
  | int64
  /-- A double. -/
  | double
  deriving DecidableEq

namespace Scalar

/-- The octets a scalar takes. -/
def width : Scalar → Nat
  | word => 4
  | int8 => 1
  | int16 => 2
  | int32 => 4
  | int64 => 8
  | double => 8

/-- The name of a scalar in diagnostics. -/
def name : Scalar → String
  | word => "u32"
  | int8 => "int8"
  | int16 => "int16"
  | int32 => "int32"
  | int64 => "int64"
  | double => "double"

end Scalar

/-- Something whose octets can end too early. -/
inductive Cut where
  /-- The word in front of an attribute. -/
  | attributeHeader
  /-- A whole attribute. -/
  | wholeAttribute
  deriving DecidableEq

/-- The name of what was cut in diagnostics. -/
def Cut.name : Cut → String
  | attributeHeader => "attribute header"
  | wholeAttribute => "attribute"

/-- Something whose length has to fit a field of the format. -/
inductive Extent where
  /-- An attribute with its header. -/
  | wholeAttribute
  /-- The name of an attribute. -/
  | attributeName
  /-- A whole container. -/
  | container
  deriving DecidableEq

/-- The name of an extent in diagnostics. -/
def Extent.name : Extent → String
  | wholeAttribute => "attribute"
  | attributeName => "attribute name"
  | container => "blob"

/-- Why data cannot be projected into JSON. -/
inductive DataFault where
  /-- A key of a map is not text. -/
  | keyNotText
  /-- An integer lies outside the 64-bit ranges. -/
  | integerRange
  deriving DecidableEq

/-- The text of a fault of data. -/
def DataFault.message : DataFault → String
  | keyNotText => "key must be a string"
  | integerRange => "number out of range"

/-- Why a byte stream failed. -/
inductive StreamFault where
  /-- The stream ended before the octets that were wanted. -/
  | ended
  /-- The sink took fewer octets than were offered. -/
  | full
  /-- The other side is gone. -/
  | broken
  deriving DecidableEq

/-- The text of a fault of a stream. -/
def StreamFault.message : StreamFault → String
  | ended => "failed to fill whole buffer"
  | full => "failed to write whole buffer"
  | broken => "Broken pipe (os error 32)"

/-- Why octets are not a message, or a value has no octets. -/
inductive Fault where
  /-- The length of an attribute is below its header's or beyond the octets at hand. -/
  | badLength (length remaining : Nat)
  /-- The octets ended inside something of fixed size. -/
  | truncated (what : Cut) (need present : Nat)
  /-- The name of an attribute does not fit it or lacks its terminator. -/
  | badName
  /-- A scalar has fewer octets than its width. -/
  | badPayload (what : Scalar) (actual : Nat)
  /-- No value has this type number. -/
  | unknownType (code : UInt8)
  /-- Containers are nested beyond the limit. -/
  | tooDeep (limit : Nat)
  /-- A length does not fit its field. -/
  | overflow (what : Extent)
  /-- No message has this kind number. -/
  | unknownKind (code : UInt8)
  /-- The length of a message body is impossible. -/
  | badBodyLength (length : Nat)
  /-- A message of another kind arrived. -/
  | unexpectedKind (expected got : Kind)
  /-- A field that has to be there is not. -/
  | missingField (field : Field)
  /-- Data could not be projected into JSON. -/
  | data (fault : DataFault)
  /-- The byte stream failed. -/
  | stream (fault : StreamFault)
  deriving DecidableEq

/-- The text of a fault. -/
def Fault.message : Fault → String
  | badLength length remaining =>
    "attribute length " ++ toString length ++ " out of bounds (" ++ toString remaining
      ++ " bytes available)"
  | truncated what need present =>
    "truncated " ++ what.name ++ ": need " ++ toString need ++ " bytes, have "
      ++ toString present
  | badName => "malformed attribute name"
  | badPayload what actual =>
    what.name ++ " payload needs " ++ toString what.width ++ " bytes, got " ++ toString actual
  | unknownType code => "unknown blobmsg type " ++ toString code.toNat
  | tooDeep limit => "containers nested deeper than " ++ toString limit ++ " levels"
  | overflow what => "length overflow while encoding " ++ what.name
  | unknownKind code => "unknown message type " ++ toString code.toNat
  | badBodyLength length => "invalid message length " ++ toString length
  | unexpectedKind expected got =>
    "unexpected " ++ got.name ++ " message, expected " ++ expected.name
  | missingField field => "missing " ++ field.name ++ " attribute"
  | data fault => fault.message
  | stream fault => fault.message

end MicroBus

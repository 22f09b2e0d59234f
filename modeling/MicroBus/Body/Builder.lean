import MicroBus.Body.Field
import MicroBus.Wire.Encode

/-!
# Building a message body

A body is a container of unnamed attributes, one per field. A builder holds the octets that
follow the container's word. Each put hands back the builder with a fault if there was one:
what a failing put had written by then stays in the builder.
-/

namespace MicroBus

/-- A message body under construction. -/
structure Builder where
  /-- The octets after the word of the container. -/
  written : Bytes

namespace Builder

/-- A body without fields. -/
def empty : Builder := ⟨[]⟩

instance : Inhabited Builder := ⟨empty⟩

/-- Appends a field with the given payload. -/
def putRaw (b : Builder) (field : Field) (payload : Bytes) : Option Fault × Builder :=
  match Header.make field.code (4 + payload.length) false with
  | .error f => (some f, b)
  | .ok h => (none, ⟨Bytes.padded (b.written ++ h.encode ++ payload)⟩)

/-- Appends a field that holds an unsigned word. -/
def putWord (b : Builder) (field : Field) (w : UInt32) : Option Fault × Builder :=
  b.putRaw field (Bytes.bigEndian 4 w.toNat)

/-- Appends a field that holds text and its terminator. -/
def putText (b : Builder) (field : Field) (s : String) : Option Fault × Builder :=
  b.putRaw field (Text.utf8 s ++ [0])

/-- Appends a field that holds the entries of a table. Their filler is counted from where they begin,
which is a multiple of four unless an entry beyond the greatest length was left behind by a failing
put; such a body cannot be finished. -/
def putTable (b : Builder) (field : Field) (entries : Entries) : Option Fault × Builder :=
  let inside := Wire.entriesDraft entries
  let unfinished : Builder := ⟨b.written ++ Bytes.zeroWord ++ inside.bytes⟩
  match inside.fault with
  | some f => (some f, unfinished)
  | none =>
    match Header.make field.code (4 + inside.bytes.length) false with
    | .error f => (some f, unfinished)
    | .ok h => (none, ⟨b.written ++ h.encode ++ inside.bytes⟩)

/-- The octets of the body. -/
def finish (b : Builder) : Except Fault Bytes := sealContainer b.written

end Builder

end MicroBus

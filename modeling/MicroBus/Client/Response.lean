import MicroBus.Body.Fields
import MicroBus.Client.Failure
import MicroBus.Frame.Basic
import MicroBus.Json.Shape

/-!
# Replies

The data of a reply comes in parts. Each part is a table, either in the data field of a message
or as a bare body; together they are one table in which the last entry of a name counts. The
reply to a look-up has one object in each part. A status message ends the reply.
-/

namespace MicroBus

/-- The reply to a call. -/
@[ext]
structure Response where
  /-- The entries. -/
  entries : Entries
  /-- Each name is there once, in ascending order. -/
  ascending : Ascending entries

namespace Response

/-- The reply that has the last entry of each name. -/
def ofEntries (entries : Entries) : Response := ⟨canonical entries, ascending_canonical entries⟩

@[simp] theorem entries_ofEntries (entries : Entries) :
    (ofEntries entries).entries = canonical entries := rfl

/-- Brings the parts of a reply together. -/
def ofParts (parts : List Entries) : Response := ofEntries parts.flatten

/-- Whether the reply holds nothing. -/
def isEmpty (r : Response) : Bool := r.entries.isEmpty

/-- One entry of the reply. -/
def get? (r : Response) (name : String) : Option Value := Value.findLast? name r.entries

/-- The reply as a JSON object. -/
def toJson (r : Response) : Json := (Value.table r.entries).toJson

/-- The reply as data of a type. -/
def unmarshal [OfJson α] (r : Response) : Except Failure α :=
  if r.isEmpty then .error .noData
  else
    match OfJson.ofJson? r.toJson with
    | some a => .ok a
    | none => .error .shape

/-- The part of a reply in the body of a message: the entries of its data field, or of a body
whose attributes all carry names. Other bodies have no part in the reply. -/
def part (frame : Frame) : Except Fault (Option Entries) := do
  let fields ← Fields.parse frame.body
  match ← fields.entries? .data with
  | some entries => .ok (some entries)
  | none => if fields.allExtended then some <$> fields.asEntries else .ok none

end Response

/-- An object that a look-up reported. -/
structure ObjectInfo where
  /-- The path of the object. -/
  path : String
  /-- The identifier that the daemon assigned. -/
  id : UInt32
  /-- The identifier of its type, if reported. -/
  typeId : Option UInt32
  /-- The signatures of its methods, if reported: by method, a table of type numbers by
  argument. -/
  signature : Option Entries

/-- The field of a body, or the fault that it is missing. -/
def Fields.require (field : Field) : Option α → Except Fault α
  | some a => .ok a
  | none => .error (.missingField field)

/-- The object in the body of a message. -/
def ObjectInfo.ofFrame (frame : Frame) : Except Fault ObjectInfo := do
  let fields ← Fields.parse frame.body
  let path ← Fields.require .objectPath (fields.text? .objectPath)
  let id ← Fields.require .objectId (← fields.word? .objectId)
  let typeId ← fields.word? .objectType
  let signature ← fields.entries? .signature
  .ok ⟨path, id, typeId, signature⟩

/-- The code in the body of a status message; a body without fields means success. -/
def statusCode (frame : Frame) : Except Fault UInt32 := do
  let fields ← Fields.parse frame.body
  if fields.isEmpty then .ok 0
  else Fields.require .status (← fields.word? .status)

end MicroBus

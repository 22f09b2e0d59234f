/-!
# Status codes

A reply ends with a code. The eleven known codes have a meaning and a text; any other number
has neither.
-/

namespace MicroBus

/-- The meaning of a known status code. -/
inductive Status where
  /-- Success. -/
  | ok
  /-- The command is not valid for the object. -/
  | invalidCommand
  /-- An argument was missing or malformed. -/
  | invalidArgument
  /-- The object has no such method. -/
  | methodNotFound
  /-- The object does not exist. -/
  | notFound
  /-- The call produced no data. -/
  | noData
  /-- The call is forbidden. -/
  | permissionDenied
  /-- The request timed out at the daemon. -/
  | timeout
  /-- The operation is not supported. -/
  | notSupported
  /-- An unspecified failure. -/
  | unknownError
  /-- The daemon could not reach the object. -/
  | connectionFailed
  deriving DecidableEq

namespace Status

/-- The number of a status. -/
def code : Status → UInt32
  | ok => 0
  | invalidCommand => 1
  | invalidArgument => 2
  | methodNotFound => 3
  | notFound => 4
  | noData => 5
  | permissionDenied => 6
  | timeout => 7
  | notSupported => 8
  | unknownError => 9
  | connectionFailed => 10

/-- The status with a number, if the number is known. -/
def ofCode? : UInt32 → Option Status
  | 0 => some ok
  | 1 => some invalidCommand
  | 2 => some invalidArgument
  | 3 => some methodNotFound
  | 4 => some notFound
  | 5 => some noData
  | 6 => some permissionDenied
  | 7 => some timeout
  | 8 => some notSupported
  | 9 => some unknownError
  | 10 => some connectionFailed
  | _ => none

/-- The text of a status. -/
def text : Status → String
  | ok => "Success"
  | invalidCommand => "Invalid command"
  | invalidArgument => "Invalid argument"
  | methodNotFound => "Method not found"
  | notFound => "Not found"
  | noData => "No response"
  | permissionDenied => "Permission denied"
  | timeout => "Request timed out"
  | notSupported => "Operation not supported"
  | unknownError => "Unknown error"
  | connectionFailed => "Connection failed"

@[simp] theorem ofCode?_code (s : Status) : ofCode? s.code = some s := by
  cases s <;> rfl

theorem code_of_ofCode? {code : UInt32} {s : Status} (h : ofCode? code = some s) :
    s.code = code := by
  unfold ofCode? at h
  split at h <;> cases h <;> rfl

theorem ofCode?_eq_none_iff {code : UInt32} : ofCode? code = none ↔ 10 < code := by
  unfold ofCode?
  constructor
  · intro h
    split at h <;> grind
  · intro h
    split <;> first | rfl | simp at h

end Status

end MicroBus

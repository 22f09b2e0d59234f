import MicroBus.Fault

/-!
# Type numbers of values

The identifier of a named attribute says what its payload is. Nine numbers are in use.
-/

namespace MicroBus

/-- What the payload of a named attribute is. -/
inductive Tag where
  /-- Nothing. -/
  | unspecified
  /-- Unnamed items. -/
  | array
  /-- Named entries. -/
  | table
  /-- Text or octets with a terminator. -/
  | string
  /-- A 64-bit signed integer. -/
  | int64
  /-- A 32-bit signed integer. -/
  | int32
  /-- A 16-bit signed integer. -/
  | int16
  /-- An 8-bit signed integer, or a truth value. -/
  | int8
  /-- A double. -/
  | double
  deriving DecidableEq

namespace Tag

/-- The number of a type. -/
def code : Tag → UInt8
  | unspecified => 0
  | array => 1
  | table => 2
  | string => 3
  | int64 => 4
  | int32 => 5
  | int16 => 6
  | int8 => 7
  | double => 8

/-- The type with a number. -/
def ofCode? : UInt8 → Option Tag
  | 0 => some unspecified
  | 1 => some array
  | 2 => some table
  | 3 => some string
  | 4 => some int64
  | 5 => some int32
  | 6 => some int16
  | 7 => some int8
  | 8 => some double
  | _ => none

/-- The type with a number, or the fault of a number without a type. -/
def ofCode (code : UInt8) : Except Fault Tag :=
  match ofCode? code with
  | some t => .ok t
  | none => .error (.unknownType code)

@[simp] theorem ofCode?_code (t : Tag) : ofCode? t.code = some t := by
  cases t <;> rfl

@[simp] theorem ofCode_code (t : Tag) : ofCode t.code = .ok t := by
  cases t <;> rfl

end Tag

/-- The number of containers that may enclose a value. -/
def maxDepth : Nat := 64

end MicroBus

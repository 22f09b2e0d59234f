/-!
# Fields of a message body

The attributes directly inside a message body carry no names: a number says which field each
of them is.
-/

namespace MicroBus

/-- A field of a message body. -/
inductive Field where
  /-- No field. -/
  | unspecified
  /-- The status code of a reply. -/
  | status
  /-- The path of an object. -/
  | objectPath
  /-- The identifier of an object. -/
  | objectId
  /-- The name of a method. -/
  | method
  /-- The identifier of an object type. -/
  | objectType
  /-- The signatures of the methods. -/
  | signature
  /-- The arguments of a call or the data of a reply. -/
  | data
  /-- The target of a notice. -/
  | target
  /-- Whether there are subscribers. -/
  | active
  /-- No reply is wanted. -/
  | noReply
  /-- The list of subscribers. -/
  | subscribers
  /-- The user name of the caller. -/
  | user
  /-- The group name of the caller. -/
  | group
  deriving DecidableEq

namespace Field

/-- The number of a field. -/
def code : Field → UInt8
  | unspecified => 0
  | status => 1
  | objectPath => 2
  | objectId => 3
  | method => 4
  | objectType => 5
  | signature => 6
  | data => 7
  | target => 8
  | active => 9
  | noReply => 10
  | subscribers => 11
  | user => 12
  | group => 13

/-- The field with a number. -/
def ofCode? : UInt8 → Option Field
  | 0 => some unspecified
  | 1 => some status
  | 2 => some objectPath
  | 3 => some objectId
  | 4 => some method
  | 5 => some objectType
  | 6 => some signature
  | 7 => some data
  | 8 => some target
  | 9 => some active
  | 10 => some noReply
  | 11 => some subscribers
  | 12 => some user
  | 13 => some group
  | _ => none

/-- The name of a field in diagnostics. -/
def name : Field → String
  | unspecified => "unspec"
  | status => "status"
  | objectPath => "objpath"
  | objectId => "objid"
  | method => "method"
  | objectType => "objtype"
  | signature => "signature"
  | data => "data"
  | target => "target"
  | active => "active"
  | noReply => "no_reply"
  | subscribers => "subscribers"
  | user => "user"
  | group => "group"

@[simp] theorem ofCode?_code (f : Field) : ofCode? f.code = some f := by
  cases f <;> rfl

end Field

end MicroBus

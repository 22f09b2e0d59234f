import MicroBus.Client.Failure
import MicroBus.Json.Data
import MicroBus.Json.Parser
import MicroBus.Value.Convert

/-!
# Arguments of a call

Arguments come in several forms and are brought into one when the call is made: a table with
each name once, in ascending order. Anything that is neither a table nor nothing is refused.
-/

namespace MicroBus

/-- The arguments of a call, as the caller gave them. -/
inductive Arguments where
  /-- No arguments. -/
  | none
  /-- Values by name. -/
  | named (entries : NameMap Value)
  /-- One value, which has to be a table or nothing. -/
  | value (v : Value)
  /-- The octets of a JSON text, which has to be an object or null. -/
  | json (text : Bytes)
  /-- Arguments that could not be projected into a value. -/
  | faulty (fault : Fault)

namespace Arguments

/-- The arguments of a program's data. -/
def ofData (d : Data) : Arguments :=
  match Value.ofData d with
  | .ok v => value v
  | .error f => faulty f

/-- Whether an octet is white space in ASCII. -/
def isBlank (b : UInt8) : Bool := b = 32 || b = 9 || b = 10 || b = 12 || b = 13

/-- The table that a value is. -/
def ofTable (v : Value) : Except Rejection Entries :=
  match v.toCanonical with
  | .ok entries => .ok entries
  | .error other => .error (.noTable other.kind)

/-- The table that is sent. A text of white space counts as no arguments. -/
def normalize : Arguments → Except Rejection Entries
  | none => .ok []
  | named m => .ok m.entries
  | value v => ofTable v
  | json text =>
    if text.all isBlank then .ok []
    else
      match Json.ofUtf8? text with
      | Option.none => .error .notJson
      | some j => ofTable (.ofJson j)
  | faulty f => .error (.noValue f)

end Arguments

end MicroBus

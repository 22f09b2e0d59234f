/-!
# Message kinds

Each message says in one octet what it is. The kinds are numbered from zero without a gap,
and every other octet names no kind.
-/

namespace MicroBus

/-- What a message is. -/
inductive Kind where
  /-- The greeting of the daemon, which assigns the peer identifier. -/
  | hello
  /-- The end of a request, with its status code. -/
  | status
  /-- One part of a reply. -/
  | data
  /-- A sign of life. -/
  | ping
  /-- A request to resolve object paths. -/
  | lookup
  /-- A request to call a method. -/
  | invoke
  /-- The publication of an object. -/
  | addObject
  /-- The withdrawal of an object. -/
  | removeObject
  /-- A subscription to an object. -/
  | subscribe
  /-- The end of a subscription. -/
  | unsubscribe
  /-- A notice to the subscribers of an object. -/
  | notify
  /-- Traffic of a bus monitor. -/
  | monitor
  deriving DecidableEq

namespace Kind

/-- The octet that stands for a kind. -/
def code : Kind → UInt8
  | hello => 0
  | status => 1
  | data => 2
  | ping => 3
  | lookup => 4
  | invoke => 5
  | addObject => 6
  | removeObject => 7
  | subscribe => 8
  | unsubscribe => 9
  | notify => 10
  | monitor => 11

/-- The kind that an octet stands for. -/
def ofCode? : UInt8 → Option Kind
  | 0 => some hello
  | 1 => some status
  | 2 => some data
  | 3 => some ping
  | 4 => some lookup
  | 5 => some invoke
  | 6 => some addObject
  | 7 => some removeObject
  | 8 => some subscribe
  | 9 => some unsubscribe
  | 10 => some notify
  | 11 => some monitor
  | _ => none

/-- The name of a kind in diagnostics. -/
def name : Kind → String
  | hello => "HELLO"
  | status => "STATUS"
  | data => "DATA"
  | ping => "PING"
  | lookup => "LOOKUP"
  | invoke => "INVOKE"
  | addObject => "ADD_OBJECT"
  | removeObject => "REMOVE_OBJECT"
  | subscribe => "SUBSCRIBE"
  | unsubscribe => "UNSUBSCRIBE"
  | notify => "NOTIFY"
  | monitor => "MONITOR"

@[simp] theorem ofCode?_code (k : Kind) : ofCode? k.code = some k := by
  cases k <;> rfl

end Kind

end MicroBus

import MicroBus.Client.Failure
import MicroBus.Text.Hex

/-!
# Events for a logger

A client tells its logger what it does: each message sent and received at the finer level, and
the course of each request at the coarser one.
-/

namespace MicroBus

/-- How detailed an event is. -/
inductive Level where
  /-- The course of requests. -/
  | debug
  /-- Single messages. -/
  | trace
  deriving DecidableEq

/-- The name of a level. -/
def Level.name : Level → String
  | debug => "DEBUG"
  | trace => "TRACE"

/-- Something a client tells its logger. -/
inductive Event where
  /-- A message was sent. -/
  | sent (kind : Kind) (seq : UInt16) (length : Nat)
  /-- A message was received. -/
  | received (kind : Kind) (seq : UInt16) (length : Nat)
  /-- The greeting arrived. -/
  | connected (socket : String) (peer : UInt32)
  /-- A part of a reply made no sense. -/
  | malformed (step : Step) (seq : UInt16) (failure : Failure)
  /-- A message that is no part of a reply was passed over. -/
  | ignored (step : Step) (kind : Kind)
  /-- A path was found in the directory. -/
  | known (path : String) (id : UInt32)
  /-- A look-up ended with another status than success. -/
  | lookupFailed (path : String) (status : UInt32)
  /-- A look-up succeeded. -/
  | lookupComplete (path : String) (found : Nat)
  /-- A call ended with another status than success. -/
  | callFailed (target : String) (id : UInt32) (status : UInt32)
  /-- A call succeeded. -/
  | callComplete (target : String) (id : UInt32) (entries : Nat)
  /-- A part of a reply carried no data. -/
  | withoutData
  deriving DecidableEq

namespace Event

/-- How detailed an event is. -/
def level : Event → Level
  | sent .. => .trace
  | received .. => .trace
  | known .. => .trace
  | _ => .debug

/-- The text of an event. -/
def message : Event → String
  | sent .. => "sent"
  | received .. => "received"
  | connected .. => "connected to ubusd"
  | malformed .. => "malformed reply"
  | ignored .. => "ignoring message"
  | known .. => "object id cache hit"
  | lookupFailed .. => "lookup failed"
  | lookupComplete .. => "lookup complete"
  | callFailed .. => "call failed"
  | callComplete .. => "call complete"
  | withoutData => "DATA reply without a data attribute"

/-- The details of an event by name, in ascending order of the names. -/
def details : Event → List (String × String)
  | sent kind seq length =>
    [("kind", kind.name), ("len", toString length), ("seq", toString seq.toNat)]
  | received kind seq length =>
    [("kind", kind.name), ("len", toString length), ("seq", toString seq.toNat)]
  | connected socket peer => [("peer", "0x" ++ Text.hex32 peer), ("socket", socket)]
  | malformed step seq failure =>
    [("error", failure.message), ("op", step.name), ("seq", toString seq.toNat)]
  | ignored step kind => [("kind", kind.name), ("op", step.name)]
  | known path id => [("objid", toString id.toNat), ("path", path)]
  | lookupFailed path status => [("path", path), ("status", toString status.toNat)]
  | lookupComplete path found => [("found", toString found), ("path", path)]
  | callFailed target id status =>
    [("objid", toString id.toNat), ("status", toString status.toNat), ("target", target)]
  | callComplete target id entries =>
    [("entries", toString entries), ("objid", toString id.toNat), ("target", target)]
  | withoutData => []

end Event

end MicroBus

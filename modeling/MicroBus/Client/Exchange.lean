import MicroBus.Client.Event
import MicroBus.Client.Response

/-!
# The frames of one reply

A request is answered by frames up to and including the first status message. `Reply.collect`
takes exactly these off the stream, whatever they contain; what they mean is decided after
that, so a malformed part does not leave the stream between two replies. Of all that can be
wrong the first malformed part counts, then the status message, then its code.
-/

namespace MicroBus

/-- What the daemon's side of a connection has come to. It is the same throughout an operation: the
daemon does not go away between the look-up of a path and the call on its object. -/
inductive Ending where
  /-- More may be sent. -/
  | none
  /-- Nothing more will be sent. -/
  | ended
  /-- Nothing more will be sent or received. -/
  | gone
  deriving DecidableEq

/-- The failure of a step whose frame could not be read. A stream that has not ended keeps its
reader waiting until time runs out. -/
def Failure.ofRead (step : Step) (ending : Ending) (fault : Fault) : Failure :=
  match fault with
  | .stream f => if ending = .none then .timeout step else .stream step .read f
  | other => .invalidResponse other

/-- How the parts of a reply are read. -/
structure PartReader (α : Type) where
  /-- The part in a frame. -/
  part : Frame → Except Fault α
  /-- What a logger is told about a part. -/
  notice : α → List Event

/-- The frames that answer a request. -/
structure Reply where
  /-- The frames before the status message, in order. -/
  frames : List Frame
  /-- The status message, or the fault of the frame that could not be read. -/
  status : Except Fault Frame

namespace Reply

/-- Continues to take the frames of a reply off a stream, after those already met (newest
first). -/
def collectOnto (met : List Frame) (stream : Bytes) : Reply × Bytes :=
  match _h : Frame.read stream with
  | (.error f, rest) => (⟨met.reverse, .error f⟩, rest)
  | (.ok frame, rest) =>
    if frame.envelope.kind = .status then (⟨met.reverse, .ok frame⟩, rest)
    else collectOnto (frame :: met) rest
termination_by stream.length
decreasing_by exact Frame.length_lt_of_read ‹_›

/-- The frames of one reply at the front of a stream, and what is left of it. -/
def collect (stream : Bytes) : Reply × Bytes := collectOnto [] stream

/-- The frames that carry parts of the reply. -/
def dataFrames (r : Reply) : List Frame := r.frames.filter fun f => f.envelope.kind = .data

/-- The parts of the reply in order, or the fault of the first malformed one. -/
def parts (r : Reply) (reader : PartReader α) : Except Fault (List α) :=
  r.dataFrames.mapM reader.part

/-- The status code and the parts of the reply, or why there are none. -/
def outcome (r : Reply) (step : Step) (ending : Ending) (reader : PartReader α) :
    Except Failure (UInt32 × List α) :=
  match r.status with
  | .error fault => .error (.ofRead step ending fault)
  | .ok frame =>
    match r.parts reader with
    | .error fault => .error (.invalidResponse fault)
    | .ok parts =>
      match statusCode frame with
      | .error fault => .error (.invalidResponse fault)
      | .ok code => .ok (code, parts)

/-- The event of a received frame. -/
def received (frame : Frame) : Event :=
  .received frame.envelope.kind frame.envelope.seq frame.body.length

/-- Whether a part was malformed, and the events so far, newest first. -/
abbrev Account := Bool × List Event

/-- Adds the events of a frame before the status message. Parts after a malformed one are not
looked at. -/
def account (step : Step) (reader : PartReader α) (a : Account) (frame : Frame) : Account :=
  let events := received frame :: a.2
  if frame.envelope.kind = .data then
    if a.1 then (true, events)
    else
      match reader.part frame with
      | .ok part => (false, (reader.notice part).reverse ++ events)
      | .error fault =>
        (true, .malformed step frame.envelope.seq (.invalidResponse fault) :: events)
  else (a.1, .ignored step frame.envelope.kind :: events)

/-- The events of a reply, newest first. -/
def events (r : Reply) (step : Step) (reader : PartReader α) : List Event :=
  let before := (r.frames.foldl (account step reader) (false, [])).2
  match r.status with
  | .ok frame => received frame :: before
  | .error _ => before

end Reply

end MicroBus

import MicroBus.Proofs.Client.History
import MicroBus.Proofs.Client.Settled
import MicroBus.Proofs.Frame.Lossless

/-!
# What the stream decides

What a greeting, a look-up or a call comes to is decided by the octets that the daemon has sent and
by what its side has come to. The relations here say it in terms of these octets alone: which frames
are read off them, and what is in these frames. Every stream decides every request, in one way only,
and the client comes to just that.
-/

namespace MicroBus

/-! ## Frames that cannot be read -/

/-- The failure of a step whose frame cannot be read. -/
inductive Failure.OfUnread (step : Step) (ending : Ending) : Fault → Failure → Prop where
  /-- More may come, and it does not come in time. -/
  | late {why : StreamFault} (waits : ending = .none) :
    OfUnread step ending (.stream why) (.timeout step)
  /-- Nothing more comes. -/
  | cutOff {why : StreamFault} (finished : ending ≠ .none) :
    OfUnread step ending (.stream why) (.stream step .read why)
  /-- What has come is malformed. -/
  | malformed {fault : Fault} (whole : ∀ why, fault ≠ .stream why) :
    OfUnread step ending fault (.invalidResponse fault)

/-- A stream on which no reply is complete: frames none of which is a status message, and then one
that cannot be read. -/
structure Reply.CutAt (stream : Bytes) (before : List Frame) (fault : Fault) (rest : Bytes) :
    Prop where
  /-- The frames are read one after another, and what follows them is not. -/
  frames : ∃ middle, Frame.Sequence stream before middle ∧ Frame.read middle = (.error fault, rest)
  /-- None of them is a status message. -/
  none : ∀ f ∈ before, f.envelope.kind ≠ .status

/-- What a request that was sent comes to, by the stream, and what is left of the stream. -/
inductive RequestComesTo {α : Type} (Part : Frame → Except Fault α → Prop) (target : String)
    (step : Step) (ending : Ending) (stream : Bytes) : Except Failure (List α) → Bytes → Prop where
  /-- The reply is there up to its status message. -/
  | settled {before : List Frame} {last : Frame} {rest : Bytes} {r : Except Failure (List α)}
    (front : Reply.AtFront stream before last rest)
    (settled : Settled Part target step (Reply.dataAmong before) last r) :
    RequestComesTo Part target step ending stream r rest
  /-- A frame in front of the status message cannot be read. -/
  | cut {before : List Frame} {fault : Fault} {rest : Bytes} {f : Failure}
    (cut : Reply.CutAt stream before fault rest) (means : Failure.OfUnread step ending fault f) :
    RequestComesTo Part target step ending stream (.error f) rest

/-- A reply that was written on the stream settles the request. -/
theorem RequestComesTo.of_written {α : Type} {Part : Frame → Except Fault α → Prop}
    {target : String} {step : Step} {ending : Ending} {before : List Frame} {last : Frame}
    {r : Except Failure (List α)} (declared : ∀ f ∈ before ++ [last], f.Declared)
    (first : ∀ f ∈ before, f.envelope.kind ≠ .status) (status : last.envelope.kind = .status)
    (settled : Settled Part target step (Reply.dataAmong before) last r) (rest : Bytes) :
    RequestComesTo Part target step ending (Frame.written (before ++ [last]) ++ rest) r rest :=
  .settled ⟨Frame.sequence_written declared rest, first, status⟩ settled

namespace Reply

end Reply

/-- What connecting comes to, by the stream, and what is left of the stream. -/
inductive GreetingComesTo (s : Settings) (endpoint : Endpoint) (ending : Ending) (stream : Bytes) :
    Except Failure Unit → Bytes → Prop where
  /-- Something stands between the client and a listener. -/
  | unreachable {why : Unreachable} (h : endpoint.obstacle? s.path = some why) :
    GreetingComesTo s endpoint ending stream (.error (.connectionFailed why)) stream
  /-- There is no time to wait. -/
  | hasty (reached : endpoint.obstacle? s.path = none) (h : s.readTimeout = 0) :
    GreetingComesTo s endpoint ending stream (.error (.timeout .hello)) stream
  /-- The first frame cannot be read. -/
  | unreadable {fault : Fault} {rest : Bytes} {f : Failure}
    (reached : endpoint.obstacle? s.path = none) (waits : s.readTimeout ≠ 0)
    (read : Frame.read stream = (.error fault, rest))
    (means : Failure.OfUnread .hello ending fault f) :
    GreetingComesTo s endpoint ending stream (.error f) rest
  /-- The first frame is no greeting. -/
  | unexpected {frame : Frame} {rest : Bytes} (reached : endpoint.obstacle? s.path = none)
    (waits : s.readTimeout ≠ 0) (read : Frame.read stream = (.ok frame, rest))
    (other : frame.envelope.kind ≠ .hello) :
    GreetingComesTo s endpoint ending stream
      (.error (.invalidResponse (.unexpectedKind .hello frame.envelope.kind))) rest
  /-- The first frame is a greeting. -/
  | greeted {frame : Frame} {rest : Bytes} (reached : endpoint.obstacle? s.path = none)
    (waits : s.readTimeout ≠ 0) (read : Frame.read stream = (.ok frame, rest))
    (hello : frame.envelope.kind = .hello) :
    GreetingComesTo s endpoint ending stream (.ok ()) rest

/-- A greeting that was written on the stream greets the client. -/
theorem GreetingComesTo.of_written {s : Settings} {endpoint : Endpoint} {ending : Ending}
    {frame : Frame} (reached : endpoint.obstacle? s.path = none) (waits : s.readTimeout ≠ 0)
    (declared : frame.Declared) (hello : frame.envelope.kind = .hello) (rest : Bytes) :
    GreetingComesTo s endpoint ending (Frame.written [frame] ++ rest) (.ok ()) rest := by
  have frames : Frame.Sequence (Frame.written [frame] ++ rest) [frame] rest :=
    Frame.sequence_written (by simpa using declared) rest
  cases frames with
  | cons read_eq following =>
    cases following
    exact .greeted reached waits read_eq hello

namespace Client

theorem ReadTo.refl (c : Client) : c.ReadTo c.link.incoming c := ⟨rfl, rfl, rfl, rfl, rfl⟩

/-- What a client comes to that connects and then asks. -/
def session {α : Type} (s : Settings) (endpoint : Endpoint) (link : Link)
    (ask : Client → Except Failure α) : Except Failure α :=
  match connect s endpoint link with
  | (.error f, _) => .error f
  | (.ok (), c) => ask c

end Client

end MicroBus

import MicroBus.Client.Basic

/-!
# Connecting

A connection begins with the daemon's greeting, which assigns the peer identifier. Nothing is
read unless a socket with a listener is at the path, and nothing is awaited with a time limit
of zero.
-/

namespace MicroBus

/-- What is at the path of a socket. -/
inductive Endpoint where
  /-- A socket with a listener. -/
  | listening
  /-- Nothing, because the path does not lead anywhere. -/
  | nowhere (why : DeadEnd)
  /-- Something that is no socket. -/
  | noSocket
  /-- A socket without a listener. -/
  | stale
  deriving DecidableEq

/-- What is at a path of a file system. -/
def FileSystem.endpointAt (s : FileSystem) (path : String) : Endpoint :=
  match s.find path with
  | .error why => .nowhere why
  | .ok (.socket true) => .listening
  | .ok (.socket false) => .stale
  | .ok _ => .noSocket

/-- How to connect. -/
structure Settings where
  /-- The path of the socket. -/
  path : String
  /-- How long to wait for each message, in milliseconds. A wait that the clock cannot show the end
  of is never begun: the program breaks off instead, so clients only have others. -/
  readTimeout : Nat
  /-- The name of the logger, if there is one. -/
  logger : Option String

/-- The path at which the daemon listens by default. -/
def Settings.defaultPath : String := "/tmp/run/ubus/ubus.sock"

/-- How to connect by default: to the default path, with a minute for each message. -/
def Settings.default : Settings := ⟨Settings.defaultPath, 60000, none⟩

/-- Whether the clock can show the end of a wait for one message that begins when it shows `now`, in
nanoseconds. It holds its seconds in a signed 64-bit word. -/
def Settings.Awaitable (s : Settings) (now : Nat) : Prop :=
  now + s.readTimeout * 1000000 < 0x8000000000000000 * 1000000000

instance (s : Settings) (now : Nat) : Decidable (s.Awaitable now) :=
  inferInstanceAs (Decidable (_ < _))

/-- The greatest length of a path in the address of a socket, in octets. -/
def Endpoint.maxAddressLength : Nat := 107

/-- Why there is no connection to a path. A socket is looked at before its address is made, and
its listener after that. -/
def Endpoint.obstacle? (path : String) (endpoint : Endpoint) : Option Unreachable :=
  match endpoint with
  | nowhere why => some (.nowhere path why)
  | noSocket => some (.noSocket path)
  | listening | stale =>
    if maxAddressLength < path.utf8ByteSize then some (.longAddress path)
    else if endpoint = .stale then some (.refused path)
    else none

namespace Client

/-- A client that has not been greeted yet. -/
def ungreeted (s : Settings) (link : Link) : Client :=
  ⟨0, 0, .empty, false, true, link, s.logger, []⟩

/-- Reads the daemon's greeting. -/
def greet (c : Client) (s : Settings) : Except Failure Unit × Client :=
  if s.readTimeout = 0 then (.error (.timeout .hello), c)
  else
    match Frame.read c.link.incoming with
    | (.error fault, rest) =>
      (.error (.ofRead .hello c.link.ending fault),
        { c with link := { c.link with incoming := rest } })
    | (.ok frame, rest) =>
      let c := { c with link := { c.link with incoming := rest } }.note (Reply.received frame)
      if frame.envelope.kind = .hello then
        (.ok (), { c with peer := frame.envelope.peer }.note
          (.connected s.path frame.envelope.peer))
      else (.error (.invalidResponse (.unexpectedKind .hello frame.envelope.kind)), c)

/-- Connects to what is at the path, with a time limit that the clock can show. Without a connection
the client is of no use but for what its logger was told. -/
def connect (s : Settings) (endpoint : Endpoint) (link : Link) : Except Failure Unit × Client :=
  let c := ungreeted s link
  match endpoint.obstacle? s.path with
  | some why => (.error (.connectionFailed why), c)
  | none => c.greet s

end Client

end MicroBus

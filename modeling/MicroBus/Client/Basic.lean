import MicroBus.Body.Builder
import MicroBus.Client.Arguments
import MicroBus.Client.Exchange

/-!
# A client of the bus

A client owns one connection. It numbers its requests, remembers the identifier of every object
that a successful look-up reported, and reads each reply to its end before the next request. A
call on a path that is not known yet is preceded by a look-up. After closing, every operation
fails without touching the connection.
-/

namespace MicroBus

/-- The two directions of a connection, as the client sees them. -/
structure Link where
  /-- The octets that the daemon has sent and the client has not read. -/
  incoming : Bytes
  /-- What the daemon's side has come to. -/
  ending : Ending
  /-- The messages that the client has sent, newest first. -/
  sent : List Bytes

namespace Link

/-- A connection over which nothing was sent yet. -/
def fresh : Link := ⟨[], .none, []⟩

/-- The daemon sends some octets, unless its side has come to an end. -/
def feed (l : Link) (b : Bytes) : Link :=
  if l.ending = .none then { l with incoming := l.incoming ++ b } else l

/-- The daemon's side comes to an end; an end is never undone. -/
def finish (l : Link) (ending : Ending) : Link :=
  match ending, l.ending with
  | .none, _ => l
  | .gone, _ => { l with ending := .gone }
  | .ended, .none => { l with ending := .ended }
  | .ended, _ => l

/-- All octets that the client has sent, in order. -/
def outgoing (l : Link) : Bytes := l.sent.reverse.flatten

end Link

/-- Object identifiers by path. -/
structure Directory where
  /-- What look-ups reported, newest first. -/
  reports : List (String × UInt32)

namespace Directory

/-- A directory without objects. -/
def empty : Directory := ⟨[]⟩

/-- The identifier of a path in the newest report of it. -/
def find? (d : Directory) (path : String) : Option UInt32 :=
  (d.reports.find? fun r => r.1 = path).map Prod.snd

/-- Adds the report of one object. -/
def add (d : Directory) (o : ObjectInfo) : Directory := ⟨(o.path, o.id) :: d.reports⟩

/-- Adds the reports of objects in order, so that the last of a path counts. -/
def addAll (d : Directory) (objects : List ObjectInfo) : Directory := objects.foldl add d

@[simp] theorem find?_add (d : Directory) (o : ObjectInfo) (path : String) :
    (d.add o).find? path = if o.path = path then some o.id else d.find? path := by
  by_cases h : o.path = path <;> simp [add, find?, h]

end Directory

/-- A connected client. -/
structure Client where
  /-- The identifier from the daemon's greeting, which every message carries. -/
  peer : UInt32
  /-- The sequence number of the last message sent. -/
  seq : UInt16
  /-- The objects that look-ups reported. -/
  directory : Directory
  /-- Whether the client has been closed. -/
  closed : Bool
  /-- Whether the client still holds its connection. -/
  attached : Bool
  /-- The connection. -/
  link : Link
  /-- The name of the logger, if there is one. -/
  logger : Option String
  /-- What loggers were told, each by its name, newest first. -/
  log : List (String × Event)

namespace Client

/-- Adds events, newest first, to what the logger was told. -/
def noteAll (c : Client) (events : List Event) : Client :=
  match c.logger with
  | none => c
  | some name => { c with log := events.map (fun e => (name, e)) ++ c.log }

/-- Tells the logger about one event. -/
def note (c : Client) (event : Event) : Client := c.noteAll [event]

/-- Sends a message with the next sequence number. The number is used up only if the message
was sent. A message is sent as a whole or not at all, and sending fails only if the daemon is gone:
neither a time limit for writing nor a message of which a part was written is described here. -/
def send (c : Client) (kind : Kind) (body : Bytes) (step : Step) : Except Failure Unit × Client :=
  if !c.attached then (.error .closed, c)
  else if c.link.ending = .gone then (.error (.stream step .write .broken), c)
  else
    let seq := c.seq + 1
    let octets := Frame.encode (Envelope.current kind seq c.peer) body
    let link := { c.link with sent := octets :: c.link.sent }
    (.ok (), { c with seq := seq, link := link }.note (.sent kind seq body.length))

/-- Sends a request and reads its reply to the end. -/
def exchange (c : Client) (kind : Kind) (body : Bytes) (step : Step) (reader : PartReader α) :
    Except Failure (UInt32 × List α) × Client :=
  match c.send kind body step with
  | (.error f, c) => (.error f, c)
  | (.ok (), c) =>
    let (reply, rest) := Reply.collect c.link.incoming
    let c := { c with link := { c.link with incoming := rest } }
    (reply.outcome step c.link.ending reader, c.noteAll (reply.events step reader))

/-- The objects of a reply to a look-up. -/
def objectReader : PartReader ObjectInfo := ⟨ObjectInfo.ofFrame, fun _ => []⟩

/-- The tables of a reply to a call. -/
def tableReader : PartReader (Option Entries) :=
  ⟨Response.part, fun part => if part.isNone then [.withoutData] else []⟩

/-- The result of a put, if there was no fault. -/
def built (put : Option Fault × Builder) : Except Fault Builder :=
  match put with
  | (some f, _) => .error f
  | (none, b) => .ok b

/-- The body of a look-up: the pattern, or nothing to ask for every object. -/
def lookupBody (pattern : Option String) : Except Fault Bytes := do
  match pattern with
  | none => Builder.empty.finish
  | some p => (← built (Builder.empty.putText .objectPath p)).finish

/-- The body of a call: the object, the method and the arguments. -/
def invokeBody (id : UInt32) (method : String) (arguments : Entries) : Except Fault Bytes := do
  let b ← built (Builder.empty.putWord .objectId id)
  let b ← built (b.putText .method method)
  let b ← built (b.putTable .data arguments)
  b.finish

/-- Asks the daemon for the objects that match a pattern, and remembers them if it answers
with success. -/
def lookup (c : Client) (pattern : Option String) : Except Failure (List ObjectInfo) × Client :=
  match lookupBody pattern with
  | .error f => (.error (.invalidParameter (.noRequest f)), c)
  | .ok body =>
    match c.exchange .lookup body .lookup objectReader with
    | (.error f, c) => (.error f, c)
    | (.ok (code, objects), c) =>
      let target := pattern.getD "*"
      match Failure.ofStatus code target .lookup with
      | some f => (.error f, c.note (.lookupFailed target code))
      | none =>
        let c := c.note (.lookupComplete target objects.length)
        (.ok objects, { c with directory := c.directory.addAll objects })

/-- The identifier of a path: from the directory if it is known, else from a look-up, in which
the first object of that path counts. -/
def lookupId (c : Client) (path : String) : Except Failure UInt32 × Client :=
  if c.closed then (.error .closed, c)
  else
    match c.directory.find? path with
    | some id => (.ok id, c.note (.known path id))
    | none =>
      match c.lookup (some path) with
      | (.error f, c) => (.error f, c)
      | (.ok objects, c) =>
        match objects.find? fun o => o.path = path with
        | some o => (.ok o.id, c)
        | none => (.error (.notFound path), c)

/-- The objects that match a pattern, or all of them. -/
def list (c : Client) (pattern : Option String) : Except Failure (List ObjectInfo) × Client :=
  if c.closed then (.error .closed, c) else c.lookup pattern

/-- Calls a method of the object `id`. -/
def invoke (c : Client) (id : UInt32) (target method : String) (arguments : Entries) :
    Except Failure Response × Client :=
  match invokeBody id method arguments with
  | .error f => (.error (.invalidParameter (.noRequest f)), c)
  | .ok body =>
    match c.exchange .invoke body .invoke tableReader with
    | (.error f, c) => (.error f, c)
    | (.ok (code, parts), c) =>
      match Failure.ofStatus code target .invoke with
      | some f => (.error f, c.note (.callFailed target id code))
      | none =>
        let response := Response.ofParts (parts.filterMap fun part => part)
        (.ok response, c.note (.callComplete target id response.entries.length))

/-- Calls a method of the object at a path. The arguments are checked before the path is
looked up. -/
def call (c : Client) (service method : String) (arguments : Arguments) :
    Except Failure Response × Client :=
  if c.closed then (.error .closed, c)
  else
    match arguments.normalize with
    | .error why => (.error (.invalidParameter why), c)
    | .ok entries =>
      match c.lookupId service with
      | (.error f, c) => (.error f, c)
      | (.ok id, c) => c.invoke id (service ++ "." ++ method) method entries

/-- Closes the client and gives up its connection. -/
def close (c : Client) : Client := { c with closed := true, attached := false }

/-- Replaces the logger. -/
def setLogger (c : Client) (name : String) : Client := { c with logger := some name }

end Client

end MicroBus

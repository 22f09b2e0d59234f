import MicroBus.Client.Connect

/-!
# Scripted sessions

A session pairs a client with a daemon whose side is known in advance: before each action the
daemon sends some octets, and its side may come to an end. The report of a step has the result
of the action, what the client sent, and what its logger was told.
-/

namespace MicroBus

/-- Something that a session asks of its client. -/
inductive Action where
  /-- Resolve a path. -/
  | lookupId (path : String)
  /-- List the objects that match a pattern, or all. -/
  | list (pattern : Option String)
  /-- Call a method. -/
  | call (service method : String) (arguments : Arguments)
  /-- Close the client. -/
  | close
  /-- Replace the logger. -/
  | setLogger (name : String)

/-- What an action gave. -/
inductive Answer where
  /-- The identifier of an object. -/
  | id (w : UInt32)
  /-- Objects. -/
  | objects (l : List ObjectInfo)
  /-- The reply to a call. -/
  | response (r : Response)
  /-- Nothing. -/
  | done

/-- Runs one action. -/
def Client.act (c : Client) : Action → Except Failure Answer × Client
  | .lookupId path => let (r, c) := c.lookupId path; (r.map .id, c)
  | .list pattern => let (r, c) := c.list pattern; (r.map .objects, c)
  | .call service method arguments =>
    let (r, c) := c.call service method arguments; (r.map .response, c)
  | .close => (.ok .done, c.close)
  | .setLogger name => (.ok .done, c.setLogger name)

/-- A step of a session. -/
structure Turn where
  /-- What the daemon sends before the action. -/
  reply : Bytes
  /-- What the daemon's side comes to after that. -/
  ending : Ending
  /-- What the client does. -/
  action : Action
  /-- How often the step is run. -/
  times : Nat

/-- What is known after a step. -/
structure Report where
  /-- The result of the action; of a repeated one, the last. -/
  result : Except Failure Answer
  /-- The octets that the client sent; of a repeated action, the last time only. -/
  sent : Bytes
  /-- Whether the client is closed. -/
  closed : Bool
  /-- What loggers were told, in order. -/
  log : List (String × Event)

namespace Client

/-- Forgets what was sent and told, which a report has taken up. -/
def settle (c : Client) : Client := { c with log := [], link := { c.link with sent := [] } }

/-- The daemon sends what a step says, and the client acts. Of what was sent only the messages
of this action are kept. -/
def turnOnce (c : Client) (t : Turn) : Except Failure Answer × Client :=
  let link := (c.link.feed t.reply).finish t.ending
  { c with link := { link with sent := [] } }.act t.action

/-- Runs a step the given number of times more, after a result. -/
def turnTimes (t : Turn) : Nat → Except Failure Answer × Client → Except Failure Answer × Client
  | 0, last => last
  | n + 1, last => turnTimes t n (last.2.turnOnce t)

/-- Runs a step as often as it says. -/
def turn (c : Client) (t : Turn) : Report × Client :=
  let (result, c) := turnTimes t t.times (.ok .done, c)
  (⟨result, c.link.outgoing, c.closed, c.log.reverse⟩, c.settle)

/-- Continues a session, after the reports already made (newest first). -/
def turnsOnto (made : List Report) (c : Client) : List Turn → List Report
  | [] => made.reverse
  | t :: rest =>
    let (report, c) := c.turn t
    turnsOnto (report :: made) c rest

/-- Runs a session. -/
def turns (c : Client) (script : List Turn) : List Report := turnsOnto [] c script

end Client

end MicroBus

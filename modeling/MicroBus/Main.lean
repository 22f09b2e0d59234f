import MicroBus.Command.Run

/-!
# The program

The outer layer: it opens what is at the path of the socket, brings the daemon's octets to the
command frame by frame, and carries out what the command leaves behind. A command that would
wait is run again with one more frame, so that all decisions stay in `Command.runAt`. What is
at the path has to be a byte device that can be opened for reading and for appending, such as a
terminal bridged to the daemon.
-/

namespace MicroBus.Main

/-- The two directions of an open connection. -/
structure Connection where
  /-- What the daemon sends. -/
  source : IO.FS.Handle
  /-- What the daemon receives. -/
  sink : IO.FS.Handle

/-- Opens what is at a path, or says what is there instead of a listener. -/
def open? (path : String) : IO (Endpoint × Option Connection) := do
  try
    let source ← IO.FS.Handle.mk path .read
    let sink ← IO.FS.Handle.mk path .append
    return (.listening, some ⟨source, sink⟩)
  catch
    | .noFileOrDirectory .. => return (.nowhere .missing, none)
    | .inappropriateType _ 20 _ => return (.nowhere .notDirectory, none)
    | .inappropriateType .. => return (.noSocket, none)
    | .invalidArgument _ 36 _ => return (.nowhere .tooLong, none)
    | _ => return (.stale, none)

/-- The octets of one frame from the daemon, or as many as come before the end. -/
def receive (source : IO.FS.Handle) : IO Bytes := do
  let head ← source.read 12
  let octets := head.data.toList
  match Frame.bodyLength (octets.drop Envelope.size) with
  | .error _ => return octets
  | .ok length =>
    if octets.length < 12 ∨ length ≤ 4 then return octets
    let inside ← source.read (USize.ofNat (length - 4))
    return octets ++ inside.data.toList

/-- Waits for a task for at most a number of milliseconds. A task that is given up goes on until
the daemon sends something or ends the connection, and the process with it. -/
partial def await (task : Task (Except IO.Error Bytes)) (left : Nat) : IO (Option Bytes) := do
  if ← IO.hasFinished task then
    match task.get with
    | .ok octets => return some octets
    | .error _ => return some []
  else if left = 0 then return none
  else
    IO.sleep 1
    await task (left - 1)

/-- Runs a command with what the daemon has sent so far, and again with more as long as more
can make a difference. -/
partial def converse (now : Nat) (words : List String) (limit : Nat) (c : Connection) (link : Link)
    (delivered : Nat) : IO Command.Outcome := do
  let waiting := Command.runAt now words (fun _ => .listening) link
  let new := waiting.sent.drop delivered
  unless new.isEmpty do
    c.sink.write ⟨new.toArray⟩
    c.sink.flush
  let ended := Command.runAt now words (fun _ => .listening) (link.finish .ended)
  if waiting = ended then return waiting
  let task ← IO.asTask (receive c.source)
  match ← await task limit with
  | none => return waiting
  | some [] => return ended
  | some octets => converse now words limit c (link.feed octets) waiting.sent.length

/-- Carries out a command line. -/
def execute (words : List String) : IO Command.Outcome := do
  let now ← IO.monoNanosNow
  match Command.parse words with
  | .error stop => return stop.outcome
  | .ok i =>
    match ← open? i.socket with
    | (endpoint, none) => return Command.runAt now words (fun _ => endpoint) .fresh
    | (_, some c) => converse now words i.settings.readTimeout c .fresh 0

end MicroBus.Main

/-- Runs the program and gives its exit code. -/
def main (words : List String) : IO UInt32 := do
  let outcome ← MicroBus.Main.execute words
  IO.print outcome.stdout
  (← IO.getStdout).flush
  IO.eprint outcome.stderr
  return outcome.exit.toUInt32

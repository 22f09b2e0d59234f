import MicroBus.Command.Listing

/-!
# Running a command

A run turns a command line and a connection into what is written and the exit code. Standard
output stays empty unless the whole exchange has succeeded; every failure becomes one line on
standard error, in which what was attempted comes first and the causes follow.
-/

namespace MicroBus.Command

/-- What a run leaves behind. -/
structure Outcome where
  /-- The exit code. -/
  exit : UInt8
  /-- What is written to standard output. -/
  stdout : String
  /-- What is written to standard error. -/
  stderr : String
  /-- The octets that were sent to the daemon. -/
  sent : Bytes
  deriving DecidableEq

/-- The name and version of the program. -/
def versionText : String := "ubus 0.3.0\n"

/-- How the program is used, in the words of this library: neither the text of help nor that of a
misuse is the program's own. -/
def usageText : String :=
  "Usage: ubus [-s PATH] [-t SECONDS] call PATH METHOD [MESSAGE]\n" ++
  "       ubus [-s PATH] [-t SECONDS] list [PATTERN] [-v] [--format table|json]\n"

/-- The line that reports a failure. -/
def errorLine (parts : List String) : String := ": ".intercalate ("ubus" :: parts) ++ "\n"

/-- A run that failed, with what was attempted. -/
def failed (attempted : List String) (f : Failure) (c : Client) : Outcome :=
  ⟨1, "", errorLine (attempted ++ f.message :: f.causes), c.link.outgoing⟩

/-- A run that succeeded. -/
def succeeded (stdout : String) (c : Client) : Outcome := ⟨0, stdout, "", c.link.outgoing⟩

/-- Calls a method and shows the reply. A call without data succeeds in silence. -/
def runCall (c : Client) (path method : String) (message : Option String) : Outcome :=
  let arguments :=
    match message with
    | none => Arguments.none
    | some m => .json (Text.utf8 m)
  match c.call path method arguments with
  | (.ok response, c) =>
    succeeded (if response.isEmpty then "" else response.toJson.pretty ++ "\n") c.close
  | (.error .noData, c) => succeeded "" c
  | (.error f, c) => failed [path ++ " " ++ method] f c

/-- Lists objects and shows them. -/
def runList (c : Client) (pattern : Option String) (verbose : Bool) (format : Format) : Outcome :=
  match c.list pattern with
  | (.ok objects, c) => succeeded (listing format verbose objects) c.close
  | (.error f, c) => failed [] f c

/-- How an invocation connects. -/
def Invocation.settings (i : Invocation) : Settings := ⟨i.socket, i.timeout * 1000, none⟩

/-- An invocation reaches a listener, for which it would have to wait beyond the end of the clock. -/
def Invocation.Overdue (i : Invocation) (endpoint : Endpoint) (now : Nat) : Prop :=
  endpoint.obstacle? i.socket = none ∧ ¬i.settings.Awaitable now

instance (i : Invocation) (endpoint : Endpoint) (now : Nat) : Decidable (i.Overdue endpoint now) :=
  inferInstanceAs (Decidable (_ ∧ _))

/-- A run that breaks off in front of the first wait. A program that was built to abort has no exit
code of its own, and the system names the place in the program beside the text. -/
def brokenOff : Outcome := ⟨101, "", "overflow when adding duration to instant\n", []⟩

/-- Connects and goes on with the client, or reports why there is no connection. -/
def Invocation.withClient (i : Invocation) (now : Nat) (endpoint : Endpoint) (link : Link)
    (proceed : Client → Outcome) : Outcome :=
  if i.Overdue endpoint now then brokenOff
  else
    match Client.connect i.settings endpoint link with
    | (.error f, c) => failed ["cannot connect to " ++ i.socket] f c
    | (.ok (), c) => proceed c

/-- Runs an invocation. Completions need no connection; they are made from the description of the
command line, and what is written of them is not part of this library. -/
def Invocation.run (i : Invocation) (now : Nat) (endpoint : Endpoint) (link : Link) : Outcome :=
  match i.request with
  | .call path method message =>
    i.withClient now endpoint link fun c => runCall c path method message
  | .list pattern verbose format =>
    i.withClient now endpoint link fun c => runList c pattern verbose format
  | .completion _ => ⟨0, "", "", []⟩

/-- What is left behind when nothing is to be done. -/
def Stop.outcome : Stop → Outcome
  | version => ⟨0, versionText, "", []⟩
  | help => ⟨0, usageText, "", []⟩
  | misuse => ⟨2, "", usageText, []⟩

/-- Runs a command line, given without the name of the program, when the clock shows `now`. The time
that the run itself takes is not counted. -/
def runAt (now : Nat) (words : List String) (endpointAt : String → Endpoint) (link : Link) :
    Outcome :=
  match parse words with
  | .error stop => stop.outcome
  | .ok i => i.run now (endpointAt i.socket) link

/-- Runs a command line one second after the clock was started. -/
def run (words : List String) (endpointAt : String → Endpoint) (link : Link) : Outcome :=
  runAt 1000000000 words endpointAt link

end MicroBus.Command

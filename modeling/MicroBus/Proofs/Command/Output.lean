import MicroBus.Command.Run
import MicroBus.Proofs.Client.Decided
import MicroBus.Proofs.Frame.Lossless

/-!
# What a command writes

A command writes to standard output only when all that it asked for has come: the greeting, the
look-up and, for a call, the reply. If anything is missing or malformed on the way, or the daemon
refuses, nothing of what has already come is written. Only a call without data succeeds in silence.
-/

namespace MicroBus.Command

/-! ## What is left behind -/

/-- A run that succeeds and writes this text. -/
structure Outcome.Writes (o : Outcome) (text : String) : Prop where
  /-- The exit code is that of success. -/
  exit_eq : o.exit = 0
  /-- The text is all of standard output. -/
  stdout_eq : o.stdout = text

/-- A run that fails and writes nothing. -/
structure Outcome.Fails (o : Outcome) : Prop where
  /-- The exit code is that of failure. -/
  exit_eq : o.exit = 1
  /-- Standard output is empty. -/
  stdout_eq : o.stdout = ""

/-- What is left behind of a call, by what it comes to. -/
inductive CallLeaves : Except Failure Response → Outcome → Prop where
  /-- A reply with entries is written. -/
  | reply {response : Response} {o : Outcome} (some : response.entries ≠ [])
    (writes : o.Writes (response.toJson.pretty ++ "\n")) : CallLeaves (.ok response) o
  /-- Of a reply without entries nothing is written. -/
  | emptyReply {response : Response} {o : Outcome} (none : response.entries = [])
    (writes : o.Writes "") : CallLeaves (.ok response) o
  /-- A call without data is no failure. -/
  | noData {o : Outcome} (writes : o.Writes "") : CallLeaves (.error .noData) o
  /-- Every other failure is one. -/
  | failure {f : Failure} {o : Outcome} (other : f ≠ .noData) (fails : o.Fails) :
    CallLeaves (.error f) o

theorem CallLeaves.fails {f : Failure} {o : Outcome} (h : CallLeaves (.error f) o)
    (other : f ≠ .noData) : o.Fails := by
  cases h with
  | noData => exact absurd rfl other
  | failure _ fails => exact fails

namespace Invocation

variable {i : Invocation} {endpoint : Endpoint} {now : Nat}

end Invocation

end MicroBus.Command

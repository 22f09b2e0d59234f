import MicroBus.Client.Place
import MicroBus.Fault
import MicroBus.Status

/-!
# Failures of a client

What a caller is told when a call does not succeed: the daemon could not be reached, the
arguments were refused, the daemon's answer makes no sense, the daemon refused, or time ran
out. Each failure has one text and, beneath it, the texts of its causes.
-/

namespace MicroBus

/-- The step of a call that failed. -/
inductive Step where
  /-- Connecting. -/
  | dial
  /-- Waiting for the greeting. -/
  | hello
  /-- Resolving an object path. -/
  | lookup
  /-- Calling a method. -/
  | invoke
  /-- Closing the connection. -/
  | close
  deriving DecidableEq

/-- The name of a step in diagnostics. -/
def Step.name : Step → String
  | dial => "dial"
  | hello => "hello"
  | lookup => "lookup"
  | invoke => "invoke"
  | close => "close"

/-- Why there is no connection. -/
inductive Unreachable where
  /-- The path of the socket leads nowhere. -/
  | nowhere (path : String) (why : DeadEnd)
  /-- What is at the path is no socket. -/
  | noSocket (path : String)
  /-- Nobody listens at the socket. -/
  | refused (path : String)
  /-- The path does not fit the address of a socket. -/
  | longAddress (path : String)
  /-- The daemon could not reach the target of the call. -/
  | target (name : String)
  deriving DecidableEq

/-- What could not be reached. -/
def Unreachable.reason : Unreachable → String
  | nowhere path _ => path ++ ": cannot stat socket"
  | noSocket path => path ++ ": not a socket"
  | refused path => path ++ ": connect"
  | longAddress path => path ++ ": connect"
  | target name => name

/-- The text of the error beneath it, if there was one. -/
def Unreachable.cause : Unreachable → Option String
  | nowhere _ why => some why.message
  | noSocket _ => none
  | refused _ => some "Connection refused (os error 111)"
  | longAddress _ => some "path must be shorter than SUN_LEN"
  | target _ => none

/-- Why the parameters of a call were refused. -/
inductive Rejection where
  /-- The daemon refused them. -/
  | byStatus (target : String) (status : Status)
  /-- The text of the arguments is not JSON. -/
  | notJson
  /-- The arguments are a value of another shape than a table. -/
  | noTable (kind : String)
  /-- The arguments could not be projected into a value. -/
  | noValue (fault : Fault)
  /-- The request cannot be written. -/
  | noRequest (fault : Fault)
  deriving DecidableEq

/-- The text of a rejection. -/
def Rejection.message : Rejection → String
  | byStatus target status => target ++ ": " ++ status.text
  | notJson => "arguments are not JSON"
  | noTable kind => "arguments must be a table, got " ++ kind
  | noValue fault => fault.message
  | noRequest fault => fault.message

/-- What was done to the stream when it failed. -/
inductive Transfer where
  /-- Receiving. -/
  | read
  /-- Sending. -/
  | write
  deriving DecidableEq

/-- The name of a transfer in diagnostics. -/
def Transfer.name : Transfer → String
  | read => "read"
  | write => "write"

/-- Why a call, or the connecting before it, failed. -/
inductive Failure where
  /-- There is no connection to the daemon, or none from the daemon to the object. -/
  | connectionFailed (why : Unreachable)
  /-- The parameters were refused. -/
  | invalidParameter (why : Rejection)
  /-- The daemon sent something that breaks the protocol. -/
  | invalidResponse (fault : Fault)
  /-- The object does not exist. -/
  | notFound (target : String)
  /-- The object has no such method. -/
  | methodNotFound (target : String)
  /-- The call is forbidden. -/
  | permissionDenied (target : String)
  /-- Time ran out. -/
  | timeout (step : Step)
  /-- The operation is not supported. -/
  | notSupported (target : String)
  /-- The call produced no data. -/
  | noData
  /-- The client has been closed. -/
  | closed
  /-- The status code has no known meaning, or means an unspecified failure. -/
  | unknown (code : UInt32)
  /-- The stream failed. -/
  | stream (step : Step) (transfer : Transfer) (fault : StreamFault)
  /-- The reply does not have the wanted shape. -/
  | shape
  deriving DecidableEq

namespace Failure

/-- The text of a failure. -/
def message : Failure → String
  | connectionFailed why => "connection failed: " ++ why.reason
  | invalidParameter why => "invalid parameter: " ++ why.message
  | invalidResponse _ => "invalid response"
  | notFound target => "not found: " ++ target
  | methodNotFound target => "method not found: " ++ target
  | permissionDenied target => "permission denied: " ++ target
  | timeout step => step.name ++ " timed out"
  | notSupported target => "not supported: " ++ target
  | noData => "no data"
  | closed => "transport is closed"
  | unknown code => "unknown ubus error (code " ++ toString code.toNat ++ ")"
  | stream step transfer _ => step.name ++ ": " ++ transfer.name ++ " failed"
  | shape => "cannot decode reply data"

/-- The texts of the causes, outermost first. -/
def causes : Failure → List String
  | connectionFailed why => why.cause.toList
  | invalidResponse fault => [fault.message]
  | stream _ _ fault => [fault.message]
  | _ => []

/-- Whether time ran out. -/
def isTimeout : Failure → Bool
  | timeout _ => true
  | _ => false

/-- The failure that a known status stands for, except success. -/
def ofKnownStatus (status : Status) (target : String) (step : Step) : Option Failure :=
  match status with
  | .ok => none
  | .invalidCommand => some (.invalidParameter (.byStatus target .invalidCommand))
  | .invalidArgument => some (.invalidParameter (.byStatus target .invalidArgument))
  | .methodNotFound => some (.methodNotFound target)
  | .notFound => some (.notFound target)
  | .noData => some .noData
  | .permissionDenied => some (.permissionDenied target)
  | .timeout => some (.timeout step)
  | .notSupported => some (.notSupported target)
  | .unknownError => some (.unknown Status.unknownError.code)
  | .connectionFailed => some (.connectionFailed (.target target))

/-- The failure that a status code stands for: none for success, and an unknown failure for a
code without a meaning. -/
def ofStatus (code : UInt32) (target : String) (step : Step) : Option Failure :=
  match Status.ofCode? code with
  | none => some (.unknown code)
  | some status => ofKnownStatus status target step

end Failure

end MicroBus

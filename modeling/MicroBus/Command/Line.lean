import MicroBus.Client.Connect

/-!
# The command line

The first word that is no option names a command; the words after it belong to the command.
Options may be given in full, as a letter, or as the last letter of a cluster, with their value
attached or as the next word. The path of the socket and the time limit are accepted before and
after the command, where the later place wins. Words are read in order, and the first mistake or
request for help or the version ends the reading.
-/

namespace MicroBus.Command

/-- How a list of objects is shown. -/
inductive Format where
  /-- Lines of text. -/
  | table
  /-- JSON. -/
  | json
  deriving DecidableEq

/-- What the program is asked to do. -/
inductive Request where
  /-- Call a method, with the JSON text of its arguments. -/
  | call (path method : String) (message : Option String)
  /-- List objects. -/
  | list (pattern : Option String) (verbose : Bool) (format : Format)
  /-- Write completions for a shell. -/
  | completion (shell : String)

/-- A command line that was understood. -/
structure Invocation where
  /-- The path of the socket. -/
  socket : String
  /-- How many seconds to wait for each message. -/
  timeout : Nat
  /-- What to do. -/
  request : Request

/-- Why nothing is to be done. -/
inductive Stop where
  /-- The version was asked for. -/
  | version
  /-- Help was asked for. -/
  | help
  /-- The command line makes no sense. -/
  | misuse
  deriving DecidableEq

/-- Where a word stands: before the command or after it. -/
inductive Place where
  /-- Before the command. -/
  | top
  /-- After a command that calls a method. -/
  | call
  /-- After a command that lists objects. -/
  | list
  /-- After a command that writes completions. -/
  | completion
  deriving DecidableEq

/-- An option. -/
inductive Flag where
  /-- The path of the socket. -/
  | socket
  /-- The time limit. -/
  | timeout
  /-- How a list is shown. -/
  | format
  /-- Whether a list shows identifiers and signatures. -/
  | verbose
  /-- The version is asked for. -/
  | version
  /-- Help is asked for. -/
  | help
  deriving DecidableEq

/-- Whether an option has a value. -/
def Flag.hasValue : Flag → Bool
  | socket => true
  | timeout => true
  | format => true
  | _ => false

/-- Whether an option may stand at a place. -/
def Flag.allowedAt : Flag → Place → Bool
  | format, p => p = .list
  | verbose, p => p = .list
  | version, p => p = .top
  | _, _ => true

/-- The option with a full name. -/
def Flag.ofName? (name : String) : Option Flag :=
  match name with
  | "socket" => some socket
  | "timeout" => some timeout
  | "format" => some format
  | "verbose" => some verbose
  | "version" => some version
  | "help" => some help
  | _ => none

/-- The option with a letter. -/
def Flag.ofLetter? (letter : Char) : Option Flag :=
  match letter with
  | 's' => some socket
  | 't' => some timeout
  | 'v' => some verbose
  | 'V' => some version
  | 'h' => some help
  | _ => none

/-- An option that was found at its place. -/
def Flag.at? (place : Place) (flag : Option Flag) : Option Flag :=
  flag.filter fun f => f.allowedAt place

/-- The form of a word. -/
inductive Word where
  /-- Two dashes: the words after it are operands. -/
  | escape
  /-- The full name of an option, with an attached value if there is one. -/
  | long (name : String) (value : Option String)
  /-- The letters of options. -/
  | letters (cs : List Char)
  /-- Anything else. -/
  | plain

/-- The form that a word has. -/
def Word.ofText (s : String) : Word :=
  match s.toList with
  | ['-', '-'] => .escape
  | '-' :: '-' :: rest =>
    let name := String.ofList (rest.takeWhile (· != '='))
    match rest.dropWhile (· != '=') with
    | [] => .long name none
    | _ :: value => .long name (some (String.ofList value))
  | '-' :: c :: rest => .letters (c :: rest)
  | _ => .plain

/-- What a part of the command line says. -/
inductive Mark where
  /-- An option without a value. -/
  | given (flag : Flag)
  /-- An option with its value. -/
  | valued (flag : Flag) (value : String)
  /-- An operand of the command. -/
  | operand (s : String)
  /-- The command. -/
  | command (place : Place)
  /-- A mistake. -/
  | mistake

/-- What a cluster of letters says, and the option that still lacks its value. -/
def readLetters (place : Place) : List Char → List Mark × Option Flag
  | [] => ([], none)
  | c :: rest =>
    match Flag.at? place (Flag.ofLetter? c) with
    | none => ([.mistake], none)
    | some f =>
      if f.hasValue then
        match rest with
        | [] => ([], some f)
        | '=' :: value => ([.valued f (String.ofList value)], none)
        | value => ([.valued f (String.ofList value)], none)
      else
        let (marks, unfilled) := readLetters place rest
        (.given f :: marks, unfilled)

/-- What a word that begins with a dash says, and the option that still lacks its value. -/
def readOption (place : Place) (w : Word) : List Mark × Option Flag :=
  match w with
  | .letters cs => readLetters place cs
  | .long name value =>
    match Flag.at? place (Flag.ofName? name), value with
    | none, _ => ([.mistake], none)
    | some f, some v => if f.hasValue then ([.valued f v], none) else ([.mistake], none)
    | some f, none => if f.hasValue then ([], some f) else ([.given f], none)
  | _ => ([.mistake], none)

/-- The command that a word names. -/
def commandOf? (s : String) : Option Place :=
  match s with
  | "call" => some .call
  | "list" => some .list
  | "ls" => some .list
  | "completion" => some .completion
  | _ => none

/-- Whether every word names a command, of which there is at most one. -/
def helpTopic (words : List String) : Bool :=
  match words with
  | [] => true
  | [w] => w = "help" || (commandOf? w).isSome
  | _ => false

/-- What the words say, in order. `pending` is an option that lacks its value, and `escaped`
says that only operands follow. -/
def scan (place : Place) (pending : Option Flag) (escaped : Bool) : List String → List Mark
  | [] => if pending.isSome then [.mistake] else []
  | s :: rest =>
    if escaped then
      if place = .top then [.mistake] else .operand s :: scan place none true rest
    else
      match pending, Word.ofText s with
      | some f, .plain => .valued f s :: scan place none false rest
      | some _, _ => [.mistake]
      | none, .escape => scan place none true rest
      | none, .plain =>
        if place = .top then
          if s = "help" then [if helpTopic rest then .given .help else .mistake]
          else
            match commandOf? s with
            | some p => .command p :: scan p none false rest
            | none => [.mistake]
        else .operand s :: scan place none false rest
      | none, w =>
        let (marks, pending) := readOption place w
        marks ++ scan place pending false rest

/-- What has been gathered from a command line. -/
structure Gathered where
  /-- The place that was reached. -/
  place : Place
  /-- The path of the socket given there. -/
  socket : Option String
  /-- The time limit given there. -/
  timeout : Option Nat
  /-- The path of the socket given before the command. -/
  outerSocket : Option String
  /-- The time limit given before the command. -/
  outerTimeout : Option Nat
  /-- Whether a list shows identifiers and signatures. -/
  verbose : Bool
  /-- How a list is shown. -/
  format : Option Format
  /-- The operands of the command. -/
  operands : List String

/-- Nothing has been gathered. -/
def Gathered.start : Gathered := ⟨.top, none, none, none, none, false, none, []⟩

/-- A number of seconds: decimal digits, perhaps after a plus sign, below 2 ^ 64. -/
def seconds? (s : String) : Option Nat :=
  let digits :=
    match s.toList with
    | '+' :: rest => rest
    | all => all
  if digits.isEmpty || !digits.all Char.isDigit then none
  else
    let n := digits.foldl (fun n c => n * 10 + (c.toNat - 48)) 0
    if n < 0x10000000000000000 then some n else none

/-- The format with a name. -/
def Format.ofName? (name : String) : Option Format :=
  match name with
  | "table" => some table
  | "json" => some json
  | _ => none

/-- The greatest number of operands of a command. -/
def Place.maxOperands : Place → Nat
  | top => 0
  | call => 3
  | list => 1
  | completion => 1

/-- The shells for which completions exist. -/
def shells : List String := ["bash", "elvish", "fish", "powershell", "zsh"]

/-- Whether an operand is allowed where it stands. -/
def Place.accepts (place : Place) (before : List String) (s : String) : Bool :=
  before.length < place.maxOperands && (place != .completion || shells.contains s)

/-- Takes in one mark. An option counts once at each place. -/
def Gathered.take (g : Gathered) (m : Mark) : Except Stop Gathered :=
  match m with
  | .mistake => .error .misuse
  | .given .version => .error .version
  | .given .help => .error .help
  | .given .verbose => if g.verbose then .error .misuse else .ok { g with verbose := true }
  | .given _ => .error .misuse
  | .valued .socket v =>
    if g.socket.isSome || v.isEmpty then .error .misuse else .ok { g with socket := some v }
  | .valued .timeout v =>
    match g.timeout, seconds? v with
    | none, some n => .ok { g with timeout := some n }
    | _, _ => .error .misuse
  | .valued .format v =>
    match g.format, Format.ofName? v with
    | none, some f => .ok { g with format := some f }
    | _, _ => .error .misuse
  | .valued _ _ => .error .misuse
  | .operand s =>
    if g.place.accepts g.operands s then .ok { g with operands := g.operands ++ [s] }
    else .error .misuse
  | .command place =>
    .ok { g with
      place := place
      outerSocket := g.socket
      outerTimeout := g.timeout
      socket := none
      timeout := none }

/-- The time limit in seconds, if none is given. -/
def defaultTimeout : Nat := 30

/-- The invocation of everything that was gathered. -/
def Gathered.finish (g : Gathered) : Except Stop Invocation :=
  let socket := (g.socket.or g.outerSocket).getD Settings.defaultPath
  let timeout := (g.timeout.or g.outerTimeout).getD defaultTimeout
  match g.place, g.operands with
  | .call, [path, method] => .ok ⟨socket, timeout, .call path method none⟩
  | .call, [path, method, message] => .ok ⟨socket, timeout, .call path method (some message)⟩
  | .list, [] => .ok ⟨socket, timeout, .list none g.verbose (g.format.getD .table)⟩
  | .list, [pattern] =>
    .ok ⟨socket, timeout, .list (some pattern) g.verbose (g.format.getD .table)⟩
  | .completion, [shell] => .ok ⟨socket, timeout, .completion shell⟩
  | _, _ => .error .misuse

/-- Reads a command line, given without the name of the program. -/
def parse (words : List String) : Except Stop Invocation := do
  let g ← (scan .top none false words).foldlM Gathered.take Gathered.start
  g.finish

end MicroBus.Command

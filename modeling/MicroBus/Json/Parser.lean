import MicroBus.Json.Token

/-!
# JSON texts to trees

A text is one tree with white space around its tokens. The reader keeps the containers that are
open, innermost first, and what may come next; it refuses a container inside 127 others. The
members of an object are put into canonical form when it closes.
-/

namespace MicroBus.Json

/-- A container that is still open, with its contents newest first. -/
inductive Container where
  /-- An array. -/
  | items (read : List Json)
  /-- An object, and the name of the member that is being read. -/
  | members (read : List (String × Json)) (name : String)

/-- What may come next in a text. -/
inductive Place where
  /-- A tree. -/
  | tree
  /-- The first item of an array, or its end. -/
  | firstItem
  /-- The first name of an object, or its end. -/
  | firstName
  /-- The name of a further member. -/
  | name (read : List (String × Json))
  /-- The colon after a name. -/
  | colon
  /-- A comma, or the end of the innermost container. -/
  | next
  /-- Nothing: the tree is complete. -/
  | complete (j : Json)

namespace Parser

/-- The state of reading a text. -/
structure State where
  /-- The open containers, innermost first. -/
  opened : List Container
  /-- What may come next. -/
  place : Place

/-- The greatest number of containers that may be open at once. -/
def maxOpen : Nat := 127

/-- The state before the first token. -/
def start : State := ⟨[], .tree⟩

/-- The state after a tree inside the given containers. -/
def place (opened : List Container) (j : Json) : State :=
  match opened with
  | [] => ⟨[], .complete j⟩
  | .items read :: outer => ⟨.items (j :: read) :: outer, .next⟩
  | .members read name :: outer => ⟨.members ((name, j) :: read) name :: outer, .next⟩

/-- The state after a token where a tree may come. -/
def openTree (opened : List Container) (t : Token) : Option State :=
  match t with
  | .scalar j => some (place opened j)
  | .openArray =>
    if opened.length < maxOpen then some ⟨.items [] :: opened, .firstItem⟩ else none
  | .openObject =>
    if opened.length < maxOpen then some ⟨.members [] "" :: opened, .firstName⟩ else none
  | _ => none

/-- The state after the name of a member of the innermost container. -/
def openMember (read : List (String × Json)) (opened : List Container) (t : Token) :
    Option State :=
  match t, opened with
  | .scalar (.str name), _ :: outer => some ⟨.members read name :: outer, .colon⟩
  | _, _ => none

/-- Reads one token. -/
def step (s : State) (t : Token) : Option State :=
  match s.place with
  | .tree => openTree s.opened t
  | .firstItem =>
    match t, s.opened with
    | .closeArray, _ :: outer => some (place outer (.arr []))
    | _, _ => openTree s.opened t
  | .firstName =>
    match t, s.opened with
    | .closeObject, _ :: outer => some (place outer (.obj []))
    | _, _ => openMember [] s.opened t
  | .name read => openMember read s.opened t
  | .colon =>
    match t with
    | .colon => some ⟨s.opened, .tree⟩
    | _ => none
  | .next =>
    match t, s.opened with
    | .comma, .items _ :: _ => some ⟨s.opened, .tree⟩
    | .comma, .members read _ :: _ => some ⟨s.opened, .name read⟩
    | .closeArray, .items read :: outer => some (place outer (.arr read.reverse))
    | .closeObject, .members read _ :: outer => some (place outer (object read.reverse))
    | _, _ => none
  | .complete _ => none

/-- The tree of a state after the last token. -/
def finish (s : State) : Option Json :=
  match s.place with
  | .complete j => some j
  | _ => none

end Parser

/-- The tree of a text, if it is JSON. -/
def parse? (s : String) : Option Json := do
  let tokens ← Token.ofText s.toList
  let state ← tokens.foldlM Parser.step Parser.start
  Parser.finish state

/-- The tree of the UTF-8 octets of a text, if they are JSON. -/
def ofUtf8? (b : Bytes) : Option Json := (Text.ofUtf8? b).bind parse?

end MicroBus.Json

import MicroBus.Client.Response
import MicroBus.Command.Line
import MicroBus.Json.Printer

/-!
# Showing objects

A list of objects is shown as lines of text or as JSON. The verbose forms add the identifier of
each object and the signatures of its methods, in which the type numbers of arguments become
words.
-/

namespace MicroBus.Command

/-- The word for the type that a number in a signature stands for. -/
def typeName (code : Value) : String :=
  let tag := code.asInt64?.bind fun i =>
    if 0 ≤ i.toInt ∧ i.toInt < 256 then Tag.ofCode? (UInt8.ofNat i.toInt.toNat) else none
  match tag with
  | some .array => "Array"
  | some .table => "Table"
  | some .string => "String"
  | some .int64 => "Integer"
  | some .int32 => "Integer"
  | some .int16 => "Integer"
  | some .int8 => "Boolean"
  | some .double => "Double"
  | _ => "(unknown)"

/-- The methods of an object with their signatures, in the order of the wire. -/
def methods (o : ObjectInfo) : Entries := o.signature.getD []

/-- The arguments of a method, in the order of the wire. -/
def argumentsOf (signature : Value) : Entries :=
  match signature with
  | .table entries => entries
  | _ => []

/-- The arguments of a method as names with types. -/
def describe (signature : Value) : String :=
  ",".intercalate ((argumentsOf signature).map fun a =>
    "\"" ++ a.1 ++ "\":\"" ++ typeName a.2 ++ "\"")

/-- The lines of one object. -/
def objectLines (verbose : Bool) (o : ObjectInfo) : List String :=
  if verbose then
    ("'" ++ o.path ++ "' @" ++ Text.hex32 o.id) :: (methods o).map fun m =>
      "\t\"" ++ m.1 ++ "\":\x7b" ++ describe m.2 ++ "\x7d"
  else [o.path]

/-- The types of a method's arguments by name. -/
def argumentsJson (signature : Value) : Json :=
  Json.object ((argumentsOf signature).map fun a => (a.1, .str (typeName a.2)))

/-- The tree of one object. -/
def objectJson (verbose : Bool) (o : ObjectInfo) : Json :=
  let identity : List (String × Json) := [("path", .str o.path), ("id", .int o.id.toNat)]
  if verbose then
    Json.object (identity ++ [
      ("type", match o.typeId with
        | none => .null
        | some t => .int t.toNat),
      ("methods", Json.object ((methods o).map fun m => (m.1, argumentsJson m.2)))])
  else Json.object identity

/-- The text of a list of objects. -/
def listing (format : Format) (verbose : Bool) (objects : List ObjectInfo) : String :=
  match format with
  | .json => Json.pretty (.arr (objects.map (objectJson verbose))) ++ "\n"
  | .table => String.join ((objects.flatMap (objectLines verbose)).map fun l => l ++ "\n")

end MicroBus.Command

import MicroBus.Fault
import MicroBus.Json.Basic

/-!
# Plain data

Arguments may also be given as data of a program: maps with keys of several kinds, integers of
any size, options. Data is projected into JSON first, which orders the keys as texts, and then
into a value. Keys that are not text or integers and integers beyond 64 bits are refused.
-/

namespace MicroBus

/-- The key of a map. -/
inductive DataKey where
  /-- Text. -/
  | text (s : String)
  /-- An integer, which is written in decimal digits. -/
  | int (i : Int)
  /-- Several things in one key. -/
  | compound

/-- Data of a program. -/
inductive Data where
  /-- Nothing. -/
  | null
  /-- A truth value. -/
  | bool (b : Bool)
  /-- An integer of any size. -/
  | int (i : Int)
  /-- A double. -/
  | double (d : Binary64)
  /-- Text. -/
  | text (s : String)
  /-- A sequence. -/
  | list (items : List Data)
  /-- A map, or the fields of a structure. -/
  | map (members : List (DataKey × Data))

/-- The text of a key. -/
def DataKey.toText : DataKey → Except DataFault String
  | text s => .ok s
  | int i => .ok (toString i)
  | compound => .error .keyNotText

namespace Data

instance : Inhabited Data := ⟨null⟩

mutual

/-- The JSON tree of data; the first fault in the order of the data wins. -/
def toJson : Data → Except DataFault Json
  | .null => .ok .null
  | .bool b => .ok (.bool b)
  | .int i =>
    if -0x8000000000000000 ≤ i ∧ i < 0x10000000000000000 then .ok (.int i)
    else .error .integerRange
  | .double d => .ok (if d.isFinite then .double d else .null)
  | .text s => .ok (.str s)
  | .list items => .arr <$> listToJson [] items
  | .map members => Json.object <$> mapToJson [] members

/-- The trees of a sequence, after those already made (newest first). -/
def listToJson (made : List Json) : List Data → Except DataFault (List Json)
  | [] => .ok made.reverse
  | d :: rest =>
    match toJson d with
    | .error f => .error f
    | .ok j => listToJson (j :: made) rest

/-- The members of a map, after those already made (newest first). -/
def mapToJson (made : List (String × Json)) :
    List (DataKey × Data) → Except DataFault (List (String × Json))
  | [] => .ok made.reverse
  | (key, d) :: rest =>
    match key.toText with
    | .error f => .error f
    | .ok name =>
      match toJson d with
      | .error f => .error f
      | .ok j => mapToJson ((name, j) :: made) rest

end

end Data

/-- The value of data. -/
def Value.ofData (d : Data) : Except Fault Value :=
  match d.toJson with
  | .error f => .error (.data f)
  | .ok j => .ok (Value.ofJson j)

end MicroBus

import MicroBus.Text.Utf8
import MicroBus.Value.Order

/-!
# JSON trees

Arguments may be given as JSON, and replies are shown as JSON. A number is an integer or a
double. The members of an object that was read or made from a table have distinct names in
ascending order. Values and trees convert into each other: what JSON cannot say becomes null
(infinities and NaNs) or text (octets).
-/

namespace MicroBus

/-- A JSON tree. -/
inductive Json where
  /-- The null literal. -/
  | null
  /-- A truth literal. -/
  | bool (b : Bool)
  /-- A number that is an integer of at most 64 bits. -/
  | int (i : Int)
  /-- Any other number. -/
  | double (d : Binary64)
  /-- Text. -/
  | str (s : String)
  /-- An array. -/
  | arr (items : List Json)
  /-- An object. -/
  | obj (members : List (String × Json))

namespace Json

instance : Inhabited Json := ⟨null⟩

/-- An object of the given members; of several of one name the last counts. -/
def object (members : List (String × Json)) : Json := .obj (canonical members)

/-- The member of an object with this name. -/
def member? (j : Json) (name : String) : Option Json :=
  match j with
  | .obj members => Value.findLast? name members
  | _ => none

end Json

namespace Value

/-- The value of an integer: signed if it fits, else unsigned. -/
def ofInteger (i : Int) : Value :=
  if -0x8000000000000000 ≤ i ∧ i < 0x8000000000000000 then .int (Int64.ofInt i)
  else .uint (UInt64.ofNat i.toNat)

mutual

/-- The value of a JSON tree. -/
def ofJson : Json → Value
  | .null => .null
  | .bool b => .bool b
  | .int i => ofInteger i
  | .double d => .double d
  | .str s => .str s
  | .arr items => .array (ofJsonItems [] items)
  | .obj members => .table (ofJsonMembers [] members)

/-- The values of array items, after those already made (newest first). -/
def ofJsonItems (made : List Value) : List Json → List Value
  | [] => made.reverse
  | j :: rest => ofJsonItems (ofJson j :: made) rest

/-- The entries of object members, after those already made (newest first). -/
def ofJsonMembers (made : List (String × Value)) :
    List (String × Json) → List (String × Value)
  | [] => made.reverse
  | (name, j) :: rest => ofJsonMembers ((name, ofJson j) :: made) rest

end

mutual

/-- The JSON tree of a value. -/
def toJson : Value → Json
  | .null => .null
  | .bool b => .bool b
  | .int i => .int i.toInt
  | .uint u => .int u.toNat
  | .double d => if d.isFinite then .double d else .null
  | .str s => .str s
  | .bytes b => .str (Text.ofUtf8Repaired b)
  | .array items => .arr (toJsonItems [] items)
  | .table entries => Json.object (toJsonMembers [] entries)

/-- The trees of array items, after those already made (newest first). -/
def toJsonItems (made : List Json) : List Value → List Json
  | [] => made.reverse
  | v :: rest => toJsonItems (toJson v :: made) rest

/-- The members of table entries, after those already made (newest first). -/
def toJsonMembers (made : List (String × Json)) :
    List (String × Value) → List (String × Json)
  | [] => made.reverse
  | (name, v) :: rest => toJsonMembers ((name, toJson v) :: made) rest

end

theorem ofJsonItems_eq (made : List Value) (items : List Json) :
    ofJsonItems made items = made.reverse ++ items.map ofJson := by
  induction items generalizing made with
  | nil => simp [ofJsonItems]
  | cons j rest ih => simp [ofJsonItems, ih]

theorem ofJsonMembers_eq (made : Entries) (members : List (String × Json)) :
    ofJsonMembers made members = made.reverse ++ members.map fun m => (m.1, ofJson m.2) := by
  induction members generalizing made with
  | nil => simp [ofJsonMembers]
  | cons m rest ih => simp [ofJsonMembers, ih]

theorem toJsonItems_eq (made : List Json) (items : List Value) :
    toJsonItems made items = made.reverse ++ items.map toJson := by
  induction items generalizing made with
  | nil => simp [toJsonItems]
  | cons v rest ih => simp [toJsonItems, ih]

theorem toJsonMembers_eq (made : List (String × Json)) (entries : Entries) :
    toJsonMembers made entries = made.reverse ++ entries.map fun e => (e.1, toJson e.2) := by
  induction entries generalizing made with
  | nil => simp [toJsonMembers]
  | cons e rest ih => simp [toJsonMembers, ih]

end Value

end MicroBus

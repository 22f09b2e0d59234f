import MicroBus.Json.Basic

/-!
# Values and trees that convert without loss

A tree is well formed when its integers have at most 64 bits, its doubles are finite, and the
members of each object have distinct names in ascending order. The JSON form of a value is what
is left of it after a conversion into a tree and back.
-/

namespace MicroBus

namespace Json

mutual

/-- A tree that a JSON text, or a value, stands for. -/
def WellFormed : Json → Prop
  | .int i => -0x8000000000000000 ≤ i ∧ i < 0x10000000000000000
  | .double d => d.isFinite = true
  | .arr items => WellFormedItems items
  | .obj members =>
    (members.map Prod.fst).Pairwise (fun m n => m < n) ∧ WellFormedMembers members
  | _ => True

/-- Items that are all well formed. -/
def WellFormedItems : List Json → Prop
  | [] => True
  | j :: rest => WellFormed j ∧ WellFormedItems rest

/-- Members whose trees are all well formed. -/
def WellFormedMembers : List (String × Json) → Prop
  | [] => True
  | (_, j) :: rest => WellFormed j ∧ WellFormedMembers rest

end

end Json

namespace Value

mutual

/-- What is left of a value that went through JSON. -/
def jsonForm : Value → Value
  | .uint u => if u.toNat < 0x8000000000000000 then .int u.toInt64 else .uint u
  | .double d => if d.isFinite then .double d else .null
  | .bytes b => .str (Text.ofUtf8Repaired b)
  | .table entries => .table (canonical (jsonFormEntries entries))
  | .array items => .array (jsonFormItems items)
  | v => v

/-- What is left of the values of entries. -/
def jsonFormEntries : List (String × Value) → List (String × Value)
  | [] => []
  | (name, v) :: rest => (name, jsonForm v) :: jsonFormEntries rest

/-- What is left of items. -/
def jsonFormItems : List Value → List Value
  | [] => []
  | v :: rest => jsonForm v :: jsonFormItems rest

end

theorem jsonFormEntries_eq (entries : Entries) :
    jsonFormEntries entries = entries.map fun e => (e.1, e.2.jsonForm) := by
  induction entries with
  | nil => rfl
  | cons e rest ih => simp only [jsonFormEntries, ih, List.map_cons]

theorem jsonFormItems_eq (items : List Value) : jsonFormItems items = items.map jsonForm := by
  induction items with
  | nil => rfl
  | cons v rest ih => simp only [jsonFormItems, ih, List.map_cons]

end Value

end MicroBus

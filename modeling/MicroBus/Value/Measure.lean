import MicroBus.Value.Order

/-!
# Measures of a value

How many values a value consists of, how many octets of text and opaque octets it carries, and
how many containers enclose its innermost part. The limits of the wire format are stated in
these measures. A value is sorted when the entries of every table in it are in ascending order
of their names.
-/

namespace MicroBus.Value

mutual

/-- The number of values at all levels, the value itself included. -/
def count : Value → Nat
  | .table entries => 1 + countEntries entries
  | .array items => 1 + countItems items
  | _ => 1

/-- The number of values in entries. -/
def countEntries : List (String × Value) → Nat
  | [] => 0
  | (_, v) :: rest => count v + countEntries rest

/-- The number of values in items. -/
def countItems : List Value → Nat
  | [] => 0
  | v :: rest => count v + countItems rest

end

mutual

/-- The octets of all texts and octet strings in a value; names do not count. -/
def octets : Value → Nat
  | .str s => s.utf8ByteSize
  | .bytes b => b.length
  | .table entries => octetsOfEntries entries
  | .array items => octetsOfItems items
  | _ => 0

/-- The octets of all texts and octet strings in entries. -/
def octetsOfEntries : List (String × Value) → Nat
  | [] => 0
  | (_, v) :: rest => octets v + octetsOfEntries rest

/-- The octets of all texts and octet strings in items. -/
def octetsOfItems : List Value → Nat
  | [] => 0
  | v :: rest => octets v + octetsOfItems rest

end

mutual

/-- The greatest number of containers around a value inside this one, this one included. -/
def depth : Value → Nat
  | .table entries => depthOfEntries entries
  | .array items => depthOfItems items
  | _ => 0

/-- The greatest number of containers around a value inside a table of these entries. -/
def depthOfEntries : List (String × Value) → Nat
  | [] => 0
  | (_, v) :: rest => max (1 + depth v) (depthOfEntries rest)

/-- The greatest number of containers around a value inside an array of these items. -/
def depthOfItems : List Value → Nat
  | [] => 0
  | v :: rest => max (1 + depth v) (depthOfItems rest)

end

mutual

/-- The value with the entries of every table in ascending order of their names. -/
def sorted : Value → Value
  | .table entries => .table (sortByName (sortedEntries entries))
  | .array items => .array (sortedItems items)
  | v => v

/-- The entries with every table inside their values sorted. -/
def sortedEntries : List (String × Value) → List (String × Value)
  | [] => []
  | (name, v) :: rest => (name, sorted v) :: sortedEntries rest

/-- The items with every table inside them sorted. -/
def sortedItems : List Value → List Value
  | [] => []
  | v :: rest => sorted v :: sortedItems rest

end

theorem sortedEntries_eq (entries : Entries) :
    sortedEntries entries = entries.map fun e => (e.1, e.2.sorted) := by
  induction entries with
  | nil => rfl
  | cons e rest ih => simp only [sortedEntries, ih, List.map_cons]

theorem sortedItems_eq (items : List Value) : sortedItems items = items.map sorted := by
  induction items with
  | nil => rfl
  | cons v rest ih => simp only [sortedItems, ih, List.map_cons]

end MicroBus.Value

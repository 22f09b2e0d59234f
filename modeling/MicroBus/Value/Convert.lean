import MicroBus.Value.Order

/-!
# Conversions into values

Each type that a caller may pass has one value that stands for it. Signed and unsigned
integers keep their signedness, a missing option is no value, and a name map becomes a table
in ascending order of its names.
-/

namespace MicroBus

/-- Types whose elements stand for values. -/
class ToValue (α : Type) where
  /-- The value that stands for an element. -/
  toValue : α → Value

export ToValue (toValue)

instance : ToValue Value := ⟨id⟩

instance : ToValue Unit := ⟨fun _ => .null⟩

instance : ToValue Bool := ⟨.bool⟩

instance : ToValue Int8 := ⟨fun i => .int i.toInt64⟩

instance : ToValue Int16 := ⟨fun i => .int i.toInt64⟩

instance : ToValue Int32 := ⟨fun i => .int i.toInt64⟩

instance : ToValue Int64 := ⟨.int⟩

instance : ToValue UInt8 := ⟨fun u => .uint u.toUInt64⟩

instance : ToValue UInt16 := ⟨fun u => .uint u.toUInt64⟩

instance : ToValue UInt32 := ⟨fun u => .uint u.toUInt64⟩

instance : ToValue UInt64 := ⟨.uint⟩

instance : ToValue Binary32 := ⟨fun s => .double s.widen⟩

instance : ToValue Binary64 := ⟨.double⟩

instance : ToValue String := ⟨.str⟩

instance : ToValue ByteArray := ⟨fun b => .bytes b.data.toList⟩

instance [ToValue α] : ToValue (Option α) :=
  ⟨fun o => match o with
    | none => .null
    | some a => toValue a⟩

instance [ToValue α] : ToValue (List α) := ⟨fun l => .array (l.map toValue)⟩

/-- Elements by distinct names, in ascending order of the names. -/
structure NameMap (α : Type) where
  /-- The entries. -/
  entries : List (String × α)
  /-- Each name is there once, in ascending order. -/
  ascending : Ascending entries

/-- Collects entries; a later one of the same name replaces the earlier. -/
def NameMap.ofList (entries : List (String × α)) : NameMap α :=
  ⟨canonical entries, ascending_canonical entries⟩

instance [ToValue α] : ToValue (NameMap α) :=
  ⟨fun m => .table (m.entries.map fun e => (e.1, toValue e.2))⟩

namespace Entries

/-- Appends an entry. -/
def add [ToValue α] (entries : Entries) (name : String) (a : α) : Entries :=
  entries ++ [(name, toValue a)]

/-- Appends an entry if there is something to hold. -/
def addSome [ToValue α] (entries : Entries) (name : String) : Option α → Entries
  | none => entries
  | some a => entries.add name a

/-- The table of the entries in ascending order of their names. -/
def build (entries : Entries) : Value := .table (sortByName entries)

end Entries

end MicroBus

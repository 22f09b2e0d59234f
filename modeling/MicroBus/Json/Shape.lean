import MicroBus.Json.Basic

/-!
# Reading trees as typed data

A caller who knows the shape of a reply reads it as data of a type. An integer has to lie in
the range of its type and a double is never an integer; members that were not asked for are
ignored.
-/

namespace MicroBus

/-- Types whose elements can be read from a JSON tree. -/
class OfJson (α : Type) where
  /-- The element that a tree stands for, if it has the right shape. -/
  ofJson? : Json → Option α

namespace OfJson

instance : OfJson Json := ⟨some⟩

instance : OfJson Bool :=
  ⟨fun j => match j with
    | .bool b => some b
    | _ => none⟩

instance : OfJson String :=
  ⟨fun j => match j with
    | .str s => some s
    | _ => none⟩

instance : OfJson UInt64 :=
  ⟨fun j => match j with
    | .int i => if 0 ≤ i ∧ i < 0x10000000000000000 then some (UInt64.ofNat i.toNat) else none
    | _ => none⟩

instance : OfJson Int64 :=
  ⟨fun j => match j with
    | .int i =>
      if -0x8000000000000000 ≤ i ∧ i < 0x8000000000000000 then some (Int64.ofInt i) else none
    | _ => none⟩

instance [OfJson α] : OfJson (List α) :=
  ⟨fun j => match j with
    | .arr items => items.mapM ofJson?
    | _ => none⟩

/-- The member of an object with this name, read as data of a type. -/
def member? [OfJson α] (j : Json) (name : String) : Option α := (j.member? name).bind ofJson?

end OfJson

end MicroBus

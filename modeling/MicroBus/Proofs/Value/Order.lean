import Mathlib.Order.Basic
import MicroBus.Proofs.Text.Order
import MicroBus.Value.Measure
import MicroBus.Wire.Received

/-!
# Sorting by name

Sorting moves entries and changes none, so it commutes with whatever is done to what the
entries hold.
-/

namespace MicroBus

theorem sortByName_perm {α : Type} (entries : List (String × α)) :
    (sortByName entries).Perm entries :=
  List.mergeSort_perm _ _

@[simp] theorem mem_sortByName {α : Type} {entries : List (String × α)} {e : String × α} :
    e ∈ sortByName entries ↔ e ∈ entries :=
  (sortByName_perm entries).mem_iff

/-- Sorting goes by the octets of the names. -/
theorem sortByName_eq_mergeSort {α : Type} (entries : List (String × α)) :
    sortByName entries =
      entries.mergeSort fun a b => decide (Text.utf8 a.1 ≤ Text.utf8 b.1) := by
  simp only [sortByName, Text.utf8_le_iff]

/-- Changing what entries hold does not change their order. -/
theorem sortByName_map {α β : Type} (f : String × α → β) (entries : List (String × α)) :
    sortByName (entries.map fun e => (e.1, f e)) =
      (sortByName entries).map fun e => (e.1, f e) :=
  (List.map_mergeSort (f := fun e : String × α => (e.1, f e)) (fun _ _ _ _ => rfl)).symm

namespace Value

theorem receivedEntries_sortByName (entries : Entries) :
    receivedEntries (sortByName entries) = sortByName (receivedEntries entries) := by
  rw [receivedEntries_eq, receivedEntries_eq, sortByName_map]

/-- What arrives of items, which are entries with the empty name. -/
theorem receivedEntries_items (items : List Value) :
    (receivedEntries (items.map fun v => ("", v))).map Prod.snd = items.map received := by
  rw [receivedEntries_eq, List.map_map, List.map_map]
  rfl

theorem depthOfEntries_le_iff {entries : Entries} {n : Nat} :
    depthOfEntries entries ≤ n ↔ ∀ e ∈ entries, e.2.depth < n := by
  induction entries with
  | nil => simp [depthOfEntries]
  | cons e rest ih =>
    rw [depthOfEntries, Nat.max_le, ih, List.forall_mem_cons, Nat.one_add_le_iff]

theorem depthOfItems_le_iff {items : List Value} {n : Nat} :
    depthOfItems items ≤ n ↔ ∀ v ∈ items, v.depth < n := by
  induction items with
  | nil => simp [depthOfItems]
  | cons v rest ih =>
    rw [depthOfItems, Nat.max_le, ih, List.forall_mem_cons, Nat.one_add_le_iff]

theorem depthOfEntries_sortByName (entries : Entries) :
    depthOfEntries (sortByName entries) = depthOfEntries entries :=
  eq_of_forall_ge_iff fun n => by simp only [depthOfEntries_le_iff, mem_sortByName]

/-- Items are entries with the empty name. -/
theorem depthOfEntries_items (items : List Value) :
    depthOfEntries (items.map fun v => ("", v)) = depthOfItems items :=
  eq_of_forall_ge_iff fun n => by
    simp only [depthOfEntries_le_iff, depthOfItems_le_iff, List.forall_mem_map]

end Value

end MicroBus

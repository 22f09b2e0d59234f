import MicroBus.Proofs.Value.Canonical
import MicroBus.Proofs.Wire.Draft

/-!
# The order of entries is not written

A table is written in ascending order of its names, whatever the order of its entries. So a value
is written as the one whose tables are sorted, at any depth and with any fault.
-/

namespace MicroBus

namespace Value

theorem IsPlain.sorted_eq {v : Value} (h : v.IsPlain) : v.sorted = v := by
  cases v with
  | table | array => exact h.elim
  | _ => rfl

@[simp] theorem isPlain_sorted_iff {v : Value} : v.sorted.IsPlain ↔ v.IsPlain := by
  cases v <;> rfl

@[simp] theorem tag_sorted (v : Value) : v.sorted.tag = v.tag := by
  cases v <;> rfl

/-- The sorted form of a container holds the sorted forms, in the same order. -/
theorem inside_sorted (v : Value) :
    v.sorted.inside = v.inside.map fun e => (e.1, e.2.sorted) := by
  cases v with
  | table entries =>
    rw [sorted, inside, inside, sortByName_sortByName, sortedEntries_eq, sortByName_map]
  | array items =>
    rw [sorted, inside, inside, sortedItems_eq, List.map_map, List.map_map]
    rfl
  | _ => rfl

end Value

namespace Wire

/-- If values are written as the sorted ones, then so are several of them one after another. -/
theorem draftEach_sorted {levels : Nat}
    (h : ∀ name (v : Value), draft levels name v.sorted = draft levels name v)
    (entries : Entries) :
    draftEach levels (entries.map fun e => (e.1, e.2.sorted)) = draftEach levels entries := by
  rw [draftEach, draftEach, List.map_map]
  exact congrArg Draft.inTurn (List.map_congr_left fun e _ => h e.1 e.2)

/-- A value is written as the one whose tables are sorted. -/
theorem draft_sorted (levels : Nat) (name : String) (v : Value) :
    draft levels name v.sorted = draft levels name v := by
  induction levels generalizing name v with
  | zero => rw [draft, draft]
  | succ levels ih =>
    by_cases plain : v.IsPlain
    · rw [plain.sorted_eq]
    · have container : ¬ v.sorted.IsPlain := by rwa [Value.isPlain_sorted_iff]
      rw [draft_of_container levels name container, draft_of_container levels name plain,
        Value.tag_sorted, Value.inside_sorted, draftEach_sorted ih]

theorem entriesDraft_sorted (entries : Entries) :
    entriesDraft (sortByName (Value.sortedEntries entries)) = entriesDraft entries := by
  rw [entriesDraft_eq, entriesDraft_eq, sortByName_sortByName, Value.sortedEntries_eq,
    sortByName_map, draftEach_sorted (draft_sorted _)]

end Wire

/-- Entries are written as the sorted ones. -/
theorem encodeTable_sorted (entries : Entries) :
    encodeTable (sortByName (Value.sortedEntries entries)) = encodeTable entries := by
  rw [encodeTable, encodeTable, Wire.entriesDraft_sorted]

end MicroBus

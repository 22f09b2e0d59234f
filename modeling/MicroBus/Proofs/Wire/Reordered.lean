import Mathlib
import MicroBus.Client.Basic
import MicroBus.Proofs.Value.Reordered
import MicroBus.Proofs.Wire.Sorted

/-!
# Reordered tables are written alike

A table is written as its sorted form, with any fault. So tables of one sorted form are written to
the same octets or refused for the same fault, and a body into which they are put is the same.
-/

namespace MicroBus

namespace Value.Reordered

variable {entries others : Entries}

/-- Reordered entries are drafted alike, up to the same fault. -/
theorem entriesDraft_eq (h : Reordered (.table entries) (.table others)) :
    Wire.entriesDraft entries = Wire.entriesDraft others := by
  have hs := h.sorted_eq
  rw [sorted, sorted, table.injEq] at hs
  rw [← Wire.entriesDraft_sorted entries, hs, Wire.entriesDraft_sorted]

theorem encodeTable_eq (h : Reordered (.table entries) (.table others)) :
    encodeTable entries = encodeTable others := by
  rw [encodeTable, encodeTable, h.entriesDraft_eq]

theorem encodeNamed_eq {v w : Value} (h : Reordered v w) (name : String) :
    encodeNamed name v = encodeNamed name w := by
  rw [encodeNamed, encodeNamed, ← Wire.draft_sorted, h.sorted_eq, Wire.draft_sorted]

theorem putTable_eq (h : Reordered (.table entries) (.table others)) (b : Builder)
    (field : Field) : b.putTable field entries = b.putTable field others := by
  rw [Builder.putTable, Builder.putTable, h.entriesDraft_eq]

end Value.Reordered

/-- Two tables become equal when the tables in them at all depths are sorted exactly if they differ
only by exchanges of neighbours of different names. Then they are written to the same octets or
refused for the same fault, as a container and as a named value, and putting either of them into a
body does the same: it is refused for the same fault, and it leaves the same body, which is finished
alike. -/
theorem written_alike (entries others : Entries) :
    (sortByName (Value.sortedEntries entries) = sortByName (Value.sortedEntries others) ↔
      Value.Reordered (.table entries) (.table others)) ∧
    (sortByName (Value.sortedEntries entries) = sortByName (Value.sortedEntries others) →
      encodeTable entries = encodeTable others ∧
      (∀ name, encodeNamed name (.table entries) = encodeNamed name (.table others)) ∧
      ∀ (b : Builder) field, b.putTable field entries = b.putTable field others ∧
        (Client.built (b.putTable field entries) >>= Builder.finish) =
          (Client.built (b.putTable field others) >>= Builder.finish)) := by
  have hiff : sortByName (Value.sortedEntries entries) = sortByName (Value.sortedEntries others) ↔
      Value.Reordered (.table entries) (.table others) := by
    rw [Value.reordered_iff, Value.sorted, Value.sorted, Value.table.injEq]
  refine ⟨hiff, fun alike => ?_⟩
  have h := hiff.mp alike
  refine ⟨h.encodeTable_eq, fun name => h.encodeNamed_eq name, fun b field => ?_⟩
  exact ⟨h.putTable_eq b field, by rw [h.putTable_eq b field]⟩

/-- A table with two entries of one name, one of them an array around such a table, is given in two
orders and put into a body as the same octets. With an array that is nested too deep it is refused
in both orders, and the bodies are still the same. -/
theorem written_alike_nested :
    let inner : Entries := [("y", .int 1), ("x", .int 2), ("y", .int 3)]
    let inner' : Entries := [("x", .int 2), ("y", .int 1), ("y", .int 3)]
    let entries : Entries := [("b", .array [.table inner]), ("a", .bool true), ("b", .null)]
    let others : Entries := [("a", .bool true), ("b", .array [.table inner']), ("b", .null)]
    let deep : Value := Nat.repeat (fun v => .array [v]) 65 .null
    Value.Reordered (.table entries) (.table others) ∧
    Builder.empty.putTable .data entries = Builder.empty.putTable .data others ∧
    (Builder.empty.putTable .data others).1 = none ∧
    Builder.empty.putTable .data (("c", deep) :: entries) =
      Builder.empty.putTable .data (("c", deep) :: others) ∧
    (Builder.empty.putTable .data (("c", deep) :: others)).1 = some (.tooDeep maxDepth) := by
  intro inner inner' entries others deep
  have alike : sortByName (Value.sortedEntries entries) =
      sortByName (Value.sortedEntries others) := by cbv
  have alike' : sortByName (Value.sortedEntries (("c", deep) :: entries)) =
      sortByName (Value.sortedEntries (("c", deep) :: others)) := by cbv
  obtain ⟨reordered, written⟩ := written_alike entries others
  obtain ⟨-, refused⟩ := written_alike (("c", deep) :: entries) (("c", deep) :: others)
  refine ⟨reordered.mp alike, ((written alike).2.2 .empty .data).1, by cbv,
    ((refused alike').2.2 .empty .data).1, by cbv⟩

end MicroBus

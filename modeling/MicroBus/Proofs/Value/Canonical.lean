import Mathlib.Data.List.Induction
import Mathlib.Data.List.Nodup
import MicroBus.Proofs.Value.Order

/-!
# Canonical entries

Canonical entries are a map: each name once, in ascending order of the names, with what the last
entry of the name held. Sorting keeps the order of entries of one name, so it changes nothing of
what the last of them holds, and entries with the same last ones have the same canonical form.
-/

namespace MicroBus

variable {α β : Type}

/-! ## The last entry of a name -/

namespace Value

/-- The last entry of a name is the last among the entries of that name. -/
theorem findLast?_eq (name : String) (entries : List (String × α)) :
    findLast? name entries =
      (entries.filter fun e => e.1 = name).getLast?.map Prod.snd := by
  induction entries using List.reverseRecOn with
  | nil => rfl
  | append_singleton entries e ih =>
    rw [findLast?, List.foldl_append, ← findLast?, ih, List.filter_append, List.getLast?_append]
    by_cases h : e.1 = name <;> simp [h]

/-- Later entries of a name count before earlier ones. -/
theorem findLast?_append (name : String) (entries others : List (String × α)) :
    findLast? name (entries ++ others) =
      (findLast? name others).or (findLast? name entries) := by
  rw [findLast?_eq, findLast?_eq, findLast?_eq, List.filter_append, List.getLast?_append,
    Option.map_or]

theorem findLast?_cons (name : String) (e : String × α) (entries : List (String × α)) :
    findLast? name (e :: entries) =
      (findLast? name entries).or (if e.1 = name then some e.2 else none) :=
  findLast?_append name [e] entries

/-- Changing what entries hold changes what the last of them holds. -/
theorem findLast?_map (name : String) (f : α → β) (entries : List (String × α)) :
    findLast? name (entries.map fun e => (e.1, f e.2)) = (findLast? name entries).map f := by
  induction entries with
  | nil => rfl
  | cons e entries ih =>
    rw [List.map_cons, findLast?_cons, findLast?_cons, ih, Option.map_or]
    by_cases h : e.1 = name <;> simp [h]

theorem findLast?_eq_none_iff {name : String} {entries : List (String × α)} :
    findLast? name entries = none ↔ ∀ e ∈ entries, e.1 ≠ name := by
  simp [findLast?_eq]

/-- There is a last entry of every name that occurs. -/
theorem exists_findLast?_iff {name : String} {entries : List (String × α)} :
    (∃ a, findLast? name entries = some a) ↔ ∃ a, (name, a) ∈ entries := by
  rw [← Option.ne_none_iff_exists', ne_eq, findLast?_eq_none_iff]
  simp

end Value

/-! ## Sorting is stable -/

@[simp] theorem sortByName_sortByName (entries : List (String × α)) :
    sortByName (sortByName entries) = sortByName entries :=
  List.mergeSort_of_pairwise ((pairwise_sortByName entries).imp decide_eq_true)

/-- Entries of one name keep their order. -/
theorem filter_sortByName (name : String) (entries : List (String × α)) :
    (sortByName entries).filter (fun e => e.1 = name) =
      entries.filter fun e => e.1 = name := by
  have hsub : (entries.filter fun e => e.1 = name).Sublist (sortByName entries) := by
    refine List.sublist_mergeSort le_trans_decide le_total_decide ?_ List.filter_sublist
    rw [List.pairwise_iff_forall_sublist]
    intro a b hab
    have ha := List.mem_filter.mp (hab.subset (List.mem_cons_self ..))
    have hb := List.mem_filter.mp (hab.subset (List.mem_cons_of_mem _ (List.mem_cons_self ..)))
    have hab : a.1 = b.1 := (of_decide_eq_true ha.2).trans (of_decide_eq_true hb.2).symm
    exact decide_eq_true (hab ▸ String.le_refl _)
  have hlength := ((sortByName_perm entries).filter fun e => e.1 = name).length_eq
  have hkept := hsub.filter fun e => e.1 = name
  rw [List.filter_filter] at hkept
  simp only [Bool.and_self] at hkept
  exact (hkept.eq_of_length hlength.symm).symm

@[simp] theorem Value.findLast?_sortByName (name : String) (entries : List (String × α)) :
    findLast? name (sortByName entries) = findLast? name entries := by
  rw [findLast?_eq, filter_sortByName, ← findLast?_eq]

/-! ## Ascending entries -/

namespace Ascending

variable {entries others : List (String × α)}

/-- Ascending entries are ascending by the octets of their names. -/
theorem pairwise_utf8 (h : Ascending entries) :
    entries.Pairwise fun a b => Text.utf8 a.1 < Text.utf8 b.1 :=
  h.imp Text.utf8_lt_of_lt

theorem nodup (h : Ascending entries) : entries.Nodup := by
  refine List.Pairwise.imp ?_ h
  rintro a b hab rfl
  exact String.lt_irrefl _ hab

/-- Of ascending entries each is the last of its name. -/
theorem mem_iff (h : Ascending entries) {name : String} {a : α} :
    (name, a) ∈ entries ↔ Value.findLast? name entries = some a := by
  induction entries with
  | nil => simp [Value.findLast?]
  | cons e entries ih =>
    obtain ⟨hfirst, hrest⟩ := List.pairwise_cons.mp h
    rw [List.mem_cons, ih hrest, Value.findLast?_cons]
    by_cases he : e.1 = name
    · -- No other entry has the name of the first.
      have hn : Value.findLast? name entries = none := by
        rw [Value.findLast?_eq_none_iff]
        rintro other ho rfl
        exact String.lt_irrefl _ (he ▸ hfirst other ho)
      rw [hn, if_pos he, Option.none_or, Option.some.injEq, ← he, eq_comm (a := (e.1, a))]
      simp [Prod.ext_iff]
    · have hne : (name, a) ≠ e := by
        rintro rfl
        exact he rfl
      rw [if_neg he, Option.or_none]
      simp [hne]

/-- Ascending entries with the same last ones are the same. -/
theorem ext (h : Ascending entries) (k : Ascending others)
    (same : ∀ name, Value.findLast? name entries = Value.findLast? name others) :
    entries = others := by
  have hperm : entries.Perm others := by
    rw [List.perm_ext_iff_of_nodup h.nodup k.nodup]
    rintro ⟨name, a⟩
    rw [h.mem_iff, k.mem_iff, same]
  refine hperm.eq_of_pairwise (fun a b _ _ hab hba => ?_) h k
  exact absurd (String.lt_trans hab hba) (String.lt_irrefl _)

theorem map (h : Ascending entries) (f : α → β) :
    Ascending (entries.map fun e => (e.1, f e.2)) :=
  List.pairwise_map.mpr h

/-- Ascending entries are sorted. -/
theorem sortByName_eq (h : Ascending entries) : sortByName entries = entries := by
  apply List.mergeSort_of_pairwise
  exact h.imp fun hab => decide_eq_true (String.not_lt.mp (String.lt_asymm hab))

end Ascending

/-! ## The canonical form -/

/-- Leaving out an entry in front of another of its name changes nothing of the last ones. -/
theorem findLast?_consUnlessRepeated (name : String) (e : String × α)
    (entries : List (String × α)) : Value.findLast? name (consUnlessRepeated e entries) =
      Value.findLast? name (e :: entries) := by
  cases entries with
  | nil => rfl
  | cons f entries =>
    rw [consUnlessRepeated]
    split
    · next he =>
      rw [Value.findLast?_cons name e, Value.findLast?_cons name f, he]
      by_cases hf : f.1 = name
      · cases Value.findLast? name entries <;> simp [hf]
      · simp [hf]
    · rfl

/-- The canonical form has no other entries. -/
theorem mem_of_mem_canonical {entries : List (String × α)} {e : String × α}
    (h : e ∈ canonical entries) : e ∈ entries :=
  mem_sortByName.mp ((ascending_foldr (pairwise_sortByName entries)).2 e h)

/-- The canonical form has the last entry of each name. -/
@[simp] theorem findLast?_canonical (name : String) (entries : List (String × α)) :
    Value.findLast? name (canonical entries) = Value.findLast? name entries := by
  have h (l : List (String × α)) :
      Value.findLast? name (l.foldr consUnlessRepeated []) = Value.findLast? name l := by
    induction l with
    | nil => rfl
    | cons e l ih =>
      rw [List.foldr_cons, findLast?_consUnlessRepeated, Value.findLast?_cons, ih,
        ← Value.findLast?_cons]
  rw [canonical, h, Value.findLast?_sortByName]

theorem mem_canonical_iff {name : String} {a : α} {entries : List (String × α)} :
    (name, a) ∈ canonical entries ↔ Value.findLast? name entries = some a := by
  rw [(ascending_canonical entries).mem_iff, findLast?_canonical]

/-- Entries with the same last ones have one canonical form. -/
theorem canonical_congr {entries others : List (String × α)}
    (same : ∀ name, Value.findLast? name entries = Value.findLast? name others) :
    canonical entries = canonical others :=
  (ascending_canonical entries).ext (ascending_canonical others) fun name => by
    rw [findLast?_canonical, findLast?_canonical, same]

/-- Ascending entries are their own canonical form. -/
theorem Ascending.canonical_eq {entries : List (String × α)} (h : Ascending entries) :
    canonical entries = entries :=
  (ascending_canonical entries).ext h fun name => findLast?_canonical name entries

@[simp] theorem canonical_nil : canonical ([] : List (String × α)) = [] :=
  Ascending.canonical_eq .nil

/-- Changing what entries hold changes what the entries of the canonical form hold. -/
theorem canonical_map (f : α → β) (entries : List (String × α)) :
    canonical (entries.map fun e => (e.1, f e.2)) =
      (canonical entries).map fun e => (e.1, f e.2) :=
  (ascending_canonical _).ext ((ascending_canonical entries).map f) fun name => by
    rw [findLast?_canonical, Value.findLast?_map, Value.findLast?_map, findLast?_canonical]

/-! ## What arrives of canonical entries -/

namespace Value

theorem receivedEntries_append (entries others : Entries) :
    receivedEntries (entries ++ others) = receivedEntries entries ++ receivedEntries others := by
  rw [receivedEntries_eq, receivedEntries_eq, receivedEntries_eq, List.map_append]

/-- What arrives of canonical entries: each name once, in ascending order, with what arrives of what
the last given entry of the name holds. -/
theorem received_canonical (given : Entries) :
    sortByName (receivedEntries (canonical given)) = canonical (receivedEntries given) := by
  rw [receivedEntries_eq, receivedEntries_eq, canonical_map]
  exact ((ascending_canonical given).map received).sortByName_eq

theorem mem_canonical_received_iff {given : Entries} {name : String} {v : Value} :
    (name, v) ∈ canonical (receivedEntries given) ↔
      ∃ w, findLast? name given = some w ∧ v = w.received := by
  rw [mem_canonical_iff, receivedEntries_eq, findLast?_map, Option.map_eq_some_iff]
  simp only [eq_comm (a := v)]

end Value

end MicroBus

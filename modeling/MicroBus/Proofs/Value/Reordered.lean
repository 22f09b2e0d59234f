import MicroBus.Proofs.Value.Canonical
import MicroBus.Proofs.Value.Nested

/-!
# Values that differ in the order of entries

Entries may be given in any order, as long as those of one name keep theirs: lists that have the
same entries of each name in the same order are sorted to one list. So values that differ in the
order of entries of different names, in tables at any depth, have one sorted form. The converse
holds too, for a value becomes its sorted form by exchanging neighbours of different names.
-/

namespace MicroBus

section ByName

variable {α : Type} {entries others : List (String × α)} {e f : String × α}

/-- Entries that are the same for each name, in the same order. -/
def SameByName (entries others : List (String × α)) : Prop :=
  ∀ name, entries.filter (fun e => e.1 = name) = others.filter fun e => e.1 = name

theorem filter_cons_of_name {name : String} (h : e.1 = name) (entries : List (String × α)) :
    (e :: entries).filter (fun e => e.1 = name) =
      e :: entries.filter fun e => e.1 = name :=
  List.filter_cons_of_pos (decide_eq_true h)

theorem filter_cons_of_other_name {name : String} (h : e.1 ≠ name)
    (entries : List (String × α)) :
    (e :: entries).filter (fun e => e.1 = name) = entries.filter fun e => e.1 = name :=
  List.filter_cons_of_neg (by simpa using h)

namespace SameByName

theorem symm (h : SameByName entries others) : SameByName others entries :=
  fun name => (h name).symm

theorem mem (h : SameByName entries others) (he : e ∈ entries) : e ∈ others := by
  have hf : e ∈ entries.filter fun f => f.1 = e.1 := List.mem_filter.mpr ⟨he, decide_eq_true rfl⟩
  rw [h e.1] at hf
  exact List.mem_of_mem_filter hf

/-- Without a first entry that is the same they are still the same. -/
theorem tail (h : SameByName (e :: entries) (e :: others)) : SameByName entries others := by
  intro name
  have hname := h name
  by_cases he : e.1 = name
  · rw [filter_cons_of_name he, filter_cons_of_name he] at hname
    exact (List.cons.inj hname).2
  · rwa [filter_cons_of_other_name he, filter_cons_of_other_name he] at hname

/-- If both are sorted, the first entries are the same. -/
theorem head_eq (h : SameByName (e :: entries) (f :: others))
    (sorted : (e :: entries).Pairwise fun a b => a.1 ≤ b.1)
    (sorted' : (f :: others).Pairwise fun a b => a.1 ≤ b.1) : e = f := by
  -- Each of the two is among the entries of the other list, so neither name comes first.
  have least {a b : String × α} {l : List (String × α)}
      (hl : (a :: l).Pairwise fun a b => a.1 ≤ b.1) (hb : b ∈ a :: l) : a.1 ≤ b.1 := by
    rcases List.mem_cons.mp hb with rfl | hb
    · exact String.le_refl _
    · exact (List.pairwise_cons.mp hl).1 b hb
  have hname : e.1 = f.1 := String.le_antisymm
    (least sorted (h.symm.mem (List.mem_cons_self ..)))
    (least sorted' (h.mem (List.mem_cons_self ..)))
  have hfirst := h f.1
  rw [filter_cons_of_name hname, filter_cons_of_name rfl] at hfirst
  exact (List.cons.inj hfirst).1

/-- Sorted entries that are the same for each name are the same. -/
theorem eq_of_sorted (h : SameByName entries others)
    (sorted : entries.Pairwise fun a b => a.1 ≤ b.1)
    (sorted' : others.Pairwise fun a b => a.1 ≤ b.1) : entries = others := by
  induction entries generalizing others with
  | nil =>
    cases others with
    | nil => rfl
    | cons f others => exact absurd (h.symm.mem (List.mem_cons_self ..)) List.not_mem_nil
  | cons e entries ih =>
    cases others with
    | nil => exact absurd (h.mem (List.mem_cons_self ..)) List.not_mem_nil
    | cons f others =>
      obtain rfl := h.head_eq sorted sorted'
      rw [ih h.tail (List.pairwise_cons.mp sorted).2 (List.pairwise_cons.mp sorted').2]

/-- The first entry of the one list is behind entries of other names in the other. -/
theorem exists_split (h : SameByName (e :: entries) others) :
    ∃ before after, others = before ++ e :: after ∧ (∀ x ∈ before, x.1 ≠ e.1) ∧
      SameByName entries (before ++ after) := by
  have hfirst := h e.1
  rw [filter_cons_of_name rfl, eq_comm, List.filter_eq_cons_iff] at hfirst
  obtain ⟨before, after, rfl, hbefore, -, -⟩ := hfirst
  simp only [decide_eq_true_eq] at hbefore
  refine ⟨before, after, rfl, hbefore, fun name => ?_⟩
  have hname := h name
  by_cases he : e.1 = name
  · subst he
    have hnil : before.filter (fun x => x.1 = e.1) = [] := by
      simpa [List.filter_eq_nil_iff] using hbefore
    rw [List.filter_append, hnil, List.nil_append, filter_cons_of_name rfl,
      filter_cons_of_name rfl] at hname
    rw [List.filter_append, hnil, List.nil_append]
    exact (List.cons.inj hname).2
  · rw [List.filter_append, filter_cons_of_other_name he, filter_cons_of_other_name he] at hname
    rwa [List.filter_append]

end SameByName

theorem sameByName_sortByName (entries : List (String × α)) :
    SameByName (sortByName entries) entries :=
  fun name => filter_sortByName name entries

/-- Entries are sorted to the same list exactly if they are the same for each name. -/
theorem sortByName_eq_iff : sortByName entries = sortByName others ↔ SameByName entries others := by
  constructor
  · intro h name
    rw [← sameByName_sortByName entries name, h, sameByName_sortByName others name]
  · intro h
    refine SameByName.eq_of_sorted (fun name => ?_) (pairwise_sortByName _) (pairwise_sortByName _)
    rw [sameByName_sortByName, sameByName_sortByName, h name]

end ByName

namespace Value

/-- Values that differ only in the order of entries of different names, in tables at any depth. -/
inductive Reordered : Value → Value → Prop where
  /-- Nothing differs. -/
  | refl (v : Value) : Reordered v v
  /-- One reordering after another. -/
  | trans {u v w : Value} (h : Reordered u v) (k : Reordered v w) : Reordered u w
  /-- Two neighbours of different names are exchanged. -/
  | swap (before after : Entries) {e f : String × Value} (differ : e.1 ≠ f.1) :
    Reordered (.table (before ++ e :: f :: after)) (.table (before ++ f :: e :: after))
  /-- What an entry holds is reordered. -/
  | entry (before after : Entries) (name : String) {v w : Value} (h : Reordered v w) :
    Reordered (.table (before ++ (name, v) :: after)) (.table (before ++ (name, w) :: after))
  /-- An item is reordered. -/
  | item (before after : List Value) {v w : Value} (h : Reordered v w) :
    Reordered (.array (before ++ v :: after)) (.array (before ++ w :: after))

namespace Reordered

variable {v w : Value}

theorem symm (h : Reordered v w) : Reordered w v := by
  induction h with
  | refl v => exact .refl v
  | trans _ _ ih ih' => exact .trans ih' ih
  | swap before after differ => exact .swap before after differ.symm
  | entry before after name _ ih => exact .entry before after name ih
  | item before after _ ih => exact .item before after ih

/-- Reordered values have one sorted form. -/
theorem sorted_eq (h : Reordered v w) : v.sorted = w.sorted := by
  induction h with
  | refl => rfl
  | trans _ _ ih ih' => exact ih.trans ih'
  | @swap before after e f differ =>
    rw [sorted, sorted, sortByName_eq_iff.mpr]
    intro name
    rw [sortedEntries_eq, sortedEntries_eq, List.map_append, List.map_append, List.filter_append,
      List.filter_append]
    congr 1
    -- At most one of the two has the name, so the other is not there.
    by_cases he : e.1 = name
    · have hf : f.1 ≠ name := fun hf => differ (he.trans hf.symm)
      simp [he, hf]
    · by_cases hf : f.1 = name <;> simp [he, hf]
  | entry before after name _ ih =>
    simp only [sorted, sortedEntries_eq, List.map_append, List.map_cons, ih]
  | item before after _ ih =>
    simp only [sorted, sortedItems_eq, List.map_append, List.map_cons, ih]

/-- An entry is moved past entries of other names. -/
theorem move {e : String × Value} (front before after : Entries)
    (differ : ∀ x ∈ before, x.1 ≠ e.1) :
    Reordered (.table (front ++ (before ++ e :: after)))
      (.table (front ++ e :: (before ++ after))) := by
  induction before generalizing front with
  | nil => exact .refl _
  | cons x before ih =>
    rw [List.forall_mem_cons] at differ
    have moved := ih (front ++ [x]) differ.2
    rw [List.append_assoc, List.append_assoc] at moved
    exact moved.trans (.swap front (before ++ after) differ.1)

/-- Entries that are the same for each name differ by a reordering, behind any others. -/
theorem of_sameByName (front : Entries) {entries others : Entries}
    (h : SameByName entries others) :
    Reordered (.table (front ++ entries)) (.table (front ++ others)) := by
  induction entries generalizing front others with
  | nil =>
    cases others with
    | nil => exact .refl _
    | cons f others => exact absurd (h.symm.mem (List.mem_cons_self ..)) List.not_mem_nil
  | cons e entries ih =>
    obtain ⟨before, after, rfl, differ, hrest⟩ := h.exists_split
    have rest := ih (front ++ [e]) hrest
    rw [List.append_assoc, List.append_assoc] at rest
    exact rest.trans (move front before after differ).symm

/-- If what entries hold is reordered to its sorted form, then so are the entries. -/
theorem sortedEntries (front : Entries) {entries : Entries}
    (h : ∀ e ∈ entries, Reordered e.2 e.2.sorted) :
    Reordered (.table (front ++ entries)) (.table (front ++ Value.sortedEntries entries)) := by
  induction entries generalizing front with
  | nil => exact .refl _
  | cons e entries ih =>
    rw [List.forall_mem_cons] at h
    have rest := ih (front ++ [(e.1, e.2.sorted)]) h.2
    rw [List.append_assoc, List.append_assoc] at rest
    exact .trans (.entry front entries e.1 h.1) rest

theorem sortedItems (front : List Value) {items : List Value}
    (h : ∀ v ∈ items, Reordered v v.sorted) :
    Reordered (.array (front ++ items)) (.array (front ++ Value.sortedItems items)) := by
  induction items generalizing front with
  | nil => exact .refl _
  | cons v items ih =>
    rw [List.forall_mem_cons] at h
    have rest := ih (front ++ [v.sorted]) h.2
    rw [List.append_assoc, List.append_assoc] at rest
    exact .trans (.item front items h.1) rest

end Reordered

/-- A value is reordered to its sorted form. -/
theorem reordered_sorted (v : Value) : Reordered v v.sorted := by
  induction v using nestedInduction with
  | plain v hv =>
    cases v with
    | table | array => exact hv.elim
    | _ => exact .refl _
  | table entries ih =>
    rw [sorted]
    exact (Reordered.sortedEntries [] ih).trans
      (.of_sameByName [] (sameByName_sortByName _).symm)
  | array items ih =>
    rw [sorted]
    exact .sortedItems [] ih

/-- Values differ only in the order of entries of different names exactly if they have one sorted
form. -/
theorem reordered_iff {v w : Value} : Reordered v w ↔ v.sorted = w.sorted := by
  refine ⟨Reordered.sorted_eq, fun h => (reordered_sorted v).trans ?_⟩
  rw [h]
  exact (reordered_sorted w).symm

end Value

end MicroBus

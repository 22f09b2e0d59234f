import MicroBus.Value.Basic

/-!
# Entries by name

Names are ordered by their UTF-8 octets, which is the order of their characters. Sorting is
stable, so entries of one name keep their order, and the canonical form of a list of entries
has each name once, in ascending order, with what its last entry held.
-/

namespace MicroBus

/-- Entries in ascending order of their names; entries of one name keep their order. -/
def sortByName (entries : List (String × α)) : List (String × α) :=
  entries.mergeSort fun a b => decide (a.1 ≤ b.1)

/-- Puts an entry in front of canonical entries, unless they begin with its own name. -/
def consUnlessRepeated (e : String × α) : List (String × α) → List (String × α)
  | [] => [e]
  | f :: rest => if e.1 = f.1 then f :: rest else e :: f :: rest

/-- Each name once, in ascending order, with what its last entry held. -/
def canonical (entries : List (String × α)) : List (String × α) :=
  (sortByName entries).foldr consUnlessRepeated []

/-! ## Ascending entries -/

/-- Entries in ascending order of their names, with each name once. -/
def Ascending (entries : List (String × α)) : Prop := entries.Pairwise fun a b => a.1 < b.1

instance (entries : List (String × α)) : Decidable (Ascending entries) :=
  inferInstanceAs (Decidable (entries.Pairwise fun a b => a.1 < b.1))

theorem le_trans_decide (a b c : String × α) :
    decide (a.1 ≤ b.1) = true → decide (b.1 ≤ c.1) = true → decide (a.1 ≤ c.1) = true := by
  simpa using String.le_trans

theorem le_total_decide (a b : String × α) :
    (decide (a.1 ≤ b.1) || decide (b.1 ≤ a.1)) = true := by
  simpa using String.le_total a.1 b.1

theorem pairwise_sortByName (entries : List (String × α)) :
    (sortByName entries).Pairwise fun a b => a.1 ≤ b.1 := by
  have h := List.pairwise_mergeSort le_trans_decide le_total_decide entries
  exact h.imp of_decide_eq_true

theorem mem_consUnlessRepeated {e f : String × α} {entries : List (String × α)}
    (h : f ∈ consUnlessRepeated e entries) : f = e ∨ f ∈ entries := by
  cases entries with
  | nil => exact .inl (List.mem_singleton.mp h)
  | cons g entries =>
    rw [consUnlessRepeated] at h
    split at h
    · exact .inr h
    · exact List.mem_cons.mp h

/-- Sorted entries stay in order when repeated names are left out, and no name is left twice. -/
theorem ascending_foldr {entries : List (String × α)}
    (h : entries.Pairwise fun a b => a.1 ≤ b.1) :
    Ascending (entries.foldr consUnlessRepeated []) ∧
      ∀ f ∈ entries.foldr consUnlessRepeated [], f ∈ entries := by
  induction entries with
  | nil => exact ⟨.nil, by simp⟩
  | cons e entries ih =>
    obtain ⟨hfirst, hrest⟩ := List.pairwise_cons.mp h
    obtain ⟨ascending, mem⟩ := ih hrest
    rw [List.foldr_cons]
    refine ⟨?_, fun f hf => ?_⟩
    · cases hk : entries.foldr consUnlessRepeated [] with
      | nil => exact List.pairwise_singleton _ _
      | cons f kept =>
        rw [hk] at ascending mem
        rw [consUnlessRepeated]
        split
        · exact ascending
        · next hne =>
          have hlt : e.1 < f.1 :=
            Std.lt_of_le_of_ne (hfirst f (mem f (List.mem_cons_self ..))) hne
          refine List.pairwise_cons.mpr ⟨?_, ascending⟩
          intro g hg
          rcases List.mem_cons.mp hg with rfl | hg
          · exact hlt
          · exact String.lt_trans hlt ((List.pairwise_cons.mp ascending).1 g hg)
    · rcases mem_consUnlessRepeated hf with rfl | hf
      · exact List.mem_cons_self ..
      · exact List.mem_cons_of_mem _ (mem f hf)

/-- The canonical form is in ascending order, with each name once. -/
theorem ascending_canonical (entries : List (String × α)) : Ascending (canonical entries) :=
  (ascending_foldr (pairwise_sortByName entries)).1

namespace Value

/-- The entries of a table in canonical form; no value is the empty table. Any other value is
handed back. -/
def toCanonical : Value → Except Value Entries
  | table entries => .ok (canonical entries)
  | null => .ok []
  | other => .error other

end Value

end MicroBus

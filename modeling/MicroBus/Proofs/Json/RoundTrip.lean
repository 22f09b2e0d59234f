import Mathlib
import MicroBus.Json.NormalForm
import MicroBus.Proofs.Value.Canonical
import MicroBus.Proofs.Value.Nested

/-!
# Values and trees there and back

A well-formed tree is the tree of its own value: no integer goes through a double and no member is
lost or moved. A value that is made a tree and read back is brought into the form that JSON can say,
and then it stays as it is.
-/

namespace MicroBus

namespace Json

/-! ## Nested trees -/

/-- Whether a tree holds no other trees. -/
def IsPlain : Json → Prop
  | .arr _ => False
  | .obj _ => False
  | _ => True

/-- What holds of trees without inner ones, and of an array or an object if it holds of what is in
it, holds of every tree. -/
@[elab_as_elim]
theorem nestedInduction {motive : Json → Prop} (plain : ∀ j : Json, j.IsPlain → motive j)
    (arr : ∀ items : List Json, (∀ j ∈ items, motive j) → motive (.arr items))
    (obj : ∀ members : List (String × Json), (∀ m ∈ members, motive m.2) → motive (.obj members))
    (j : Json) : motive j :=
  match j with
  | .arr items => arr items fun j _ => nestedInduction plain arr obj j
  | .obj members => obj members fun m _ => nestedInduction plain arr obj m.2
  | .null => plain .null trivial
  | .bool b => plain (.bool b) trivial
  | .int i => plain (.int i) trivial
  | .double d => plain (.double d) trivial
  | .str s => plain (.str s) trivial
termination_by sizeOf j
decreasing_by
  · have hj := List.sizeOf_lt_of_mem ‹j ∈ items›
    simp only [Json.arr.sizeOf_spec]
    omega
  · have hm := List.sizeOf_lt_of_mem ‹m ∈ members›
    obtain ⟨name, inner⟩ := m
    simp only [Prod.mk.sizeOf_spec] at hm
    simp only [Json.obj.sizeOf_spec]
    omega

theorem wellFormed_arr_iff {items : List Json} :
    (arr items).WellFormed ↔ ∀ j ∈ items, j.WellFormed := by
  rw [WellFormed]
  induction items with
  | nil => simp [WellFormedItems]
  | cons j rest ih => rw [WellFormedItems, ih, List.forall_mem_cons]

/-- An object is well formed if its members ascend and are well formed. -/
theorem wellFormed_obj_iff {members : List (String × Json)} :
    (obj members).WellFormed ↔ Ascending members ∧ ∀ m ∈ members, m.2.WellFormed := by
  have hmembers : WellFormedMembers members ↔ ∀ m ∈ members, m.2.WellFormed := by
    induction members with
    | nil => simp [WellFormedMembers]
    | cons m rest ih => rw [WellFormedMembers, ih, List.forall_mem_cons]
  rw [WellFormed, List.pairwise_map, hmembers]
  rfl

end Json

namespace Value

/-! ## Ascending names -/

mutual

/-- The entries of every table in a value ascend: each name is there once. -/
def NamesAscend : Value → Prop
  | .table entries => Ascending entries ∧ NamesOfEntriesAscend entries
  | .array items => NamesOfItemsAscend items
  | _ => True

/-- The entries of every table in the values of entries ascend. -/
def NamesOfEntriesAscend : List (String × Value) → Prop
  | [] => True
  | (_, v) :: rest => NamesAscend v ∧ NamesOfEntriesAscend rest

/-- The entries of every table in items ascend. -/
def NamesOfItemsAscend : List Value → Prop
  | [] => True
  | v :: rest => NamesAscend v ∧ NamesOfItemsAscend rest

end

theorem namesAscend_array_iff {items : List Value} :
    (array items).NamesAscend ↔ ∀ v ∈ items, v.NamesAscend := by
  rw [NamesAscend]
  induction items with
  | nil => simp [NamesOfItemsAscend]
  | cons v rest ih => rw [NamesOfItemsAscend, ih, List.forall_mem_cons]

theorem namesAscend_table_iff {entries : Entries} :
    (table entries).NamesAscend ↔ Ascending entries ∧ ∀ e ∈ entries, e.2.NamesAscend := by
  have hentries : NamesOfEntriesAscend entries ↔ ∀ e ∈ entries, e.2.NamesAscend := by
    induction entries with
    | nil => simp [NamesOfEntriesAscend]
    | cons e rest ih => rw [NamesOfEntriesAscend, ih, List.forall_mem_cons]
  rw [NamesAscend, hentries]

/-! ## Containers -/

theorem ofJson_arr (items : List Json) : ofJson (.arr items) = array (items.map ofJson) := by
  rw [ofJson, ofJsonItems_eq, List.reverse_nil, List.nil_append]

theorem ofJson_obj (members : List (String × Json)) :
    ofJson (.obj members) = table (members.map fun m => (m.1, ofJson m.2)) := by
  rw [ofJson, ofJsonMembers_eq, List.reverse_nil, List.nil_append]

theorem toJson_array (items : List Value) : (array items).toJson = .arr (items.map toJson) := by
  rw [toJson, toJsonItems_eq, List.reverse_nil, List.nil_append]

/-- The members of a table are the canonical form of its entries. -/
theorem toJson_table (entries : Entries) :
    (table entries).toJson = .obj ((canonical entries).map fun e => (e.1, e.2.toJson)) := by
  rw [toJson, toJsonMembers_eq, List.reverse_nil, List.nil_append, Json.object, canonical_map]

theorem jsonForm_table (entries : Entries) :
    (table entries).jsonForm = table ((canonical entries).map fun e => (e.1, e.2.jsonForm)) := by
  rw [jsonForm, jsonFormEntries_eq, canonical_map]

/-! ## Integers -/

/-- An integer of at most 64 bits is the integer of its value. -/
theorem toJson_ofInteger {i : Int} (low : -0x8000000000000000 ≤ i)
    (high : i < 0x10000000000000000) : (ofInteger i).toJson = .int i := by
  rw [ofInteger]
  split
  · next h =>
    rw [toJson, Int64.toInt_ofInt_of_le h.1 (Int.lt_iff_add_one_le.mp h.2)]
  · next h =>
    rw [toJson, UInt64.toNat_ofNat']
    congr 1
    omega

theorem ofInteger_toInt (i : Int64) : ofInteger i.toInt = int i := by
  have low := i.le_toInt
  have high := i.toInt_lt
  rw [ofInteger, if_pos ⟨low, high⟩, Int64.ofInt_toInt]

/-- An unsigned integer becomes a signed one if it fits. -/
theorem ofInteger_toNat (u : UInt64) : ofInteger u.toNat = (uint u).jsonForm := by
  rw [ofInteger, jsonForm]
  by_cases h : u.toNat < 0x8000000000000000
  · rw [if_pos h, if_pos (by omega), Int64.ofInt_eq_ofNat, ← UInt64.toInt64_ofNat',
      UInt64.ofNat_toNat]
  · rw [if_neg h, if_neg (by omega), Int.toNat_natCast, UInt64.ofNat_toNat]

/-! ## There and back -/

/-- A well-formed tree is the tree of its value. -/
theorem toJson_ofJson {j : Json} (h : j.WellFormed) : (ofJson j).toJson = j := by
  induction j using Json.nestedInduction with
  | plain j hj =>
    cases j with
    | null | bool | str => rfl
    | int i =>
      rw [Json.WellFormed] at h
      exact toJson_ofInteger h.1 h.2
    | double d =>
      rw [Json.WellFormed] at h
      rw [ofJson, toJson, if_pos h]
    | arr | obj => exact hj.elim
  | arr items ih =>
    rw [Json.wellFormed_arr_iff] at h
    have hitems : items.map (toJson ∘ ofJson) = items.map id :=
      List.map_congr_left fun j hj => ih j hj (h j hj)
    rw [ofJson_arr, toJson_array, List.map_map, hitems, List.map_id]
  | obj members ih =>
    obtain ⟨ascending, h⟩ := Json.wellFormed_obj_iff.mp h
    have hmembers : members.map (fun m => (m.1, (ofJson m.2).toJson)) = members.map id :=
      List.map_congr_left fun m hm => congrArg (Prod.mk m.1) (ih m hm (h m hm))
    rw [List.map_id] at hmembers
    rw [ofJson_obj, toJson_table, (ascending.map ofJson).canonical_eq, List.map_map]
    exact congrArg Json.obj hmembers

/-- The names in the value of a well-formed tree ascend in every table. -/
theorem namesAscend_ofJson {j : Json} (h : j.WellFormed) : (ofJson j).NamesAscend := by
  induction j using Json.nestedInduction with
  | plain j hj =>
    cases j with
    | null | bool | str | double => trivial
    | int i =>
      rw [ofJson, ofInteger]
      split <;> trivial
    | arr | obj => exact hj.elim
  | arr items ih =>
    rw [Json.wellFormed_arr_iff] at h
    rw [ofJson_arr, namesAscend_array_iff, List.forall_mem_map]
    exact fun j hj => ih j hj (h j hj)
  | obj members ih =>
    obtain ⟨ascending, h⟩ := Json.wellFormed_obj_iff.mp h
    rw [ofJson_obj, namesAscend_table_iff, List.forall_mem_map]
    exact ⟨ascending.map ofJson, fun m hm => ih m hm (h m hm)⟩

/-- The tree of a value is well formed. -/
theorem wellFormed_toJson (v : Value) : v.toJson.WellFormed := by
  induction v using nestedInduction with
  | plain v hv =>
    cases v with
    | null | bool | str | bytes => trivial
    | int i =>
      have low := i.le_toInt
      have high := i.toInt_lt
      rw [toJson, Json.WellFormed]
      omega
    | uint u =>
      have high := u.toNat_lt
      rw [toJson, Json.WellFormed]
      omega
    | double d =>
      rw [toJson]
      split
      · next h => exact h
      · trivial
    | table | array => exact hv.elim
  | table entries ih =>
    rw [toJson_table, Json.wellFormed_obj_iff, List.forall_mem_map]
    exact ⟨(ascending_canonical entries).map toJson, fun e he => ih e (mem_of_mem_canonical he)⟩
  | array items ih =>
    rw [toJson_array, Json.wellFormed_arr_iff, List.forall_mem_map]
    exact ih

/-- A value that is made a tree and read back is in its JSON form. -/
theorem ofJson_toJson (v : Value) : ofJson v.toJson = v.jsonForm := by
  induction v using nestedInduction with
  | plain v hv =>
    cases v with
    | null | bool | str | bytes => rfl
    | int i => exact ofInteger_toInt i
    | uint u => exact ofInteger_toNat u
    | double d =>
      rw [toJson, jsonForm]
      split <;> rfl
    | table | array => exact hv.elim
  | table entries ih =>
    rw [toJson_table, ofJson_obj, List.map_map, jsonForm_table]
    congr 1
    exact List.map_congr_left fun e he => congrArg (Prod.mk e.1) (ih e (mem_of_mem_canonical he))
  | array items ih =>
    rw [toJson_array, ofJson_arr, List.map_map, jsonForm, jsonFormItems_eq]
    congr 1
    exact List.map_congr_left ih

end Value

/-- A well-formed tree is the tree of its value, integers and the bits of doubles included, and the
names in the value ascend in every table. A value that is made a tree and read back is in its JSON
form, and the tree of that is the same tree, which is well formed. Texts are ordered as their octets
are. -/
theorem json_round_trip :
    (∀ j : Json, j.WellFormed → (Value.ofJson j).toJson = j ∧ (Value.ofJson j).NamesAscend) ∧
    (∀ v : Value, Value.ofJson v.toJson = v.jsonForm ∧ v.jsonForm.NamesAscend ∧
      v.jsonForm.toJson = v.toJson ∧ v.toJson.WellFormed) ∧
    ∀ s t : String, s < t ↔ Text.utf8 s < Text.utf8 t := by
  refine ⟨fun j h => ⟨Value.toJson_ofJson h, Value.namesAscend_ofJson h⟩, fun v => ?_,
    fun s t => Text.utf8_lt_iff.symm⟩
  have wf := Value.wellFormed_toJson v
  have form := Value.ofJson_toJson v
  refine ⟨form, ?_, ?_, wf⟩
  · rw [← form]
    exact Value.namesAscend_ofJson wf
  · rw [← form, Value.toJson_ofJson wf]

/-- The least and the greatest integer, a double and an empty name in nested containers are the same
after a way there and back. Of a value with a repeated name, no number, octets that are no text and
an unsigned integer that fits a signed one, only what JSON can say is left. -/
theorem json_round_trip_nested :
    let j : Json := .obj [("", .int 18446744073709551615),
      ("a", .arr [.obj [("x", .int (-9223372036854775808)), ("y", .double ⟨0x3FF8000000000000⟩)]])]
    let v : Value := .table [("b", .int 1), ("a", .double ⟨0x7FF8000000000000⟩),
      ("b", .array [.bytes [97, 255, 226, 130, 98], .uint 7, .uint 18446744073709551615])]
    let left : Value := .table [("a", .null),
      ("b", .array [.str "a\uFFFD\uFFFDb", .int 7, .uint 18446744073709551615])]
    (j.WellFormed ∧ (Value.ofJson j).toJson = j ∧ (Value.ofJson j).NamesAscend) ∧
      Value.ofJson v.toJson = left ∧ left.toJson = v.toJson ∧ left.NamesAscend := by
  intro j v left
  have outer : "" < "a" := by cbv
  have inner : "x" < "y" := by cbv
  have wf : j.WellFormed :=
    ⟨List.pairwise_pair.mpr outer, ⟨by decide, by decide⟩,
      ⟨⟨List.pairwise_pair.mpr inner, ⟨by decide, by decide⟩, rfl, trivial⟩, trivial⟩, trivial⟩
  have form : v.jsonForm = left := by cbv
  obtain ⟨back, ascend, again, -⟩ := json_round_trip.2.1 v
  rw [form] at back ascend again
  exact ⟨⟨wf, json_round_trip.1 j wf⟩, back, again, ascend⟩

end MicroBus

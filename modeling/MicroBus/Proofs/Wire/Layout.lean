import Mathlib.Algebra.Order.BigOperators.Group.List
import Mathlib.Algebra.Order.Group.Nat
import MicroBus.Proofs.Value.Nested
import MicroBus.Proofs.Wire.Draft

/-!
# The encoder writes the layout

A layout is as long as the sizes of its parts say, and a part is never longer than the whole. So
the length of an attribute is the only one that can be refused first among all the lengths inside
it, and a value is written exactly when its names, its nesting and its own size keep to the limits.
What is written then is the layout.
-/

namespace MicroBus

namespace Value

/-! ## Layouts of containers -/

theorem payloadsOfEntries_eq (entries : Entries) :
    payloadsOfEntries entries = entries.map fun e => (e.1, layout e.1 e.2) := by
  induction entries with
  | nil => rfl
  | cons e rest ih =>
    rw [payloadsOfEntries, ih, List.map_cons]
    rfl

theorem payloadOfItems_eq (items : List Value) :
    payloadOfItems items = (items.map (layout "")).flatten := by
  induction items with
  | nil => rfl
  | cons v rest ih =>
    rw [payloadOfItems, ih, List.map_cons, List.flatten_cons]
    rfl

/-- A table holds the layouts of its entries in the order of their names. -/
theorem payload_table (entries : Entries) : payload (.table entries) =
    ((sortByName entries).map fun e => layout e.1 e.2).flatten := by
  rw [payload, payloadsOfEntries_eq, sortByName_map, List.map_map]
  rfl

theorem payload_array (items : List Value) :
    payload (.array items) = (items.map (layout "")).flatten := by
  rw [payload, payloadOfItems_eq]

/-- The payload of a container is the layouts of what it holds. -/
theorem payload_of_container {v : Value} (h : ¬ v.IsPlain) :
    v.payload = (v.inside.map fun e => layout e.1 e.2).flatten := by
  cases v with
  | table entries => exact payload_table entries
  | array items =>
    rw [payload_array, inside, List.map_map]
    rfl
  | _ => exact (h trivial).elim

/-! ## Sizes -/

theorem sizeOfEntries_eq_sum (entries : Entries) :
    sizeOfEntries entries = (entries.map fun e => Bytes.align (sizeAs e.1 e.2)).sum := by
  induction entries with
  | nil => rfl
  | cons e rest ih =>
    rw [sizeOfEntries, ih, List.map_cons, List.sum_cons]
    rfl

/-- Entries with their filler take whole words. -/
theorem sizeOfEntries_mod (entries : Entries) : sizeOfEntries entries % 4 = 0 := by
  induction entries with
  | nil => rfl
  | cons e rest ih =>
    have := Bytes.align_mod (4 + Bytes.align (3 + e.1.utf8ByteSize) + payloadSize e.2)
    rw [sizeOfEntries]
    omega

/-- Items take as much as entries with the empty name. -/
theorem sizeOfItems_eq (items : List Value) :
    sizeOfItems items = sizeOfEntries (items.map fun v => ("", v)) := by
  induction items with
  | nil => rfl
  | cons v rest ih =>
    rw [sizeOfItems, ih, List.map_cons, sizeOfEntries]
    rfl

/-- A named value takes its size and the filler up to the next word boundary. -/
theorem length_layoutAround {name : String} {size : Nat} {payload : Bytes} (tag : Tag)
    (h : size = 4 + Bytes.align (3 + name.utf8ByteSize) + payload.length) :
    (layoutAround name tag size payload).length = Bytes.align size := by
  have hname := Bytes.le_align (3 + name.utf8ByteSize)
  have hsize := Bytes.le_align size
  simp only [layoutAround, List.length_append, Header.length_encode, Bytes.length_bigEndian,
    Text.length_utf8, List.length_singleton, Bytes.length_filler]
  omega

/-- A payload has as many octets as its size says. -/
@[simp] theorem length_payload (v : Value) : (payload v).length = payloadSize v := by
  induction v using nestedInduction with
  | plain v hv =>
    cases v with
    | null | bool => rfl
    | int | uint | double => rw [payload, Bytes.length_bigEndian, payloadSize]
    | str => rw [payload, List.length_append, Text.length_utf8, payloadSize, List.length_singleton]
    | bytes => rw [payload, List.length_append, payloadSize, List.length_singleton]
    | table | array => exact hv.elim
  | table entries ih =>
    have hp := (sortByName_perm entries).map fun e => Bytes.align (sizeAs e.1 e.2)
    rw [payload_table, List.length_flatten, List.map_map, payloadSize, sizeOfEntries_eq_sum,
      ← hp.sum_nat]
    congr 1
    apply List.map_congr_left
    intro e he
    exact length_layoutAround _ (by rw [ih e (mem_sortByName.mp he), sizeAs])
  | array items ih =>
    rw [payload_array, List.length_flatten, List.map_map, payloadSize, sizeOfItems_eq,
      sizeOfEntries_eq_sum, List.map_map]
    congr 1
    apply List.map_congr_left
    intro v hv
    exact length_layoutAround _ (by rw [ih v hv, sizeAs])

/-- A layout ends at the word boundary behind its size. -/
@[simp] theorem length_layout (name : String) (v : Value) :
    (layout name v).length = Bytes.align (sizeAs name v) :=
  length_layoutAround v.tag (by rw [length_payload, sizeAs])

/-- A layout is a named value around its payload. -/
theorem layout_eq (name : String) (v : Value) :
    layout name v = filledAround name v.tag v.payload := by
  rw [layout, filledAround, length_payload, sizeAs]

theorem payloadFits_payload {name : String} {v : Value} :
    PayloadFits name v.payload ↔ sizeAs name v ≤ Header.maxLength := by
  rw [PayloadFits, length_payload, sizeAs]

/-! ## Limits -/

/-- A named value that keeps to the limits of the format, with as many levels as may still be
opened. -/
structure Keeps (levels : Nat) (name : String) (v : Value) : Prop where
  /-- The name itself fits. -/
  name_fits : NameFits name
  /-- The names in the value fit. -/
  names_fit : NamesFit v
  /-- The value opens no more levels than there are. -/
  depth_lt : v.depth < levels
  /-- The size fits the length field. -/
  size_le : sizeAs name v ≤ Header.maxLength

theorem keeps_iff_encodable {name : String} {v : Value} :
    Keeps (maxDepth + 1) name v ↔ Encodable name v := by
  constructor
  · rintro ⟨name_fits, names_fit, depth_lt, size_le⟩
    exact ⟨name_fits, names_fit, Nat.le_of_lt_succ depth_lt, size_le⟩
  · rintro ⟨name_fits, names_fit, depth_le, size_le⟩
    exact ⟨name_fits, names_fit, Nat.lt_succ_of_le depth_le, size_le⟩

/-- The size of an entry is among the sizes that a table counts. -/
theorem sizeAs_le_sizeOfEntries {entries : Entries} {e : String × Value} (h : e ∈ entries) :
    sizeAs e.1 e.2 ≤ sizeOfEntries entries := by
  rw [sizeOfEntries_eq_sum]
  have hm := List.mem_map_of_mem (f := fun e : String × Value => Bytes.align (sizeAs e.1 e.2)) h
  exact Nat.le_trans (Bytes.le_align _) (List.single_le_sum (fun _ _ => Nat.zero_le _) _ hm)

/-- Entries that together fit the length field keep to the limits one by one exactly when their
names fit and none of them is nested too deep. -/
theorem keeps_entries_iff {levels : Nat} {entries : Entries}
    (h : sizeOfEntries entries ≤ Header.maxLength) : (∀ e ∈ entries, Keeps levels e.1 e.2) ↔
      NamesOfEntriesFit entries ∧ ∀ e ∈ entries, e.2.depth < levels := by
  rw [namesOfEntriesFit_iff]
  constructor
  · intro hk
    exact ⟨fun e he => ⟨(hk e he).name_fits, (hk e he).names_fit⟩, fun e he => (hk e he).depth_lt⟩
  · rintro ⟨names, depth⟩ e he
    exact ⟨(names e he).1, (names e he).2, depth e he, Nat.le_trans (sizeAs_le_sizeOfEntries he) h⟩

theorem keeps_items_iff {levels : Nat} {items : List Value}
    (h : sizeOfItems items ≤ Header.maxLength) : (∀ v ∈ items, Keeps levels "" v) ↔
      NamesOfItemsFit items ∧ ∀ v ∈ items, v.depth < levels := by
  rw [sizeOfItems_eq] at h
  have hk : (∀ e ∈ items.map fun v => ("", v), Keeps levels e.1 e.2) ↔ _ := keeps_entries_iff h
  rw [namesOfEntriesFit_iff] at hk
  simp only [List.forall_mem_map, nameFits_empty, true_and] at hk
  rwa [namesOfItemsFit_iff]

/-- A value whose payload fits the length field keeps to the limits exactly when all that it holds
does. -/
theorem keeps_inside_iff {levels : Nat} {v : Value} (h : v.payloadSize ≤ Header.maxLength) :
    (∀ e ∈ v.inside, Keeps levels e.1 e.2) ↔ v.NamesFit ∧ v.depth < levels + 1 := by
  cases v with
  | table entries =>
    rw [payloadSize] at h
    rw [NamesFit, depth, Nat.lt_succ_iff, depthOfEntries_le_iff, ← keeps_entries_iff h]
    simp only [inside, mem_sortByName]
  | array items =>
    rw [payloadSize] at h
    rw [NamesFit, depth, Nat.lt_succ_iff, depthOfItems_le_iff, ← keeps_items_iff h]
    simp only [inside, List.forall_mem_map]
  | _ => exact iff_of_true (by simp [inside]) ⟨trivial, Nat.succ_pos levels⟩

end Value

namespace Wire

open Value

/-- An attribute around the payload of its value is written exactly when the payload is, the name
fits and the size fits. -/
theorem wrap_payload_eq_ok_iff {name : String} {v : Value} {p : Draft} {b : Bytes} {limits : Prop}
    (hp : ∀ c, p.toExcept = .ok c ↔ limits ∧ c = v.payload) :
    (wrap name v.tag p).toExcept = .ok b ↔
      NameFits name ∧ limits ∧ sizeAs name v ≤ Header.maxLength ∧ b = layout name v := by
  rw [wrap_eq_ok_iff, layout_eq, ← payloadFits_payload]
  simp only [hp]
  constructor
  · rintro ⟨hn, c, ⟨hl, rfl⟩, hf, hb⟩
    exact ⟨hn, hl, hf, hb⟩
  · rintro ⟨hn, hl, hf, hb⟩
    exact ⟨hn, v.payload, ⟨hl, rfl⟩, hf, hb⟩

/-- If named values are written as their layouts within the limits, then so are several of them one
after another. -/
theorem toExcept_draftEach_eq_ok_iff {levels : Nat}
    (written : ∀ (name : String) (v : Value) {b : Bytes},
      (draft levels name v).toExcept = .ok b ↔ Keeps levels name v ∧ b = layout name v)
    {entries : Entries} {c : Bytes} : (draftEach levels entries).toExcept = .ok c ↔
      (∀ e ∈ entries, Keeps levels e.1 e.2) ∧
        c = (entries.map fun e => layout e.1 e.2).flatten := by
  have hm := mapM_eq_ok_iff_forall entries fun e _ _ => written e.1 e.2
  rw [toExcept_draftEach, map_eq_ok_iff]
  simp only [hm, and_assoc, exists_and_left, exists_eq_left, eq_comm (a := c)]

/-- A named value is written exactly when it keeps to the limits, and then as its layout. -/
theorem toExcept_draft_eq_ok_iff {levels : Nat} {name : String} {v : Value} {b : Bytes} :
    (draft levels name v).toExcept = .ok b ↔ Keeps levels name v ∧ b = layout name v := by
  induction levels generalizing name v b with
  | zero =>
    rw [draft]
    constructor
    · intro h
      cases h
    · rintro ⟨hk, -⟩
      exact absurd hk.depth_lt (Nat.not_lt_zero _)
  | succ levels ih =>
    obtain ⟨p, hd, hp⟩ : ∃ p, draft (levels + 1) name v = wrap name v.tag p ∧
        ∀ c, p.toExcept = .ok c ↔ (∀ e ∈ v.inside, Keeps levels e.1 e.2) ∧ c = v.payload := by
      by_cases plain : v.IsPlain
      · refine ⟨_, draft_of_plain levels name plain, fun c => ?_⟩
        rw [plain.inside_eq, eq_comm (a := c)]
        exact ⟨fun h => ⟨by simp, Except.ok.inj h⟩, fun h => congrArg Except.ok h.2⟩
      · refine ⟨_, draft_of_container levels name plain, fun c => ?_⟩
        rw [payload_of_container plain]
        exact toExcept_draftEach_eq_ok_iff fun _ _ => ih
    -- Whatever limits hold inside, the name and the size are added to them.
    have hsize : sizeAs name v ≤ Header.maxLength → v.payloadSize ≤ Header.maxLength :=
      Nat.le_trans (Nat.le_add_left _ _)
    rw [hd, wrap_payload_eq_ok_iff hp]
    constructor
    · rintro ⟨hn, inside, hs, hb⟩
      obtain ⟨names, depth⟩ := (keeps_inside_iff (hsize hs)).mp inside
      exact ⟨⟨hn, names, depth, hs⟩, hb⟩
    · rintro ⟨⟨hn, names, depth, hs⟩, hb⟩
      exact ⟨hn, (keeps_inside_iff (hsize hs)).mpr ⟨names, depth⟩, hs, hb⟩

theorem toExcept_entriesDraft_eq_ok_iff {entries : Entries} {c : Bytes} :
    (entriesDraft entries).toExcept = .ok c ↔
      (∀ e ∈ entries, Keeps (maxDepth + 1) e.1 e.2) ∧ c = payload (.table entries) := by
  rw [entriesDraft_eq, toExcept_draftEach_eq_ok_iff fun _ _ => toExcept_draft_eq_ok_iff,
    payload_table]
  simp only [mem_sortByName]

theorem toExcept_itemsDraft_eq_ok_iff {items : List Value} {c : Bytes} :
    (itemsDraft items).toExcept = .ok c ↔
      (∀ v ∈ items, Keeps (maxDepth + 1) "" v) ∧ c = payload (.array items) := by
  rw [itemsDraft_eq, toExcept_draftEach_eq_ok_iff fun _ _ => toExcept_draft_eq_ok_iff,
    payload_array, List.map_map]
  simp only [List.forall_mem_map, Function.comp_def]

end Wire

section Encode

open Value

theorem sealContainer_eq_ok_iff {c b : Bytes} : sealContainer c = .ok b ↔
    4 + c.length ≤ Header.maxLength ∧ b = Header.encode ⟨0, 4 + c.length, false⟩ ++ c := by
  have hs : sealContainer c = .ok b ↔
      ∃ h, Header.make 0 (4 + c.length) false = .ok h ∧ h.encode ++ c = b := by
    rw [sealContainer]
    cases Header.make 0 (4 + c.length) false <;> simp
  simp only [hs, Header.make_eq_ok_iff, and_assoc, exists_and_left, exists_eq_left,
    eq_comm (a := b)]

/-- A container is as long as its first word says. -/
theorem word_of_sealContainer {c b : Bytes} (h : sealContainer c = .ok b) :
    b.length = 4 + c.length ∧ Bytes.ofBigEndian (b.take 4) = 4 + c.length := by
  obtain ⟨hle, rfl⟩ := sealContainer_eq_ok_iff.mp h
  have hlt : 4 + c.length < 0x1000000 := Nat.lt_of_le_of_lt hle (by decide)
  refine ⟨by rw [List.length_append, Header.length_encode], ?_⟩
  rw [List.take_left' (Header.length_encode _), Header.encode_eq]
  simp only [Bool.false_eq_true, if_false, UInt8.toNat_zero, Nat.zero_mod, Nat.zero_mul,
    Nat.zero_add, Nat.mod_eq_of_lt hlt]
  exact Bytes.ofBigEndian_bigEndian_of_lt (by omega)

theorem encodeNamed_eq_ok_iff {name : String} {v : Value} {b : Bytes} :
    encodeNamed name v = .ok b ↔ Encodable name v ∧ b = layout name v := by
  rw [encodeNamed, Wire.toExcept_draft_eq_ok_iff, keeps_iff_encodable]

/-- Contents that are written within some limits of their own are sealed within these limits and
that of the length of them all. -/
theorem bind_sealContainer_eq_ok_iff {x : Except Fault Bytes} {good limits : Prop} {c b : Bytes}
    {size : Nat} (hx : ∀ d, x = .ok d ↔ good ∧ d = c) (hl : c.length = size)
    (hg : size ≤ Header.maxLength → (good ↔ limits)) :
    (x >>= sealContainer) = .ok b ↔ (limits ∧ 4 + size ≤ Header.maxLength) ∧
      b = Header.encode ⟨0, 4 + size, false⟩ ++ c := by
  obtain rfl := hl
  rw [bind_eq_ok_iff]
  simp only [hx, sealContainer_eq_ok_iff]
  constructor
  · rintro ⟨_, ⟨hgood, rfl⟩, hs, hb⟩
    exact ⟨⟨(hg (by omega)).mp hgood, hs⟩, hb⟩
  · rintro ⟨⟨hlimits, hs⟩, hb⟩
    exact ⟨c, ⟨(hg (by omega)).mpr hlimits, rfl⟩, hs, hb⟩

/-- The entries of a table that is not too long are written exactly if their names fit and none of
their values lies too deep. -/
theorem Wire.entriesDraft_eq_ok_iff {entries : Entries} {c : Bytes}
    (h : sizeOfEntries entries ≤ Header.maxLength) :
    (entriesDraft entries).toExcept = .ok c ↔
      (NamesOfEntriesFit entries ∧ ∀ e ∈ entries, e.2.depth ≤ maxDepth) ∧
        c = payload (.table entries) := by
  rw [toExcept_entriesDraft_eq_ok_iff, keeps_entries_iff h]
  simp only [Nat.lt_succ_iff]

/-- A table is written as a container exactly when its names fit, none of its values lies too deep
and its layout fits with the word in front. -/
theorem encodeTable_eq_ok_iff {entries : Entries} {b : Bytes} : encodeTable entries = .ok b ↔
    ((NamesOfEntriesFit entries ∧ ∀ e ∈ entries, e.2.depth ≤ maxDepth) ∧
      4 + sizeOfEntries entries ≤ Header.maxLength) ∧
    b = Header.encode ⟨0, 4 + sizeOfEntries entries, false⟩ ++ payload (.table entries) := by
  apply bind_sealContainer_eq_ok_iff
  · exact fun c => Wire.toExcept_entriesDraft_eq_ok_iff
  · rw [length_payload, payloadSize]
  · intro hs
    rw [keeps_entries_iff hs]
    simp only [Nat.lt_succ_iff]

theorem encodeArray_eq_ok_iff {items : List Value} {b : Bytes} : encodeArray items = .ok b ↔
    ((NamesOfItemsFit items ∧ ∀ v ∈ items, v.depth ≤ maxDepth) ∧
      4 + sizeOfItems items ≤ Header.maxLength) ∧
    b = Header.encode ⟨0, 4 + sizeOfItems items, false⟩ ++ payload (.array items) := by
  apply bind_sealContainer_eq_ok_iff
  · exact fun c => Wire.toExcept_itemsDraft_eq_ok_iff
  · rw [length_payload, payloadSize]
  · intro hs
    rw [keeps_items_iff hs]
    simp only [Nat.lt_succ_iff]

end Encode

end MicroBus

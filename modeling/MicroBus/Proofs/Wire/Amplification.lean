import MicroBus.Proofs.Attribute.Extent
import MicroBus.Proofs.Value.Order
import MicroBus.Proofs.Wire.Payload
import MicroBus.Proofs.Wire.Reading

/-!
# What is read is no larger than what was sent

Every value takes a word of its own, and text takes its octets. The attributes of a container
lie in it side by side and each value lies in one of them, so the values and the texts that are
read, at all levels together, take no more than the octets at hand.
-/

namespace MicroBus

namespace Value

/-- A word for each value in a value, and the octets of its texts. -/
def weight (v : Value) : Nat := 4 * v.count + v.octets

theorem sum_weight_entries (entries : Entries) :
    (entries.map fun e => e.2.weight).sum = 4 * countEntries entries + octetsOfEntries entries := by
  induction entries with
  | nil => rfl
  | cons e rest ih =>
    rw [List.map_cons, List.sum_cons, ih, countEntries, octetsOfEntries, weight]
    omega

theorem sum_weight_items (items : List Value) :
    (items.map weight).sum = 4 * countItems items + octetsOfItems items := by
  induction items with
  | nil => rfl
  | cons v rest ih =>
    rw [List.map_cons, List.sum_cons, ih, countItems, octetsOfItems, weight]
    omega

@[simp] theorem weight_str (s : String) : (str s).weight = 4 + s.utf8ByteSize := rfl

@[simp] theorem weight_bytes (b : Bytes) : (bytes b).weight = 4 + b.length := rfl

/-- A table weighs a word more than what is in it. -/
theorem weight_table (entries : Entries) :
    (table entries).weight = 4 + (entries.map fun e => e.2.weight).sum := by
  rw [weight, count, octets, sum_weight_entries]
  omega

theorem weight_array (items : List Value) :
    (array items).weight = 4 + (items.map weight).sum := by
  rw [weight, count, octets, sum_weight_items]
  omega

/-- A value that opens fewer containers than there are levels, and weighs no more than the room
it was given. -/
structure Bounded (levels room : Nat) (v : Value) : Prop where
  /-- The depth. -/
  depth_lt : v.depth < levels
  /-- The weight. -/
  weight_le : v.weight ≤ room

end Value

namespace Wire

/-- A reader whose values have room in the payload and its word. -/
def Frugal (levels : Nat) (read : UInt8 → Bytes → Except Fault Value) : Prop :=
  ∀ code data v, read code data = .ok v → v.Bounded levels (4 + data.length)

/-- Entries with room in the attributes of a run have room in the run together. -/
theorem bounded_of_forall₂ {levels : Nat} {b : Bytes} {entries : Entries}
    (h : List.Forall₂ (fun a e => e.2.Bounded levels a.extent) (walk b).attributes entries) :
    (∀ e ∈ entries, e.2.depth < levels) ∧ (entries.map fun e => e.2.weight).sum ≤ b.length := by
  constructor
  · intro e he
    obtain ⟨a, ha⟩ := exists_of_forall₂ h.flip e he
    exact ha.depth_lt
  · refine Nat.le_trans (List.Forall₂.sum_le_sum ?_) (extent_walk_le b)
    rw [List.forall₂_map_left_iff, List.forall₂_map_right_iff]
    exact h.flip.imp fun _ _ he => he.weight_le

theorem bounded_items_of_forall₂ {levels : Nat} {b : Bytes} {items : List Value}
    (h : List.Forall₂ (fun a v => v.Bounded levels a.extent) (walk b).attributes items) :
    (∀ v ∈ items, v.depth < levels) ∧ (items.map Value.weight).sum ≤ b.length := by
  have hentries : List.Forall₂ (fun a (e : String × Value) => e.2.Bounded levels a.extent)
      (walk b).attributes (items.map fun v => ("", v)) := List.forall₂_map_right_iff.mpr h
  obtain ⟨depth, weight⟩ := bounded_of_forall₂ hentries
  rw [List.forall_mem_map] at depth
  rw [List.map_map] at weight
  exact ⟨depth, weight⟩

/-- The entries of a run together have room in it. -/
theorem Frugal.entriesOf {levels : Nat} {read : UInt8 → Bytes → Except Fault Value}
    (hr : Frugal levels read) {b : Bytes} {entries : Entries}
    (h : entriesOf read b = .ok entries) :
    (∀ e ∈ entries, e.2.depth < levels) ∧ (entries.map fun e => e.2.weight).sum ≤ b.length :=
  bounded_of_forall₂ <| (entriesOf_eq_ok_iff.mp h).2.imp fun _ e he => hr _ _ e.2 he.2

/-- The items of a run together have room in it. -/
theorem Frugal.itemsOf {levels : Nat} {read : UInt8 → Bytes → Except Fault Value}
    (hr : Frugal levels read) {b : Bytes} {items : List Value} (h : itemsOf read b = .ok items) :
    (∀ v ∈ items, v.depth < levels) ∧ (items.map Value.weight).sum ≤ b.length :=
  bounded_items_of_forall₂ <| (itemsOf_eq_ok_iff.mp h).2.imp fun _ v => hr _ _ v

theorem bounded_text (levels : Nat) (data : Bytes) :
    (text data).Bounded (levels + 1) (4 + data.length) := by
  have hfront := length_dropFront_le data
  have hend := length_trimEnd_le (dropFront data)
  rw [text]
  cases hu : Text.ofUtf8? (Bytes.trimEnd (dropFront data)) with
  | some s =>
    refine ⟨Nat.succ_pos levels, ?_⟩
    simp only [Value.weight_str, ← Text.length_utf8, Text.utf8_of_ofUtf8? hu]
    omega
  | none =>
    refine ⟨Nat.succ_pos levels, ?_⟩
    simp only [Value.weight_bytes]
    omega

/-- A value without inner ones and without text weighs a word. -/
theorem bounded_scalar {v : Value} (levels : Nat) (data : Bytes) (count : v.count = 1)
    (octets : v.octets = 0) (depth : v.depth = 0) :
    v.Bounded (levels + 1) (4 + data.length) := by
  refine ⟨by omega, ?_⟩
  rw [Value.weight, count, octets]
  omega

/-- Whatever a payload is read as has room in it, with a word for the value itself. -/
theorem frugal_value (levels : Nat) : Frugal levels (value levels) := by
  intro code data v h
  refine value_induction (motive := fun levels data v => v.Bounded levels (4 + data.length))
    ?null ?int ?double ?text ?table ?array h
  case null => exact fun levels data => bounded_scalar levels data rfl rfl rfl
  case int => exact fun levels data _ _ => bounded_scalar levels data rfl rfl rfl
  case double => exact fun levels data _ _ => bounded_scalar levels data rfl rfl rfl
  case text => exact bounded_text
  case table =>
    intro levels data entries h
    obtain ⟨depth, weight⟩ := bounded_of_forall₂ (h.imp fun a e he => he.2)
    refine ⟨?_, ?_⟩
    · rw [Value.depth]
      exact Nat.lt_succ_of_le (Value.depthOfEntries_le_iff.mpr depth)
    · rw [Value.weight_table]
      exact Nat.add_le_add_left weight 4
  case array =>
    intro levels data items h
    obtain ⟨depth, weight⟩ := bounded_items_of_forall₂ h
    refine ⟨?_, ?_⟩
    · rw [Value.depth]
      exact Nat.lt_succ_of_le (Value.depthOfItems_le_iff.mpr depth)
    · rw [Value.weight_array]
      exact Nat.add_le_add_left weight 4

end Wire

/-- The entries of a table that was read open no more containers than allowed, and have room in
the octets behind the word of the table. -/
theorem decodeTable_bounded {b : Bytes} {entries : Entries} (h : decodeTable b = .ok entries) :
    (∀ e ∈ entries, e.2.depth ≤ maxDepth) ∧
      4 * Value.countEntries entries + Value.octetsOfEntries entries ≤ b.length := by
  obtain ⟨inside, hc, he⟩ := bind_eq_ok_iff.mp h
  have hle := Wire.length_contents_add_le hc
  obtain ⟨depth, weight⟩ := (Wire.frugal_value (maxDepth + 1)).entriesOf he
  rw [Value.sum_weight_entries] at weight
  exact ⟨fun e he => Nat.le_of_lt_succ (depth e he), by omega⟩

theorem decodeArray_bounded {b : Bytes} {items : List Value} (h : decodeArray b = .ok items) :
    (∀ v ∈ items, v.depth ≤ maxDepth) ∧
      4 * Value.countItems items + Value.octetsOfItems items ≤ b.length := by
  obtain ⟨inside, hc, hi⟩ := bind_eq_ok_iff.mp h
  have hle := Wire.length_contents_add_le hc
  obtain ⟨depth, weight⟩ := (Wire.frugal_value (maxDepth + 1)).itemsOf hi
  rw [Value.sum_weight_items] at weight
  exact ⟨fun v hv => Nat.le_of_lt_succ (depth v hv), by omega⟩

theorem decodeNamed_bounded {b : Bytes} {name : String} {v : Value}
    (h : decodeNamed b = .ok (name, v)) :
    v.depth ≤ maxDepth ∧ 4 * v.count + v.octets ≤ b.length := by
  unfold decodeNamed at h
  split at h
  · next a ha =>
    have hm := List.mem_of_getElem? ((Cursor.report_start b 0).symm.trans ha)
    have hle := extent_le_of_mem (Walk.ok_mem_items.mp hm)
    obtain ⟨depth, weight⟩ := Wire.frugal_value (maxDepth + 1) _ _ _ (Wire.entry_eq_ok_iff.mp h).2
    exact ⟨Nat.le_of_lt_succ depth, Nat.le_trans weight hle⟩
  · cases h
  · cases h

end MicroBus

import MicroBus.Proofs.Value.Order
import MicroBus.Proofs.Wire.Payload

/-!
# Reading layouts with filler

The layout of a named value spells one attribute, with its name and its payload. So a layout
of entries, however many zero words were put in, consists of one segment for each entry beside
the zero words, and reading these segments gives what arrives of the entries.
-/

namespace MicroBus

namespace Value

theorem namesOfEntriesFit_iff {entries : Entries} :
    NamesOfEntriesFit entries ↔ ∀ e ∈ entries, NameFits e.1 ∧ NamesFit e.2 := by
  induction entries with
  | nil => simp [NamesOfEntriesFit]
  | cons e rest ih => rw [NamesOfEntriesFit, ih, List.forall_mem_cons, and_assoc]

theorem namesOfItemsFit_iff {items : List Value} :
    NamesOfItemsFit items ↔ ∀ v ∈ items, NamesFit v := by
  induction items with
  | nil => simp [NamesOfItemsFit]
  | cons v rest ih => rw [NamesOfItemsFit, ih, List.forall_mem_cons]

theorem nameFits_empty : NameFits "" := Nat.zero_le _

theorem namesOfEntriesFit_sortByName {entries : Entries} :
    NamesOfEntriesFit (sortByName entries) ↔ NamesOfEntriesFit entries := by
  simp only [namesOfEntriesFit_iff, mem_sortByName]

/-- Items are entries with the empty name. -/
theorem namesOfEntriesFit_items {items : List Value} :
    NamesOfEntriesFit (items.map fun v => ("", v)) ↔ NamesOfItemsFit items := by
  simp only [namesOfEntriesFit_iff, namesOfItemsFit_iff, List.forall_mem_map, nameFits_empty,
    true_and]

/-- A named value around a payload is one attribute with its filler. -/
theorem spells_filledAround {name : String} {payload : Bytes} (tag : Tag) (hn : NameFits name)
    (hp : PayloadFits name payload) :
    ∃ octets gap, filledAround name tag payload = octets ++ gap ∧
      Attribute.Spells octets ⟨tag.code, some (Text.utf8 name), payload⟩ ∧
      octets.length + gap.length = Bytes.align octets.length := by
  have hl := Text.length_utf8 name
  have hal := Bytes.le_align (3 + name.utf8ByteSize)
  have hid : tag.code.toNat < 0x80 := by cases tag <;> decide
  have hin := Attribute.Inside.named (Text.utf8 name)
    (Bytes.filler (3 + name.utf8ByteSize) ++ payload) (by rw [hl]; exact Nat.lt_succ_of_le hn)
  -- The name, its terminator and its filler end at the word boundary behind them.
  obtain ⟨head, happ, hhead⟩ : ∃ head : Bytes,
      Bytes.bigEndian 2 (Text.utf8 name).length ++ Text.utf8 name ++
        0 :: (Bytes.filler (3 + name.utf8ByteSize) ++ payload) = head ++ payload ∧
      head.length = Bytes.align (3 + name.utf8ByteSize) := by
    refine ⟨Bytes.bigEndian 2 (Text.utf8 name).length ++ Text.utf8 name ++
      0 :: Bytes.filler (3 + name.utf8ByteSize), by simp, ?_⟩
    simp only [List.length_append, List.length_cons, Bytes.length_bigEndian, Bytes.length_filler,
      hl]
    omega
  have hd : (head ++ payload).drop (Bytes.align (2 + (Text.utf8 name).length + 1)) = payload := by
    rw [hl, show 2 + name.utf8ByteSize + 1 = 3 + name.utf8ByteSize by omega]
    exact List.drop_left' hhead
  rw [happ, hd] at hin
  generalize hi : head ++ payload = inside at happ hin
  have hs : 4 + Bytes.align (3 + name.utf8ByteSize) + payload.length = 4 + inside.length := by
    rw [← hi, List.length_append, hhead, Nat.add_assoc]
  rw [PayloadFits, hs] at hp
  refine ⟨Header.encode ⟨tag.code, 4 + inside.length, true⟩ ++ inside,
    Bytes.filler (4 + inside.length), ?_, Attribute.spells_encode hid hp hin, ?_⟩
  · rw [filledAround, hs, layoutAround, ← happ, hl]
    simp only [List.append_assoc, List.cons_append, List.nil_append]
  · have hsize := Bytes.le_align (4 + inside.length)
    rw [List.length_append, Header.length_encode, Bytes.length_filler]
    omega

end Value

namespace Wire

/-- Octets that are segments whatever follows them, and are read as these entries. -/
def ReadAs (levels : Nat) (b : Bytes) (entries : Entries) : Prop :=
  ∃ attributes, (∀ rest, Segments (b ++ rest) attributes rest) ∧
    attributes.mapM (entry (value levels)) = .ok entries

theorem ReadAs.nil (levels : Nat) : ReadAs levels [] [] := ⟨[], .done, rfl⟩

theorem ReadAs.word {levels : Nat} {b : Bytes} {entries : Entries} (h : ReadAs levels b entries) :
    ReadAs levels (Bytes.zeroWord ++ b) entries := by
  obtain ⟨attributes, hs, hr⟩ := h
  exact ⟨attributes, fun rest => .filler (hs rest), hr⟩

/-- A named value whose payload is read is read in front of entries. -/
theorem ReadAs.cons {levels : Nat} {name : String} {tag : Tag} {payload b : Bytes} {v : Value}
    {entries : Entries} (hn : Value.NameFits name) (hp : Value.PayloadFits name payload)
    (hv : value levels tag.code payload = .ok v) (h : ReadAs levels b entries) :
    ReadAs levels (Value.filledAround name tag payload ++ b) ((name, v) :: entries) := by
  obtain ⟨attributes, hs, hr⟩ := h
  obtain ⟨octets, gap, ho, spelled, aligned⟩ := Value.spells_filledAround tag hn hp
  refine ⟨⟨tag.code, some (Text.utf8 name), payload⟩ :: attributes, fun rest => ?_, ?_⟩
  · rw [ho, List.append_assoc]
    exact .padded spelled aligned (hs rest)
  · rw [mapM_eq_ok_iff, List.forall₂_cons]
    exact ⟨entry_eq_ok_iff.mpr ⟨Text.ofUtf8Repaired_utf8 name, hv⟩, mapM_eq_ok_iff.mp hr⟩

theorem ReadAs.entriesOf_eq {levels : Nat} {b : Bytes} {entries : Entries}
    (h : ReadAs levels b entries) : entriesOf (value levels) b = .ok entries := by
  obtain ⟨attributes, hs, hr⟩ := h
  have hb := hs []
  rw [List.append_nil] at hb
  rw [entriesOf_eq_of_run ⟨[], hb, by simp, by simp⟩, hr]

theorem ReadAs.itemsOf_eq {levels : Nat} {b : Bytes} {entries : Entries}
    (h : ReadAs levels b entries) : itemsOf (value levels) b = .ok (entries.map Prod.snd) := by
  rw [Wire.itemsOf_eq, h.entriesOf_eq]
  rfl

end Wire

/-- The payload of a scalar always fits behind a name that fits. -/
theorem Value.IsScalar.payloadFits {v : Value} (h : v.IsScalar) {name : String}
    (hn : NameFits name) : PayloadFits name v.payload := by
  have hl : v.payload.length ≤ 8 := by
    cases v with
    | null | bool | double => simp [payload]
    | int | uint =>
      rw [payload, Bytes.length_bigEndian, payloadSize]
      split <;> decide
    | _ => exact h.elim
  have hal := Bytes.align_lt (3 + name.utf8ByteSize)
  unfold NameFits at hn
  unfold PayloadFits Header.maxLength
  omega

/-- What a layout holds is what is read of it, however many zero words were put in. -/
theorem Filled.readAs {entries : Entries} {b : Bytes} (h : Filled entries b) {levels : Nat}
    (names : Value.NamesOfEntriesFit entries) (depth : Value.depthOfEntries entries ≤ levels) :
    Wire.ReadAs levels b (Value.receivedEntries entries) := by
  induction h generalizing levels with
  | nil => exact .nil levels
  | word rest ih => exact (ih names depth).word
  | @scalar name v entries b hv rest ih =>
    rw [Value.depthOfEntries, Nat.max_le] at depth
    obtain ⟨inner, rfl⟩ : ∃ inner, levels = inner + 1 := ⟨levels - 1, by omega⟩
    exact .cons names.1 (hv.payloadFits names.1) (Wire.value_scalar hv inner)
      (ih names.2.2 depth.2)
  | @text name v entries b words hv fits rest ih =>
    rw [Value.depthOfEntries, Nat.max_le] at depth
    obtain ⟨inner, rfl⟩ : ∃ inner, levels = inner + 1 := ⟨levels - 1, by omega⟩
    exact .cons names.1 fits (Wire.value_text hv inner words) (ih names.2.2 depth.2)
  | @table name inner entries payload b inside fits rest ihInside ih =>
    rw [Value.depthOfEntries, Nat.max_le] at depth
    obtain ⟨levels, rfl⟩ : ∃ n, levels = n + 1 := ⟨levels - 1, by omega⟩
    have hi : Wire.ReadAs levels payload (Value.receivedEntries (sortByName inner)) := by
      apply ihInside (Value.namesOfEntriesFit_sortByName.mpr names.2.1)
      have := depth.1
      rw [Value.depth] at this
      rw [Value.depthOfEntries_sortByName]
      omega
    have hv : Wire.value (levels + 1) Tag.table.code payload =
        .ok (Value.table inner).received := by
      rw [Wire.value_code, Value.received, ← Value.receivedEntries_sortByName]
      simp only [hi.entriesOf_eq]
      rfl
    exact .cons names.1 fits hv (ih names.2.2 depth.2)
  | @array name items entries payload b inside fits rest ihInside ih =>
    rw [Value.depthOfEntries, Nat.max_le] at depth
    obtain ⟨levels, rfl⟩ : ∃ n, levels = n + 1 := ⟨levels - 1, by omega⟩
    have hi : Wire.ReadAs levels payload
        (Value.receivedEntries (items.map fun v => ("", v))) := by
      apply ihInside (Value.namesOfEntriesFit_items.mpr names.2.1)
      have := depth.1
      rw [Value.depth] at this
      rw [Value.depthOfEntries_items]
      omega
    have hv : Wire.value (levels + 1) Tag.array.code payload =
        .ok (Value.array items).received := by
      rw [Wire.value_code, Value.received, Value.receivedItems_eq, ← Value.receivedEntries_items]
      simp only [hi.itemsOf_eq]
      rfl
    exact .cons names.1 fits hv (ih names.2.2 depth.2)

end MicroBus

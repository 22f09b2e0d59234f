import MicroBus.Proofs.Wire.Layout
import MicroBus.Proofs.Wire.RoundTrip

/-!
# Filler is not seen

Zero words may stand between the attributes of any container and in front of the octets of any
text. The encoder puts none there, but a decoder passes over them: what it makes of a layout does
not depend on how many zero words were put in, at any depth.
-/

namespace MicroBus

open Value

/-! ## What is read of a filled layout -/

namespace Filled

variable {filled : Bytes}

/-- A filled named value is read as what arrives of it, whatever octets follow. -/
theorem decodeNamed_eq {name : String} {v : Value} (h : Filled [(name, v)] filled)
    (name_fits : NameFits name) (names_fit : v.NamesFit) (depth_le : v.depth ≤ maxDepth)
    (suffix : Bytes) : decodeNamed (filled ++ suffix) = .ok (name, v.received) := by
  have depth : depthOfEntries [(name, v)] ≤ maxDepth + 1 := by
    rw [depthOfEntries_le_iff, List.forall_mem_singleton]
    exact Nat.lt_succ_of_le depth_le
  exact (h.readAs ⟨name_fits, names_fit, trivial⟩ depth).decodeNamed_eq suffix

section Sealed

variable {contents : Bytes} (sealed : sealContainer contents = .ok filled)

include sealed

/-- The filled entries of a table are read as what arrives of them, in the order of their names. -/
theorem decodeTable_eq {entries : Entries} (h : Filled (sortByName entries) contents)
    (names : NamesOfEntriesFit entries) (depth : ∀ e ∈ entries, e.2.depth ≤ maxDepth)
    (suffix : Bytes) :
    decodeTable (filled ++ suffix) = .ok (sortByName (receivedEntries entries)) := by
  have hdepth : depthOfEntries (sortByName entries) ≤ maxDepth + 1 := by
    rw [depthOfEntries_sortByName, depthOfEntries_le_iff]
    exact fun e he => Nat.lt_succ_of_le (depth e he)
  rw [decodeTable, Wire.contents_of_seal sealed, ← receivedEntries_sortByName]
  exact (h.readAs (namesOfEntriesFit_sortByName.mpr names) hdepth).entriesOf_eq

/-- The filled items of an array are read as what arrives of them. -/
theorem decodeArray_eq {items : List Value} (h : Filled (items.map fun v => ("", v)) contents)
    (names : NamesOfItemsFit items) (depth : ∀ v ∈ items, v.depth ≤ maxDepth)
    (suffix : Bytes) : decodeArray (filled ++ suffix) = .ok (items.map received) := by
  have hdepth : depthOfEntries (items.map fun v => ("", v)) ≤ maxDepth + 1 := by
    rw [depthOfEntries_items, depthOfItems_le_iff]
    exact fun v hv => Nat.lt_succ_of_le (depth v hv)
  rw [decodeArray, Wire.contents_of_seal sealed, ← receivedEntries_items]
  exact (h.readAs (namesOfEntriesFit_items.mpr names) hdepth).itemsOf_eq

end Sealed

end Filled

/-! ## What is written is a filled layout -/

theorem filled_of_encodeNamed {name : String} {v : Value} {plain : Bytes}
    (h : encodeNamed name v = .ok plain) : Filled [(name, v)] plain := by
  have hw := (Wire.written_of_draft h).filled .nil
  rwa [List.append_nil] at hw

theorem filled_of_encodeTable {entries : Entries} {plain : Bytes}
    (h : encodeTable entries = .ok plain) :
    ∃ contents, Filled (sortByName entries) contents ∧ sealContainer contents = .ok plain := by
  obtain ⟨c, hc, sealed⟩ := bind_eq_ok_iff.mp h
  rw [Wire.entriesDraft_eq] at hc
  exact ⟨c, Wire.filled_of_draftEach hc, sealed⟩

theorem filled_of_encodeArray {items : List Value} {plain : Bytes}
    (h : encodeArray items = .ok plain) : ∃ contents,
      Filled (items.map fun v => ("", v)) contents ∧ sealContainer contents = .ok plain := by
  obtain ⟨c, hc, sealed⟩ := bind_eq_ok_iff.mp h
  rw [Wire.itemsDraft_eq] at hc
  exact ⟨c, Wire.filled_of_draftEach hc, sealed⟩

/-- Octets that are decoded to one result whatever follows them are decoded alike. -/
theorem decoded_alike {α : Type} {decode : Bytes → Except Fault α} {filled plain : Bytes} {a : α}
    (h : ∀ suffix, decode (filled ++ suffix) = .ok a)
    (k : ∀ suffix, decode (plain ++ suffix) = .ok a) (suffix : Bytes) :
    decode (filled ++ suffix) = decode plain ∧ decode plain = .ok a := by
  have hplain := k []
  rw [List.append_nil] at hplain
  exact ⟨(h suffix).trans hplain.symm, hplain⟩

/-- However many zero words are put into what is written of a value, of a table or of an array, in
front of, between and behind the attributes of any container and in front of any text, with the
lengths counting them: whatever octets follow, it is decoded as it is without them, to what arrives
of the value, the entries or the items. -/
theorem filler_unseen (suffix : Bytes) :
    (∀ name v plain filled, encodeNamed name v = .ok plain → Filled [(name, v)] filled →
      decodeNamed (filled ++ suffix) = decodeNamed plain ∧
        decodeNamed plain = .ok (name, v.received)) ∧
    (∀ entries plain contents filled, encodeTable entries = .ok plain →
      Filled (sortByName entries) contents → sealContainer contents = .ok filled →
      decodeTable (filled ++ suffix) = decodeTable plain ∧
        decodeTable plain = .ok (sortByName (receivedEntries entries))) ∧
    ∀ items plain contents filled, encodeArray items = .ok plain →
      Filled (items.map fun v => ("", v)) contents → sealContainer contents = .ok filled →
      decodeArray (filled ++ suffix) = decodeArray plain ∧
        decodeArray plain = .ok (items.map received) := by
  refine ⟨?_, ?_, ?_⟩
  · intro name v plain filled written h
    obtain ⟨⟨name_fits, names_fit, depth_le, -⟩, -⟩ := encodeNamed_eq_ok_iff.mp written
    have without := filled_of_encodeNamed written
    exact decoded_alike (h.decodeNamed_eq name_fits names_fit depth_le)
      (without.decodeNamed_eq name_fits names_fit depth_le) suffix
  · intro entries plain contents filled written h sealed
    obtain ⟨⟨⟨names, depth⟩, -⟩, -⟩ := encodeTable_eq_ok_iff.mp written
    obtain ⟨inside, without, hplain⟩ := filled_of_encodeTable written
    exact decoded_alike (h.decodeTable_eq sealed names depth)
      (without.decodeTable_eq hplain names depth) suffix
  · intro items plain contents filled written h sealed
    obtain ⟨⟨⟨names, depth⟩, -⟩, -⟩ := encodeArray_eq_ok_iff.mp written
    obtain ⟨inside, without, hplain⟩ := filled_of_encodeArray written
    exact decoded_alike (h.decodeArray_eq sealed names depth)
      (without.decodeArray_eq hplain names depth) suffix

/-- Zero words around a table and inside it, around the items of an array in it, and in front of a
text and of an empty text. -/
theorem filler_unseen_nested :
    let contents : Bytes :=
      [0, 0, 0, 0, 135, 0, 0, 9, 0, 0, 0, 0, 1, 0, 0, 0, 131, 0, 0, 14, 0, 0, 0, 0, 0, 0, 0, 0, 120,
        0, 0, 0, 0, 0, 0, 0]
    let inside : Bytes :=
      [129, 0, 0, 44, 0, 1, 97, 0, 0, 0, 0, 0, 135, 0, 0, 9, 0, 0, 0, 0, 1, 0, 0, 0, 131, 0, 0, 14,
        0, 0, 0, 0, 0, 0, 0, 0, 120, 0, 0, 0, 0, 0, 0, 0, 0, 0, 0, 0, 131, 0, 0, 17, 0, 1, 98, 0, 0,
        0, 0, 0, 0, 0, 0, 0, 0, 0, 0, 0]
    let whole : Bytes := Bytes.zeroWord ++ [130, 0, 0, 76, 0, 1, 116, 0] ++ inside ++ Bytes.zeroWord
    decodeNamed (whole ++ [7]) =
      .ok ("t", .table [("a", .array [.int 1, .str "x"]), ("b", .str "")]) ∧
    decodeTable ([0, 0, 0, 72] ++ inside ++ [7]) =
      .ok [("a", .array [.int 1, .str "x"]), ("b", .str "")] ∧
    decodeArray ([0, 0, 0, 40] ++ contents ++ [7]) = .ok [.int 1, .str "x"] := by
  intro contents inside whole
  let items : List Value := [.bool true, .str "x"]
  let entries : Entries := [("b", .str ""), ("a", .array items)]
  have hsort : sortByName entries = [("a", .array items), ("b", .str "")] := by cbv
  have fits {name : String} {payload : Bytes} (h : 4 + Bytes.align (3 + name.utf8ByteSize) +
      payload.length ≤ Header.maxLength) : PayloadFits name payload := h
  obtain ⟨_, hitems, rfl⟩ : ∃ b, Filled (items.map fun v => ("", v)) b ∧ b = contents :=
    ⟨_, .word (.scalar trivial (.text 1 trivial (fits (by decide)) (.word .nil))), by cbv⟩
  have hempty : Filled [("b", .str "")] _ := .text 2 trivial (fits (by decide)) .nil
  obtain ⟨_, hentries, rfl⟩ : ∃ b, Filled [("a", .array items), ("b", .str "")] b ∧ b = inside :=
    ⟨_, .array hitems (fits (by decide)) (.word hempty), by cbv⟩
  rw [← hsort] at hentries
  obtain ⟨_, hwhole, rfl⟩ : ∃ b, Filled [("t", .table entries)] b ∧ b = whole :=
    ⟨_, .word (.table hentries (fits (by decide)) (.word .nil)), by cbv⟩
  obtain ⟨named, table, array⟩ := filler_unseen [7]
  have hnamed := named "t" (.table entries) _ _ (by cbv) hwhole
  have htable := table entries _ _ ([0, 0, 0, 72] ++ inside) (by cbv) hentries (by cbv)
  have harray := array items _ _ ([0, 0, 0, 40] ++ contents) (by cbv) hitems (by cbv)
  rw [hnamed.1, hnamed.2, htable.1, htable.2, harray.1, harray.2]
  refine ⟨?_, ?_, ?_⟩
  · cbv
  · cbv
  · cbv

end MicroBus

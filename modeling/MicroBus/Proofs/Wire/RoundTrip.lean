import Mathlib
import MicroBus.Proofs.Wire.Draft
import MicroBus.Wire.Decode

/-!
# What was written is read back

A named value and a container are written as octets of a known length, so whatever follows them
is left alone. What is read of them is what arrives of the value, at any nesting that the
encoder accepts.
-/

namespace MicroBus

namespace Wire

/-- The contents of a sealed container are found again, whatever follows it. -/
theorem contents_of_seal {c b : Bytes} (h : sealContainer c = .ok b) (suffix : Bytes) :
    contents (b ++ suffix) = .ok c := by
  rw [sealContainer, Header.make] at h
  by_cases hl : Header.maxLength < 4 + c.length
  · rw [if_pos hl] at h
    cases h
  · rw [if_neg hl] at h
    obtain rfl := Except.ok.inj h
    have hh : Header.parse (Header.encode ⟨0, 4 + c.length, false⟩ ++ (c ++ suffix)) =
        .ok ⟨0, 4 + c.length, false⟩ := by
      apply Header.parse_encode false (by decide) (Nat.le_add_right 4 _) (Nat.le_of_not_lt hl)
      rw [List.length_append]
      omega
    have hd : (Header.encode ⟨0, 4 + c.length, false⟩ ++ (c ++ suffix)).drop 4 = c ++ suffix :=
      List.drop_left' (Header.length_encode _)
    rw [List.append_assoc, contents, hh]
    simp only [bind, Except.bind, hd, Nat.add_sub_cancel_left, List.take_left]

/-- Written entries of a container are read in the order in which they were written. -/
theorem ReadAs.of_written {entries : Entries} {bs : List Bytes}
    (h : List.Forall₂ (fun e b => Written (maxDepth + 1) e.1 e.2 b) entries bs) :
    ReadAs (maxDepth + 1) bs.flatten (Value.receivedEntries entries) := by
  obtain ⟨names, depth⟩ := Written.limits (exists_of_forall₂ h)
  exact (filled_flatten h).readAs names depth

theorem ReadAs.of_draftEach {entries : Entries} {c : Bytes}
    (h : (draftEach (maxDepth + 1) entries).toExcept = .ok c) :
    ReadAs (maxDepth + 1) c (Value.receivedEntries entries) := by
  obtain ⟨bs, hw, rfl⟩ := written_of_draftEach h
  exact .of_written hw

theorem readAs_of_entriesDraft {entries : Entries} {c : Bytes}
    (h : (entriesDraft entries).toExcept = .ok c) :
    ReadAs (maxDepth + 1) c (sortByName (Value.receivedEntries entries)) := by
  rw [entriesDraft_eq] at h
  rw [← Value.receivedEntries_sortByName]
  exact .of_draftEach h

theorem readAs_of_itemsDraft {items : List Value} {c : Bytes}
    (h : (itemsDraft items).toExcept = .ok c) :
    ReadAs (maxDepth + 1) c (Value.receivedEntries (items.map fun v => ("", v))) := by
  rw [itemsDraft_eq] at h
  exact .of_draftEach h

/-- The first attribute of octets that are read as one entry is read as that entry. -/
theorem ReadAs.decodeNamed_eq {b : Bytes} {e : String × Value}
    (h : ReadAs (maxDepth + 1) b [e]) (suffix : Bytes) : decodeNamed (b ++ suffix) = .ok e := by
  obtain ⟨attributes, hs, hr⟩ := h
  obtain ⟨a, rest, ha, hnil, rfl⟩ :=
    List.forall₂_cons_right_iff.mp (mapM_eq_ok_iff.mp hr)
  obtain rfl := List.forall₂_nil_right_iff.mp hnil
  have hn : ((Cursor.start (b ++ suffix)).next).1 = some (.ok a) := by
    have hw := Cursor.report_start (b ++ suffix) 0
    rw [walk, (hs suffix).walkThrough_eq] at hw
    exact hw
  rw [decodeNamed, hn]
  exact ha

end Wire

/-- Whatever is written is read back as what arrives of it, whatever octets follow: a named
value, the entries of a table, and the items of an array. What arrives of a table is sorted by
the octets of its names. -/
theorem decode_encode (b suffix : Bytes) :
    (∀ name v, encodeNamed name v = .ok b →
      decodeNamed (b ++ suffix) = .ok (name, v.received)) ∧
    (∀ entries, encodeTable entries = .ok b →
      decodeTable (b ++ suffix) = .ok (sortByName (Value.receivedEntries entries))) ∧
    (∀ items, encodeArray items = .ok b →
      decodeArray (b ++ suffix) = .ok (items.map Value.received)) ∧
    ∀ entries : Entries, sortByName entries =
      entries.mergeSort fun e f => decide (Text.utf8 e.1 ≤ Text.utf8 f.1) := by
  refine ⟨?_, ?_, ?_, sortByName_eq_mergeSort⟩
  · intro name v h
    have hw := Wire.written_of_draft h
    have hr : Wire.ReadAs (maxDepth + 1) ([b].flatten) (Value.receivedEntries [(name, v)]) :=
      .of_written (List.forall₂_cons.mpr ⟨hw, .nil⟩)
    rw [List.flatten_singleton] at hr
    exact hr.decodeNamed_eq suffix
  · intro entries h
    obtain ⟨c, hc, hb⟩ := bind_eq_ok_iff.mp h
    rw [decodeTable, Wire.contents_of_seal hb]
    exact (Wire.readAs_of_entriesDraft hc).entriesOf_eq
  · intro items h
    obtain ⟨c, hc, hb⟩ := bind_eq_ok_iff.mp h
    have hm : (Value.receivedEntries (items.map fun v => ("", v))).map Prod.snd =
        items.map Value.received := by
      rw [Value.receivedEntries_eq, List.map_map, List.map_map]
      rfl
    rw [decodeArray, Wire.contents_of_seal hb, ← hm]
    exact (Wire.readAs_of_itemsDraft hc).itemsOf_eq

/-- A table loses its order and a text its zero octets on the way, also where they are nested. -/
theorem decode_encode_nested :
    decodeNamed ([130, 0, 0, 56, 0, 1, 116, 0, 129, 0, 0, 36, 0, 1, 97, 0, 135, 0, 0, 9, 0, 0, 0,
      0, 1, 0, 0, 0, 131, 0, 0, 15, 0, 0, 0, 0, 0, 0, 0, 0, 120, 0, 0, 0, 133, 0, 0, 12, 0, 1, 98,
      0, 255, 255, 255, 255] ++ [7]) =
      .ok ("t", .table [("a", .array [.int 1, .str "x"]), ("b", .int (-1))]) ∧
    decodeTable ([0, 0, 0, 28, 133, 0, 0, 12, 0, 1, 97, 0, 0, 0, 0, 5, 135, 0, 0, 9, 0, 1, 98, 0,
      1, 0, 0, 0] ++ [7]) = .ok [("a", .int 5), ("b", .int 1)] ∧
    decodeArray ([0, 0, 0, 28, 135, 0, 0, 9, 0, 0, 0, 0, 1, 0, 0, 0, 131, 0, 0, 10, 0, 0, 0, 0, 120,
      0, 0, 0] ++ [7]) = .ok [.int 1, .str "x"] := by
  have hv : (Value.table [("b", .uint 4294967295),
      ("a", .array [.bool true, .bytes [0, 0, 0, 0, 120, 0]])]).received =
      .table [("a", .array [.int 1, .str "x"]), ("b", .int (-1))] := by cbv
  have ht : sortByName (Value.receivedEntries [("b", .bool true), ("a", .int 5)]) =
      [("a", .int 5), ("b", .int 1)] := by cbv
  have hi : [Value.bool true, .str "x"].map Value.received = [.int 1, .str "x"] := by cbv
  rw [← hv, ← ht, ← hi]
  refine ⟨?_, ?_, ?_⟩
  · apply (decode_encode _ [7]).1
    cbv
  · apply (decode_encode _ [7]).2.1
    cbv
  · apply (decode_encode _ [7]).2.2.1
    cbv

end MicroBus

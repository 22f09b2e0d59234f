import MicroBus.Frame.Basic
import MicroBus.Proofs.Wire.Amplification
import MicroBus.Proofs.Wire.Growth
import MicroBus.Proofs.Wire.RoundTrip
import MicroBus.Proofs.Wire.Sorted

/-!
# What was read can be sent on

Octets may come from a sender that pads otherwise, leaves out terminators, sorts nothing and writes
short integers. What is read of them is written by the rules of this library, and from then on it
stays as it is: it is read as before with its tables sorted, and written again as the same octets.
-/

namespace MicroBus

namespace Bytes

theorem trimEnd_prefix (b : Bytes) : trimEnd b <+: b := List.rdropWhile_prefix _ _

@[simp] theorem trimEnd_trimEnd (b : Bytes) : trimEnd (trimEnd b) = trimEnd b :=
  List.rdropWhile_idempotent _ _

end Bytes

namespace Value

theorem dropZeroWords_eq_self {b : Bytes} (h : ¬ Bytes.zeroWord <+: b) : dropZeroWords b = b := by
  unfold dropZeroWords
  split
  · next rest => exact (h ⟨rest, rfl⟩).elim
  · rfl

end Value

namespace Wire

/-- What is left without zero words in front begins with one only if it is nothing else. -/
theorem dropFront_eq_zeroWord {data : Bytes} (h : Bytes.zeroWord <+: dropFront data) :
    dropFront data = Bytes.zeroWord := by
  fun_induction dropFront data with
  | case1 a b c d e rest hz ih => exact ih h
  | case2 a b c d e rest hz =>
    simp only [Bytes.zeroWord, List.cons_prefix_cons, List.nil_prefix, and_true] at h
    obtain ⟨ha, hb, hc, hd⟩ := h
    exact (hz ⟨ha.symm, hb.symm, hc.symm, hd.symm⟩).elim
  | case3 short hshort =>
    -- A word in front of at most four octets is all of them.
    exact (h.eq_of_length_le (length_le_four hshort)).symm

/-- A text that was read has no zero word in front and no zero octet behind. -/
theorem trimEnd_dropZeroWords_of_read (data : Bytes) :
    Bytes.trimEnd (Value.dropZeroWords (Bytes.trimEnd (dropFront data))) =
      Bytes.trimEnd (dropFront data) := by
  have hfront : ¬ Bytes.zeroWord <+: Bytes.trimEnd (dropFront data) := by
    intro h
    -- Octets that begin with a zero word would be that word, of which nothing is left behind.
    rw [dropFront_eq_zeroWord (h.trans (Bytes.trimEnd_prefix _))] at h
    exact absurd h (by decide)
  rw [Value.dropZeroWords_eq_self hfront, Bytes.trimEnd_trimEnd]

/-- A text that was read arrives as it is. -/
theorem received_text (data : Bytes) : (text data).received = text data := by
  have hkept := trimEnd_dropZeroWords_of_read data
  rw [text]
  cases hu : Text.ofUtf8? (Bytes.trimEnd (dropFront data)) with
  | some s =>
    simp only [Value.received, Value.receivedText, Text.utf8_of_ofUtf8? hu, hkept, hu]
  | none => simp only [Value.received, Value.receivedText, hkept, hu]

theorem sorted_text (data : Bytes) : (text data).sorted = text data := by
  rw [text]
  split <;> rfl

/-- Whatever was read arrives with its tables sorted and as it is in all else. -/
theorem received_of_value {levels : Nat} {code : UInt8} {data : Bytes} {v : Value}
    (h : value levels code data = .ok v) : v.received = v.sorted := by
  refine value_induction (motive := fun _ _ v => v.received = v.sorted)
    ?null ?int ?double ?text ?table ?array h
  case null => exact fun _ _ => rfl
  case int => exact fun _ _ _ _ => rfl
  case double => exact fun _ _ _ _ => rfl
  case text => exact fun _ data => (received_text data).trans (sorted_text data).symm
  case table =>
    intro _ data entries h
    rw [Value.received, Value.sorted, Value.receivedEntries_eq, Value.sortedEntries_eq]
    congr 2
    refine List.map_congr_left fun e he => ?_
    obtain ⟨a, -, ha⟩ := exists_of_forall₂ h.flip e he
    exact congrArg (Prod.mk e.1) ha
  case array =>
    intro _ data items h
    rw [Value.received, Value.sorted, Value.receivedItems_eq, Value.sortedItems_eq]
    congr 1
    refine List.map_congr_left fun v hv => ?_
    obtain ⟨a, ha⟩ := exists_of_forall₂ h.flip v hv
    exact ha

end Wire

/-- Entries that were read arrive with their tables sorted. -/
theorem receivedEntries_of_decodeTable {b : Bytes} {entries : Entries}
    (h : decodeTable b = .ok entries) :
    Value.receivedEntries entries = Value.sortedEntries entries := by
  obtain ⟨inside, -, he⟩ := bind_eq_ok_iff.mp h
  rw [Value.receivedEntries_eq, Value.sortedEntries_eq]
  refine List.map_congr_left fun e hmem => ?_
  obtain ⟨a, -, ha⟩ := exists_of_forall₂ (Wire.entriesOf_eq_ok_iff.mp he).2.flip e hmem
  exact congrArg (Prod.mk e.1) (Wire.received_of_value ha)

/-- Whatever a table is read of, if the octets are no more than a message body may have and the
names that were read fit their length fields, it can be sent on. It is read again with its tables
sorted at every level and nothing else changed, and that is written as the same octets. Sorting is
stable and goes by the octets of the names. -/
theorem relayed_is_fixed {b : Bytes} {entries : Entries} (size : b.length ≤ Frame.maxBodyLength)
    (read : decodeTable b = .ok entries) (names : Value.NamesOfEntriesFit entries) :
    (∃ c, encodeTable entries = .ok c ∧
      decodeTable c = .ok (sortByName (Value.sortedEntries entries)) ∧
      encodeTable (sortByName (Value.sortedEntries entries)) = .ok c) ∧
    ∀ table : Entries, sortByName table =
      table.mergeSort fun e f => decide (Text.utf8 e.1 ≤ Text.utf8 f.1) := by
  refine ⟨?_, sortByName_eq_mergeSort⟩
  have hsize := sizeOfEntries_le_of_decodeTable read
  have hlimits : 4 + Value.sizeOfEntries entries ≤ Header.maxLength := by
    unfold Frame.maxBodyLength at size
    unfold Header.maxLength
    omega
  obtain ⟨c, written⟩ : ∃ c, encodeTable entries = .ok c :=
    ⟨_, encodeTable_eq_ok_iff.mpr ⟨⟨⟨names, (decodeTable_bounded read).1⟩, hlimits⟩, rfl⟩⟩
  refine ⟨c, written, ?_, by rw [encodeTable_sorted, written]⟩
  obtain ⟨inside, hinside, sealed⟩ := bind_eq_ok_iff.mp written
  have hcontents := Wire.contents_of_seal sealed []
  rw [List.append_nil] at hcontents
  rw [decodeTable, hcontents, ← receivedEntries_of_decodeTable read]
  exact (Wire.readAs_of_entriesDraft hinside).entriesOf_eq

/-- A plain short integer, a zero word, a table in disorder with a malformed name and a text without
its terminator, and a text without filler behind it. -/
theorem relayed_is_fixed_disorder :
    let b : Bytes := [0, 0, 0, 65, 6, 0, 0, 6, 255, 254, 170, 187, 0, 0, 0, 0,
      130, 0, 0, 36, 0, 2, 98, 255, 0, 0, 0, 0, 131, 0, 0, 10, 0, 1, 122, 0, 104, 105, 9, 9,
      135, 0, 0, 9, 0, 1, 97, 0, 5, 0, 0, 0, 131, 0, 0, 13, 0, 1, 97, 0, 0, 0, 0, 0, 120]
    let c : Bytes := [0, 0, 0, 64, 133, 0, 0, 12, 0, 0, 0, 0, 255, 255, 255, 254,
      131, 0, 0, 10, 0, 1, 97, 0, 120, 0, 0, 0, 130, 0, 0, 36, 0, 4, 98, 239, 191, 189, 0, 0,
      133, 0, 0, 12, 0, 1, 97, 0, 0, 0, 0, 5, 131, 0, 0, 11, 0, 1, 122, 0, 104, 105, 0, 0]
    let disordered : Entries := [("", .int (-2)),
      ("b\uFFFD", .table [("z", .str "hi"), ("a", .int 5)]), ("a", .str "x")]
    let sorted : Entries := [("", .int (-2)), ("a", .str "x"),
      ("b\uFFFD", .table [("a", .int 5), ("z", .str "hi")])]
    decodeTable b = .ok disordered ∧ encodeTable disordered = .ok c ∧
      decodeTable c = .ok sorted ∧ encodeTable sorted = .ok c := by
  intro b c disordered sorted
  have read : decodeTable b = .ok disordered := by cbv
  have names : Value.NamesOfEntriesFit disordered := by
    refine ⟨?_, trivial, ?_, ⟨?_, trivial, ?_, trivial, trivial⟩, ?_, trivial, trivial⟩ <;>
      exact Nat.le_of_ble_eq_true rfl
  have hs : sortByName (Value.sortedEntries disordered) = sorted := by cbv
  obtain ⟨⟨c', written, again, same⟩, -⟩ := relayed_is_fixed (by decide) read names
  rw [hs] at again same
  have hc : encodeTable sorted = .ok c := by cbv
  obtain rfl := Except.ok.inj (hc.symm.trans same)
  exact ⟨read, written, again, same⟩

end MicroBus

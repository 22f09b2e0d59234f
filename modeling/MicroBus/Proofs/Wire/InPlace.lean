import Mathlib
import MicroBus.Proofs.Wire.Layout

/-!
# Writing onto one buffer

All attributes of a message can be written onto one buffer: a word is kept free for the header of
each, filler is counted from the front of the buffer, and when the payload stands behind the name
the header goes into the free word, with a length that is the difference of two places in the
buffer. On a buffer of whole words this appends the draft that is put together from its parts,
whether or not it was stopped, and the octets that were there stay as they were.
-/

namespace MicroBus

/-- A draft behind octets that were written before it. -/
def Draft.onto (buffer : Bytes) (d : Draft) : Draft := ⟨buffer ++ d.bytes, d.fault⟩

namespace Wire.InPlace

open Value

/-- Puts a word into the place of the four octets at `start`. -/
def patch (buffer : Bytes) (start : Nat) (word : Bytes) : Bytes :=
  buffer.take start ++ word ++ buffer.drop (start + 4)

/-- Writes entries onto a buffer one after another, up to the first that is stopped. -/
def writeEntries (write : Bytes → String → Value → Draft) (buffer : Bytes) : Entries → Draft
  | [] => .done buffer
  | (name, v) :: rest =>
    let written := write buffer name v
    match written.fault with
    | some _ => written
    | none => writeEntries write written.bytes rest

/-- Writes a payload onto a buffer, and says what type it has. -/
def writePayload (write : Bytes → String → Value → Draft) (buffer : Bytes) : Value → Tag × Draft
  | .null => (.unspecified, .done buffer)
  | .bool b => (.int8, .done (buffer ++ [if b then 1 else 0]))
  | .int i => ((ofInt64 i).1, .done (buffer ++ (ofInt64 i).2))
  | .uint u => ((ofUInt64 u).1, .done (buffer ++ (ofUInt64 u).2))
  | .double d => (.double, .done (buffer ++ Bytes.bigEndian 8 d.bits.toNat))
  | .str s => (.string, .done (buffer ++ (Text.utf8 s ++ [0])))
  | .bytes b => (.string, .done (buffer ++ (b ++ [0])))
  | .table entries => (.table, writeEntries write buffer (sortByName entries))
  | .array items => (.array, writeEntries write buffer (items.map fun v => ("", v)))

/-- Puts the header of the attribute that begins at `start` into the word kept free for it, and
fills the buffer up. -/
def finish (start : Nat) (tag : Tag) (written : Draft) : Draft :=
  match written.fault with
  | some _ => written
  | none =>
    match Header.make tag.code (written.bytes.length - start) true with
    | .error f => .stopped written.bytes f
    | .ok h => .done (Bytes.padded (patch written.bytes start h.encode))

/-- Writes a named value onto a buffer, with as many levels as may still be opened. -/
def write : Nat → Bytes → String → Value → Draft
  | 0, buffer, _, _ => .stopped buffer (.tooDeep maxDepth)
  | levels + 1, buffer, name, v =>
    let reserved := buffer ++ Bytes.zeroWord
    if maxNameLength < name.utf8ByteSize then .stopped reserved (.overflow .attributeName)
    else
      let named := Bytes.padded
        (reserved ++ Bytes.bigEndian 2 name.utf8ByteSize ++ Text.utf8 name ++ [0])
      let (tag, written) := writePayload (write levels) named v
      finish buffer.length tag written

/-- Puts the header of a container into the word kept free at the front of a buffer. -/
def close (written : Draft) : Except Fault Bytes :=
  match written.fault with
  | some f => .error f
  | none =>
    match Header.make 0 written.bytes.length false with
    | .error _ => .error (.overflow .container)
    | .ok h => .ok (patch written.bytes 0 h.encode)

/-- Writes the entries of a table onto a buffer of their own. -/
def encodeTable (entries : Entries) : Except Fault Bytes :=
  close (writeEntries (write (maxDepth + 1)) Bytes.zeroWord (sortByName entries))

/-- Writes the items of an array onto a buffer of their own. -/
def encodeArray (items : List Value) : Except Fault Bytes :=
  close (writeEntries (write (maxDepth + 1)) Bytes.zeroWord (items.map fun v => ("", v)))

/-! ## Buffers of whole words -/

theorem patch_append (buffer new back : Bytes) :
    patch (buffer ++ (Bytes.zeroWord ++ back)) buffer.length new = buffer ++ (new ++ back) := by
  have hd : (buffer ++ (Bytes.zeroWord ++ back)).drop (buffer.length + 4) = back := by
    have hl : (buffer ++ Bytes.zeroWord).length = buffer.length + 4 := List.length_append
    rw [← List.append_assoc, List.drop_left' hl]
  rw [patch, List.take_left, hd, List.append_assoc]

/-- A draft that was not stopped ends at a word boundary. -/
theorem length_draft_mod (levels : Nat) (name : String) (v : Value)
    (h : (draft levels name v).fault = none) : (draft levels name v).bytes.length % 4 = 0 := by
  have hd : (draft levels name v).toExcept = .ok (draft levels name v).bytes := by
    rw [Draft.toExcept, h]
  rw [(toExcept_draft_eq_ok_iff.mp hd).2, length_layout, Bytes.align_mod]

theorem onto_nil (buffer : Bytes) : (Draft.done []).onto buffer = .done buffer :=
  congrArg Draft.done (List.append_nil buffer)

theorem onto_done (buffer b : Bytes) : (Draft.done b).onto buffer = .done (buffer ++ b) := rfl

/-- If values are written by appending their drafts, then entries are written by appending their
drafts one after another. -/
theorem writeEntries_eq {levels : Nat} (ih : ∀ {buffer : Bytes}, buffer.length % 4 = 0 →
      ∀ name v, write levels buffer name v = (draft levels name v).onto buffer)
    (entries : Entries) {buffer : Bytes} (h : buffer.length % 4 = 0) :
    writeEntries (write levels) buffer entries = (draftEach levels entries).onto buffer := by
  induction entries generalizing buffer with
  | nil => exact (onto_nil buffer).symm
  | cons e rest ihRest =>
    obtain ⟨name, v⟩ := e
    have hcons : draftEach levels ((name, v) :: rest) =
        (draft levels name v).andThen (draftEach levels rest) := rfl
    rw [writeEntries, hcons, Draft.andThen, ih h name v]
    have hl := length_draft_mod levels name v
    generalize draft levels name v = d at hl
    obtain ⟨front, fault⟩ := d
    cases fault with
    | some f => rfl
    | none =>
      have hfront : (buffer ++ front).length % 4 = 0 := by
        have := hl rfl
        simp only [List.length_append] at this ⊢
        omega
      simp only [Draft.onto, ihRest hfront, List.append_assoc]

/-- The header goes where the draft of the attribute has it. -/
theorem finish_eq {buffer : Bytes} (h : buffer.length % 4 = 0) {name : String}
    (hn : ¬ maxNameLength < name.utf8ByteSize) (tag : Tag) (p : Draft) :
    finish buffer.length tag (p.onto (buffer ++ (Bytes.zeroWord ++ nameOctets name))) =
      (wrap name tag p).onto buffer := by
  obtain ⟨payload, fault⟩ := p
  rw [wrap, if_neg hn, finish]
  cases fault with
  | some f => simp only [Draft.onto, Draft.stopped, List.append_assoc]
  | none =>
    have hl : (buffer ++ (Bytes.zeroWord ++ (nameOctets name ++ payload))).length - buffer.length =
        4 + (nameOctets name ++ payload).length := by
      simp only [List.length_append, Bytes.zeroWord, List.length_cons, List.length_nil]
      omega
    simp only [Draft.onto, List.append_assoc, hl]
    cases Header.make tag.code (4 + (nameOctets name ++ payload).length) true with
    | error f => rfl
    | ok header =>
      simp only [patch_append, Bytes.padded_append h]
      rfl

/-- On a buffer of whole words a value is written by appending its draft. -/
theorem write_eq {levels : Nat} {buffer : Bytes} (h : buffer.length % 4 = 0) (name : String)
    (v : Value) : write levels buffer name v = (draft levels name v).onto buffer := by
  induction levels generalizing buffer name v with
  | zero => simp only [write, draft, Draft.onto, Draft.stopped, List.append_nil]
  | succ levels ih =>
    by_cases hn : maxNameLength < name.utf8ByteSize
    · have hw (tag : Tag) (p : Draft) : wrap name tag p =
          .stopped Bytes.zeroWord (.overflow .attributeName) := by rw [wrap, if_pos hn]
      rw [write, if_pos hn, draft.eq_def]
      cases v <;> simp only [hw] <;> rfl
    · have hnamed : Bytes.padded (buffer ++ Bytes.zeroWord ++ Bytes.bigEndian 2 name.utf8ByteSize ++
          Text.utf8 name ++ [0]) = buffer ++ (Bytes.zeroWord ++ nameOctets name) := by
        have hz : (buffer ++ Bytes.zeroWord).length % 4 = 0 := by
          simp only [List.length_append, Bytes.zeroWord, List.length_cons, List.length_nil]
          omega
        rw [List.append_assoc, List.append_assoc, Bytes.padded_append hz,
          ← List.append_assoc _ _ [0], ← nameOctets, List.append_assoc]
      have haligned : (buffer ++ (Bytes.zeroWord ++ nameOctets name)).length % 4 = 0 := by
        have := Bytes.align_mod (3 + name.utf8ByteSize)
        simp only [List.length_append, Bytes.zeroWord, List.length_cons, List.length_nil,
          length_nameOctets]
        omega
      have hentries (entries : Entries) := writeEntries_eq (fun h => ih h) entries haligned
      rw [write, if_neg hn, hnamed, draft.eq_def]
      cases v with
      | null =>
        have hf := finish_eq h hn .unspecified (.done [])
        rw [onto_nil] at hf
        exact hf
      | table entries =>
        simp only [writePayload, hentries, finish_eq h hn, inNameOrder_eq_draftEach]
      | array items =>
        simp only [writePayload, hentries, finish_eq h hn, inTurn_eq_draftEach]
      | _ => simp only [writePayload, ← onto_done, finish_eq h hn]

/-- The word kept free at the front takes the header of the container. -/
theorem close_onto (d : Draft) :
    close (d.onto Bytes.zeroWord) = (do sealContainer (← d.toExcept)) := by
  obtain ⟨contents, fault⟩ := d
  cases fault with
  | some f => rfl
  | none =>
    have hl : (Bytes.zeroWord ++ contents).length = 4 + contents.length := List.length_append
    have hp (new : Bytes) : patch (Bytes.zeroWord ++ contents) 0 new = new ++ contents :=
      patch_append [] new contents
    simp only [close, Draft.onto, Draft.toExcept, hl, hp]
    rfl

theorem encodeTable_eq (entries : Entries) :
    encodeTable entries = MicroBus.encodeTable entries := by
  rw [encodeTable, writeEntries_eq write_eq _ rfl, close_onto, ← entriesDraft_eq]
  rfl

theorem encodeArray_eq (items : List Value) : encodeArray items = MicroBus.encodeArray items := by
  rw [encodeArray, writeEntries_eq write_eq _ rfl, close_onto, ← itemsDraft_eq]
  rfl

end Wire.InPlace

section Limits

open Value

/-- A named value, a table and an array are written exactly when their names and their nesting keep
to the limits and their own size fits the length field, which then no part of them exceeds. What is
written is the layout, as long as its size says and filled up to a word, with the entries of every
table in the stable order of the octets of their names. Writing onto one buffer with the headers
put in afterwards comes to the same, behind whatever whole words the buffer held. -/
theorem encode_iff_limits :
    (∀ name v b, encodeNamed name v = .ok b ↔ Encodable name v ∧ b = layout name v) ∧
    (∀ name v, (layout name v).length = Bytes.align (sizeAs name v) ∧
      (layout name v).length % 4 = 0 ∧ (payload v).length = payloadSize v) ∧
    (∀ entries : Entries, payload (.table entries) =
      ((entries.mergeSort fun e f => decide (Text.utf8 e.1 ≤ Text.utf8 f.1)).map
        fun e => layout e.1 e.2).flatten) ∧
    (∀ entries b, encodeTable entries = .ok b ↔
      ((NamesOfEntriesFit entries ∧ ∀ e ∈ entries, e.2.depth ≤ maxDepth) ∧
        4 + sizeOfEntries entries ≤ Header.maxLength) ∧
      b = Header.encode ⟨0, 4 + sizeOfEntries entries, false⟩ ++ payload (.table entries)) ∧
    (∀ items b, encodeArray items = .ok b ↔
      ((NamesOfItemsFit items ∧ ∀ v ∈ items, v.depth ≤ maxDepth) ∧
        4 + sizeOfItems items ≤ Header.maxLength) ∧
      b = Header.encode ⟨0, 4 + sizeOfItems items, false⟩ ++ payload (.array items)) ∧
    (∀ entries, Wire.InPlace.encodeTable entries = encodeTable entries) ∧
    (∀ items, Wire.InPlace.encodeArray items = encodeArray items) ∧
    ∀ buffer : Bytes, buffer.length % 4 = 0 → ∀ name v c,
      (Wire.InPlace.write (maxDepth + 1) buffer name v).toExcept = .ok c ↔
        Encodable name v ∧ c = buffer ++ layout name v := by
  refine ⟨fun _ _ _ => encodeNamed_eq_ok_iff, ?_, ?_, fun _ _ => encodeTable_eq_ok_iff,
    fun _ _ => encodeArray_eq_ok_iff, Wire.InPlace.encodeTable_eq, Wire.InPlace.encodeArray_eq, ?_⟩
  · intro name v
    have hl := length_layout name v
    exact ⟨hl, hl ▸ Bytes.align_mod _, length_payload v⟩
  · intro entries
    rw [payload_table, sortByName_eq_mergeSort]
  · intro buffer h name v c
    have hm (d : Draft) : (d.onto buffer).toExcept = (buffer ++ ·) <$> d.toExcept := by
      obtain ⟨b, fault⟩ := d
      cases fault <;> rfl
    rw [Wire.InPlace.write_eq h, hm, map_eq_ok_iff]
    simp only [Wire.toExcept_draft_eq_ok_iff, keeps_iff_encodable, and_assoc, exists_and_left,
      exists_eq_left, eq_comm (a := c)]

/-- Behind one word, a table is written with its entries in order and its header in front. -/
theorem encode_iff_limits_behind_word :
    (Wire.InPlace.write (maxDepth + 1) [1, 2, 3, 4] "t"
      (.table [("b", .bool true), ("a", .null)])).toExcept =
    .ok [1, 2, 3, 4, 130, 0, 0, 28, 0, 1, 116, 0, 128, 0, 0, 8, 0, 1, 97, 0,
      135, 0, 0, 9, 0, 1, 98, 0, 1, 0, 0, 0] := by
  obtain ⟨-, -, -, -, -, -, -, written⟩ := encode_iff_limits
  refine (written [1, 2, 3, 4] (by decide) _ _ _).mpr ⟨⟨?_, ?_, ?_, ?_⟩, by cbv⟩
  · unfold NameFits
    decide
  · exact ⟨by unfold NameFits; decide, trivial, by unfold NameFits; decide, trivial, trivial⟩
  · decide
  · decide

end Limits

end MicroBus

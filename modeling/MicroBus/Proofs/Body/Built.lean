import MicroBus.Client.Basic
import MicroBus.Proofs.Frame.Lossless
import MicroBus.Proofs.Wire.Layout
import MicroBus.Proofs.Wire.RoundTrip

/-!
# Bodies that were built

A put that succeeds adds one attribute without a name behind those already there, and every
attribute ends at a word boundary. So a finished body is parsed into the attributes that it holds.
-/

namespace MicroBus

namespace Field

theorem code_lt (f : Field) : f.code.toNat < 0x80 := by
  cases f <;> decide

theorem code_inj {f g : Field} : f.code = g.code ↔ f = g := by
  refine ⟨fun h => ?_, congrArg code⟩
  exact Option.some.inj (by rw [← ofCode?_code f, h, ofCode?_code])

/-- The octets of a field in a body: its word, its payload, and the filler behind it. -/
def octets (field : Field) (payload : Bytes) : Bytes :=
  Header.encode ⟨field.code, 4 + payload.length, false⟩ ++ payload ++
    Bytes.filler (4 + payload.length)

@[simp] theorem length_octets (field : Field) (payload : Bytes) :
    (field.octets payload).length = Bytes.align (4 + payload.length) := by
  have := Bytes.le_align (4 + payload.length)
  rw [octets, List.length_append, List.length_append, Header.length_encode, Bytes.length_filler]
  omega

end Field

namespace Client

theorem built_eq_ok_iff {put : Option Fault × Builder} {b : Builder} :
    built put = .ok b ↔ put = (none, b) := by
  obtain ⟨_ | f, d⟩ := put <;> simp [built]

end Client

/-- The attributes of entries that are written one after another: each carries the name of its
entry. -/
def Value.attributes (entries : Entries) : List Attribute :=
  entries.map fun e => ⟨e.2.tag.code, some (Text.utf8 e.1), e.2.payload⟩

/-- Layouts of entries are segments that are their attributes, in front of any others. -/
theorem Value.segments_layouts {levels : Nat} {entries : Entries}
    (keeps : ∀ e ∈ entries, Keeps levels e.1 e.2) {tail rest : Bytes} {others : List Attribute}
    (h : Segments tail others rest) :
    Segments ((entries.map fun e => layout e.1 e.2).flatten ++ tail)
      (attributes entries ++ others) rest := by
  induction entries with
  | nil => exact h
  | cons e entries ih =>
    obtain ⟨first, following⟩ := List.forall_mem_cons.mp keeps
    obtain ⟨octets, gap, hl, spelled, aligned⟩ := spells_filledAround e.2.tag first.name_fits
      (payloadFits_payload.mpr first.size_le)
    rw [List.map_cons, List.flatten_cons, layout_eq, hl, List.append_assoc]
    exact .padded spelled aligned (ih following)

/-- A sealed run is parsed into the attributes of the run. -/
theorem Fields.parse_of_sealContainer {c body : Bytes} {attributes : List Attribute}
    (h : sealContainer c = .ok body) (run : Run c attributes) :
    Fields.parse body = .ok ⟨attributes⟩ := by
  have hc := Wire.contents_of_seal h []
  rw [List.append_nil] at hc
  cases body with
  | nil => cases hc
  | cons first rest =>
    rw [Fields.parse, hc, ok_bind, run.walk_eq]
    · rfl
    · simp

namespace Builder

variable {b d : Builder} {field : Field}

/-- A field is put behind whole words exactly if its length fits. -/
theorem putRaw_eq_ok_iff {payload : Bytes} (aligned : b.written.length % 4 = 0) :
    Client.built (b.putRaw field payload) = .ok d ↔
      4 + payload.length ≤ Header.maxLength ∧ d = ⟨b.written ++ field.octets payload⟩ := by
  have hw : Bytes.padded (b.written ++ Header.encode ⟨field.code, 4 + payload.length, false⟩ ++
      payload) = b.written ++ field.octets payload := by
    rw [List.append_assoc, Bytes.padded_append aligned, Bytes.padded, List.length_append,
      Header.length_encode, Field.octets]
  rw [Client.built_eq_ok_iff, putRaw, Header.make]
  by_cases hle : 4 + payload.length ≤ Header.maxLength
  · rw [if_neg (Nat.not_lt.mpr hle)]
    simp only [hw, hle, true_and, Prod.mk.injEq, eq_comm (a := d)]
  · rw [if_pos (Nat.lt_of_not_le hle)]
    simp [hle]

/-- The octets of a table in a body take whole words. -/
theorem payload_of_entriesDraft {entries : Entries} {inside : Bytes}
    (h : (Wire.entriesDraft entries).toExcept = .ok inside) :
    inside = Value.payload (.table entries) ∧ inside.length % 4 = 0 := by
  obtain ⟨-, rfl⟩ := Wire.toExcept_entriesDraft_eq_ok_iff.mp h
  refine ⟨rfl, ?_⟩
  rw [Value.length_payload, Value.payloadSize]
  exact Value.sizeOfEntries_mod entries

/-- A table is put exactly if its entries can be written and their length fits. -/
theorem putTable_eq_ok_iff {entries : Entries} :
    Client.built (b.putTable field entries) = .ok d ↔
      ∃ inside, (Wire.entriesDraft entries).toExcept = .ok inside ∧
        4 + inside.length ≤ Header.maxLength ∧ d = ⟨b.written ++ field.octets inside⟩ := by
  have hmod (c : Bytes) : (Wire.entriesDraft entries).toExcept = .ok c → c.length % 4 = 0 :=
    fun hc => (payload_of_entriesDraft hc).2
  rw [Client.built_eq_ok_iff, putTable]
  generalize Wire.entriesDraft entries = inside at hmod
  obtain ⟨octets, fault⟩ := inside
  cases fault with
  | some f => simp [Draft.toExcept]
  | none =>
    -- A table is put without filler: its entries end at a word boundary already.
    have hgap : Bytes.filler (4 + octets.length) = [] := by
      have := hmod octets rfl
      rw [← List.length_eq_zero_iff, Bytes.length_filler, Bytes.align_eq_self (by omega),
        Nat.sub_self]
    have hw : field.octets octets =
        Header.encode ⟨field.code, 4 + octets.length, false⟩ ++ octets := by
      rw [Field.octets, hgap, List.append_nil]
    simp only [Draft.toExcept, Except.ok.injEq, exists_eq_left', hw]
    rw [Header.make]
    by_cases hle : 4 + octets.length ≤ Header.maxLength
    · rw [if_neg (Nat.not_lt.mpr hle)]
      simp only [hle, true_and, Prod.mk.injEq, eq_comm (a := d), List.append_assoc]
    · rw [if_pos (Nat.lt_of_not_le hle)]
      simp [hle]

/-- A body under construction that holds these attributes: it consists of them, whatever attributes
come behind it, and ends at a word boundary. -/
structure Holds (b : Builder) (attributes : List Attribute) : Prop where
  /-- It begins with segments that are these attributes. -/
  segments : ∀ {tail rest : Bytes} {others : List Attribute}, Segments tail others rest →
    Segments (b.written ++ tail) (attributes ++ others) rest
  /-- It consists of whole words. -/
  aligned : b.written.length % 4 = 0

theorem holds_empty : Holds empty [] := ⟨id, rfl⟩

section Holds

variable {attributes : List Attribute}

/-- A field whose length fits is held behind the others. -/
theorem Holds.behind (h : b.Holds attributes) {payload : Bytes}
    (fits : 4 + payload.length ≤ Header.maxLength) :
    Holds ⟨b.written ++ field.octets payload⟩ (attributes ++ [⟨field.code, none, payload⟩]) := by
  have spelled := Attribute.spells_encode field.code_lt fits (.plain payload)
  have hl : (Header.encode ⟨field.code, 4 + payload.length, false⟩ ++ payload).length =
      4 + payload.length := by
    rw [List.length_append, Header.length_encode]
  constructor
  · intro tail rest others hs
    rw [List.append_assoc b.written, List.append_assoc attributes]
    refine h.segments (.padded spelled ?_ hs)
    have := Bytes.le_align (4 + payload.length)
    rw [hl, Bytes.length_filler]
    omega
  · have := h.aligned
    have := Bytes.align_mod (4 + payload.length)
    rw [List.length_append, Field.length_octets]
    omega

/-- A finished body is parsed into the attributes that it holds. -/
theorem Holds.parse_finish (h : b.Holds attributes) {body : Bytes}
    (finished : b.finish = .ok body) : Fields.parse body = .ok ⟨attributes⟩ := by
  have hs := h.segments (.done [])
  rw [List.append_nil, List.append_nil] at hs
  exact Fields.parse_of_sealContainer finished ⟨[], hs, by simp, by simp⟩

end Holds

end Builder

/-- A container is a body that declares its length, if it is no longer than is accepted. -/
theorem Frame.declared_of_sealContainer {c body : Bytes} (h : sealContainer c = .ok body)
    (le : body.length ≤ maxBodyLength) (envelope : Envelope) : Declared ⟨envelope, body⟩ := by
  obtain ⟨hlength, hword⟩ := word_of_sealContainer h
  have hmax : maxBodyLength < 0x1000000 := by decide
  have four_le : 4 ≤ body.length := by omega
  have length_eq : Bytes.ofBigEndian (body.take 4) % 0x1000000 = body.length := by
    rw [hword, ← hlength]
    exact Nat.mod_eq_of_lt (Nat.lt_of_le_of_lt le hmax)
  exact ⟨four_le, le, length_eq⟩

end MicroBus

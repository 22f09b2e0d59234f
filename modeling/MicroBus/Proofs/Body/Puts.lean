import MicroBus.Proofs.Body.Built
import MicroBus.Proofs.Text.Terminated

/-!
# Bodies put by put

Fields may be put into a body in any order, and a field more than once. Every put ends at a word
boundary, so the octets of a body are those of its fields one after another. A finished body is as
long as its first word says and is parsed into one attribute for each put, of which a reader of a
field sees the last.
-/

namespace MicroBus

/-- A field that is put into a body. -/
inductive Put where
  /-- Octets as they are. -/
  | raw (field : Field) (payload : Bytes)
  /-- An unsigned word. -/
  | word (field : Field) (w : UInt32)
  /-- Text and its terminator. -/
  | text (field : Field) (s : String)
  /-- The entries of a table. -/
  | table (field : Field) (entries : Entries)

namespace Put

/-- The field that is put. -/
def field : Put → Field
  | raw field _ => field
  | word field _ => field
  | text field _ => field
  | table field _ => field

/-- The octets of its payload. -/
def payload : Put → Bytes
  | raw _ payload => payload
  | word _ w => Bytes.bigEndian 4 w.toNat
  | text _ s => Text.utf8 s ++ [0]
  | table _ entries => Value.payload (.table entries)

/-- The attribute as which it is parsed. -/
def toAttribute (p : Put) : Attribute := ⟨p.field.code, none, p.payload⟩

/-- The octets that it adds to the body. -/
def octets (p : Put) : Bytes := p.field.octets p.payload

/-- Whether a put goes through: its length fits the word of the attribute, the names in a table fit,
and no value in it lies too deep. -/
def Fits : Put → Prop
  | table _ entries =>
    (Value.NamesOfEntriesFit entries ∧ ∀ e ∈ entries, e.2.depth ≤ maxDepth) ∧
      4 + Value.sizeOfEntries entries ≤ Header.maxLength
  | p => 4 + p.payload.length ≤ Header.maxLength

/-- The length of a put that goes through fits. -/
theorem Fits.length_le {p : Put} (h : p.Fits) : 4 + p.payload.length ≤ Header.maxLength := by
  cases p with
  | raw | word | text => exact h
  | table field entries =>
    rw [payload, Value.length_payload, Value.payloadSize]
    exact h.2

/-- The last of these puts of its field. -/
def Last (p : Put) (puts : List Put) : Prop :=
  ∃ before after, puts = before ++ p :: after ∧ ∀ q ∈ after, q.field ≠ p.field

end Put

namespace Builder

/-- Puts a field. -/
def put (b : Builder) : Put → Option Fault × Builder
  | .raw field payload => b.putRaw field payload
  | .word field w => b.putWord field w
  | .text field s => b.putText field s
  | .table field entries => b.putTable field entries

/-- Puts fields one after another, as long as all goes well. -/
def putEach (b : Builder) : List Put → Except Fault Builder
  | [] => .ok b
  | p :: rest => do (← Client.built (b.put p)).putEach rest

/-- A body of fields that are put one after another. -/
def build (puts : List Put) : Except Fault Bytes := do (← empty.putEach puts).finish

end Builder

/-- The length of a body with these fields. -/
def bodySize (puts : List Put) : Nat :=
  4 + (puts.map fun p => Bytes.align (4 + p.payload.length)).sum

/-! ## What is put -/

namespace Builder

variable {b d : Builder} {puts : List Put}

/-- A put behind whole words goes through exactly if it fits, and adds its octets. -/
theorem put_eq_ok_iff (aligned : b.written.length % 4 = 0) {p : Put} :
    Client.built (b.put p) = .ok d ↔ p.Fits ∧ d = ⟨b.written ++ p.octets⟩ := by
  cases p with
  | raw field payload => exact putRaw_eq_ok_iff aligned
  | word field w =>
    rw [put, putWord, putRaw_eq_ok_iff aligned]
    rfl
  | text field s =>
    rw [put, putText, putRaw_eq_ok_iff aligned]
    rfl
  | table field entries =>
    rw [put, putTable_eq_ok_iff, Put.Fits]
    constructor
    · rintro ⟨inside, hi, hle, rfl⟩
      obtain ⟨rfl, -⟩ := payload_of_entriesDraft hi
      rw [Value.length_payload, Value.payloadSize] at hle
      have hd := Wire.entriesDraft_eq_ok_iff (by omega) |>.mp hi
      exact ⟨⟨hd.1, hle⟩, rfl⟩
    · rintro ⟨⟨limits, hle⟩, rfl⟩
      have hd := Wire.entriesDraft_eq_ok_iff (by omega) |>.mpr ⟨limits, rfl⟩
      refine ⟨_, hd, ?_, rfl⟩
      rwa [Value.length_payload, Value.payloadSize]

/-- Puts behind whole words go through exactly if each of them fits, and add their octets. -/
theorem putEach_eq_ok_iff (aligned : b.written.length % 4 = 0) :
    b.putEach puts = .ok d ↔
      (∀ p ∈ puts, p.Fits) ∧ d = ⟨b.written ++ (puts.map Put.octets).flatten⟩ := by
  induction puts generalizing b with
  | nil =>
    simp [putEach, eq_comm]
  | cons p puts ih =>
    have hnext : (b.written ++ p.octets).length % 4 = 0 := by
      have := Bytes.align_mod (4 + p.payload.length)
      rw [List.length_append, Put.octets, Field.length_octets]
      omega
    rw [putEach, bind_eq_ok_iff, List.forall_mem_cons, List.map_cons, List.flatten_cons,
      ← List.append_assoc, and_assoc]
    simp only [put_eq_ok_iff aligned, and_assoc, exists_and_left, exists_eq_left, ih hnext]

/-- Puts that fit are held one after another. -/
theorem Holds.putEach {attributes : List Attribute} (h : b.Holds attributes)
    (fits : ∀ p ∈ puts, p.Fits) :
    Holds ⟨b.written ++ (puts.map Put.octets).flatten⟩
      (attributes ++ puts.map Put.toAttribute) := by
  induction puts generalizing b attributes with
  | nil => simpa using h
  | cons p puts ih =>
    rw [List.forall_mem_cons] at fits
    have first : Holds ⟨b.written ++ p.octets⟩ (attributes ++ [p.toAttribute]) :=
      h.behind fits.1.length_le
    have held := ih first fits.2
    rwa [List.append_assoc, List.append_assoc] at held

theorem length_written_of_putEach (put : empty.putEach puts = .ok b) :
    4 + b.written.length = bodySize puts := by
  obtain ⟨-, rfl⟩ := (putEach_eq_ok_iff rfl).mp put
  rw [bodySize, empty, List.nil_append, List.length_flatten, List.map_map]
  congr 2
  exact List.map_congr_left fun p _ => Field.length_octets p.field p.payload

/-- A body is parsed into the attributes of its puts, all of which fit. -/
theorem parse_of_build {body : Bytes} (h : build puts = .ok body) :
    (∀ p ∈ puts, p.Fits) ∧ Fields.parse body = .ok ⟨puts.map Put.toAttribute⟩ := by
  obtain ⟨b, put, finished⟩ := bind_eq_ok_iff.mp h
  obtain ⟨fits, rfl⟩ := (putEach_eq_ok_iff rfl).mp put
  exact ⟨fits, (holds_empty.putEach fits).parse_finish finished⟩

/-- A body declares its length as a message, if it is no longer than is accepted. -/
theorem declared_of_build {body : Bytes} (h : build puts = .ok body)
    (le : body.length ≤ Frame.maxBodyLength) (envelope : Envelope) :
    Frame.Declared ⟨envelope, body⟩ := by
  obtain ⟨b, -, finished⟩ := bind_eq_ok_iff.mp h
  exact Frame.declared_of_sealContainer finished le envelope

end Builder

/-! ## What is seen of the puts -/

section Seen

variable {puts : List Put}

/-- A reader of a field sees the last put of it, and nothing if there is none. -/
theorem Fields.get?_puts (puts : List Put) (field : Field) :
    Fields.get? ⟨puts.map Put.toAttribute⟩ field =
      (puts.reverse.find? fun p => p.field = field).map Put.toAttribute := by
  rw [Fields.get?, ← List.map_reverse, List.find?_map]
  congr 2
  funext p
  simp [Put.toAttribute, Attribute.isExtended, Field.code_inj]

theorem Put.Last.get?_eq {p : Put} (h : p.Last puts) :
    Fields.get? ⟨puts.map Put.toAttribute⟩ p.field = some p.toAttribute := by
  obtain ⟨before, after, rfl, hafter⟩ := h
  have hnone : after.reverse.find? (fun q => q.field = p.field) = none := by
    rw [List.find?_eq_none]
    simpa using hafter
  rw [Fields.get?_puts, List.reverse_append, List.reverse_cons, List.append_assoc,
    List.find?_append, hnone]
  simp

theorem Put.Last.mem {p : Put} (h : p.Last puts) : p ∈ puts := by
  obtain ⟨before, after, rfl, -⟩ := h
  simp

/-- A word that was put last is read. -/
theorem Put.Last.word?_eq {field : Field} {w : UInt32} (h : (Put.word field w).Last puts) :
    Fields.word? ⟨puts.map Put.toAttribute⟩ field = .ok (some w) := by
  have hl : Wire.leading .word (Bytes.bigEndian 4 w.toNat) = .ok w.toNat :=
    Wire.leading_bigEndian .word w.toNat_lt
  rw [Fields.word?, show Fields.get? _ field = _ from h.get?_eq]
  simp only [Put.toAttribute, Put.payload, hl, ok_bind, UInt32.ofNat_toNat]

/-- A text that was put last is read up to its first zero character. -/
theorem Put.Last.text?_eq {field : Field} {s : String} (h : (Put.text field s).Last puts) :
    Fields.text? ⟨puts.map Put.toAttribute⟩ field = some (Text.untilZero s) := by
  rw [Fields.text?, show Fields.get? _ field = _ from h.get?_eq, Option.map_some]
  exact congrArg some (Text.ofUtf8Repaired_takeWhile s)

/-- Of a table that was put last what arrives is read, in the order of the names. -/
theorem Put.Last.entries?_eq {field : Field} {entries : Entries}
    (h : (Put.table field entries).Last puts) (fits : ∀ p ∈ puts, p.Fits) :
    Fields.entries? ⟨puts.map Put.toAttribute⟩ field =
      .ok (some (sortByName (Value.receivedEntries entries))) := by
  obtain ⟨limits, hle⟩ := fits _ h.mem
  have hd := (Wire.entriesDraft_eq_ok_iff (by omega)).mpr ⟨limits, rfl⟩
  have hr : decodeEntries (Value.payload (.table entries)) = _ :=
    (Wire.readAs_of_entriesDraft hd).entriesOf_eq
  rw [Fields.entries?, show Fields.get? _ field = _ from h.get?_eq]
  simp only [Put.toAttribute, Put.payload, hr]
  rfl

end Seen

namespace Client

/-- The fields of a call: the object, the method and the arguments. -/
def callPuts (id : UInt32) (method : String) (arguments : Entries) : List Put :=
  [.word .objectId id, .text .method method, .table .data arguments]

/-- The fields of a look-up: the pattern, if there is one. -/
def lookupPuts (pattern : Option String) : List Put := pattern.toList.map (.text .objectPath)

theorem invokeBody_eq (id : UInt32) (method : String) (arguments : Entries) :
    invokeBody id method arguments = Builder.build (callPuts id method arguments) := by
  simp only [invokeBody, callPuts, Builder.build, Builder.putEach, Builder.put, bind_assoc, ok_bind]

theorem lookupBody_eq (pattern : Option String) :
    lookupBody pattern = Builder.build (lookupPuts pattern) := by
  cases pattern with
  | none => rfl
  | some p =>
    simp only [lookupBody, lookupPuts, Builder.build, Option.toList_some, List.map_cons,
      List.map_nil, Builder.putEach, Builder.put, bind_assoc, ok_bind]

theorem last_objectId (id : UInt32) (method : String) (arguments : Entries) :
    (Put.word .objectId id).Last (callPuts id method arguments) :=
  ⟨[], _, rfl, by simp [Put.field]⟩

theorem last_method (id : UInt32) (method : String) (arguments : Entries) :
    (Put.text .method method).Last (callPuts id method arguments) :=
  ⟨[.word .objectId id], _, rfl, by simp [Put.field]⟩

theorem last_data (id : UInt32) (method : String) (arguments : Entries) :
    (Put.table .data arguments).Last (callPuts id method arguments) :=
  ⟨[.word .objectId id, .text .method method], [], rfl, by simp⟩

/-- The body of a call names its object. -/
theorem word_invokeBody {id : UInt32} {method : String} {entries : Entries} {body : Bytes}
    (h : invokeBody id method entries = .ok body) :
    ∃ fields, Fields.parse body = .ok fields ∧ fields.word? .objectId = .ok (some id) := by
  rw [invokeBody_eq] at h
  exact ⟨_, (Builder.parse_of_build h).2, (last_objectId id method entries).word?_eq⟩

end Client

/-- Whatever fields are put into a body, in whatever order and however often: as long as every put
goes through, the body can be finished exactly if its length fits the first word. Then it consists
of whole words, is as long as its first word says, and is parsed into one attribute without a name
for each put, in order, with the field and the payload that were put. A reader of a field sees the
last put of it: a word as it was put, a text up to its first zero character, and of a table what
arrives of its entries. Of a field that was never put nothing is seen. -/
theorem Builder.puts_seen {puts : List Put} {b : Builder} (put : empty.putEach puts = .ok b) :
    ((∃ body, b.finish = .ok body) ↔ 4 + b.written.length ≤ Header.maxLength) ∧
    ∀ body, b.finish = .ok body →
      body.length = 4 + b.written.length ∧ body.length = bodySize puts ∧ body.length % 4 = 0 ∧
      Bytes.ofBigEndian (body.take 4) = body.length ∧
      Fields.parse body = .ok ⟨puts.map Put.toAttribute⟩ ∧
      ∀ fields, Fields.parse body = .ok fields →
        (∀ p : Put, p.Last puts → fields.get? p.field = some p.toAttribute) ∧
        (∀ field w, (Put.word field w).Last puts → fields.word? field = .ok (some w)) ∧
        (∀ field s, (Put.text field s).Last puts →
          fields.text? field = some (Text.untilZero s)) ∧
        (∀ field entries, (Put.table field entries).Last puts → fields.entries? field =
          .ok (some (sortByName (Value.receivedEntries entries)))) ∧
        ∀ field, (∀ p ∈ puts, p.field ≠ field) →
          fields.get? field = none ∧ fields.word? field = .ok none ∧
            fields.text? field = none ∧ fields.entries? field = .ok none := by
  have hsize := length_written_of_putEach put
  obtain ⟨fits, hb⟩ := (putEach_eq_ok_iff rfl).mp put
  refine ⟨?_, fun body finished => ?_⟩
  · simp only [finish, sealContainer_eq_ok_iff, exists_and_left, exists_eq, and_true]
  · obtain ⟨hlength, hword⟩ := word_of_sealContainer finished
    have hmod := (hb ▸ holds_empty.putEach fits : b.Holds _).aligned
    have parsed := (parse_of_build (bind_eq_ok_iff.mpr ⟨b, put, finished⟩)).2
    refine ⟨hlength, hlength.trans hsize, by omega, hword.trans hlength.symm, parsed, ?_⟩
    intro fields h
    obtain rfl := Except.ok.inj (parsed.symm.trans h)
    refine ⟨fun p hp => hp.get?_eq, fun field w hp => hp.word?_eq, fun field s hp => hp.text?_eq,
      fun field entries hp => hp.entries?_eq fits, fun field never => ?_⟩
    have hnone : Fields.get? ⟨puts.map Put.toAttribute⟩ field = none := by
      have hf : puts.reverse.find? (fun p => p.field = field) = none := by
        rw [List.find?_eq_none]
        simpa using never
      rw [Fields.get?_puts, hf, Option.map_none]
    refine ⟨hnone, ?_, ?_, ?_⟩
    · rw [Fields.word?, hnone]
    · rw [Fields.text?, hnone, Option.map_none]
    · rw [Fields.entries?, hnone]

/-- An object is put, a method with a zero character in its name, a table, octets, and another
object: the second object is seen, and the method up to that character. -/
theorem Builder.puts_seen_again :
    let puts : List Put := [.word .objectId 1, .text .method "go\x00on",
      .table .data [("b", .bool true), ("a", .int 5)], .raw .user [7], .word .objectId 2]
    ∃ b body fields, empty.putEach puts = .ok b ∧ b.finish = .ok body ∧ body.length = 68 ∧
      Fields.parse body = .ok fields ∧ fields.attributes = puts.map Put.toAttribute ∧
      fields.word? .objectId = .ok (some 2) ∧ fields.text? .method = some "go" ∧
      fields.entries? .data = .ok (some [("a", .int 5), ("b", .int 1)]) ∧
      fields.text? .objectPath = none := by
  intro puts
  have put : empty.putEach puts = .ok ⟨[3, 0, 0, 8, 0, 0, 0, 1, 4, 0, 0, 10, 103, 111, 0, 111, 110,
      0, 0, 0, 7, 0, 0, 28, 133, 0, 0, 12, 0, 1, 97, 0, 0, 0, 0, 5, 135, 0, 0, 9, 0, 1, 98, 0, 1, 0,
      0, 0, 12, 0, 0, 5, 7, 0, 0, 0, 3, 0, 0, 8, 0, 0, 0, 2]⟩ := by cbv
  obtain ⟨finishes, seen⟩ := puts_seen put
  obtain ⟨body, finished⟩ := finishes.mpr (by decide)
  obtain ⟨length_eq, -, -, -, parsed, accessors⟩ := seen body finished
  obtain ⟨-, words, texts, tables, never⟩ := accessors _ parsed
  have hmethod := texts .method "go\x00on" ⟨[.word .objectId 1], _, rfl, by simp [Put.field]⟩
  have hdata := tables .data [("b", .bool true), ("a", .int 5)]
    ⟨[.word .objectId 1, .text .method "go\x00on"], _, rfl, by simp [Put.field]⟩
  refine ⟨_, body, _, put, finished, length_eq, parsed, rfl,
    words .objectId 2 ⟨puts.take 4, [], rfl, by simp⟩, ?_, ?_, ?_⟩
  · rw [hmethod]
    decide
  · rw [hdata]
    cbv
  · exact (never .objectPath (by simp [puts, Put.field])).2.2.1

end MicroBus

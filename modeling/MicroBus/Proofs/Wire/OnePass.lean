import Mathlib
import MicroBus.Body.Fields
import MicroBus.Proofs.Wire.Entries

/-!
# Reading in one pass and in two

A table can be read in one pass, each entry as its attribute is met, or in two: first the
attributes of the whole body, then their values. On malformed octets the two stop at different
places and may report different faults, but they accept the same octets with the same entries. An
array is read as the table of its attributes, without their names.
-/

namespace MicroBus

/-! ## One pass -/

/-- Reads the attributes of a run one after another, each before the next is looked for, up to the
first fault. -/
def Cursor.readOn {α : Type} (read : Attribute → Except Fault α) (c : Cursor) :
    Except Fault (List α) :=
  match _h : c.next with
  | (none, _) => .ok []
  | (some (.error f), _) => .error f
  | (some (.ok a), d) => do
    let x ← read a
    let xs ← Cursor.readOn read d
    .ok (x :: xs)
termination_by c.remaining
decreasing_by exact Cursor.remaining_next_lt ‹_›

namespace Cursor

variable {α : Type} {c d : Cursor} (read : Attribute → Except Fault α)

/-- What the cursor meets next decides how the reading goes on. -/
theorem readOn_of_next {item : Option (Except Fault Attribute)} (h : c.next = (item, d)) :
    c.readOn read = match item with
      | none => .ok []
      | some (.error f) => .error f
      | some (.ok a) => (do
        let x ← read a
        let xs ← d.readOn read
        .ok (x :: xs)) := by
  rw [readOn]
  split <;> next hn =>
    rw [h] at hn
    obtain ⟨rfl, rfl⟩ := Prod.mk.inj hn
    rfl

/-- Reading in one pass comes to what reading the attributes of a finished walk comes to. -/
theorem readOn_start (b : Bytes) : (start b).readOn read = (walk b).decode read := by
  refine walkInduction (motive := fun b => (start b).readOn read = (walk b).decode read) ?_ ?_ ?_ b
  · intro b he
    rw [readOn_of_next read (next_of_nil (c := start b) rfl he), walk, walkThrough_of_nil he]
    rfl
  · intro b f hne hp
    rw [readOn_of_next read (next_of_error hne hp), walk, walkThrough_of_error hne hp]
    rfl
  · intro b a after hp ih
    have hw : walk b = ⟨a :: (walk after).attributes, (walk after).fault⟩ :=
      congrArg Prod.fst (walkThrough_of_ok hp)
    rw [readOn_of_next read (next_of_ok hp), hw, Walk.decode_cons, ← ih]

end Cursor

/-! ## Two passes -/

namespace Walk

variable {α : Type} {w : Walk} {read : Attribute → Except Fault α}

theorem toExcept_eq_ok_iff {attributes : List Attribute} :
    w.toExcept = .ok attributes ↔ w.fault = none ∧ w.attributes = attributes := by
  rw [toExcept]
  cases w.fault <;> simp

theorem toExcept_eq_error_iff {f : Fault} : w.toExcept = .error f ↔ w.fault = some f := by
  rw [toExcept]
  cases w.fault <;> simp

/-- Without a fault in the walk it makes no difference when the attributes are read. -/
theorem decode_eq_mapM (h : w.fault = none) : w.decode read = w.attributes.mapM read := by
  rw [decode, h]
  cases w.attributes.mapM read <;> rfl

/-- With a fault in the walk nothing is read, but one of its attributes may fail before it. -/
theorem exists_decode_eq_error {f : Fault} (h : w.fault = some f)
    (read : Attribute → Except Fault α) :
    ∃ g, w.decode read = .error g ∧ (g = f ∨ ∃ a ∈ w.attributes, read a = .error g) := by
  cases hd : w.decode read with
  | ok found =>
    rw [(decode_eq_ok_iff.mp hd).1] at h
    cases h
  | error g =>
    refine ⟨g, rfl, ?_⟩
    rcases decode_eq_error hd with ha | hg
    · exact .inr ha
    · exact .inl (Option.some.inj (hg.symm.trans h))

end Walk

namespace Fields

theorem parse_eq_of_ne_nil {b : Bytes} (h : b ≠ []) : parse b = (do
    let attributes ← (walk (← Wire.contents b)).toExcept
    .ok ⟨attributes⟩) := by
  cases b with
  | nil => exact (h rfl).elim
  | cons x b => rfl

/-- A body is parsed if its container is found and the walk over it meets no fault. -/
theorem parse_eq_ok_iff {b : Bytes} (h : b ≠ []) {fields : Fields} :
    parse b = .ok fields ↔ ∃ inside, Wire.contents b = .ok inside ∧
      (walk inside).fault = none ∧ (walk inside).attributes = fields.attributes := by
  simp only [parse_eq_of_ne_nil h, bind_eq_ok_iff, Walk.toExcept_eq_ok_iff]
  constructor
  · rintro ⟨inside, hc, _, hw, hf⟩
    obtain rfl := Except.ok.inj hf
    exact ⟨inside, hc, hw⟩
  · rintro ⟨inside, hc, hw⟩
    exact ⟨inside, hc, fields.attributes, hw, rfl⟩

/-- A body is not parsed if its container is not found or the walk over it meets a fault. -/
theorem parse_eq_error_iff {b : Bytes} (h : b ≠ []) {f : Fault} :
    parse b = .error f ↔ Wire.contents b = .error f ∨
      ∃ inside, Wire.contents b = .ok inside ∧ (walk inside).fault = some f := by
  simp only [parse_eq_of_ne_nil h, bind_eq_error_iff, Walk.toExcept_eq_error_iff, reduceCtorEq,
    and_false, exists_false, or_false]

/-- Of a body that is parsed, both routes make the same. -/
theorem decodeTable_eq_asEntries {b : Bytes} (h : b ≠ []) {fields : Fields}
    (parsed : parse b = .ok fields) : decodeTable b = fields.asEntries := by
  obtain ⟨inside, hc, hn, hattributes⟩ := (parse_eq_ok_iff h).mp parsed
  rw [decodeTable, hc, ok_bind, decodeEntries, Wire.entriesOf, Walk.decode_eq_mapM hn, hattributes,
    asEntries]

/-- A body that is not parsed is not read in one pass either. The fault is the same, or that of an
attribute in front of it. -/
theorem exists_decodeTable_eq_error {b : Bytes} (h : b ≠ []) {f : Fault}
    (refused : parse b = .error f) : ∃ g, decodeTable b = .error g ∧ (g = f ∨
      ∃ inside, Wire.contents b = .ok inside ∧
        ∃ a ∈ (walk inside).attributes, Wire.entry Wire.outermost a = .error g) := by
  rw [decodeTable]
  rcases (parse_eq_error_iff h).mp refused with hc | ⟨inside, hc, hf⟩
  · rw [hc]
    exact ⟨f, rfl, .inl rfl⟩
  · obtain ⟨g, hg, which⟩ := Walk.exists_decode_eq_error hf (Wire.entry Wire.outermost)
    rw [hc]
    exact ⟨g, hg, which.imp_right fun ha => ⟨inside, rfl, ha⟩⟩

end Fields

/-! ## Both -/

theorem decodeArray_eq_map_decodeTable (b : Bytes) :
    decodeArray b = List.map Prod.snd <$> decodeTable b := by
  rw [decodeArray, decodeTable]
  cases Wire.contents b with
  | error f => rfl
  | ok inside => exact Wire.itemsOf_eq Wire.outermost inside

/-- Octets are read as a table in one pass exactly if they are, unless there are none, parsed as a
body whose attributes are then read as the entries, and both routes give the same entries. They
differ at most in the fault that they report: where the octets are parsed they do not, and where
they are not, one pass reports the same fault or that of an attribute in front of it. An array is
read as the table without its names, with the same fault. At every level a container is read
attribute by attribute, each before the next is looked for. -/
theorem decoders_agree :
    (∀ b : Bytes, b ≠ [] →
      (∀ entries, decodeTable b = .ok entries ↔
        ∃ fields, Fields.parse b = .ok fields ∧ fields.asEntries = .ok entries) ∧
      (∀ fields, Fields.parse b = .ok fields → decodeTable b = fields.asEntries) ∧
      ∀ f, Fields.parse b = .error f → ∃ g, decodeTable b = .error g ∧ (g = f ∨
        ∃ inside, Wire.contents b = .ok inside ∧
          ∃ a ∈ (walk inside).attributes, Wire.entry Wire.outermost a = .error g)) ∧
    (∀ b : Bytes, decodeArray b = List.map Prod.snd <$> decodeTable b) ∧
    ∀ (read : UInt8 → Bytes → Except Fault Value) (b : Bytes),
      Wire.entriesOf read b = (Cursor.start b).readOn (Wire.entry read) ∧
      Wire.itemsOf read b = (Cursor.start b).readOn fun a => read a.id a.data := by
  refine ⟨fun b h => ⟨fun entries => ⟨fun hd => ?_, ?_⟩, fun fields =>
    Fields.decodeTable_eq_asEntries h, fun f => Fields.exists_decodeTable_eq_error h⟩,
    decodeArray_eq_map_decodeTable, fun read b => ?_⟩
  · -- The body is parsed, since otherwise it would not be read in one pass.
    cases hp : Fields.parse b with
    | error f =>
      obtain ⟨g, hg, -⟩ := Fields.exists_decodeTable_eq_error h hp
      rw [hd] at hg
      cases hg
    | ok fields => exact ⟨fields, rfl, (Fields.decodeTable_eq_asEntries h hp).symm.trans hd⟩
  · rintro ⟨fields, parsed, entries_eq⟩
    exact (Fields.decodeTable_eq_asEntries h parsed).trans entries_eq
  · exact ⟨(Cursor.readOn_start _ b).symm, (Cursor.readOn_start _ b).symm⟩

/-- A table with a repeated name and an array in it is read alike on both routes. Of an attribute
of an unknown type in front of one that is too long, one pass reports the type and two passes the
length. -/
theorem decoders_agree_malformed :
    let good : Bytes := [0, 0, 0, 52, 135, 0, 0, 9, 0, 1, 98, 0, 1, 0, 0, 0, 0, 0, 0, 0,
      129, 0, 0, 20, 0, 1, 97, 0, 135, 0, 0, 9, 0, 0, 0, 0, 2, 0, 0, 0,
      135, 0, 0, 9, 0, 1, 98, 0, 3, 0, 0, 0]
    let bad : Bytes := [0, 0, 0, 16, 137, 0, 0, 8, 0, 0, 0, 0, 135, 0, 0, 64]
    decodeTable good = .ok [("b", .int 1), ("a", .array [.int 2]), ("b", .int 3)] ∧
    decodeArray good = .ok [.int 1, .array [.int 2], .int 3] ∧
    Fields.parse bad = .error (.badLength 64 4) ∧
    (∀ entries, decodeTable bad ≠ .ok entries) ∧ decodeTable bad = .error (.unknownType 9) := by
  intro good bad
  obtain ⟨both, array, -⟩ := decoders_agree
  obtain ⟨agree, -, -⟩ := both good (by simp [good])
  obtain ⟨disagree, -, -⟩ := both bad (by simp [bad])
  have parsed : ∃ fields, Fields.parse good = .ok fields ∧
      fields.asEntries = .ok [("b", .int 1), ("a", .array [.int 2]), ("b", .int 3)] :=
    ⟨⟨[⟨7, some [98], [1]⟩, ⟨1, some [97], [135, 0, 0, 9, 0, 0, 0, 0, 2, 0, 0, 0]⟩,
      ⟨7, some [98], [3]⟩]⟩, by cbv, by cbv⟩
  have table := (agree _).mpr parsed
  have refused : Fields.parse bad = .error (.badLength 64 4) := by cbv
  refine ⟨table, ?_, refused, fun entries h => ?_, by cbv⟩
  · rw [array, table]
    rfl
  · obtain ⟨fields, parsed, -⟩ := (disagree entries).mp h
    rw [refused] at parsed
    cases parsed

end MicroBus

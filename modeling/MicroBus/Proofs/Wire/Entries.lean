import MicroBus.Proofs.Attribute.Walk
import MicroBus.Proofs.Except
import MicroBus.Wire.Decode

/-!
# Reading a run as entries

A run of attributes is read by reading each of them in order. Reading items is reading entries
and dropping their names.
-/

namespace MicroBus

/-- A walk is decoded when it met no fault and each of its attributes is read. -/
theorem Walk.decode_eq_ok_iff {α : Type} {w : Walk} {read : Attribute → Except Fault α}
    {found : List α} :
    w.decode read = .ok found ↔ w.fault = none ∧ w.attributes.mapM read = .ok found := by
  rw [Walk.decode, bind_eq_ok_iff]
  cases w.fault <;> simp

/-- A decoding fails as one of its attributes, or as its walk. -/
theorem Walk.decode_eq_error {α : Type} {w : Walk} {read : Attribute → Except Fault α} {f : Fault}
    (h : w.decode read = .error f) :
    (∃ a ∈ w.attributes, read a = .error f) ∨ w.fault = some f := by
  rw [Walk.decode, bind_eq_error_iff] at h
  rcases h with h | ⟨found, -, h⟩
  · obtain ⟨before, a, after, hl, ha, -⟩ := mapM_eq_error_iff.mp h
    exact .inl ⟨a, by simp [hl], ha⟩
  · right
    cases hf : w.fault with
    | none => rw [hf] at h; cases h
    | some g =>
      rw [hf] at h
      rw [Except.error.inj h]

/-- A walk is decoded attribute by attribute. -/
theorem Walk.decode_cons {α : Type} (a : Attribute) (w : Walk)
    (read : Attribute → Except Fault α) :
    (Walk.mk (a :: w.attributes) w.fault).decode read = (do
      let x ← read a
      let xs ← w.decode read
      .ok (x :: xs)) := by
  rw [Walk.decode, Walk.decode, List.mapM_cons]
  cases read a with
  | error f => rfl
  | ok x =>
    cases w.attributes.mapM read with
    | error f => rfl
    | ok xs => cases w.fault <;> rfl

namespace Wire

theorem entry_eq_ok_iff {read : UInt8 → Bytes → Except Fault Value} {a : Attribute}
    {e : String × Value} :
    entry read a = .ok e ↔ nameText a = e.1 ∧ read a.id a.data = .ok e.2 := by
  rw [entry, bind_eq_ok_iff]
  constructor
  · rintro ⟨v, hv, h⟩
    obtain rfl := Except.ok.inj h
    exact ⟨rfl, hv⟩
  · rintro ⟨hn, hv⟩
    exact ⟨e.2, hv, by rw [hn]⟩

/-- Items are entries without their names. -/
theorem itemsOf_eq (read : UInt8 → Bytes → Except Fault Value) (b : Bytes) :
    itemsOf read b = List.map Prod.snd <$> entriesOf read b := by
  have hm (l : List Attribute) : l.mapM (fun a => read a.id a.data) =
      List.map Prod.snd <$> l.mapM (entry read) := by
    induction l with
    | nil => rfl
    | cons a l ih =>
      rw [List.mapM_cons, List.mapM_cons, ih, entry]
      cases read a.id a.data with
      | error f => rfl
      | ok v => cases l.mapM (entry read) <;> rfl
  rw [itemsOf, entriesOf, Walk.decode, Walk.decode, hm]
  cases (walk b).attributes.mapM (entry read) with
  | error f => rfl
  | ok found => cases (walk b).fault <;> rfl

/-- The contents of a container lie behind its word. -/
theorem length_contents_add_le {b inside : Bytes} (h : contents b = .ok inside) :
    4 + inside.length ≤ b.length := by
  obtain ⟨hd, hh, hi⟩ := bind_eq_ok_iff.mp h
  obtain ⟨hfour, hle⟩ := Header.length_bounds_of_parse hh
  obtain rfl := Except.ok.inj hi
  rw [List.length_take, List.length_drop]
  omega

/-- The word of a container holds the length of its contents. -/
theorem length_contents_lt {b inside : Bytes} (h : contents b = .ok inside) :
    inside.length < 0x1000000 := by
  obtain ⟨hd, hh, hi⟩ := bind_eq_ok_iff.mp h
  have hlt := Header.length_lt_of_parse hh
  obtain rfl := Except.ok.inj hi
  rw [List.length_take]
  omega

/-- A run is read attribute by attribute. -/
theorem entriesOf_eq_of_run {b : Bytes} {attributes : List Attribute} (h : Run b attributes)
    (read : UInt8 → Bytes → Except Fault Value) :
    entriesOf read b = attributes.mapM (entry read) := by
  rw [entriesOf, h.walk_eq, Walk.decode]
  cases attributes.mapM (entry read) <;> rfl

end Wire

end MicroBus

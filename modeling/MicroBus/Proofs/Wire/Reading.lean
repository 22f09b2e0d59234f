import MicroBus.Proofs.Wire.Entries

/-!
# Induction over what is read

A payload is read as one of six things: nothing, an integer or a double from some octets, a text,
or a container with one entry or item for each attribute in it. What holds of the first four, and of
a container if it holds of what is read of the payloads in it, holds of everything that is read.
-/

namespace MicroBus.Wire

variable {read : UInt8 → Bytes → Except Fault Value} {b : Bytes}

/-- A run is read as entries if its walk meets no fault, and each entry has the name and the payload
of its attribute. -/
theorem entriesOf_eq_ok_iff {entries : Entries} : entriesOf read b = .ok entries ↔
    (walk b).fault = none ∧
      List.Forall₂ (fun a e => nameText a = e.1 ∧ read a.id a.data = .ok e.2)
        (walk b).attributes entries := by
  rw [entriesOf, Walk.decode_eq_ok_iff, mapM_eq_ok_iff]
  simp only [entry_eq_ok_iff]

theorem itemsOf_eq_ok_iff {items : List Value} : itemsOf read b = .ok items ↔
    (walk b).fault = none ∧
      List.Forall₂ (fun a v => read a.id a.data = .ok v) (walk b).attributes items := by
  rw [itemsOf, Walk.decode_eq_ok_iff, mapM_eq_ok_iff]

/-- A scalar is read of as many octets as it has, which are not none. -/
theorem pos_of_leading {s : Scalar} {data : Bytes} {n : Nat} (h : leading s data = .ok n) :
    0 < data.length := by
  rw [leading] at h
  split at h
  · next hw =>
    have hs : 0 < s.width := by cases s <;> decide
    exact Nat.lt_of_lt_of_le hs (Bytes.atLeast_iff.mp hw)
  · cases h

/-- What holds of scalars and texts that are read, and of a container if it holds of what is read of
the payloads in it, holds of everything that is read. -/
theorem value_induction {motive : Nat → Bytes → Value → Prop}
    (null : ∀ levels data, motive (levels + 1) data .null)
    (int : ∀ levels data i, 0 < data.length → motive (levels + 1) data (.int i))
    (double : ∀ levels data d, 0 < data.length → motive (levels + 1) data (.double d))
    (text : ∀ levels data, motive (levels + 1) data (text data))
    (table : ∀ levels data entries,
      List.Forall₂ (fun a e => nameText a = e.1 ∧ motive levels a.data e.2)
        (walk data).attributes entries → motive (levels + 1) data (.table entries))
    (array : ∀ levels data items,
      List.Forall₂ (fun a v => motive levels a.data v) (walk data).attributes items →
        motive (levels + 1) data (.array items))
    {levels : Nat} {code : UInt8} {data : Bytes} {v : Value}
    (h : value levels code data = .ok v) : motive levels data v := by
  induction levels generalizing code data v with
  | zero => cases h
  | succ levels ih =>
    obtain ⟨t, -, h⟩ := bind_eq_ok_iff.mp h
    have hint {s : Scalar} (h : leadingInt s data = .ok v) : motive (levels + 1) data v := by
      obtain ⟨n, hn, hv⟩ := bind_eq_ok_iff.mp h
      obtain rfl := Except.ok.inj hv
      exact int levels data _ (pos_of_leading hn)
    cases t with
    | unspecified =>
      obtain rfl := Except.ok.inj h
      exact null levels data
    | int8 | int16 | int32 | int64 => exact hint h
    | double =>
      obtain ⟨n, hn, hv⟩ := bind_eq_ok_iff.mp h
      obtain rfl := Except.ok.inj hv
      exact double levels data _ (pos_of_leading hn)
    | string =>
      obtain rfl := Except.ok.inj h
      exact text levels data
    | table =>
      obtain ⟨entries, he, rfl⟩ := map_eq_ok_iff.mp h
      refine table levels data entries ((entriesOf_eq_ok_iff.mp he).2.imp ?_)
      exact fun a e read => ⟨read.1, ih read.2⟩
    | array =>
      obtain ⟨items, hi, rfl⟩ := map_eq_ok_iff.mp h
      exact array levels data items ((itemsOf_eq_ok_iff.mp hi).2.imp fun a v => ih)

end MicroBus.Wire

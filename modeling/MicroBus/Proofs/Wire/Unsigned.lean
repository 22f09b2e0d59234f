import MicroBus.Proofs.Wire.Filler

/-!
# Unsigned integers on the wire

The wire has signed integers only, so an unsigned integer arrives as the signed one with its bits.
Read as a number of 32 bits, where a negative integer stands for its two's complement, an integer is
mostly still what it was. Only the greatest unsigned integers are not: they have no such reading,
but the negative integers that arrive of them do.
-/

namespace MicroBus

namespace Value

/-! ## Numbers of 32 bits -/

/-- The number of 32 bits that an integer is, or whose two's complement it is. -/
def StandsFor (i : Int) (n : UInt32) : Prop :=
  i = n.toNat ∨ -0x80000000 ≤ i ∧ i < 0 ∧ i + 0x100000000 = n.toNat

theorem asUInt32?_int_eq_some_iff {i : Int64} {n : UInt32} :
    (int i).asUInt32? = some n ↔ StandsFor i.toInt n := by
  have hn := n.toNat_lt
  have low := i.le_toInt
  have hi := Wire.toInt_eq_ite i
  rw [asUInt32?, StandsFor, Option.ite_none_right_eq_some, Option.some.injEq, ← UInt32.toNat_inj,
    UInt64.toNat_toUInt32]
  split at hi <;> omega

theorem asUInt32?_uint_eq_some_iff {u : UInt64} {n : UInt32} :
    (uint u).asUInt32? = some n ↔ u.toNat = n.toNat := by
  have hn := n.toNat_lt
  rw [asUInt32?, Option.ite_none_right_eq_some, Option.some.injEq, ← UInt32.toNat_inj,
    UInt64.toNat_toUInt32]
  omega

/-! ## What arrives of an unsigned integer -/

/-- What arrives of an unsigned integer stands for the same number of 32 bits, unless the integer is
one of the greatest, whose signed values are negative integers of 32 bits. -/
theorem standsFor_receivedUInt_iff {u : UInt64} {n : UInt32} :
    StandsFor (receivedUInt u).toInt n ↔ u.toNat = n.toNat ∨
      0xFFFFFFFF80000000 ≤ u.toNat ∧ u.toNat % 0x100000000 = n.toNat := by
  have hu := u.toNat_lt
  have hn := n.toNat_lt
  rw [StandsFor, Wire.toInt_receivedUInt]
  split
  · next h =>
    rw [Wire.bmod_eq_ite h]
    split <;> omega
  · rw [Wire.bmod_eq_ite hu]
    split <;> omega

theorem asUInt32?_received_uint {u : UInt64} (h : u.toNat < 0xFFFFFFFF80000000) :
    (uint u).received.asUInt32? = (uint u).asUInt32? := by
  apply Option.ext
  intro n
  rw [received, asUInt32?_int_eq_some_iff, asUInt32?_uint_eq_some_iff, standsFor_receivedUInt_iff]
  omega

/-- The greatest unsigned integers are no numbers of 32 bits, but what arrives of them stands for
their low word. -/
theorem asUInt32?_received_uint_of_le {u : UInt64} (h : 0xFFFFFFFF80000000 ≤ u.toNat) :
    (uint u).asUInt32? = none ∧ (uint u).received.asUInt32? = some u.toUInt32 := by
  constructor
  · rw [asUInt32?, if_neg (by omega)]
  · rw [received, asUInt32?_int_eq_some_iff, standsFor_receivedUInt_iff]
    exact .inr ⟨h, (UInt64.toNat_toUInt32 u).symm⟩

/-! ## There and back -/

/-- What is written of a named value is read as another value, whatever octets follow. -/
def ArrivesAs (name : String) (v w : Value) : Prop :=
  ∃ b, encodeNamed name v = .ok b ∧ ∀ suffix, decodeNamed (b ++ suffix) = .ok (name, w)

theorem payloadSize_le_of_isScalar {v : Value} (h : v.IsScalar) : v.payloadSize ≤ 8 := by
  cases v with
  | null | bool | double => simp [payloadSize]
  | int | uint =>
    rw [payloadSize]
    split <;> decide
  | str | bytes | table | array => exact h.elim

/-- A scalar can be written under every name that fits. -/
theorem encodable_of_isScalar {name : String} {v : Value} (fits : NameFits name)
    (h : v.IsScalar) : Encodable name v := by
  have hsize : sizeAs name v ≤ Header.maxLength := by
    have := payloadSize_le_of_isScalar h
    have := Bytes.align_lt (3 + name.utf8ByteSize)
    rw [NameFits] at fits
    rw [sizeAs, Header.maxLength]
    omega
  cases v with
  | null | bool | int | uint | double => exact ⟨fits, trivial, Nat.zero_le _, hsize⟩
  | str | bytes | table | array => exact h.elim

theorem arrivesAs_received {name : String} {v : Value} (h : Encodable name v) :
    ArrivesAs name v v.received := by
  have written := encodeNamed_eq_ok_iff.mpr ⟨h, rfl⟩
  exact ⟨_, written,
    (filled_of_encodeNamed written).decodeNamed_eq h.name_fits h.names_fit h.depth_le⟩

end Value

/-- Read as a number of 32 bits, an integer is the same before it is sent and after: every signed
one, and every unsigned one below 2^64 - 2^31. Greater ones have no such reading before, and their
low word after. A signed integer is read as the number that it is or whose two's complement it is,
an unsigned one as the number that it is. -/
theorem unsigned_view_kept {name : String} (fits : Value.NameFits name) :
    (∀ i : Int64, ∃ v, Value.ArrivesAs name (.int i) v ∧
      v.asUInt32? = (Value.int i).asUInt32?) ∧
    (∀ u : UInt64, u.toNat < 2 ^ 64 - 2 ^ 31 → ∃ v, Value.ArrivesAs name (.uint u) v ∧
      v.asUInt32? = (Value.uint u).asUInt32?) ∧
    (∀ u : UInt64, 2 ^ 64 - 2 ^ 31 ≤ u.toNat → (Value.uint u).asUInt32? = none ∧
      ∃ v, Value.ArrivesAs name (.uint u) v ∧ v.asUInt32? = some u.toUInt32) ∧
    (∀ (i : Int64) (n : UInt32), (Value.int i).asUInt32? = some n ↔ Value.StandsFor i.toInt n) ∧
    ∀ (u : UInt64) (n : UInt32), (Value.uint u).asUInt32? = some n ↔ u.toNat = n.toNat := by
  have arrives {v : Value} (h : v.IsScalar) : Value.ArrivesAs name v v.received :=
    Value.arrivesAs_received (Value.encodable_of_isScalar fits h)
  refine ⟨fun i => ⟨_, arrives trivial, by rw [Value.received]⟩, fun u h => ?_, fun u h => ?_,
    fun i n => Value.asUInt32?_int_eq_some_iff, fun u n => Value.asUInt32?_uint_eq_some_iff⟩
  · exact ⟨_, arrives trivial, Value.asUInt32?_received_uint h⟩
  · obtain ⟨before, after⟩ := Value.asUInt32?_received_uint_of_le h
    exact ⟨before, _, arrives trivial, after⟩

/-- The least integer of 32 bits and the one below it, and the unsigned integers on both sides of
the bound. -/
theorem unsigned_view_kept_bounds :
    Value.NameFits "v" ∧
    (∃ v, Value.ArrivesAs "v" (.int (-2147483648)) v ∧ v.asUInt32? = some 2147483648) ∧
    (∃ v, Value.ArrivesAs "v" (.int (-2147483649)) v ∧ v.asUInt32? = none) ∧
    (∃ v, Value.ArrivesAs "v" (.uint 4294967295) v ∧ v.asUInt32? = some 4294967295) ∧
    (∃ v, Value.ArrivesAs "v" (.uint 18446744071562067967) v ∧ v.asUInt32? = none) ∧
    ∃ v, Value.ArrivesAs "v" (.uint 18446744071562067968) v ∧ v.asUInt32? = some 2147483648 := by
  have fits : Value.NameFits "v" := by
    rw [Value.NameFits]
    decide
  obtain ⟨signed, unsigned, greatest, -⟩ := unsigned_view_kept fits
  exact ⟨fits, signed (-2147483648), signed (-2147483649), unsigned 4294967295 (by decide),
    unsigned 18446744071562067967 (by decide), (greatest 18446744071562067968 (by decide)).2⟩

/-- The greatest unsigned integer is no number of 32 bits, but it is read back as -1, which stands
for the greatest of them. -/
theorem greatest_unsigned_view :
    let b : Bytes := [132, 0, 0, 16, 0, 1, 118, 0, 255, 255, 255, 255, 255, 255, 255, 255]
    encodeNamed "v" (.uint 18446744073709551615) = .ok b ∧ decodeNamed b = .ok ("v", .int (-1)) ∧
    (Value.uint 18446744073709551615).asUInt32? = none ∧
    (Value.int (-1)).asUInt32? = some 4294967295 := by
  refine ⟨?_, ?_, by decide, by decide⟩
  · cbv
  · cbv

end MicroBus

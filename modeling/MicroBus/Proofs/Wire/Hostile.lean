import Mathlib
import MicroBus.Proofs.Guarded.Decode
import MicroBus.Proofs.Wire.Amplification
import MicroBus.Proofs.Wire.Malformed

/-!
# Octets from a hostile sender

Any octets are read without a slice or a sum out of bounds. They are refused for being malformed
and for nothing else, and what is read of them is neither nested beyond the limit nor larger than
they are.
-/

namespace MicroBus

/-- A reading that is not stuck, comes to this result, and fails only for malformed octets. -/
structure Guarded.Safe {α : Type} (reading : Guarded α) (result : Except Fault α) : Prop where
  /-- The reading comes to the result. -/
  eq_of : reading = of result
  /-- A fault is one of malformed octets. -/
  malformed : OnlyMalformed result

/-- The payloads in a message body lie in its container. -/
theorem Fields.length_data_lt {b : Bytes} {fs : Fields} (h : parse b = .ok fs) :
    ∀ a ∈ fs.attributes, a.data.length < 0x1000000 := by
  unfold parse at h
  split at h
  · obtain rfl := Except.ok.inj h
    nofun
  · obtain ⟨inside, hc, h⟩ := bind_eq_ok_iff.mp h
    obtain ⟨attributes, hw, h⟩ := bind_eq_ok_iff.mp h
    obtain rfl := Except.ok.inj h
    have ha : attributes = (walk inside).attributes := by
      unfold Walk.toExcept at hw
      split at hw
      · exact (Except.ok.inj hw).symm
      · cases hw
    intro a hmem
    rw [ha] at hmem
    have hle := extent_le_of_mem hmem
    have hlt := Wire.length_contents_lt hc
    unfold Attribute.extent at hle
    omega

/-- No octets lead to a slice or a sum out of bounds or to calls nested without limit, on any
machine. They are read, or refused for being malformed. What is read lies in no more containers
than allowed, and its values and texts, at all levels together, take no more than the octets
themselves. -/
theorem reading_is_safe (m : Machine) (b : Bytes) :
    Guarded.Safe (Guarded.decodeTable m b) (decodeTable b) ∧
    Guarded.Safe (Guarded.decodeArray m b) (decodeArray b) ∧
    Guarded.Safe (Guarded.decodeNamed m b) (decodeNamed b) ∧
    Guarded.Safe (Guarded.fields m b) (Fields.parse b) ∧
    (∀ fs, Fields.parse b = .ok fs →
      Guarded.Safe (Guarded.asEntries m fs) fs.asEntries ∧
      ∀ field, OnlyMalformed (fs.word? field) ∧
        Guarded.Safe (Guarded.text? fs field) (.ok (fs.text? field)) ∧
        Guarded.Safe (Guarded.entries? m fs field) (fs.entries? field)) ∧
    (∀ entries, decodeTable b = .ok entries → (∀ e ∈ entries, e.2.depth ≤ maxDepth) ∧
      4 * Value.countEntries entries + Value.octetsOfEntries entries ≤ b.length) ∧
    (∀ items, decodeArray b = .ok items → (∀ v ∈ items, v.depth ≤ maxDepth) ∧
      4 * Value.countItems items + Value.octetsOfItems items ≤ b.length) ∧
    ∀ name v, decodeNamed b = .ok (name, v) → v.depth ≤ maxDepth ∧
      4 * v.count + v.octets ≤ b.length := by
  refine ⟨⟨Guarded.decodeTable_eq m b, decodeTable_malformed b⟩,
    ⟨Guarded.decodeArray_eq m b, decodeArray_malformed b⟩,
    ⟨Guarded.decodeNamed_eq m b, decodeNamed_malformed b⟩,
    ⟨Guarded.fields_eq m b, Fields.parse_malformed b⟩, ?_, fun _ => decodeTable_bounded,
    fun _ => decodeArray_bounded, fun _ _ => decodeNamed_bounded⟩
  intro fs hfs
  have hdata : ∀ a ∈ fs.attributes, a.data.length ≤ m.greatest := by
    intro a ha
    have hword := m.word_le
    have hlt := Fields.length_data_lt hfs a ha
    omega
  refine ⟨⟨Guarded.asEntries_eq m hdata, Fields.asEntries_malformed fs⟩, fun field => ?_⟩
  refine ⟨Fields.word?_malformed fs field, ⟨Guarded.text?_eq fs field, .ok _⟩, ?_⟩
  exact ⟨Guarded.entries?_eq m hdata field, Fields.entries?_malformed fs field⟩

/-- A length beyond the end is refused. A text in a table takes the room that it has, whether
the octets are read as a table, as an array, as a named value or as a message body. -/
theorem reading_is_safe_word32 :
    let m : Machine := ⟨0xFFFFFFFF, Nat.le_refl _⟩
    let b : Bytes := [0, 0, 0, 18, 131, 0, 0, 14, 0, 1, 97, 0, 0, 0, 0, 0, 120, 0]
    (∃ f, Guarded.decodeTable m [0, 0, 0, 8, 130, 255, 255, 255] = .of (.error f) ∧
      f.IsMalformed) ∧
    Guarded.asEntries m ⟨[⟨3, some [97], [0, 0, 0, 0, 120, 0]⟩]⟩ = .of (.ok [("a", .str "x")]) ∧
    4 * Value.countEntries [("a", .str "x")] + Value.octetsOfEntries [("a", .str "x")] ≤ b.length ∧
    4 * Value.countItems [.str "x"] + Value.octetsOfItems [.str "x"] ≤ b.length ∧
    4 * Value.count .null + Value.octets .null ≤ b.length := by
  intro m b
  refine ⟨?_, ?_⟩
  · obtain ⟨eq_of, malformed⟩ := (reading_is_safe m [0, 0, 0, 8, 130, 255, 255, 255]).1
    have hf : decodeTable [0, 0, 0, 8, 130, 255, 255, 255] =
        .error (.badLength 16777215 4) := by cbv
    rw [hf] at eq_of malformed
    exact ⟨_, eq_of, malformed _ rfl⟩
  · obtain ⟨-, -, -, -, parsed, table, array, named⟩ := reading_is_safe m b
    have hs : (Fields.mk [⟨3, some [97], [0, 0, 0, 0, 120, 0]⟩]).asEntries =
        .ok [("a", .str "x")] := by cbv
    refine ⟨?_, (table _ (by cbv)).2, (array _ (by cbv)).2, (named "" .null (by cbv)).2⟩
    rw [← hs]
    exact (parsed _ (by cbv)).1.eq_of

end MicroBus

import Mathlib.Data.Nat.Bitwise
import MicroBus.Proofs.Attribute.Parse

/-!
# The bits of the attribute word

Every bit of the word is a bit of one field of the header: `Header.testBit_toWord` names it for
each place. `Nat.eq_of_testBit_eq` turns that into an equation with the word whose fields are
shifted and masked, so a field that is too wide loses its upper bits and leaves its neighbours as
they are. Taken apart, any word gives fields that make it up again, and any header gives back its
fields, each cut to its bits.
-/

namespace MicroBus

namespace Bytes

/-- The octets of a word, its highest eight bits first. -/
def ofUInt32 (w : UInt32) : Bytes :=
  [(w >>> 24).toUInt8, (w >>> 16).toUInt8, (w >>> 8).toUInt8, w.toUInt8]

/-- The word at the head of some octets. -/
def firstWord (b : Bytes) : UInt32 := UInt32.ofNat (ofBigEndian (b.take 4))

theorem toNat_firstWord (b : Bytes) : (firstWord b).toNat = ofBigEndian (b.take 4) := by
  have lt := ofBigEndian_lt (b.take 4)
  have le : 256 ^ (b.take 4).length ≤ 256 ^ 4 :=
    Nat.pow_le_pow_right (by decide) (List.length_take_le 4 b)
  rw [firstWord, UInt32.toNat_ofNat']
  exact Nat.mod_eq_of_lt (Nat.lt_of_lt_of_le lt le)

/-- The four digits of a word are the word shifted down by whole octets. -/
theorem bigEndian_toNat (w : UInt32) : bigEndian 4 w.toNat = ofUInt32 w := by
  have octet (shift : UInt32) :
      (w >>> shift).toUInt8 = UInt8.ofNat (w.toNat / 2 ^ (shift.toNat % 32)) := by
    apply UInt8.toNat_inj.mp
    rw [UInt32.toNat_toUInt8, UInt32.toNat_shiftRight, Nat.shiftRight_eq_div_pow,
      UInt8.toNat_ofNat']
  have hlast : w.toUInt8 = UInt8.ofNat w.toNat := rfl
  rw [ofUInt32, octet, octet, octet, hlast]
  simp [bigEndian, Nat.div_div_eq_div_mul]

/-- A word is read back off its octets, whatever octets follow. -/
theorem firstWord_append (w : UInt32) (rest : Bytes) : firstWord (ofUInt32 w ++ rest) = w := by
  rw [firstWord, ← bigEndian_toNat, List.take_left' (length_bigEndian 4 _),
    ofBigEndian_bigEndian_of_lt w.toNat_lt, UInt32.ofNat_toNat]

end Bytes

namespace Header

/-! ## Masks -/

/-- The bits of a word that hold the length. -/
def lengthMask : UInt32 := 0x00FFFFFF

/-- The bits of a word that hold the identifier. -/
def idMask : UInt32 := 0x7F000000

/-- The bit of a word that announces a name. -/
def extendedMask : UInt32 := 0x80000000

theorem testBit_lengthMask (i : Nat) : lengthMask.toNat.testBit i = decide (i < 24) :=
  Nat.testBit_two_pow_sub_one 24 i

theorem testBit_idMask (i : Nat) : idMask.toNat.testBit i = decide (24 ≤ i ∧ i < 31) := by
  have hmask : idMask.toNat = (2 ^ 7 - 1) <<< 24 := rfl
  rw [hmask, Nat.testBit_shiftLeft, Nat.testBit_two_pow_sub_one, ← Bool.decide_and]
  exact decide_eq_decide.mpr (by omega)

theorem testBit_extendedMask (i : Nat) : extendedMask.toNat.testBit i = decide (i = 31) := by
  have hmask : extendedMask.toNat = 2 ^ 31 := rfl
  rw [hmask, Nat.testBit_two_pow]
  exact decide_eq_decide.mpr eq_comm

/-- The word of a header, with each field shifted to its place and masked. -/
def masked (h : Header) : UInt32 :=
  h.id.toUInt32 <<< 24 &&& idMask ||| UInt32.ofNat h.length &&& lengthMask |||
    if h.extended then extendedMask else 0

/-- The fields of a word, each masked and shifted down. -/
def unmasked (w : UInt32) : Header where
  id := ((w &&& idMask) >>> 24).toUInt8
  length := (w &&& lengthMask).toNat
  extended := w &&& extendedMask ≠ 0

/-! ## The field of each bit -/

/-- The bit that a header has at a place of its word: the length from the lowest bit on, seven bits
of the identifier above it, and at the top whether there is a name. -/
def bit (h : Header) (i : Nat) : Bool :=
  if i < 24 then h.length.testBit i
  else if i < 31 then h.id.toNat.testBit (i - 24)
  else i = 31 && h.extended

theorem testBit_toWord (h : Header) (i : Nat) : h.toWord.toNat.testBit i = h.bit i := by
  -- The length is the lowest digit, and above it come the identifier and what says of a name.
  have hword : h.toWord.toNat =
      2 ^ 24 * (2 ^ 7 * h.extended.toNat + h.id.toNat % 2 ^ 7) + h.length % 2 ^ 24 := by
    rw [toNat_toWord]
    cases h.extended <;> simp <;> omega
  rw [hword, Nat.testBit_two_pow_mul_add _ (Nat.mod_lt _ (by decide)),
    Nat.testBit_two_pow_mul_add _ (Nat.mod_lt _ (by decide)), Nat.testBit_mod_two_pow,
    Nat.testBit_mod_two_pow, Nat.testBit_bool_toNat, bit]
  by_cases hlength : i < 24
  · simp [hlength]
  · by_cases hid : i < 31
    · simp [hlength, hid, show i - 24 < 7 by omega]
    · have htop : i - 24 - 7 = 0 ↔ i = 31 := by omega
      simp only [hlength, hid, show ¬ i - 24 < 7 by omega, if_false, htop]

theorem testBit_masked (h : Header) (i : Nat) : h.masked.toNat.testBit i = h.bit i := by
  have hshift : UInt32.toNat 24 % 32 = 24 := rfl
  have htop : (if h.extended then extendedMask else 0).toNat.testBit i =
      (decide (i = 31) && h.extended) := by
    cases h.extended with
    | false => simp
    | true => simp [testBit_extendedMask]
  simp only [masked, UInt32.toNat_or, UInt32.toNat_and, UInt32.toNat_shiftLeft,
    UInt8.toNat_toUInt32, UInt32.toNat_ofNat', hshift, Nat.testBit_or, Nat.testBit_and,
    Nat.testBit_mod_two_pow, Nat.testBit_shiftLeft, testBit_idMask, testBit_lengthMask, htop]
  rw [bit]
  by_cases hlength : i < 24
  · simp [hlength, show i < 32 by omega, show ¬ 24 ≤ i by omega, show i ≠ 31 by omega]
  · by_cases hid : i < 31
    · simp [hlength, hid, show i < 32 by omega, show 24 ≤ i by omega, show i ≠ 31 by omega]
    · -- No mask but that of the highest bit reaches so far.
      simp [hlength, hid]

/-- Shifting and masking make the word that quotients and remainders make. -/
theorem toWord_eq_masked (h : Header) : h.toWord = h.masked := by
  apply UInt32.toNat_inj.mp
  apply Nat.eq_of_testBit_eq
  intro i
  rw [testBit_toWord, testBit_masked]

theorem ofWord_eq_unmasked (w : UInt32) : ofWord w = unmasked w := by
  have lt := w.toNat_lt
  rw [ofWord, unmasked, mk.injEq]
  refine ⟨?_, ?_, ?_⟩
  · have hmask : idMask.toNat >>> 24 = 2 ^ 7 - 1 := rfl
    have hshift : UInt32.toNat 24 % 32 = 24 := rfl
    apply UInt8.toNat_inj.mp
    rw [UInt8.toNat_ofNat', UInt32.toNat_toUInt8, UInt32.toNat_shiftRight, UInt32.toNat_and, hshift,
      Nat.shiftRight_and_distrib, hmask, Nat.and_two_pow_sub_one_eq_mod, Nat.shiftRight_eq_div_pow]
  · exact (Nat.and_two_pow_sub_one_eq_mod w.toNat 24).symm
  · have hmask : extendedMask.toNat = 2 ^ 31 := rfl
    have hand : (w &&& extendedMask).toNat = (w.toNat.testBit 31).toNat * 2 ^ 31 := by
      rw [UInt32.toNat_and, hmask, Nat.and_two_pow]
    apply decide_eq_decide.mpr
    rw [← UInt32.toNat_inj.ne, hand, Nat.toNat_testBit, UInt32.toNat_zero]
    omega

/-! ## Words and headers, there and back -/

/-- The fields of a word make up the word. -/
theorem toWord_ofWord (w : UInt32) : (ofWord w).toWord = w := by
  have lt := w.toNat_lt
  apply UInt32.toNat_inj.mp
  rw [toNat_toWord]
  simp only [ofWord, UInt8.toNat_ofNat', decide_eq_true_eq]
  split <;> omega

theorem encode_eq_ofUInt32 (h : Header) : h.encode = Bytes.ofUInt32 h.toWord :=
  Bytes.bigEndian_toNat h.toWord

example : encode ⟨0x7F, 0x123456, true⟩ = [0xFF, 0x12, 0x34, 0x56] := by decide

theorem firstWord_encode (h : Header) : Bytes.firstWord h.encode = h.toWord := by
  rw [encode_eq_ofUInt32, ← List.append_nil (Bytes.ofUInt32 h.toWord), Bytes.firstWord_append]

/-! ## Reading a header -/

/-- A header is read exactly where there is a word whose length covers the word itself and is at
hand, and it is the header of that word. -/
theorem parse_eq_ok_iff {b : Bytes} {h : Header} :
    parse b = .ok h ↔ 4 ≤ b.length ∧ 4 ≤ (Bytes.firstWord b).toNat % 0x1000000 ∧
      (Bytes.firstWord b).toNat % 0x1000000 ≤ b.length ∧ h = ofWord (Bytes.firstWord b) := by
  by_cases hb : 4 ≤ b.length
  · obtain ⟨w, lt, he⟩ := Bytes.exists_word hb
    have hword : Bytes.firstWord b = UInt32.ofNat w := by
      rw [Bytes.firstWord, he, List.take_left' (Bytes.length_bigEndian 4 w),
        Bytes.ofBigEndian_bigEndian_of_lt lt]
    have hlength : b.length = 4 + (b.drop 4).length := by
      rw [List.length_drop]
      omega
    have hp := parse_word lt (b.drop 4)
    rw [← he, ← hlength] at hp
    rw [hp, hword, ofWord_ofNat lt, UInt32.toNat_ofNat', Nat.mod_eq_of_lt lt]
    split
    · next hl =>
      rw [Except.ok.injEq, eq_comm (b := h)]
      exact ⟨fun heq => ⟨hb, hl.1, hl.2, heq⟩, fun ⟨_, _, _, heq⟩ => heq⟩
    · next hl =>
      constructor
      · intro h
        cases h
      · rintro ⟨-, four_le, le, -⟩
        exact (hl ⟨four_le, le⟩).elim
  · rw [parse_of_length_lt (Nat.lt_of_not_le hb)]
    constructor
    · intro h
      cases h
    · rintro ⟨four_le, -⟩
      exact (hb four_le).elim

theorem id_lt_of_parse {b : Bytes} {h : Header} (hp : parse b = .ok h) : h.id.toNat < 0x80 := by
  obtain ⟨-, -, -, rfl⟩ := parse_eq_ok_iff.mp hp
  rw [ofWord, UInt8.toNat_ofNat']
  omega

/-- A header whose length fits its field is read off its own octets exactly if its identifier fits
too and what it announces is at hand. -/
theorem parse_encode_iff {id : UInt8} {length : Nat} {extended : Bool} {rest : Bytes}
    (le_max : length ≤ maxLength) :
    parse (encode ⟨id, length, extended⟩ ++ rest) = .ok ⟨id, length, extended⟩ ↔
      id.toNat < 0x80 ∧ 4 ≤ length ∧ length - 4 ≤ rest.length := by
  constructor
  · intro hp
    obtain ⟨four_le, le⟩ := length_bounds_of_parse hp
    rw [List.length_append, length_encode] at le
    exact ⟨id_lt_of_parse hp, four_le, Nat.sub_le_iff_le_add'.mpr le⟩
  · rintro ⟨id_lt, four_le, le⟩
    exact parse_encode extended id_lt four_le le_max (Nat.sub_le_iff_le_add'.mp le)

/-- The fields of the attribute word do not interfere. Any word is taken apart into fields that are
written as that word, highest octet first, and taking it apart with masks and shifts comes to the
same. Any header, however wide its fields, is written as its fields shifted and masked; each bit of
the word is a bit of one field, and the header of the word has the fields, each cut to its bits. A
header is read exactly of octets that begin with a word whose low twenty-four bits are a length of
at least four that is at hand, and it is the header of that word. So a header that was made is read
off its own octets exactly if its identifier has seven bits and its length is at least four and at
hand. -/
theorem word_fields_apart :
    (∀ w, (ofWord w).encode = Bytes.ofUInt32 w ∧ ofWord w = unmasked w) ∧
    (∀ h : Header, h.encode = Bytes.ofUInt32 h.masked ∧
      (∀ i, (Bytes.firstWord h.encode).toNat.testBit i = h.bit i) ∧
      ofWord (Bytes.firstWord h.encode) = ⟨h.id % 0x80, h.length % 0x1000000, h.extended⟩) ∧
    (∀ b h, parse b = .ok h ↔ 4 ≤ b.length ∧ 4 ≤ (Bytes.firstWord b).toNat % 0x1000000 ∧
      (Bytes.firstWord b).toNat % 0x1000000 ≤ b.length ∧ h = ofWord (Bytes.firstWord b)) ∧
    ∀ id length extended h, make id length extended = .ok h →
      h = ⟨id, length, extended⟩ ∧ ∀ rest, parse (h.encode ++ rest) = .ok h ↔
        id.toNat < 0x80 ∧ 4 ≤ length ∧ length - 4 ≤ rest.length := by
  refine ⟨?_, ?_, fun _ _ => parse_eq_ok_iff, ?_⟩
  · intro w
    exact ⟨by rw [encode_eq_ofUInt32, toWord_ofWord], ofWord_eq_unmasked w⟩
  · intro h
    rw [firstWord_encode]
    exact ⟨toWord_eq_masked h ▸ encode_eq_ofUInt32 h, testBit_toWord h, ofWord_toWord h⟩
  · intro id length extended h made
    obtain ⟨le_max, rfl⟩ := make_eq_ok_iff.mp made
    exact ⟨rfl, fun rest => parse_encode_iff le_max⟩

/-- The greatest header is all ones, and it is read in front of as many octets as it announces but
not of one fewer. A header with an identifier of eight bits and a length of thirty-three has the
lower bits of each in its word. -/
theorem word_fields_apart_greatest :
    let h : Header := ⟨0x7F, 0xFFFFFF, true⟩
    make 0x7F 0xFFFFFF true = .ok h ∧ h.encode = [255, 255, 255, 255] ∧
      parse (h.encode ++ List.replicate 0xFFFFFB 0) = .ok h ∧
      parse (h.encode ++ List.replicate 0xFFFFFA 0) ≠ .ok h ∧
      ofWord (Bytes.firstWord (encode ⟨0xFF, 0x101000005, false⟩)) = ⟨0x7F, 5, false⟩ := by
  intro h
  obtain ⟨-, cut, -, read⟩ := word_fields_apart
  have made : make 0x7F 0xFFFFFF true = .ok h := rfl
  obtain ⟨-, read⟩ := read _ _ _ h made
  refine ⟨made, by decide, ?_, ?_, (cut _).2.2⟩
  · exact (read _).mpr ⟨by decide, by decide, by rw [List.length_replicate]⟩
  · intro hp
    have le := ((read _).mp hp).2.2
    rw [List.length_replicate] at le
    exact absurd le (by decide)

end Header

end MicroBus

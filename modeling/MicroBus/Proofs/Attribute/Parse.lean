import MicroBus.Attribute.Grammar
import MicroBus.Proofs.Bytes

/-!
# Reading one attribute

A header is read off the four octets of its word, and an attribute is read exactly where the
grammar has one. Reading takes the attribute with its filler and nothing else, and the filler
falls short of the word boundary only where the octets end.
-/

namespace MicroBus

namespace Bytes

/-- Any four octets are a word. -/
theorem exists_word {b : Bytes} (h : 4 ≤ b.length) :
    ∃ w < 0x100000000, b = bigEndian 4 w ++ b.drop 4 := by
  have hl : (b.take 4).length = 4 := by
    rw [List.length_take]
    omega
  have hw := ofBigEndian_lt (b.take 4)
  have he := bigEndian_ofBigEndian (b.take 4)
  rw [hl] at hw he
  refine ⟨ofBigEndian (b.take 4), hw, ?_⟩
  rw [he, List.take_append_drop]

/-- A word is the zero word only for the number zero. -/
theorem bigEndian_ne_zeroWord {w : Nat} (h : w ≠ 0) (lt : w < 0x100000000) :
    bigEndian 4 w ≠ zeroWord := by
  intro he
  have hw := congrArg ofBigEndian he
  rw [ofBigEndian_bigEndian_of_lt lt] at hw
  exact h hw

end Bytes

namespace Header

/-- The fields of a word are its bits. -/
theorem ofWord_ofNat {w : Nat} (lt : w < 0x100000000) : ofWord (UInt32.ofNat w) =
    ⟨UInt8.ofNat (w / 0x1000000 % 0x80), w % 0x1000000, w / 0x80000000 = 1⟩ := by
  simp only [ofWord, UInt32.toNat_ofNat', Nat.mod_eq_of_lt lt]

/-- In a word each field keeps to its bits. -/
theorem toNat_toWord (h : Header) : h.toWord.toNat = (if h.extended then 0x80000000 else 0)
    + h.id.toNat % 0x80 * 0x1000000 + h.length % 0x1000000 := by
  rw [toWord, UInt32.toNat_ofNat']
  split <;> omega

/-- The octets of a header are those of its word, in which each field keeps to its bits. -/
theorem encode_eq (h : Header) : h.encode = Bytes.bigEndian 4
    ((if h.extended then 0x80000000 else 0) + h.id.toNat % 0x80 * 0x1000000
      + h.length % 0x1000000) := by
  rw [encode, toNat_toWord]

/-- A word gives back the fields that it was made of, each cut to its bits. -/
theorem ofWord_toWord (h : Header) :
    ofWord h.toWord = ⟨h.id % 0x80, h.length % 0x1000000, h.extended⟩ := by
  rw [ofWord, toNat_toWord, mk.injEq]
  refine ⟨?_, ?_, ?_⟩
  · apply UInt8.toNat_inj.mp
    rw [UInt8.toNat_ofNat', UInt8.toNat_mod, show (0x80 : UInt8).toNat = 0x80 from rfl]
    split <;> omega
  · split <;> omega
  · cases h.extended <;> simp <;> omega

/-- The word of a header whose fields keep to their bits. -/
theorem exists_word {h : Header} (id_lt : h.id.toNat < 0x80) (le_max : h.length ≤ maxLength) :
    ∃ w < 0x100000000, h.encode = Bytes.bigEndian 4 w ∧
      (⟨UInt8.ofNat (w / 0x1000000 % 0x80), w % 0x1000000, w / 0x80000000 = 1⟩ : Header) = h := by
  have lt := h.toWord.toNat_lt
  have hid : h.id % 0x80 = h.id := by
    apply UInt8.toNat_inj.mp
    rw [UInt8.toNat_mod]
    exact Nat.mod_eq_of_lt id_lt
  have hl : h.length % 0x1000000 = h.length := Nat.mod_eq_of_lt (Nat.lt_succ_of_le le_max)
  refine ⟨h.toWord.toNat, lt, rfl, ?_⟩
  rw [← ofWord_ofNat lt, UInt32.ofNat_toNat, ofWord_toWord, hid, hl]

/-- A header is read if and only if its length covers the word and is at hand. -/
theorem parse_word {w : Nat} (lt : w < 0x100000000) (b : Bytes) :
    parse (Bytes.bigEndian 4 w ++ b) =
      if 4 ≤ w % 0x1000000 ∧ w % 0x1000000 ≤ 4 + b.length then
        .ok ⟨UInt8.ofNat (w / 0x1000000 % 0x80), w % 0x1000000, w / 0x80000000 = 1⟩
      else .error (.badLength (w % 0x1000000) (4 + b.length)) := by
  have ht : (Bytes.bigEndian 4 w ++ b).take 4 = Bytes.bigEndian 4 w :=
    List.take_left' (Bytes.length_bigEndian 4 w)
  have hl : (Bytes.bigEndian 4 w ++ b).length = 4 + b.length := by
    rw [List.length_append, Bytes.length_bigEndian]
  have hf : Bytes.atLeast 4 (Bytes.bigEndian 4 w ++ b) = true := by
    rw [Bytes.atLeast_iff, hl]
    omega
  rw [parse, if_pos hf, ht, Bytes.ofBigEndian_bigEndian_of_lt lt, ofWord_ofNat lt]
  simp only [Bytes.atLeast_iff, hl]

theorem length_lt_of_parse {b : Bytes} {h : Header} (hp : parse b = .ok h) :
    h.length < 0x1000000 := by
  unfold parse at hp
  split at hp
  · simp only at hp
    split at hp
    · obtain rfl := Except.ok.inj hp
      exact Nat.mod_lt _ (by decide)
    · cases hp
  · cases hp

/-- A header is read off its own octets if its fields fit and its length is at hand. -/
theorem parse_encode {id : UInt8} {length : Nat} {b : Bytes} (extended : Bool)
    (id_lt : id.toNat < 0x80) (four_le : 4 ≤ length) (le_max : length ≤ maxLength)
    (le : length ≤ 4 + b.length) :
    parse (encode ⟨id, length, extended⟩ ++ b) = .ok ⟨id, length, extended⟩ := by
  obtain ⟨w, lt, he, hw⟩ := exists_word (h := ⟨id, length, extended⟩) id_lt le_max
  have hl : w % 0x1000000 = length := congrArg Header.length hw
  rw [he, parse_word lt, hl, if_pos ⟨four_le, le⟩, ← hw, hl]

theorem make_eq_ok_iff {id : UInt8} {length : Nat} {extended : Bool} {h : Header} :
    make id length extended = .ok h ↔ length ≤ maxLength ∧ h = ⟨id, length, extended⟩ := by
  rw [make]
  split
  · next hl =>
    constructor
    · intro h
      cases h
    · rintro ⟨hle, -⟩
      omega
  · next hl =>
    rw [Except.ok.injEq, eq_comm (a := h)]
    exact (and_iff_right (Nat.le_of_not_lt hl)).symm

theorem parse_of_length_lt {b : Bytes} (h : b.length < 4) :
    parse b = .error (.truncated .attributeHeader 4 b.length) := by
  have hf : ¬ Bytes.atLeast 4 b = true := by
    rw [Bytes.atLeast_iff]
    omega
  rw [parse, if_neg hf]

end Header

namespace Attribute

/-- The inside of an attribute, split by whether its word announces a name. -/
def split (extended : Bool) (inside : Bytes) : Except Fault (Option Bytes × Bytes) :=
  if extended then do
    let (name, data) ← splitName inside
    .ok (some name, data)
  else .ok (none, inside)

/-- A name is split off exactly where its length, its octets and its terminator fit. -/
theorem splitName_eq_ok_iff {inside name data : Bytes} :
    splitName inside = .ok (name, data) ↔ Inside true inside (some name) data := by
  constructor
  · intro h
    unfold splitName at h
    split at h
    · next hi lo rest =>
      simp only at h
      split at h
      · next x tail hd =>
        obtain ⟨rfl, rfl⟩ := Prod.mk.inj (Except.ok.inj h)
        have hw := Bytes.bigEndian_ofBigEndian [hi, lo]
        have hs := Bytes.ofBigEndian_lt [hi, lo]
        rw [show [hi, lo].length = 2 from rfl] at hw hs
        generalize Bytes.ofBigEndian [hi, lo] = size at hd hw hs
        have hl : (rest.take size).length = size := by
          have := congrArg List.length hd
          rw [List.length_drop, List.length_cons] at this
          rw [List.length_take]
          omega
        have hr : rest = rest.take size ++ 0 :: tail := by
          rw [← hd, List.take_append_drop]
        have hi : hi :: lo :: rest =
            Bytes.bigEndian 2 (rest.take size).length ++ rest.take size ++ 0 :: tail := by
          rw [hl, List.append_assoc, ← hr]
          exact congrArg (· ++ rest) hw.symm
        have hn := Inside.named (rest.take size) tail (by rw [hl]; exact hs)
        rwa [← hi, hl] at hn
      · cases h
    · cases h
  · intro h
    cases h with
    | named name rest h =>
      have hb : Bytes.bigEndian 2 name.length =
          [UInt8.ofNat (name.length / 256), UInt8.ofNat name.length] := rfl
      have hv := @Bytes.ofBigEndian_bigEndian_of_lt 2 name.length h
      rw [hb] at hv ⊢
      simp only [splitName, List.cons_append, List.nil_append, hv, List.drop_left,
        List.take_left]

theorem split_eq_ok_iff {extended : Bool} {inside : Bytes} {name : Option Bytes} {data : Bytes} :
    split extended inside = .ok (name, data) ↔ Inside extended inside name data := by
  cases extended with
  | false =>
    constructor
    · intro h
      obtain ⟨rfl, rfl⟩ := Prod.mk.inj (Except.ok.inj h)
      exact .plain inside
    · rintro ⟨⟩
      rfl
  | true =>
    constructor
    · intro h
      cases hs : splitName inside with
      | error f => simp [split, hs, bind, Except.bind] at h
      | ok nd =>
        simp only [split, hs, bind, Except.bind, if_true] at h
        obtain ⟨rfl, rfl⟩ := Prod.mk.inj (Except.ok.inj h)
        exact splitName_eq_ok_iff.mp hs
    · intro h
      cases name with
      | none => cases h
      | some n => simp only [split, splitName_eq_ok_iff.mpr h, bind, Except.bind, if_true]

/-- Reading an attribute is reading its header and splitting what the header covers. -/
theorem parse_eq (b : Bytes) : parse b = (do
    let h ← Header.parse b
    let nd ← split h.extended ((b.drop 4).take (h.length - 4))
    .ok (⟨h.id, nd.1, nd.2⟩, b.drop (Bytes.align h.length))) := by
  rw [parse]
  refine congrArg _ (funext fun h => ?_)
  by_cases he : h.extended = true
  · simp only [he, if_true, split]
    cases splitName ((b.drop 4).take (h.length - 4)) <;> rfl
  · simp only [he, split]
    rfl

/-- Reading an attribute is reading its word and splitting what the word covers. -/
theorem parse_word {w : Nat} (lt : w < 0x100000000) {b : Bytes} (four_le : 4 ≤ w % 0x1000000)
    (le : w % 0x1000000 ≤ 4 + b.length) :
    parse (Bytes.bigEndian 4 w ++ b) =
      (split (w / 0x80000000 = 1) (b.take (w % 0x1000000 - 4))).map fun nd =>
        (⟨UInt8.ofNat (w / 0x1000000 % 0x80), nd.1, nd.2⟩,
          b.drop (Bytes.align (w % 0x1000000) - 4)) := by
  have hal := Bytes.le_align (w % 0x1000000)
  have hd : (Bytes.bigEndian 4 w ++ b).drop 4 = b :=
    List.drop_left' (Bytes.length_bigEndian 4 w)
  have hr : (Bytes.bigEndian 4 w ++ b).drop (Bytes.align (w % 0x1000000)) =
      b.drop (Bytes.align (w % 0x1000000) - 4) := by
    rw [List.drop_append, Bytes.length_bigEndian,
      List.drop_of_length_le (by rw [Bytes.length_bigEndian]; omega), List.nil_append]
  rw [parse_eq, Header.parse_word lt, if_pos ⟨four_le, le⟩]
  simp only [bind, Except.bind, hd, hr]
  cases split (w / 0x80000000 = 1) (b.take (w % 0x1000000 - 4)) <;> rfl

/-- A header and the inside that it announces spell an attribute. -/
theorem spells_encode {id : UInt8} {extended : Bool} {inside : Bytes} {name : Option Bytes}
    {data : Bytes} (hid : id.toNat < 0x80) (fits : 4 + inside.length ≤ Header.maxLength)
    (split : Inside extended inside name data) :
    Spells (Header.encode ⟨id, 4 + inside.length, extended⟩ ++ inside) ⟨id, name, data⟩ := by
  obtain ⟨w, lt, he, hw⟩ := Header.exists_word (h := ⟨id, 4 + inside.length, extended⟩) hid fits
  obtain ⟨hi, hl, hx⟩ := Header.mk.inj hw
  have hs := Spells.word lt hl (hx ▸ split)
  rwa [hi, ← he] at hs

/-- Octets that spell an attribute are no shorter than its word. -/
theorem Spells.four_le {octets : Bytes} {a : Attribute} (h : Spells octets a) :
    4 ≤ octets.length := by
  cases h
  rw [List.length_append, Bytes.length_bigEndian]
  omega

theorem Spells.length_lt {octets : Bytes} {a : Attribute} (h : Spells octets a) :
    octets.length < 0x1000000 := by
  cases h
  rw [List.length_append, Bytes.length_bigEndian]
  omega

/-- What is spelled and filled up is read, and what follows is left. -/
theorem Spells.parse_eq {octets gap rest : Bytes} {a : Attribute} (h : Spells octets a)
    (filled : octets.length + gap.length = Bytes.align octets.length ∨
      rest = [] ∧ octets.length + gap.length < Bytes.align octets.length) :
    parse (octets ++ gap ++ rest) = .ok (a, rest) := by
  cases h with
  | @word w inside name data lt length_eq hs =>
    rw [List.length_append, Bytes.length_bigEndian, ← length_eq] at filled
    have ht : (inside ++ (gap ++ rest)).take (w % 0x1000000 - 4) = inside :=
      List.take_left' (by omega)
    have hd : (inside ++ (gap ++ rest)).drop (Bytes.align (w % 0x1000000) - 4) = rest := by
      rw [List.drop_append, List.drop_of_length_le (by omega), List.nil_append, List.drop_append]
      rcases filled with hf | ⟨rfl, hf⟩
      · have hz : Bytes.align (w % 0x1000000) - 4 - inside.length - gap.length = 0 := by omega
        rw [List.drop_of_length_le (by omega), List.nil_append, hz, List.drop_zero]
      · rw [List.drop_of_length_le (by omega), List.drop_nil, List.append_nil]
    rw [List.append_assoc, List.append_assoc, parse_word lt (by omega), ht, hd,
      split_eq_ok_iff.mpr hs]
    · rfl
    · rw [List.length_append]
      omega

/-- What is read was spelled and filled up, and the filler is short only at the end. -/
theorem exists_spells_of_parse {b rest : Bytes} {a : Attribute} (h : parse b = .ok (a, rest)) :
    ∃ octets gap, b = octets ++ gap ++ rest ∧ Spells octets a ∧
      (octets.length + gap.length = Bytes.align octets.length ∨
        rest = [] ∧ octets.length + gap.length < Bytes.align octets.length) := by
  by_cases hb : 4 ≤ b.length
  · obtain ⟨w, lt, he⟩ := Bytes.exists_word hb
    generalize b.drop 4 = tail at he
    subst he
    by_cases hl : 4 ≤ w % 0x1000000 ∧ w % 0x1000000 ≤ 4 + tail.length
    · rw [parse_word lt hl.1 hl.2] at h
      cases hs : split (w / 0x80000000 = 1) (tail.take (w % 0x1000000 - 4)) with
      | error f => rw [hs] at h; cases h
      | ok nd =>
        rw [hs] at h
        obtain ⟨rfl, rfl⟩ := Prod.mk.inj (Except.ok.inj h)
        have hal := Bytes.le_align (w % 0x1000000)
        have hin : (tail.take (w % 0x1000000 - 4)).length = w % 0x1000000 - 4 := by
          rw [List.length_take]
          omega
        refine ⟨Bytes.bigEndian 4 w ++ tail.take (w % 0x1000000 - 4),
          (tail.drop (w % 0x1000000 - 4)).take
            (Bytes.align (w % 0x1000000) - w % 0x1000000), ?_, ?_, ?_⟩
        · have hd : tail.drop (Bytes.align (w % 0x1000000) - 4) =
              (tail.drop (w % 0x1000000 - 4)).drop
                (Bytes.align (w % 0x1000000) - w % 0x1000000) := by
            rw [List.drop_drop]
            congr 1
            omega
          rw [hd, List.append_assoc, List.append_assoc, List.take_append_drop,
            List.take_append_drop]
        · exact .word lt (by omega) (split_eq_ok_iff.mp hs)
        · have ho : (Bytes.bigEndian 4 w ++ tail.take (w % 0x1000000 - 4)).length =
              w % 0x1000000 := by
            rw [List.length_append, Bytes.length_bigEndian, hin]
            omega
          rw [ho, List.length_take, List.length_drop, List.drop_eq_nil_iff]
          omega
    · rw [parse, Header.parse_word lt, if_neg hl] at h
      cases h
  · rw [parse, Header.parse_of_length_lt (by omega)] at h
    cases h

end Attribute

end MicroBus

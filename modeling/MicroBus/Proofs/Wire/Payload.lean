import MicroBus.Proofs.Wire.Entries
import MicroBus.Wire.Filled
import MicroBus.Wire.Received

/-!
# Payloads of scalars and text

The payload of a scalar is read as the value that arrives of it, whatever its width, and zero
words in front of a text change nothing of what is read.
-/

namespace MicroBus

namespace Wire

/-! ## Scalars -/

theorem leading_bigEndian (s : Scalar) {n : Nat} (h : n < 256 ^ s.width) :
    leading s (Bytes.bigEndian s.width n) = .ok n := by
  have hl := Bytes.length_bigEndian s.width n
  have hf : Bytes.atLeast s.width (Bytes.bigEndian s.width n) = true :=
    Bytes.atLeast_iff.mpr (Nat.le_of_eq hl.symm)
  have ht := List.take_of_length_le (Nat.le_of_eq hl)
  rw [leading, if_pos hf, ht, Bytes.ofBigEndian_bigEndian_of_lt h]

/-- The octets of a number are read as that number in two's complement. -/
theorem leadingInt_bigEndian (s : Scalar) (n : Nat) :
    leadingInt s (Bytes.bigEndian s.width n) =
      .ok (.int (Int64.ofInt (Int.bmod (n % 256 ^ s.width : Nat) (1 <<< (8 * s.width))))) := by
  have hb : Bytes.bigEndian s.width n = Bytes.bigEndian s.width (n % 256 ^ s.width) := by
    have h := Bytes.bigEndian_ofBigEndian (Bytes.bigEndian s.width n)
    rw [Bytes.length_bigEndian, Bytes.ofBigEndian_bigEndian] at h
    exact h.symm
  have hp : 0 < 256 ^ s.width := Nat.pow_pos (by decide)
  rw [leadingInt, hb, leading_bigEndian s (Nat.mod_lt _ hp)]
  rfl

/-- A signed integer by its bits. -/
theorem toInt_eq_ite (i : Int64) : i.toInt = if i.toUInt64.toNat < 0x8000000000000000 then
    (i.toUInt64.toNat : Int) else i.toUInt64.toNat - 0x10000000000000000 := by
  have h := BitVec.toInt_eq_toNat_cond i.toBitVec
  have hd : i.toUInt64.toNat < 0x8000000000000000 ↔ 2 * i.toBitVec.toNat < 2 ^ 64 := by
    change i.toBitVec.toNat < _ ↔ _
    omega
  simp only [hd]
  exact h

theorem bmod_eq_ite {n m : Nat} (h : n < m) :
    Int.bmod n m = if 2 * n < m then (n : Int) else n - m := by
  rw [Int.bmod_def, ← Int.natCast_emod, Nat.mod_eq_of_lt h]
  split <;> split <;> omega

/-- The low word of a signed integer that fits a word is the integer. -/
theorem bmod_low_word {i : Int64} (h : -0x80000000 ≤ i.toInt ∧ i.toInt < 0x80000000) :
    Int.bmod (i.toUInt64.toNat % 0x100000000 : Nat) 0x100000000 = i.toInt := by
  have hn := i.toUInt64.toNat_lt
  rw [toInt_eq_ite] at h ⊢
  rw [bmod_eq_ite (by omega)]
  split at h <;> split <;> omega

/-- The low word of a number is read as that word in two's complement. -/
theorem leadingInt_int32 (n : Nat) : leadingInt .int32 (Bytes.bigEndian 4 n) =
    .ok (.int (Int64.ofInt (Int.bmod (n % 0x100000000 : Nat) 0x100000000))) :=
  leadingInt_bigEndian .int32 n

theorem leadingInt_int64 {n : Nat} (h : n < 0x10000000000000000) :
    leadingInt .int64 (Bytes.bigEndian 8 n) =
      .ok (.int (Int64.ofInt (Int.bmod n 0x10000000000000000))) := by
  have hr := leadingInt_bigEndian .int64 n
  rw [show 256 ^ Scalar.int64.width = 0x10000000000000000 from rfl, Nat.mod_eq_of_lt h] at hr
  exact hr

/-- A payload is read as its type says. -/
theorem value_code (levels : Nat) (t : Tag) (data : Bytes) : value (levels + 1) t.code data =
    (match t with
    | .unspecified => .ok .null
    | .table => .table <$> entriesOf (value levels) data
    | .array => .array <$> itemsOf (value levels) data
    | .string => .ok (text data)
    | .int8 => leadingInt .int8 data
    | .int16 => leadingInt .int16 data
    | .int32 => leadingInt .int32 data
    | .int64 => leadingInt .int64 data
    | .double => do
      let n ← leading .double data
      .ok (.double ⟨UInt64.ofNat n⟩)) := by
  rw [value, Tag.ofCode_code]
  rfl

theorem value_int (levels : Nat) (i : Int64) :
    value (levels + 1) (Value.tag (.int i)).code (Value.payload (.int i)) = .ok (.int i) := by
  by_cases h : -0x80000000 ≤ i.toInt ∧ i.toInt < 0x80000000
  · rw [Value.tag, Value.payload, Value.payloadSize, if_pos h, if_pos h, value_code]
    simp only [leadingInt_int32, bmod_low_word h, Int64.ofInt_toInt]
  · have hb : Int.bmod i.toUInt64.toNat 0x10000000000000000 = i.toInt :=
      (BitVec.toInt_eq_toNat_bmod i.toBitVec).symm
    rw [Value.tag, Value.payload, Value.payloadSize, if_neg h, if_neg h, value_code]
    simp only [leadingInt_int64 i.toUInt64.toNat_lt, hb, Int64.ofInt_toInt]

/-- An unsigned integer loses the weight of its width if the highest bit of the width is set. -/
theorem toInt_receivedUInt (u : UInt64) : (Value.receivedUInt u).toInt =
    if u.toNat < 0x100000000 then Int.bmod u.toNat 0x100000000
    else Int.bmod u.toNat 0x10000000000000000 := by
  rw [Value.receivedUInt]
  split
  · next h =>
    have hu : u.toUInt32.toNat = u.toNat := by
      rw [UInt64.toNat_toUInt32]
      omega
    rw [← hu, Int32.toInt_toInt64]
    exact BitVec.toInt_eq_toNat_bmod u.toUInt32.toBitVec
  · exact BitVec.toInt_eq_toNat_bmod u.toBitVec

/-- An unsigned integer arrives as the signed one of its width and bits. -/
theorem value_uint (levels : Nat) (u : UInt64) :
    value (levels + 1) (Value.tag (.uint u)).code (Value.payload (.uint u)) =
      .ok (.int (Value.receivedUInt u)) := by
  have hu := toInt_receivedUInt u
  by_cases h : u.toNat < 0x100000000
  · rw [if_pos h] at hu
    rw [Value.tag, Value.payload, Value.payloadSize, if_pos h, if_pos h, value_code]
    simp only [leadingInt_int32, Nat.mod_eq_of_lt h, ← hu, Int64.ofInt_toInt]
  · rw [if_neg h] at hu
    rw [Value.tag, Value.payload, Value.payloadSize, if_neg h, if_neg h, value_code]
    simp only [leadingInt_int64 u.toNat_lt, ← hu, Int64.ofInt_toInt]

/-- A scalar is read as what arrives of it. -/
theorem value_scalar {v : Value} (h : v.IsScalar) (levels : Nat) :
    value (levels + 1) v.tag.code v.payload = .ok v.received := by
  cases v with
  | null => rfl
  | bool b =>
    have hr := leadingInt_bigEndian .int8 (if b then 1 else 0)
    have hb : Int64.ofInt (Int.bmod ((if b then 1 else 0) % 256 ^ Scalar.int8.width : Nat)
        (1 <<< (8 * Scalar.int8.width))) = if b then 1 else 0 := by cases b <;> decide
    rw [hb] at hr
    rw [Value.tag, Value.payload, value_code, Value.received]
    cases b
    · exact hr
    · exact hr
  | int i => exact value_int levels i
  | uint u => exact value_uint levels u
  | double d =>
    have hw : 256 ^ Scalar.double.width = 0x10000000000000000 := rfl
    have hr := leading_bigEndian .double (n := d.bits.toNat) (hw ▸ d.bits.toNat_lt)
    rw [Value.tag, Value.payload, value_code]
    simp only [Scalar.width] at hr
    simp only [hr, bind, Except.bind, UInt64.ofNat_toNat, Value.received]
  | str _ => exact h.elim
  | bytes _ => exact h.elim
  | table _ => exact h.elim
  | array _ => exact h.elim

/-! ## Text -/

theorem dropFront_zeroWord {b : Bytes} (h : b ≠ []) :
    dropFront (Bytes.zeroWord ++ b) = dropFront b := by
  cases b with
  | nil => exact (h rfl).elim
  | cons x b => simp [Bytes.zeroWord, dropFront]

/-- With a terminator behind them, octets lose what they lose without it. -/
theorem dropFront_append_zero (b : Bytes) :
    dropFront (b ++ [0]) = Value.dropZeroWords b ++ [0] := by
  fun_induction Value.dropZeroWords b with
  | case1 rest ih =>
    rw [← ih]
    exact dropFront_zeroWord (b := rest ++ [0]) (by simp)
  | case2 b hn =>
    match b with
    | [] | [_] | [_, _] | [_, _, _] => rfl
    | w :: x :: y :: z :: rest =>
      have hz : ¬ (w = 0 ∧ x = 0 ∧ y = 0 ∧ z = 0) := by
        rintro ⟨rfl, rfl, rfl, rfl⟩
        exact hn rest rfl
      cases rest <;> simp only [List.cons_append, List.nil_append, dropFront, if_neg hz]

theorem dropFront_replicate (words : Nat) {b : Bytes} (h : b ≠ []) :
    dropFront (List.replicate (4 * words) 0 ++ b) = dropFront b := by
  induction words with
  | zero => rfl
  | succ words ih =>
    have hr : List.replicate (4 * (words + 1)) (0 : UInt8) ++ b =
        Bytes.zeroWord ++ (List.replicate (4 * words) 0 ++ b) := by
      rw [show 4 * (words + 1) = 4 + 4 * words by omega, List.replicate_add, List.append_assoc]
      rfl
    rw [hr, dropFront_zeroWord (by simp [h]), ih]

theorem trimEnd_append_zero (b : Bytes) : Bytes.trimEnd (b ++ [0]) = Bytes.trimEnd b := by
  simp [Bytes.trimEnd]

theorem trimEnd_append_of_ne {x : UInt8} (h : x ≠ 0) (b : Bytes) :
    Bytes.trimEnd (b ++ [x]) = b ++ [x] := by
  simp [Bytes.trimEnd, h]

theorem length_trimEnd_le (b : Bytes) : (Bytes.trimEnd b).length ≤ b.length := by
  have h := (List.dropWhile_sublist (· == 0) (l := b.reverse)).length_le
  rw [List.length_reverse] at h
  rwa [Bytes.trimEnd, List.length_reverse]

/-- Octets that have no fifth one are at most four. -/
theorem length_le_four {b : Bytes}
    (h : ∀ v w x y z rest, b = v :: w :: x :: y :: z :: rest → False) : b.length ≤ 4 := by
  by_contra hlong
  rcases b with _ | ⟨v, _ | ⟨w, _ | ⟨x, _ | ⟨y, _ | ⟨z, rest⟩⟩⟩⟩⟩
  · simp at hlong
  · simp at hlong
  · simp at hlong
  · simp at hlong
  · simp at hlong
  · exact h v w x y z rest rfl

theorem length_dropFront_le (b : Bytes) : (dropFront b).length ≤ b.length := by
  fun_induction dropFront b with
  | case1 a b c d e rest h ih =>
    simp only [List.length_cons] at ih ⊢
    omega
  | case2 => exact Nat.le_refl _
  | case3 => exact Nat.le_refl _

/-- Text is read without its terminator, and without zero words in front. -/
theorem text_filled (words : Nat) (b : Bytes) :
    text (List.replicate (4 * words) 0 ++ (b ++ [0])) = Value.receivedText b := by
  have hd : dropFront (List.replicate (4 * words) 0 ++ (b ++ [0])) =
      Value.dropZeroWords b ++ [0] := by
    rw [dropFront_replicate words (by simp), dropFront_append_zero]
  rw [text, hd, trimEnd_append_zero]
  rfl

/-- A text or octets are read as what arrives of them, with any number of zero words in
front. -/
theorem value_text {v : Value} (h : v.IsText) (levels words : Nat) :
    value (levels + 1) Tag.string.code (List.replicate (4 * words) 0 ++ v.payload) =
      .ok v.received := by
  rw [value_code]
  cases v with
  | str s => exact congrArg Except.ok (text_filled words (Text.utf8 s))
  | bytes b => exact congrArg Except.ok (text_filled words b)
  | _ => exact h.elim

end Wire

end MicroBus

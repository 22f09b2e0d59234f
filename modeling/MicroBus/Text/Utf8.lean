import MicroBus.Bytes

/-!
# Text as octets

Names and strings travel in UTF-8. `ofUtf8?` reads well-formed octets only; `ofUtf8Repaired`
reads any octets, putting U+FFFD in the place of each maximal ill-formed part. Both give back
a text that was written by `utf8`.
-/

namespace MicroBus.Text

/-- The UTF-8 octets of a text. -/
def utf8 (s : String) : Bytes := s.toByteArray.data.toList

/-- The text with exactly these UTF-8 octets, if they are well formed. -/
def ofUtf8? (b : Bytes) : Option String := String.fromUTF8? ⟨b.toArray⟩

theorem ofUtf8?_utf8 (s : String) : ofUtf8? (utf8 s) = some s := by
  have h : (⟨(utf8 s).toArray⟩ : ByteArray) = s.toByteArray := by
    simp only [utf8, Array.toArray_toList]
  rw [ofUtf8?, h, String.fromUTF8?, dif_pos s.isValidUTF8]
  rfl

theorem utf8_of_ofUtf8? {b : Bytes} {s : String} (h : ofUtf8? b = some s) : utf8 s = b := by
  unfold ofUtf8? String.fromUTF8? at h
  split at h
  · obtain rfl := Option.some.inj h
    rfl
  · cases h

theorem length_utf8 (s : String) : (utf8 s).length = s.utf8ByteSize := by
  simp only [utf8, Array.length_toList]
  rfl

/-- The character that stands for an ill-formed part. -/
def replacement : Char := '\uFFFD'

/-- A character whose first octets have been read: how many continuation octets are missing,
the range the next of them must lie in, and the bits collected so far. -/
structure Partial where
  /-- Continuation octets still to come; at least one. -/
  missing : Nat
  /-- The least octet that continues the character. -/
  low : UInt8
  /-- The greatest octet that continues the character. -/
  high : UInt8
  /-- The bits of the octets read so far. -/
  bits : Nat

/-- What a first octet may begin. The ranges of the second octet leave out overlong forms,
surrogates and numbers above U+10FFFF. -/
def opening (b : UInt8) : Option Partial :=
  let bits := b.toNat
  if 0xC2 ≤ b ∧ b ≤ 0xDF then some ⟨1, 0x80, 0xBF, bits % 32⟩
  else if b = 0xE0 then some ⟨2, 0xA0, 0xBF, bits % 16⟩
  else if b = 0xED then some ⟨2, 0x80, 0x9F, bits % 16⟩
  else if 0xE1 ≤ b ∧ b ≤ 0xEF then some ⟨2, 0x80, 0xBF, bits % 16⟩
  else if b = 0xF0 then some ⟨3, 0x90, 0xBF, bits % 8⟩
  else if 0xF1 ≤ b ∧ b ≤ 0xF3 then some ⟨3, 0x80, 0xBF, bits % 8⟩
  else if b = 0xF4 then some ⟨3, 0x80, 0x8F, bits % 8⟩
  else none

/-- A repair in progress: the characters found, newest first, and the one begun. -/
structure Repair where
  /-- Characters found so far, newest first. -/
  found : List Char
  /-- The character that has begun, if one has. -/
  begun : Option Partial

/-- Reads one octet where a character begins. -/
def Repair.first (found : List Char) (b : UInt8) : Repair :=
  if b < 0x80 then ⟨Char.ofNat b.toNat :: found, none⟩
  else match opening b with
    | some p => ⟨found, some p⟩
    | none => ⟨replacement :: found, none⟩

/-- Reads one octet. An octet that cannot continue the character begun ends it as an
ill-formed part and is read again as a first octet. -/
def Repair.read (r : Repair) (b : UInt8) : Repair :=
  match r.begun with
  | none => Repair.first r.found b
  | some p =>
    if p.low ≤ b ∧ b ≤ p.high then
      let bits := p.bits * 64 + b.toNat % 64
      if p.missing ≤ 1 then ⟨Char.ofNat bits :: r.found, none⟩
      else ⟨r.found, some ⟨p.missing - 1, 0x80, 0xBF, bits⟩⟩
    else Repair.first (replacement :: r.found) b

/-- The text of a finished repair; a character that was cut off is an ill-formed part. -/
def Repair.text (r : Repair) : String :=
  String.ofList (if r.begun.isSome then replacement :: r.found else r.found).reverse

/-- The text of any octets: well-formed octets as they are, and otherwise U+FFFD in the place
of each maximal ill-formed part. -/
def ofUtf8Repaired (b : Bytes) : String :=
  match ofUtf8? b with
  | some s => s
  | none => (b.foldl Repair.read ⟨[], none⟩).text

theorem ofUtf8Repaired_utf8 (s : String) : ofUtf8Repaired (utf8 s) = s := by
  simp only [ofUtf8Repaired, ofUtf8?_utf8]

end MicroBus.Text

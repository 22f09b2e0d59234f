import MicroBus.Fault
import MicroBus.Bytes

/-!
# The attribute word

An attribute begins with one word: bit 31 says whether a name follows, bits 30 to 24 are the
identifier, and bits 23 to 0 are the length of the attribute, its word included and its
trailing filler not. `Header.parse` reads the word at the head of some octets and checks the
length against what is there.
-/

namespace MicroBus

/-- The fields of an attribute word. -/
structure Header where
  /-- The identifier: a field of a message body, or the type of a value. -/
  id : UInt8
  /-- The length of the attribute with its word and without trailing filler. -/
  length : Nat
  /-- Whether a name comes before the payload. -/
  extended : Bool
  deriving DecidableEq

namespace Header

/-- The greatest length that the 24-bit field holds. -/
def maxLength : Nat := 0xFFFFFF

/-- A header, refused if its length does not fit the field. -/
def make (id : UInt8) (length : Nat) (extended : Bool) : Except Fault Header :=
  if maxLength < length then .error (.overflow .wholeAttribute) else .ok ⟨id, length, extended⟩

/-- The word of a header: seven bits of the identifier and twenty-four of the length. -/
def toWord (h : Header) : UInt32 :=
  UInt32.ofNat ((if h.extended then 0x80000000 else 0) + h.id.toNat % 0x80 * 0x1000000
    + h.length % 0x1000000)

/-- The fields of a word. -/
def ofWord (w : UInt32) : Header where
  id := UInt8.ofNat (w.toNat / 0x1000000 % 0x80)
  length := w.toNat % 0x1000000
  extended := w.toNat / 0x80000000 = 1

/-- The four octets of a header. -/
def encode (h : Header) : Bytes := Bytes.bigEndian 4 h.toWord.toNat

@[simp] theorem length_encode (h : Header) : h.encode.length = 4 := Bytes.length_bigEndian 4 _

/-- The header at the head of `b`. Its length has to cover the word itself and must not run
past the octets at hand. -/
def parse (b : Bytes) : Except Fault Header :=
  if Bytes.atLeast 4 b then
    let h := ofWord (UInt32.ofNat (Bytes.ofBigEndian (b.take 4)))
    if 4 ≤ h.length ∧ Bytes.atLeast h.length b then .ok h
    else .error (.badLength h.length b.length)
  else .error (.truncated .attributeHeader 4 b.length)

/-- A header that was read covers its own word and lies within the octets it was read from. -/
theorem length_bounds_of_parse {b : Bytes} {h : Header} (hp : parse b = .ok h) :
    4 ≤ h.length ∧ h.length ≤ b.length := by
  unfold parse at hp
  split at hp
  · simp only at hp
    split at hp
    · next hb =>
      obtain rfl := Except.ok.inj hp
      exact ⟨hb.1, Bytes.atLeast_iff.mp hb.2⟩
    · cases hp
  · cases hp

end Header

end MicroBus

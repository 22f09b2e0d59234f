import Mathlib.Algebra.BigOperators.Ring.List
import MicroBus.Proofs.Attribute.Extent
import MicroBus.Proofs.Text.Repaired
import MicroBus.Proofs.Wire.Layout
import MicroBus.Proofs.Wire.Reading

/-!
# What is read is written in a bounded room

What was read of some octets may take more octets when it is written: a name is repaired, an
attribute without a name gets an empty one, a short integer becomes a word, a text gets its
terminator, and filler is put in. All this together makes it no more than four times as large.
-/

namespace MicroBus

namespace Wire

open Value

/-- A name is written in a word more than four times the room it was read from. -/
theorem align_nameText_le (a : Attribute) :
    Bytes.align (3 + (nameText a).utf8ByteSize) ≤ 4 + 4 * Attribute.nameSpan a.name := by
  rw [nameText]
  cases a.name with
  | none => decide
  | some n =>
    have hrepaired := Text.utf8ByteSize_ofUtf8Repaired_le n
    have halign := Bytes.align_lt (3 + (Text.ofUtf8Repaired n).utf8ByteSize)
    simp only [Attribute.nameSpan]
    omega

/-- An entry is written in four times the room of its attribute, if its name and its value are
written in a word more than that. -/
theorem align_sizeAs_le {a : Attribute} {name : String} {v : Value}
    (hname : Bytes.align (3 + name.utf8ByteSize) ≤ 4 + 4 * Attribute.nameSpan a.name)
    (hv : v.payloadSize ≤ 4 + 4 * a.data.length) :
    Bytes.align (sizeAs name v) ≤ 4 * a.span := by
  have halign := Bytes.align_lt (sizeAs name v)
  rw [sizeAs] at halign ⊢
  rw [Attribute.span]
  omega

/-- Entries are written in four times the octets of a run, if each is in four times the room of its
attribute. -/
theorem sizeOfEntries_le_of_forall₂ {b : Bytes} {entries : Entries}
    (h : List.Forall₂ (fun a e => Bytes.align (sizeAs e.1 e.2) ≤ 4 * a.span)
      (walk b).attributes entries) : sizeOfEntries entries ≤ 4 * b.length := by
  have hsum : (entries.map fun e => Bytes.align (sizeAs e.1 e.2)).sum ≤
      ((walk b).attributes.map fun a => 4 * a.span).sum := by
    apply List.Forall₂.sum_le_sum
    rw [List.forall₂_map_left_iff, List.forall₂_map_right_iff]
    exact h.flip
  rw [List.sum_map_mul_left] at hsum
  rw [sizeOfEntries_eq_sum]
  exact Nat.le_trans hsum (Nat.mul_le_mul_left 4 (span_walk_le b))

theorem payloadSize_text_le (data : Bytes) : (text data).payloadSize ≤ 1 + data.length := by
  have hfront := length_dropFront_le data
  have hend := length_trimEnd_le (dropFront data)
  rw [text]
  cases hu : Text.ofUtf8? (Bytes.trimEnd (dropFront data)) with
  | some s =>
    have hlength := Text.length_utf8 s
    rw [Text.utf8_of_ofUtf8? hu] at hlength
    simp only [payloadSize]
    omega
  | none =>
    simp only [payloadSize]
    omega

/-- Whatever is read of a payload is written in a word more than four times the payload. -/
theorem payloadSize_le_of_value {levels : Nat} {code : UInt8} {data : Bytes} {v : Value}
    (h : value levels code data = .ok v) : v.payloadSize ≤ 4 + 4 * data.length := by
  refine value_induction (motive := fun _ data v => v.payloadSize ≤ 4 + 4 * data.length)
    ?null ?int ?double ?text ?table ?array h
  case null =>
    intro _ data
    exact Nat.zero_le _
  case int =>
    intro _ data i some
    rw [payloadSize]
    split <;> omega
  case double =>
    intro _ data d some
    rw [payloadSize]
    omega
  case text =>
    intro _ data
    have := payloadSize_text_le data
    omega
  case table =>
    intro _ data entries h
    have := sizeOfEntries_le_of_forall₂ <| h.imp fun a e he =>
      align_sizeAs_le (he.1 ▸ align_nameText_le a) he.2
    rw [payloadSize]
    omega
  case array =>
    intro _ data items h
    have hempty : Bytes.align (3 + "".utf8ByteSize) ≤ 4 := by decide
    have hall : List.Forall₂ (fun a (e : String × Value) =>
        Bytes.align (sizeAs e.1 e.2) ≤ 4 * a.span) (walk data).attributes
        (items.map fun v => ("", v)) := by
      rw [List.forall₂_map_right_iff]
      exact h.imp fun a v hv => align_sizeAs_le (Nat.le_trans hempty (Nat.le_add_right 4 _)) hv
    have := sizeOfEntries_le_of_forall₂ hall
    rw [payloadSize, sizeOfItems_eq]
    omega

end Wire

/-- A table that was read takes no more than four times the octets when it is written. -/
theorem sizeOfEntries_le_of_decodeTable {b : Bytes} {entries : Entries}
    (h : decodeTable b = .ok entries) : 4 + Value.sizeOfEntries entries ≤ 4 * b.length := by
  obtain ⟨inside, hc, he⟩ := bind_eq_ok_iff.mp h
  have hinside := Wire.length_contents_add_le hc
  have hsize := Wire.sizeOfEntries_le_of_forall₂ <|
    (Wire.entriesOf_eq_ok_iff.mp he).2.imp fun a e read =>
      Wire.align_sizeAs_le (read.1 ▸ Wire.align_nameText_le a)
        (Wire.payloadSize_le_of_value read.2)
  omega

end MicroBus

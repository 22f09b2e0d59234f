import MicroBus.Wire.Layout

/-!
# Layouts with filler

Zero words may stand between the attributes of any container, and in front of the payload of a
text. A filled layout is a layout with any number of them, in which the lengths count the words
that were put in.
-/

namespace MicroBus

namespace Value

/-- Whether a payload has no inner structure and no filler. -/
def IsScalar : Value → Prop
  | .str _ => False
  | .bytes _ => False
  | .table _ => False
  | .array _ => False
  | _ => True

/-- Whether a payload is text or octets. -/
def IsText : Value → Prop
  | .str _ => True
  | .bytes _ => True
  | _ => False

/-- A named value around a payload that may hold filler. -/
def filledAround (name : String) (tag : Tag) (payload : Bytes) : Bytes :=
  layoutAround name tag (4 + Bytes.align (3 + name.utf8ByteSize) + payload.length) payload

/-- Whether the length of a named value around a payload fits its field. -/
def PayloadFits (name : String) (payload : Bytes) : Prop :=
  4 + Bytes.align (3 + name.utf8ByteSize) + payload.length ≤ Header.maxLength

end Value

/-- Octets that are a layout of the entries, in this order, with any number of zero words put
in. -/
inductive Filled : Entries → Bytes → Prop where
  /-- No entries. -/
  | nil : Filled [] []
  /-- A zero word in front. -/
  | word {entries : Entries} {b : Bytes} (rest : Filled entries b) :
    Filled entries (Bytes.zeroWord ++ b)
  /-- A scalar in front. -/
  | scalar {name : String} {v : Value} {entries : Entries} {b : Bytes} (h : v.IsScalar)
    (rest : Filled entries b) :
    Filled ((name, v) :: entries) (Value.filledAround name v.tag v.payload ++ b)
  /-- A text or octets in front, with zero words before them. -/
  | text {name : String} {v : Value} {entries : Entries} {b : Bytes} (words : Nat)
    (h : v.IsText)
    (fits : Value.PayloadFits name (List.replicate (4 * words) 0 ++ v.payload))
    (rest : Filled entries b) :
    Filled ((name, v) :: entries)
      (Value.filledAround name .string (List.replicate (4 * words) 0 ++ v.payload) ++ b)
  /-- A table in front. -/
  | table {name : String} {inner entries : Entries} {payload b : Bytes}
    (inside : Filled (sortByName inner) payload) (fits : Value.PayloadFits name payload)
    (rest : Filled entries b) :
    Filled ((name, .table inner) :: entries) (Value.filledAround name .table payload ++ b)
  /-- An array in front. -/
  | array {name : String} {items : List Value} {entries : Entries} {payload b : Bytes}
    (inside : Filled (items.map fun v => ("", v)) payload)
    (fits : Value.PayloadFits name payload) (rest : Filled entries b) :
    Filled ((name, .array items) :: entries) (Value.filledAround name .array payload ++ b)

end MicroBus

import MicroBus.Attribute.Walk

/-!
# The grammar of a run of attributes

Which octets a run of attributes may consist of, said without a cursor: segments, each a zero
word or an attribute with filler up to the next word boundary, and at the end at most three
zero octets. The filler behind an attribute may be any octets, and it may be cut short only by
the end of the run.
-/

namespace MicroBus

/-- The inside of an attribute: a plain payload, or a name with its terminator before the
payload, which begins at a word boundary or is empty. -/
inductive Attribute.Inside : Bool → Bytes → Option Bytes → Bytes → Prop where
  /-- An attribute without a name. -/
  | plain (data : Bytes) : Inside false data none data
  /-- An attribute with a name. -/
  | named (name rest : Bytes) (h : name.length < 0x10000) :
    Inside true (Bytes.bigEndian 2 name.length ++ name ++ 0 :: rest) (some name)
      ((Bytes.bigEndian 2 name.length ++ name ++ 0 :: rest).drop
        (Bytes.align (2 + name.length + 1)))

/-- Octets that are an attribute without the filler behind it: a word, whose low twenty-four
bits are the length of it all, whose next seven bits are the identifier, and whose highest bit
says whether there is a name; and the inside. -/
inductive Attribute.Spells : Bytes → Attribute → Prop where
  /-- An attribute by its word and its inside. -/
  | word {w : Nat} {inside : Bytes} {name : Option Bytes} {data : Bytes} (lt : w < 0x100000000)
    (length_eq : w % 0x1000000 = 4 + inside.length)
    (split : Inside (w / 0x80000000 = 1) inside name data) :
    Spells (Bytes.bigEndian 4 w ++ inside) ⟨UInt8.ofNat (w / 0x1000000 % 0x80), name, data⟩

/-- Octets that begin with segments, the attributes among these in order, and the octets that
are left. -/
inductive Segments : Bytes → List Attribute → Bytes → Prop where
  /-- No segment. -/
  | done (rest : Bytes) : Segments rest [] rest
  /-- A zero word and segments. -/
  | filler {b rest : Bytes} {attributes : List Attribute} (h : Segments b attributes rest) :
    Segments (Bytes.zeroWord ++ b) attributes rest
  /-- An attribute, its filler, and segments. -/
  | padded {octets gap b rest : Bytes} {a : Attribute} {attributes : List Attribute}
    (spelled : Attribute.Spells octets a)
    (aligned : octets.length + gap.length = Bytes.align octets.length)
    (h : Segments b attributes rest) : Segments (octets ++ gap ++ b) (a :: attributes) rest
  /-- An attribute whose filler is cut short by the end. -/
  | cut {octets gap : Bytes} {a : Attribute} (spelled : Attribute.Spells octets a)
    (short : octets.length + gap.length < Bytes.align octets.length) :
    Segments (octets ++ gap) [a] []

/-- Octets that are a run of attributes: segments, and at most three zero octets. -/
def Run (b : Bytes) (attributes : List Attribute) : Prop :=
  ∃ tail, Segments b attributes tail ∧ tail.length ≤ 3 ∧ ∀ x ∈ tail, x = 0

/-- The segments in front of `rest` are the longest run of segments that `b` begins with. -/
structure Segments.Longest (b : Bytes) (attributes : List Attribute) (rest : Bytes) : Prop where
  /-- There are these segments. -/
  segments : Segments b attributes rest
  /-- No segments leave less. -/
  least {others : List Attribute} {tail : Bytes} (h : Segments b others tail) :
    rest.length ≤ tail.length
  /-- No segments have an attribute that these lack. -/
  prefixed {others : List Attribute} {tail : Bytes} (h : Segments b others tail) :
    others <+: attributes

end MicroBus

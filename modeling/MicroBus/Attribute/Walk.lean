import MicroBus.Attribute.Header

/-!
# Walking a run of attributes

A container holds attributes one after another, each filled up to a word boundary. `Cursor`
steps through them: zero words between attributes and a short tail of zero octets are filler,
the first malformed attribute is reported once, and after a report or the end there is nothing
more. `walk` gathers what a cursor meets, as the attributes and the fault that ended them.
-/

namespace MicroBus

/-- One attribute: its identifier, its name if it is extended, and its payload. -/
structure Attribute where
  /-- A field of a message body, or the type of a value. -/
  id : UInt8
  /-- The octets of the name, without the terminator; only an extended attribute has them. -/
  name : Option Bytes
  /-- The payload. -/
  data : Bytes
  deriving DecidableEq

namespace Attribute

/-- Whether the attribute carries a name. -/
def isExtended (a : Attribute) : Bool := a.name.isSome

/-- Splits the inside of an extended attribute into its name and its payload. The name has its
length in two octets before it and a zero octet after it; the payload begins at the next word
boundary. -/
def splitName (inside : Bytes) : Except Fault (Bytes × Bytes) :=
  match inside with
  | hi :: lo :: rest =>
    let size := Bytes.ofBigEndian [hi, lo]
    match rest.drop size with
    | 0 :: _ => .ok (rest.take size, inside.drop (Bytes.align (2 + size + 1)))
    | _ => .error .badName
  | _ => .error .badName

/-- The attribute at the head of `b`, and the octets after its filler. -/
def parse (b : Bytes) : Except Fault (Attribute × Bytes) := do
  let h ← Header.parse b
  let inside := (b.drop 4).take (h.length - 4)
  let rest := b.drop (Bytes.align h.length)
  if h.extended then
    let (name, data) ← splitName inside
    .ok (⟨h.id, some name, data⟩, rest)
  else .ok (⟨h.id, none, inside⟩, rest)

/-- Reading an attribute takes at least its word. -/
theorem length_lt_of_parse {b rest : Bytes} {a : Attribute} (hp : parse b = .ok (a, rest)) :
    rest.length < b.length := by
  unfold parse at hp
  cases hh : Header.parse b with
  | error f => rw [hh] at hp; cases hp
  | ok h =>
    have hb := Header.length_bounds_of_parse hh
    have hl := Bytes.le_align h.length
    have hr : (b.drop (Bytes.align h.length)).length < b.length := by
      rw [List.length_drop]
      omega
    rw [hh] at hp
    simp only [bind, Except.bind] at hp
    split at hp
    · cases hs : splitName ((b.drop 4).take (h.length - 4)) with
      | error f => rw [hs] at hp; cases hp
      | ok nd =>
        rw [hs] at hp
        obtain ⟨-, rfl⟩ := Prod.mk.inj (Except.ok.inj hp)
        exact hr
    · obtain ⟨-, rfl⟩ := Prod.mk.inj (Except.ok.inj hp)
      exact hr

end Attribute

/-- Drops leading zero words, and a tail of fewer than four octets if they are all zero. -/
def skipFiller : Bytes → Bytes
  | a :: b :: c :: d :: rest =>
    if a = 0 ∧ b = 0 ∧ c = 0 ∧ d = 0 then skipFiller rest else a :: b :: c :: d :: rest
  | tail => if tail.all (· == 0) then [] else tail

theorem length_skipFiller_le (b : Bytes) : (skipFiller b).length ≤ b.length := by
  fun_induction skipFiller b with
  | case1 a b c d rest h ih =>
    simp only [List.length_cons]
    omega
  | case2 => exact Nat.le_refl _
  | case3 => exact Nat.zero_le _
  | case4 => exact Nat.le_refl _

/-- A place in a run of attributes. -/
structure Cursor where
  /-- The octets not yet read. -/
  rest : Bytes
  /-- Whether a malformed attribute has been reported. -/
  failed : Bool

namespace Cursor

/-- The start of a run. -/
def start (b : Bytes) : Cursor := ⟨b, false⟩

/-- The next attribute or the fault in its place, if there is one, and the place after it. -/
def next (c : Cursor) : Option (Except Fault Attribute) × Cursor :=
  if c.failed then (none, c)
  else
    let rest := skipFiller c.rest
    if rest = [] then (none, ⟨[], false⟩)
    else match Attribute.parse rest with
      | .ok (a, after) => (some (.ok a), ⟨after, false⟩)
      | .error f => (some (.error f), ⟨rest, true⟩)

/-- How much a cursor can still report. -/
def remaining (c : Cursor) : Nat := if c.failed then 0 else c.rest.length + 1

theorem remaining_next_lt {c d : Cursor} {item : Except Fault Attribute}
    (h : c.next = (some item, d)) : d.remaining < c.remaining := by
  unfold next at h
  split at h
  · cases h
  · next hf =>
    simp only at h
    split at h
    · cases h
    · have hl := length_skipFiller_le c.rest
      split at h
      · next a after hp =>
        obtain ⟨-, rfl⟩ := Prod.mk.inj h
        have hr := Attribute.length_lt_of_parse hp
        simp only [remaining, hf, Bool.false_eq_true, if_false]
        omega
      · obtain ⟨-, rfl⟩ := Prod.mk.inj h
        simp only [remaining, hf, Bool.false_eq_true, if_false, if_true]
        omega

end Cursor

/-- The attributes of a run, and the fault that ended it early. -/
structure Walk where
  /-- The attributes before any fault, in order. -/
  attributes : List Attribute
  /-- The fault of the first malformed attribute. -/
  fault : Option Fault

namespace Walk

/-- Everything the walk met, in order: the attributes, and then the fault if there is one. -/
def items (w : Walk) : List (Except Fault Attribute) :=
  w.attributes.map .ok ++ (w.fault.map .error).toList

/-- The walk without its fault, or the fault. -/
def toExcept (w : Walk) : Except Fault (List Attribute) :=
  match w.fault with
  | none => .ok w.attributes
  | some f => .error f

/-- Reads every attribute with `read`, in order, and then reports the fault of the walk. The
first failure wins. -/
def decode (w : Walk) (read : Attribute → Except Fault α) : Except Fault (List α) := do
  let found ← w.attributes.mapM read
  match w.fault with
  | none => .ok found
  | some f => .error f

end Walk

/-- What a cursor still meets, after the attributes already met (newest first), and the place
where it stops. -/
def Cursor.walkOnto (met : List Attribute) (c : Cursor) : Walk × Cursor :=
  match _h : c.next with
  | (none, d) => (⟨met.reverse, none⟩, d)
  | (some (.error f), d) => (⟨met.reverse, some f⟩, d)
  | (some (.ok a), d) => Cursor.walkOnto (a :: met) d
termination_by c.remaining
decreasing_by exact Cursor.remaining_next_lt ‹_›

/-- The attributes of the run `b`, and the place where its cursor stops. -/
def walkThrough (b : Bytes) : Walk × Cursor := Cursor.walkOnto [] (Cursor.start b)

/-- The attributes of the run `b`. -/
def walk (b : Bytes) : Walk := (walkThrough b).1

end MicroBus

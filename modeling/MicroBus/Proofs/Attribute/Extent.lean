import Mathlib.Algebra.Order.BigOperators.Group.List
import Mathlib.Algebra.Order.Group.Nat
import Mathlib.Algebra.GroupWithZero.Nat
import MicroBus.Proofs.Attribute.Walk

/-!
# The room that attributes take

The attributes of a run lie in it side by side, and each takes at least its word, its name with the
length and the terminator, and its payload. So the names and the payloads of a run, with a word for
each of them, are together no longer than the run.
-/

namespace MicroBus

/-- The octets that an attribute takes at least: its word and its payload. -/
def Attribute.extent (a : Attribute) : Nat := 4 + a.data.length

/-- The octets that the name of an attribute takes, with its length and its terminator. -/
def Attribute.nameSpan : Option Bytes → Nat
  | none => 0
  | some n => 3 + n.length

/-- The octets that an attribute takes at least: its word, its name and its payload. -/
def Attribute.span (a : Attribute) : Nat := 4 + nameSpan a.name + a.data.length

theorem Attribute.extent_le_span (a : Attribute) : a.extent ≤ a.span := by
  unfold extent span
  omega

theorem Attribute.Inside.span_le {extended : Bool} {inside data : Bytes} {name : Option Bytes}
    (h : Inside extended inside name data) : nameSpan name + data.length ≤ inside.length := by
  cases h with
  | plain => exact Nat.le_of_eq (Nat.zero_add _)
  | named name rest h =>
    have halign := Bytes.le_align (2 + name.length + 1)
    rw [List.length_drop, nameSpan]
    simp only [List.length_append, List.length_cons, Bytes.length_bigEndian]
    omega

/-- A name and a payload lie inside their attribute, behind the word. -/
theorem Attribute.Spells.span_le {octets : Bytes} {a : Attribute} (h : Spells octets a) :
    a.span ≤ octets.length := by
  cases h with
  | @word w inside name data lt length_eq split =>
    rw [List.length_append, Bytes.length_bigEndian, span, Nat.add_assoc]
    exact Nat.add_le_add_left split.span_le 4

theorem Attribute.Spells.extent_le {octets : Bytes} {a : Attribute} (h : Spells octets a) :
    a.extent ≤ octets.length :=
  Nat.le_trans a.extent_le_span h.span_le

/-- Segments lie side by side. -/
theorem Segments.span_le {b rest : Bytes} {attributes : List Attribute}
    (h : Segments b attributes rest) :
    (attributes.map Attribute.span).sum + rest.length ≤ b.length := by
  induction h with
  | done rest => simp
  | filler h ih =>
    rw [List.length_append]
    omega
  | padded spelled aligned h ih =>
    have := spelled.span_le
    simp only [List.map_cons, List.sum_cons, List.length_append]
    omega
  | cut spelled short =>
    have := spelled.span_le
    simp only [List.map_cons, List.map_nil, List.sum_cons, List.sum_nil, List.length_append,
      List.length_nil]
    omega

/-- Whatever a walk meets lies in its octets side by side. -/
theorem span_walk_le (b : Bytes) :
    ((walk b).attributes.map Attribute.span).sum ≤ b.length := by
  rcases run_or_segments b with ⟨-, tail, hs, -⟩ | ⟨-, -, hs⟩
  · exact Nat.le_trans (Nat.le_add_right _ _) hs.span_le
  · exact Nat.le_trans (Nat.le_add_right _ _) hs.span_le

theorem extent_walk_le (b : Bytes) :
    ((walk b).attributes.map Attribute.extent).sum ≤ b.length :=
  Nat.le_trans (List.sum_le_sum fun a _ => a.extent_le_span) (span_walk_le b)

theorem extent_le_of_mem {b : Bytes} {a : Attribute} (h : a ∈ (walk b).attributes) :
    a.extent ≤ b.length := by
  have hone := List.single_le_sum (fun _ _ => Nat.zero_le _) _
    (List.mem_map_of_mem (f := Attribute.extent) h)
  exact Nat.le_trans hone (extent_walk_le b)

end MicroBus

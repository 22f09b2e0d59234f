import MicroBus.Attribute.Walk

/-!
# Readings that may be stuck

A reading is stuck where a slice would leave its octets, where a sum of positions would leave
the machine's word, or where calls would be nested deeper than room was reserved for them.
Looking at single octets, and at a fixed number of them in front, is checked by what looks at
them and is never stuck.
-/

namespace MicroBus

/-- The unsigned word of a machine, in which positions are counted. -/
structure Machine where
  /-- The greatest number that the word holds. -/
  greatest : Nat
  /-- The word has at least 32 bits. -/
  word_le : 0xFFFFFFFF ≤ greatest

/-- A reading that comes to a result or to a fault, or is stuck. -/
abbrev Guarded (α : Type) := ExceptT Fault Option α

namespace Guarded

/-- A reading that is not stuck. -/
def of {α : Type} (result : Except Fault α) : Guarded α := some result

/-- A reading that is stuck. -/
def stuck {α : Type} : Guarded α := (none : Option (Except Fault α))

@[simp] theorem of_bind {α β : Type} (x : Except Fault α) (f : α → Except Fault β) :
    (of x >>= fun a => of (f a)) = of (x >>= f) := by
  cases x <;> rfl

@[simp] theorem of_ok_bind {α β : Type} (a : α) (f : α → Guarded β) : of (.ok a) >>= f = f a := rfl

theorem mapM_eq {α β : Type} {read : α → Guarded β} {run : α → Except Fault β} {l : List α}
    (h : ∀ a ∈ l, read a = of (run a)) : l.mapM read = of (l.mapM run) := by
  induction l with
  | nil => rfl
  | cons a l ih =>
    obtain ⟨ha, hl⟩ := List.forall_mem_cons.mp h
    rw [List.mapM_cons, List.mapM_cons, ha, ih hl]
    cases run a with
    | error f => rfl
    | ok b => cases l.mapM run <;> rfl

theorem pure_eq {α : Type} (a : α) : (pure a : Guarded α) = of (.ok a) := rfl

/-- The octets from one position up to another, which have to be in order and in bounds. -/
def slice (b : Bytes) (start stop : Nat) : Guarded Bytes :=
  if start ≤ stop ∧ stop ≤ b.length then of (.ok ((b.drop start).take (stop - start))) else stuck

theorem slice_eq {b : Bytes} {start stop : Nat} (order : start ≤ stop) (bound : stop ≤ b.length) :
    slice b start stop = of (.ok ((b.drop start).take (stop - start))) := if_pos ⟨order, bound⟩

/-- The octets behind a position that was cut to the length. -/
theorem slice_min (b : Bytes) (n : Nat) :
    slice b (min n b.length) b.length = of (.ok (b.drop n)) := by
  rw [slice_eq (Nat.min_le_right _ _) (Nat.le_refl _),
    List.take_of_length_le (Nat.le_of_eq List.length_drop)]
  by_cases h : n ≤ b.length
  · rw [Nat.min_eq_left h]
  · have hn : b.length ≤ n := Nat.le_of_not_le h
    rw [Nat.min_eq_right hn, List.drop_length, List.drop_of_length_le hn]

variable (m : Machine)

/-- A sum that has to fit the machine's word. -/
def sum (x y : Nat) : Guarded Nat := if x + y ≤ m.greatest then of (.ok (x + y)) else stuck

/-- The least multiple of four that is not below `n`. -/
def align (n : Nat) : Guarded Nat := do
  let raised ← sum m n 3
  return raised / 4 * 4

variable {m}

theorem sum_eq {x y : Nat} (h : x + y ≤ m.greatest) : sum m x y = of (.ok (x + y)) := if_pos h

theorem align_eq {n : Nat} (h : n + 3 ≤ m.greatest) : align m n = of (.ok (Bytes.align n)) := by
  rw [align, sum_eq h]
  rfl

end Guarded

end MicroBus

import MicroBus.Value.Basic

/-!
# Induction over nested values

A fact about all values follows from the facts that it holds of the values without inner ones, of
a table if it holds of what its entries hold, and of an array if it holds of its items.
-/

namespace MicroBus.Value

/-- Whether a value holds no other values. -/
def IsPlain : Value → Prop
  | .table _ => False
  | .array _ => False
  | _ => True

/-- What holds of values without inner ones, and of a container if it holds of what is in it,
holds of every value. -/
@[elab_as_elim]
theorem nestedInduction {motive : Value → Prop} (plain : ∀ v : Value, v.IsPlain → motive v)
    (table : ∀ entries : Entries, (∀ e ∈ entries, motive e.2) → motive (.table entries))
    (array : ∀ items : List Value, (∀ v ∈ items, motive v) → motive (.array items))
    (v : Value) : motive v :=
  match v with
  | .table entries => table entries fun e _ => nestedInduction plain table array e.2
  | .array items => array items fun v _ => nestedInduction plain table array v
  | .null => plain .null trivial
  | .bool b => plain (.bool b) trivial
  | .int i => plain (.int i) trivial
  | .uint u => plain (.uint u) trivial
  | .double d => plain (.double d) trivial
  | .str s => plain (.str s) trivial
  | .bytes b => plain (.bytes b) trivial
termination_by sizeOf v
decreasing_by
  · have he := List.sizeOf_lt_of_mem ‹e ∈ entries›
    obtain ⟨name, inner⟩ := e
    simp only [Prod.mk.sizeOf_spec] at he
    simp only [Value.table.sizeOf_spec]
    omega
  · have hv := List.sizeOf_lt_of_mem ‹v ∈ items›
    simp only [Value.array.sizeOf_spec]
    omega

end MicroBus.Value

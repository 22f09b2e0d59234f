import MicroBus.Proofs.Guarded.Basic
import MicroBus.Proofs.Wire.Entries

/-!
# Reading attributes with every access checked

The steps by which one attribute is read, with the positions that they compute, and a run of
attributes read one after another. None of these readings is stuck, and each comes to what the
reader without the checks comes to.
-/

namespace MicroBus

namespace Guarded

variable (m : Machine)

/-- Splits the inside of an extended attribute into its name and its payload. -/
def splitName (inside : Bytes) : Guarded (Bytes × Bytes) :=
  match inside with
  | hi :: lo :: rest =>
    let size := Bytes.ofBigEndian [hi, lo]
    if rest[size]? = some 0 then do
      let name ← slice rest 0 size
      let headed ← sum m 2 size
      let ended ← sum m headed 1
      let aligned ← align m ended
      let data ← slice inside (min aligned inside.length) inside.length
      return (name, data)
    else of (.error .badName)
  | _ => of (.error .badName)

/-- Splits the inside of an attribute by whether its word announces a name. -/
def split (extended : Bool) (inside : Bytes) : Guarded (Option Bytes × Bytes) :=
  if extended then do
    let (name, data) ← splitName m inside
    return (some name, data)
  else return (none, inside)

/-- The attribute at the head of `b`, and the octets after its filler. -/
def parse (b : Bytes) : Guarded (Attribute × Bytes) := do
  let h ← of (Header.parse b)
  let inside ← slice b 4 h.length
  let (name, data) ← split m h.extended inside
  let aligned ← align m h.length
  let rest ← slice b (min aligned b.length) b.length
  return (⟨h.id, name, data⟩, rest)

theorem splitName_eq (inside : Bytes) : splitName m inside = of (Attribute.splitName inside) := by
  rcases inside with _ | ⟨hi, _ | ⟨lo, rest⟩⟩
  · rfl
  · rfl
  · have hword := m.word_le
    have hsize : Bytes.ofBigEndian [hi, lo] < 0x10000 := by
      have hh := hi.toNat_lt
      have hl := lo.toNat_lt
      simp only [Bytes.ofBigEndian, List.foldl_cons, List.foldl_nil]
      omega
    simp only [splitName, Attribute.splitName]
    generalize Bytes.ofBigEndian [hi, lo] = size at hsize
    have hhead : (rest.drop size).head? = rest[size]? := List.head?_drop
    cases hd : rest.drop size with
    | nil =>
      rw [hd, List.head?_nil] at hhead
      rw [← hhead, if_neg (Option.some_ne_none 0).symm]
    | cons x tail =>
      rw [hd, List.head?_cons] at hhead
      rw [← hhead]
      by_cases hx : x = 0
      · subst hx
        have hlen : size ≤ rest.length := by
          have := congrArg List.length hd
          rw [List.length_drop, List.length_cons] at this
          omega
        rw [if_pos rfl, slice_eq (Nat.zero_le _) hlen, sum_eq (by omega), of_ok_bind, of_ok_bind,
          sum_eq (by omega), of_ok_bind, align_eq (by omega), of_ok_bind, slice_min]
        rfl
      · rw [if_neg (by simpa using hx)]
        simp [hx]

theorem split_eq (extended : Bool) (inside : Bytes) :
    split m extended inside = of (Attribute.split extended inside) := by
  rw [split, Attribute.split]
  by_cases h : extended = true
  · rw [if_pos h, if_pos h, splitName_eq]
    exact of_bind _ _
  · rw [if_neg h, if_neg h]
    rfl

/-- No slice that is taken for an attribute leaves its octets. -/
theorem parse_eq (b : Bytes) : parse m b = of (Attribute.parse b) := by
  rw [parse, Attribute.parse_eq]
  cases hh : Header.parse b with
  | error f => rfl
  | ok h =>
    have hword := m.word_le
    have hlt := Header.length_lt_of_parse hh
    obtain ⟨hfour, hle⟩ := Header.length_bounds_of_parse hh
    rw [of_ok_bind, slice_eq hfour hle, of_ok_bind, split_eq, ok_bind]
    cases Attribute.split h.extended ((b.drop 4).take (h.length - 4)) with
    | error f => rfl
    | ok nd =>
      simp only [of_ok_bind, align_eq (show h.length + 3 ≤ m.greatest by omega), slice_min]
      rfl

/-- Reads the attributes of a run one after another, and stops at the first fault. -/
def each {α : Type} (read : Attribute → Guarded α) (b : Bytes) : Guarded (List α) :=
  if skipFiller b = [] then of (.ok [])
  else
    match _h : parse m (skipFiller b) with
    | none => stuck
    | some (.error f) => of (.error f)
    | some (.ok (a, after)) => do
      let x ← read a
      let xs ← each read after
      return x :: xs
termination_by b.length
decreasing_by
  have hp : of (Attribute.parse (skipFiller b)) = some (.ok (a, after)) := by
    rw [← parse_eq m]
    exact _h
  have hl := Attribute.length_lt_of_parse (Option.some.inj hp)
  have hs := length_skipFiller_le b
  omega

/-- Reading attributes one after another is walking over them and then reading them, where
reading each of them is not stuck. -/
theorem each_eq {α : Type} {read : Attribute → Guarded α} {run : Attribute → Except Fault α}
    (b : Bytes) (h : ∀ a ∈ (walk b).attributes, read a = of (run a)) :
    each m read b = of ((walk b).decode run) := by
  refine walkInduction (motive := fun b => (∀ a ∈ (walk b).attributes, read a = of (run a)) →
    each m read b = of ((walk b).decode run)) ?_ ?_ ?_ b h
  · intro b he _
    rw [each, if_pos he, walk, walkThrough_of_nil he]
    rfl
  · intro b f hne hp _
    rw [each, if_neg hne, walk, walkThrough_of_error hne hp]
    have hg := parse_eq m (skipFiller b)
    rw [hp] at hg
    split
    · next h => rw [hg] at h; cases h
    · next g h =>
      rw [hg] at h
      cases h
      rfl
    · next h => rw [hg] at h; cases h
  · intro b a after hp ih h
    have hne : skipFiller b ≠ [] := by
      intro he
      rw [he] at hp
      cases hp
    rw [walk, walkThrough_of_ok hp] at h ⊢
    obtain ⟨ha, hafter⟩ := List.forall_mem_cons.mp h
    have hg := parse_eq m (skipFiller b)
    rw [hp] at hg
    rw [each, if_neg hne]
    split
    · next h => rw [hg] at h; cases h
    · next h => rw [hg] at h; cases h
    · next a' after' h =>
      rw [hg] at h
      cases h
      rw [ha, ih hafter]
      simp only [pure_eq, of_bind]
      exact congrArg of (Walk.decode_cons a (walk after) run).symm

end Guarded

end MicroBus

import MicroBus.Proofs.Wire.Layout

/-!
# Where writing stops

A container is written part by part, each behind a zero word that is to become its header. The first
part that is refused stops the writing at every level around it. What is there by then are the zero
words and the names of the containers around that part, the layouts of the parts in front of it, and
its own beginning.
-/

namespace MicroBus

namespace Draft

theorem toExcept_eq_ok_iff {d : Draft} {b : Bytes} : d.toExcept = .ok b ↔ d = .done b := by
  obtain ⟨bytes, fault⟩ := d
  cases fault <;> simp [toExcept, done]

theorem stopped_inj {b c : Bytes} {f g : Fault} : stopped b f = stopped c g ↔ b = c ∧ f = g := by
  simp [stopped]

theorem inTurn_cons_done (b : Bytes) (ds : List Draft) :
    inTurn (done b :: ds) = ⟨b ++ (inTurn ds).bytes, (inTurn ds).fault⟩ := rfl

theorem inTurn_cons_stopped (b : Bytes) (f : Fault) (ds : List Draft) :
    inTurn (stopped b f :: ds) = stopped b f := rfl

end Draft

namespace Wire

open Value

variable {levels : Nat} {name : String} {v : Value} {f : Fault} {left : Bytes}

/-- How the writing of a named value stops, with as many levels as may still be opened: the fault,
and the octets that were written by then. -/
inductive Stops : Nat → String → Value → Fault → Bytes → Prop where
  /-- No level is left, and nothing is written. -/
  | tooDeep {name : String} {v : Value} : Stops 0 name v (.tooDeep maxDepth) []
  /-- The name is too long. -/
  | name {levels : Nat} {name : String} {v : Value} (long : ¬ NameFits name) :
    Stops (levels + 1) name v (.overflow .attributeName) Bytes.zeroWord
  /-- A part is refused, behind what is written of the others. -/
  | inside {levels : Nat} {name : String} {v : Value} {before after : Entries}
    {e : String × Value} {f : Fault} {left : Bytes} (fits : NameFits name)
    (split : v.inside = before ++ e :: after) (written : ∀ x ∈ before, Keeps levels x.1 x.2)
    (stops : Stops levels e.1 e.2 f left) :
    Stops (levels + 1) name v f (Bytes.zeroWord ++ (nameOctets name ++
      ((before.map fun x => layout x.1 x.2).flatten ++ left)))
  /-- All parts are written, and the whole is too long. -/
  | length {levels : Nat} {name : String} {v : Value} (fits : NameFits name)
    (written : ∀ x ∈ v.inside, Keeps levels x.1 x.2) (long : Header.maxLength < sizeAs name v) :
    Stops (levels + 1) name v (.overflow .wholeAttribute)
      (Bytes.zeroWord ++ (nameOctets name ++ v.payload))

/-! ## One attribute -/

theorem wrap_of_long_name (tag : Tag) (p : Draft) (long : ¬ NameFits name) :
    wrap name tag p = .stopped Bytes.zeroWord (.overflow .attributeName) :=
  if_pos (Nat.lt_of_not_le long)

theorem wrap_stopped (tag : Tag) (part : Bytes) (f : Fault) (fits : NameFits name) :
    wrap name tag (.stopped part f) =
      .stopped (Bytes.zeroWord ++ (nameOctets name ++ part)) f :=
  if_neg (Nat.not_lt_of_le fits)

theorem wrap_of_long (tag : Tag) {payload : Bytes} (fits : NameFits name)
    (long : ¬ PayloadFits name payload) : wrap name tag (.done payload) =
      .stopped (Bytes.zeroWord ++ (nameOctets name ++ payload)) (.overflow .wholeAttribute) := by
  have hname : ¬ maxNameLength < name.utf8ByteSize := Nat.not_lt_of_le fits
  have hmake : Header.make tag.code (4 + (nameOctets name ++ payload).length) true =
      .error (.overflow .wholeAttribute) := by
    rw [PayloadFits] at long
    rw [Header.make, if_pos]
    rw [List.length_append, length_nameOctets]
    omega
  rw [wrap, if_neg hname]
  simp only [Draft.done, hmake]

/-! ## Parts one after another -/

/-- The draft of a named value that keeps to the limits is its layout. -/
theorem draft_eq_done_iff {b : Bytes} :
    draft levels name v = .done b ↔ Keeps levels name v ∧ b = layout name v := by
  rw [← toExcept_draft_eq_ok_iff, Draft.toExcept_eq_ok_iff]

theorem draftEach_cons_of_keeps {e : String × Value} (h : Keeps levels e.1 e.2)
    (entries : Entries) : draftEach levels (e :: entries) =
      ⟨layout e.1 e.2 ++ (draftEach levels entries).bytes, (draftEach levels entries).fault⟩ := by
  rw [draftEach, List.map_cons, draft_eq_done_iff.mpr ⟨h, rfl⟩, Draft.inTurn_cons_done, draftEach]

/-- Named values that keep to the limits are written one after another. -/
theorem draftEach_done {entries : Entries} (h : ∀ e ∈ entries, Keeps levels e.1 e.2) :
    draftEach levels entries = .done (entries.map fun e => layout e.1 e.2).flatten := by
  induction entries with
  | nil => rfl
  | cons e entries ih =>
    rw [List.forall_mem_cons] at h
    rw [draftEach_cons_of_keeps h.1, ih h.2]
    rfl

/-- Named values that keep to the limits stay in front of one at which writing stops. -/
theorem draftEach_stopped {before : Entries} {e : String × Value}
    (h : ∀ x ∈ before, Keeps levels x.1 x.2) (he : draft levels e.1 e.2 = .stopped left f)
    (after : Entries) : draftEach levels (before ++ e :: after) =
      .stopped ((before.map fun x => layout x.1 x.2).flatten ++ left) f := by
  induction before with
  | nil =>
    rw [List.nil_append, draftEach, List.map_cons, he, Draft.inTurn_cons_stopped]
    rfl
  | cons x before ih =>
    rw [List.forall_mem_cons] at h
    rw [List.cons_append, draftEach_cons_of_keeps h.1, ih h.2, List.map_cons, List.flatten_cons,
      List.append_assoc]
    rfl

/-- Named values keep to the limits, or there is a first one at which writing stops. -/
theorem keeps_or_stopped (levels : Nat) (entries : Entries) :
    (∀ e ∈ entries, Keeps levels e.1 e.2) ∨
      ∃ before e after left f, entries = before ++ e :: after ∧
        (∀ x ∈ before, Keeps levels x.1 x.2) ∧ draft levels e.1 e.2 = .stopped left f := by
  induction entries with
  | nil => exact .inl (by simp)
  | cons e entries ih =>
    cases hd : draft levels e.1 e.2 with
    | mk left fault =>
      cases fault with
      | some f => exact .inr ⟨[], e, entries, left, f, rfl, by simp, hd⟩
      | none =>
        have keeps := (draft_eq_done_iff.mp hd).1
        rcases ih with ih | ⟨before, x, after, left, f, rfl, hbefore, hx⟩
        · exact .inl (List.forall_mem_cons.mpr ⟨keeps, ih⟩)
        · exact .inr ⟨e :: before, x, after, left, f, rfl,
            List.forall_mem_cons.mpr ⟨keeps, hbefore⟩, hx⟩

/-! ## All levels -/

/-- A name that is too long is refused before the value is looked at. -/
theorem draft_of_long_name (long : ¬ NameFits name) :
    draft (levels + 1) name v = .stopped Bytes.zeroWord (.overflow .attributeName) := by
  by_cases plain : v.IsPlain
  · rw [draft_of_plain levels name plain, wrap_of_long_name _ _ long]
  · rw [draft_of_container levels name plain, wrap_of_long_name _ _ long]

/-- If no part is refused, a value is written around its payload. -/
theorem draft_of_keeps_inside (h : ∀ x ∈ v.inside, Keeps levels x.1 x.2) :
    draft (levels + 1) name v = wrap name v.tag (.done v.payload) := by
  by_cases plain : v.IsPlain
  · exact draft_of_plain levels name plain
  · rw [draft_of_container levels name plain, draftEach_done h, payload_of_container plain]

/-- If a part is refused, a value is written around the parts in front of it and its beginning. -/
theorem draft_of_stopped_inside {before after : Entries} {e : String × Value}
    (split : v.inside = before ++ e :: after) (h : ∀ x ∈ before, Keeps levels x.1 x.2)
    (he : draft levels e.1 e.2 = .stopped left f) :
    draft (levels + 1) name v = wrap name v.tag
      (.stopped ((before.map fun x => layout x.1 x.2).flatten ++ left) f) := by
  have container : ¬ v.IsPlain := by
    intro plain
    rw [plain.inside_eq] at split
    simp at split
  rw [draft_of_container levels name container, split, draftEach_stopped h he]

/-- Writing stops in these ways and in no others. -/
theorem draft_eq_stopped_iff :
    draft levels name v = .stopped left f ↔ Stops levels name v f left := by
  constructor
  · intro h
    induction levels generalizing name v f left with
    | zero =>
      rw [draft, Draft.stopped_inj] at h
      obtain ⟨rfl, rfl⟩ := h
      exact .tooDeep
    | succ levels ih =>
      by_cases fits : NameFits name
      · rcases keeps_or_stopped levels v.inside with written |
          ⟨before, e, after, part, g, split, written, he⟩
        · rw [draft_of_keeps_inside written] at h
          by_cases long : PayloadFits name v.payload
          · have done : (wrap name v.tag (.done v.payload)).toExcept = _ :=
              wrap_eq_ok_iff.mpr ⟨fits, v.payload, rfl, long, rfl⟩
            rw [h] at done
            cases done
          · rw [wrap_of_long v.tag fits long, Draft.stopped_inj] at h
            obtain ⟨rfl, rfl⟩ := h
            rw [payloadFits_payload, Nat.not_le] at long
            exact .length fits written long
        · rw [draft_of_stopped_inside split written he, wrap_stopped _ _ _ fits,
            Draft.stopped_inj] at h
          obtain ⟨rfl, rfl⟩ := h
          exact .inside fits split written (ih he)
      · rw [draft_of_long_name fits, Draft.stopped_inj] at h
        obtain ⟨rfl, rfl⟩ := h
        exact .name fits
  · intro h
    induction h with
    | tooDeep => rw [draft]
    | name long => exact draft_of_long_name long
    | inside fits split written _ ih =>
      rw [draft_of_stopped_inside split written ih, wrap_stopped _ _ _ fits]
    | length fits written long =>
      rw [draft_of_keeps_inside written, wrap_of_long _ fits]
      rwa [payloadFits_payload, Nat.not_le]

end Wire

end MicroBus

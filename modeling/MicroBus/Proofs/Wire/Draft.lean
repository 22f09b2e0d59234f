import MicroBus.Proofs.Value.Nested
import MicroBus.Proofs.Wire.Filled
import MicroBus.Wire.Encode

/-!
# What the encoder writes

A draft that was not stopped holds a layout without any filler put in, of a value whose names
and nesting keep to the limits. So drafts are read back by whatever reads layouts with filler.
-/

namespace MicroBus

/-- What a container holds, in the order in which it is written; items have the empty name. -/
def Value.inside : Value → Entries
  | .table entries => sortByName entries
  | .array items => items.map fun v => ("", v)
  | _ => []

theorem Value.IsPlain.inside_eq {v : Value} (h : v.IsPlain) : v.inside = [] := by
  cases v with
  | table | array => exact h.elim
  | _ => rfl

namespace Draft

theorem toExcept_andThen (d e : Draft) : (d.andThen e).toExcept = do
    let front ← d.toExcept
    let back ← e.toExcept
    return front ++ back := by
  obtain ⟨front, fault⟩ := d
  obtain ⟨back, other⟩ := e
  cases fault <;> cases other <;> rfl

/-- Drafts in turn are finished when all of them are, and else stop as the first of them. -/
theorem toExcept_inTurn (ds : List Draft) :
    (inTurn ds).toExcept = List.flatten <$> ds.mapM toExcept := by
  induction ds with
  | nil => rfl
  | cons d ds ih =>
    rw [show inTurn (d :: ds) = d.andThen (inTurn ds) from rfl, toExcept_andThen, ih,
      List.mapM_cons]
    cases d.toExcept with
    | error f => rfl
    | ok front => cases ds.mapM toExcept <;> rfl

end Draft

namespace Wire

theorem nameOctets_eq (name : String) : nameOctets name =
    Bytes.bigEndian 2 name.utf8ByteSize ++ Text.utf8 name ++ [0] ++
      Bytes.filler (3 + name.utf8ByteSize) := by
  have hl : (Bytes.bigEndian 2 name.utf8ByteSize ++ Text.utf8 name ++ [0]).length =
      3 + name.utf8ByteSize := by
    simp only [List.length_append, Bytes.length_bigEndian, Text.length_utf8, List.length_singleton]
    omega
  rw [nameOctets, Bytes.padded, hl]

theorem length_nameOctets (name : String) :
    (nameOctets name).length = Bytes.align (3 + name.utf8ByteSize) := by
  rw [nameOctets, Bytes.length_padded]
  congr 1
  simp only [List.length_append, Bytes.length_bigEndian, Text.length_utf8, List.length_singleton]
  omega

/-- A named value is its header and the rest, filled up. -/
theorem padded_eq_filledAround {name : String} {tag : Tag} {payload : Bytes} {size : Nat}
    (hs : size = 4 + (nameOctets name ++ payload).length) :
    Bytes.padded (Header.encode ⟨tag.code, size, true⟩ ++ (nameOctets name ++ payload)) =
      Value.filledAround name tag payload := by
  have hl : (Header.encode ⟨tag.code, size, true⟩ ++ (nameOctets name ++ payload)).length =
      size := by
    rw [List.length_append, Header.length_encode, hs]
  rw [Bytes.padded, hl, hs, List.length_append, length_nameOctets, Value.filledAround,
    Value.layoutAround, nameOctets_eq, ← Nat.add_assoc]
  simp only [List.append_assoc]

/-- An attribute is refused for its name, then for its payload, and then for its length. -/
theorem toExcept_wrap (name : String) (tag : Tag) (p : Draft) : (wrap name tag p).toExcept =
    if maxNameLength < name.utf8ByteSize then .error (.overflow .attributeName)
    else p.toExcept >>= fun payload =>
      if Header.maxLength < 4 + (nameOctets name ++ payload).length then
        .error (.overflow .wholeAttribute)
      else .ok (Value.filledAround name tag payload) := by
  rw [wrap]
  by_cases hn : maxNameLength < name.utf8ByteSize
  · rw [if_pos hn, if_pos hn]
    rfl
  · rw [if_neg hn, if_neg hn]
    obtain ⟨payload, fault⟩ := p
    cases fault with
    | some f => rfl
    | none =>
      simp only [Draft.toExcept, bind, Except.bind, Header.make]
      by_cases hl : Header.maxLength < 4 + (nameOctets name ++ payload).length
      · rw [if_pos hl, if_pos hl]
        rfl
      · rw [if_neg hl, if_neg hl, ← padded_eq_filledAround rfl]
        rfl

/-- An attribute is written when its payload is, its name fits and its length fits. -/
theorem wrap_eq_ok_iff {name : String} {tag : Tag} {p : Draft} {b : Bytes} :
    (wrap name tag p).toExcept = .ok b ↔ Value.NameFits name ∧ ∃ payload,
      p.toExcept = .ok payload ∧ Value.PayloadFits name payload ∧
        b = Value.filledAround name tag payload := by
  have hfits (payload : Bytes) : Value.PayloadFits name payload ↔
      ¬ Header.maxLength < 4 + (nameOctets name ++ payload).length := by
    rw [Value.PayloadFits, List.length_append, length_nameOctets]
    omega
  rw [toExcept_wrap]
  by_cases hn : maxNameLength < name.utf8ByteSize
  · have hname : ¬ Value.NameFits name := Nat.not_le_of_lt hn
    simp [hn, hname]
  · have hname : Value.NameFits name := Nat.le_of_not_lt hn
    rw [if_neg hn, bind_eq_ok_iff]
    simp only [hname, true_and, hfits]
    refine exists_congr fun payload => and_congr_right fun _ => ?_
    by_cases hl : Header.maxLength < 4 + (nameOctets name ++ payload).length
    · rw [if_pos hl]
      constructor
      · intro h
        cases h
      · rintro ⟨hle, -⟩
        exact (hle hl).elim
    · rw [if_neg hl, Except.ok.injEq, eq_comm]
      exact (and_iff_right hl).symm

/-- The drafts of named values, one after another. -/
def draftEach (levels : Nat) (entries : Entries) : Draft :=
  Draft.inTurn (entries.map fun e => draft levels e.1 e.2)

theorem toExcept_draftEach (levels : Nat) (entries : Entries) :
    (draftEach levels entries).toExcept =
      List.flatten <$> entries.mapM fun e => (draft levels e.1 e.2).toExcept := by
  rw [draftEach, Draft.toExcept_inTurn, List.mapM_map]
  rfl

/-- Entries are written one after another, in the order of their names. -/
theorem inNameOrder_eq_draftEach (levels : Nat) (entries : Entries) :
    inNameOrder (draftEntries levels [] entries) = draftEach levels (sortByName entries) := by
  rw [draftEntries_eq, List.reverse_nil, List.nil_append, inNameOrder, sortByName_map,
    List.map_map, draftEach]
  rfl

theorem inTurn_eq_draftEach (levels : Nat) (items : List Value) :
    Draft.inTurn (draftItems levels [] items) =
      draftEach levels (items.map fun v => ("", v)) := by
  rw [draftItems_eq, List.reverse_nil, List.nil_append, draftEach, List.map_map]
  rfl

theorem entriesDraft_eq (entries : Entries) :
    entriesDraft entries = draftEach (maxDepth + 1) (sortByName entries) :=
  inNameOrder_eq_draftEach (maxDepth + 1) entries

theorem itemsDraft_eq (items : List Value) :
    itemsDraft items = draftEach (maxDepth + 1) (items.map fun v => ("", v)) :=
  inTurn_eq_draftEach (maxDepth + 1) items

/-- What is known of a named value that was written: it keeps to the limits, and its octets
are a layout of it. -/
structure Written (levels : Nat) (name : String) (v : Value) (b : Bytes) : Prop where
  /-- The name fits. -/
  name_fits : Value.NameFits name
  /-- The names in the value fit. -/
  names_fit : v.NamesFit
  /-- The value opens no more levels than there are. -/
  depth_lt : v.depth < levels
  /-- In front of a layout the octets are a layout. -/
  filled {entries : Entries} {c : Bytes} (h : Filled entries c) :
    Filled ((name, v) :: entries) (b ++ c)

/-- Entries that were written one by one are written as a layout. -/
theorem filled_flatten {levels : Nat} {entries : Entries} {bs : List Bytes}
    (h : List.Forall₂ (fun e b => Written levels e.1 e.2 b) entries bs) :
    Filled entries bs.flatten := by
  induction h with
  | nil => exact .nil
  | cons h _ ih => exact h.filled ih

/-- Written entries keep to the limits together. -/
theorem Written.limits {levels : Nat} {entries : Entries}
    (h : ∀ e ∈ entries, ∃ b, Written levels e.1 e.2 b) :
    Value.NamesOfEntriesFit entries ∧ Value.depthOfEntries entries ≤ levels := by
  constructor
  · rw [Value.namesOfEntriesFit_iff]
    intro e he
    obtain ⟨b, hb⟩ := h e he
    exact ⟨hb.name_fits, hb.names_fit⟩
  · rw [Value.depthOfEntries_le_iff]
    intro e he
    obtain ⟨b, hb⟩ := h e he
    exact hb.depth_lt

theorem ofInt64_eq (i : Int64) :
    ofInt64 i = (Value.tag (.int i), Value.payload (.int i)) := by
  rw [ofInt64, Value.tag, Value.payload, Value.payloadSize]
  by_cases h : -0x80000000 ≤ i.toInt ∧ i.toInt < 0x80000000
  · rw [if_pos h, if_pos h, if_pos h]
  · rw [if_neg h, if_neg h, if_neg h]

theorem ofUInt64_eq (u : UInt64) :
    ofUInt64 u = (Value.tag (.uint u), Value.payload (.uint u)) := by
  rw [ofUInt64, Value.tag, Value.payload, Value.payloadSize]
  by_cases h : u.toNat < 0x100000000
  · rw [if_pos h, if_pos h, if_pos h]
  · rw [if_neg h, if_neg h, if_neg h]

/-- A value that holds no others is written around its payload. -/
theorem draft_of_plain (levels : Nat) (name : String) {v : Value} (h : v.IsPlain) :
    draft (levels + 1) name v = wrap name v.tag (.done v.payload) := by
  cases v with
  | null | bool | double | str | bytes => rw [draft]; rfl
  | int i => rw [draft, ofInt64_eq]
  | uint u => rw [draft, ofUInt64_eq]
  | table | array => exact h.elim

/-- A container is written around what it holds. -/
theorem draft_of_container (levels : Nat) (name : String) {v : Value} (h : ¬ v.IsPlain) :
    draft (levels + 1) name v = wrap name v.tag (draftEach levels v.inside) := by
  cases v with
  | table entries =>
    rw [draft]
    exact congrArg (wrap name .table) (inNameOrder_eq_draftEach levels entries)
  | array items =>
    rw [draft]
    exact congrArg (wrap name .array) (inTurn_eq_draftEach levels items)
  | _ => exact (h trivial).elim

/-- A written value that holds no others is its layout. -/
theorem Written.of_plain {levels : Nat} {name : String} {v : Value} {b : Bytes}
    (plain : v.IsPlain) (h : (wrap name v.tag (.done v.payload)).toExcept = .ok b) :
    Written (levels + 1) name v b := by
  obtain ⟨hn, payload, hp, fits, rfl⟩ := wrap_eq_ok_iff.mp h
  obtain rfl := Except.ok.inj hp
  cases v with
  | null | bool | int | uint | double =>
    exact ⟨hn, trivial, Nat.succ_pos levels, fun h => .scalar trivial h⟩
  | str | bytes => exact ⟨hn, trivial, Nat.succ_pos levels, fun h => .text 0 trivial fits h⟩
  | table | array => exact plain.elim

/-- A container around what was written of all that it holds is its layout. -/
theorem Written.of_container {levels : Nat} {name : String} {v : Value} {bs : List Bytes}
    (container : ¬ v.IsPlain) (name_fits : Value.NameFits name)
    (fits : Value.PayloadFits name bs.flatten)
    (h : List.Forall₂ (fun e b => Written levels e.1 e.2 b) v.inside bs) :
    Written (levels + 1) name v (Value.filledAround name v.tag bs.flatten) := by
  obtain ⟨names, depth⟩ := Written.limits (exists_of_forall₂ h)
  cases v with
  | table entries =>
    rw [Value.inside, Value.namesOfEntriesFit_sortByName] at names
    rw [Value.inside, Value.depthOfEntries_sortByName] at depth
    exact ⟨name_fits, names, Nat.lt_succ_of_le depth, .table (filled_flatten h) fits⟩
  | array items =>
    rw [Value.inside, Value.namesOfEntriesFit_items] at names
    rw [Value.inside, Value.depthOfEntries_items] at depth
    exact ⟨name_fits, names, Nat.lt_succ_of_le depth, .array (filled_flatten h) fits⟩
  | _ => exact (container trivial).elim

/-- Whatever is written is the layout of a value within the limits. -/
theorem written_of_draft {levels : Nat} {name : String} {v : Value} {b : Bytes}
    (h : (draft levels name v).toExcept = .ok b) : Written levels name v b := by
  induction levels generalizing name v b with
  | zero =>
    rw [draft] at h
    cases h
  | succ levels ih =>
    by_cases plain : v.IsPlain
    · rw [draft_of_plain levels name plain] at h
      exact .of_plain plain h
    · rw [draft_of_container levels name plain] at h
      obtain ⟨name_fits, payload, hp, fits, rfl⟩ := wrap_eq_ok_iff.mp h
      rw [toExcept_draftEach, map_eq_ok_iff] at hp
      obtain ⟨bs, hbs, rfl⟩ := hp
      exact .of_container plain name_fits fits ((mapM_eq_ok_iff.mp hbs).imp fun _ _ he => ih he)

/-- Named values that are written one after another are written one by one. -/
theorem written_of_draftEach {levels : Nat} {entries : Entries} {c : Bytes}
    (h : (draftEach levels entries).toExcept = .ok c) : ∃ bs : List Bytes,
      List.Forall₂ (fun e b => Written levels e.1 e.2 b) entries bs ∧ c = bs.flatten := by
  rw [toExcept_draftEach, map_eq_ok_iff] at h
  obtain ⟨bs, hbs, rfl⟩ := h
  exact ⟨bs, (mapM_eq_ok_iff.mp hbs).imp fun _ _ he => written_of_draft he, rfl⟩

theorem filled_of_draftEach {levels : Nat} {entries : Entries} {c : Bytes}
    (h : (draftEach levels entries).toExcept = .ok c) : Filled entries c := by
  obtain ⟨bs, hw, rfl⟩ := written_of_draftEach h
  exact filled_flatten hw

end Wire

end MicroBus

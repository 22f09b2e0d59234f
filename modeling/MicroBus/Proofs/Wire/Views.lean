import MicroBus.Proofs.Json.RoundTrip
import MicroBus.Proofs.Wire.Filler
import MicroBus.Value.Convert

/-!
# The views of a table

A table may repeat a name. It is seen through a look-up, as a map and as a JSON object, and in each
of these the last entry of a name stands for all of them. Sorting keeps the order of entries of one
name, so this entry is also the last one in a table that was built from the same fields, and in the
table that arrives when it is sent.
-/

namespace MicroBus

/-- What the last entry of a name holds; nothing if no entry has the name. -/
inductive LastNamed {α : Type} (name : String) : List (String × α) → Option α → Prop where
  /-- All entries have other names. -/
  | absent {entries : List (String × α)} (others : ∀ e ∈ entries, e.1 ≠ name) :
      LastNamed name entries none
  /-- All entries behind one of the name have other names. -/
  | present {before after : List (String × α)} {a : α} (others : ∀ e ∈ after, e.1 ≠ name) :
      LastNamed name (before ++ (name, a) :: after) (some a)

namespace Value

/-! ## The last entry by search -/

section LastNamed

variable {α β : Type} {name : String} {entries : List (String × α)} {found : Option α}

/-- The last entry of a name is the first one when the search starts from the end. -/
theorem findLast?_eq_find?_reverse (name : String) (entries : List (String × α)) :
    findLast? name entries = (entries.reverse.find? fun e => e.1 = name).map Prod.snd := by
  rw [findLast?_eq, ← List.head?_reverse, ← List.filter_reverse, List.head?_filter]

theorem findLast?_eq_iff : findLast? name entries = found ↔ LastNamed name entries found := by
  constructor
  · rintro rfl
    cases hl : findLast? name entries with
    | none => exact .absent (findLast?_eq_none_iff.mp hl)
    | some a =>
      rw [findLast?_eq_find?_reverse, Option.map_eq_some_iff] at hl
      obtain ⟨e, he, rfl⟩ := hl
      obtain ⟨hname, after, before, hsplit, others⟩ := List.find?_eq_some_iff_append.mp he
      obtain rfl : e.1 = name := of_decide_eq_true hname
      have hentries : entries = before.reverse ++ e :: after.reverse := by
        rw [← List.reverse_reverse entries, hsplit]
        simp
      rw [hentries]
      exact .present (by simpa using others)
  · rintro (others | others)
    · exact findLast?_eq_none_iff.mpr others
    · rw [findLast?_append, findLast?_cons, findLast?_eq_none_iff.mpr others, if_pos rfl]
      rfl

/-- Sorting by name keeps the last entry of each name. -/
theorem lastNamed_sortByName (h : LastNamed name entries found) :
    LastNamed name (sortByName entries) found := by
  rw [← findLast?_eq_iff, findLast?_sortByName]
  exact findLast?_eq_iff.mpr h

/-- Changing what entries hold changes what the last of them holds. -/
theorem lastNamed_map (h : LastNamed name entries found) (f : α → β) :
    LastNamed name (entries.map fun e => (e.1, f e.2)) (found.map f) := by
  rw [← findLast?_eq_iff, findLast?_map, findLast?_eq_iff.mpr h]

end LastNamed

/-! ## The views -/

/-- All views of a table agree on a name: the table has it in each of them with what was found, and
in none of them if nothing was found. -/
structure Shows (v : Value) (name : String) (found : Option Value) : Prop where
  /-- The look-up by name. -/
  lookup : v.get? name = found
  /-- The map, which has each name once. -/
  map : ∃ m, v.toCanonical = .ok m ∧ Ascending m ∧ ∀ w, (name, w) ∈ m ↔ found = some w
  /-- The JSON object, which has each name once. -/
  json : ∃ members, v.toJson = .obj members ∧ Ascending members ∧
    ∀ j, (name, j) ∈ members ↔ found.map toJson = some j

variable {name : String} {entries : Entries} {found : Option Value}

/-- Every view shows the last entry of a name. -/
theorem shows_of_lastNamed (h : LastNamed name entries found) :
    (table entries).Shows name found := by
  have hl := findLast?_eq_iff.mpr h
  have ascending := ascending_canonical entries
  refine ⟨hl, ⟨canonical entries, rfl, ascending, fun w => ?_⟩,
    ⟨_, toJson_table entries, ascending.map toJson, fun j => ?_⟩⟩
  · rw [mem_canonical_iff, hl]
  · rw [(ascending.map toJson).mem_iff, findLast?_map, findLast?_canonical, hl]

/-- What arrives of a table shows what arrives of the last entry of a name. -/
theorem shows_received (h : LastNamed name entries found) :
    (table (sortByName (receivedEntries entries))).Shows name (found.map received) := by
  rw [receivedEntries_eq]
  exact shows_of_lastNamed (lastNamed_sortByName (lastNamed_map h received))

end Value

/-! ## Tables that are built -/

namespace Entries

/-- Entries made by adding fields one after another. -/
def ofFields (fields : List (String × Value)) : Entries :=
  fields.foldl (fun (made : Entries) e => made.add e.1 e.2) []

/-- Each field that is added becomes the last entry. -/
theorem foldl_add_eq (fields : List (String × Value)) (made : Entries) :
    fields.foldl (fun (made : Entries) e => made.add e.1 e.2) made = made ++ fields := by
  induction fields generalizing made with
  | nil => rw [List.foldl_nil, List.append_nil]
  | cons e rest ih =>
    rw [List.foldl_cons, ih, add, List.append_assoc]
    rfl

theorem build_ofFields (fields : List (String × Value)) :
    (ofFields fields).build = .table (sortByName fields) := by
  rw [build, ofFields, foldl_add_eq, List.nil_append]

end Entries

/-- All views of a table agree on every name: the look-up, the map and the JSON object have what the
last entry of the name holds, and none of them has the name if there is no such entry. The table
that is built from fields added in the order of the entries shows the same. If the table can be
written, as a named value or as a container, then it is read back, whatever octets follow, and all
views of what is read show what arrives of that same entry. -/
theorem views_agree (entries : Entries) (name : String) :
    ∃ found, LastNamed name entries found ∧
      (Value.table entries).Shows name found ∧
      (Entries.ofFields entries).build.Shows name found ∧
      (∀ outer b, encodeNamed outer (.table entries) = .ok b → ∀ suffix, ∃ arrived,
        decodeNamed (b ++ suffix) = .ok (outer, .table arrived) ∧
          (Value.table arrived).Shows name (found.map Value.received)) ∧
      ∀ b, encodeTable entries = .ok b → ∀ suffix, ∃ arrived,
        decodeTable (b ++ suffix) = .ok arrived ∧
          (Value.table arrived).Shows name (found.map Value.received) := by
  have last := Value.findLast?_eq_iff.mp (Eq.refl (Value.findLast? name entries))
  refine ⟨Value.findLast? name entries, last, Value.shows_of_lastNamed last, ?_, ?_, ?_⟩
  · rw [Entries.build_ofFields]
    exact Value.shows_of_lastNamed (Value.lastNamed_sortByName last)
  · intro outer b written suffix
    obtain ⟨⟨name_fits, names_fit, depth_le, -⟩, -⟩ := encodeNamed_eq_ok_iff.mp written
    have read := (filled_of_encodeNamed written).decodeNamed_eq name_fits names_fit depth_le suffix
    rw [Value.received] at read
    exact ⟨_, read, Value.shows_received last⟩
  · intro b written suffix
    obtain ⟨⟨⟨names, depth⟩, -⟩, -⟩ := encodeTable_eq_ok_iff.mp written
    obtain ⟨inside, without, sealed⟩ := filled_of_encodeTable written
    exact ⟨_, without.decodeTable_eq sealed names depth suffix, Value.shows_received last⟩

/-- Of three entries of one name among others the last counts, also when it has lost its width on
the way, and a name that no entry has is nowhere. -/
theorem views_agree_repeated :
    let entries : Entries := [("b", .str "x"), ("a", .bool true), ("b", .null),
      ("b", .uint 4294967295), ("a", .double ⟨0⟩)]
    (Value.table entries).Shows "b" (some (.uint 4294967295)) ∧
    (Entries.ofFields entries).build.Shows "b" (some (.uint 4294967295)) ∧
    (∃ b arrived, encodeNamed "t" (.table entries) = .ok b ∧
      decodeNamed (b ++ [7]) = .ok ("t", .table arrived) ∧
      (Value.table arrived).Shows "b" (some (.int (-1)))) ∧
    ∃ b arrived, encodeTable entries = .ok b ∧ decodeTable (b ++ [7]) = .ok arrived ∧
      (Value.table arrived).Shows "c" none := by
  intro entries
  obtain ⟨_, last, shown, built, named, -⟩ := views_agree entries "b"
  have hb : Value.findLast? "b" entries = some (.uint 4294967295) := by cbv
  obtain rfl := hb.symm.trans (Value.findLast?_eq_iff.mpr last)
  obtain ⟨_, absent, -, -, -, whole⟩ := views_agree entries "c"
  have hc : Value.findLast? "c" entries = none := by cbv
  obtain rfl := hc.symm.trans (Value.findLast?_eq_iff.mpr absent)
  obtain ⟨b, sent⟩ : ∃ b, encodeNamed "t" (.table entries) = .ok b := ⟨_, by cbv⟩
  obtain ⟨arrived, read, shows⟩ := named "t" b sent [7]
  obtain ⟨c, sealed⟩ : ∃ c, encodeTable entries = .ok c := ⟨_, by cbv⟩
  obtain ⟨others, others_read, others_show⟩ := whole c sealed [7]
  exact ⟨shown, built, ⟨b, arrived, sent, read, shows⟩, c, others, sealed, others_read, others_show⟩

end MicroBus

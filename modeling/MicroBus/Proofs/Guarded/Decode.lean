import MicroBus.Body.Fields
import MicroBus.Proofs.Attribute.Extent
import MicroBus.Proofs.Guarded.Attribute
import MicroBus.Proofs.Wire.Payload

/-!
# Reading values with every access checked

Text, values, containers and message bodies, with the positions that their readers compute and
with calls counted. None of these readings is stuck: whatever is read lies in an attribute, whose
length its word holds, and calls are nested no deeper than containers.
-/

namespace MicroBus

namespace Guarded

variable (m : Machine)

/-- Drops zero words in front, as long as more than a word is left. -/
def dropFront (data : Bytes) : Guarded Bytes :=
  if 4 < data.length then
    match slice data 0 4 with
    | some (.ok word) =>
      if word = Bytes.zeroWord then
        match _h : slice data 4 data.length with
        | some (.ok rest) => dropFront rest
        | _ => stuck
      else of (.ok data)
    | _ => stuck
  else of (.ok data)
termination_by data.length
decreasing_by
  have hs : of (.ok ((data.drop 4).take (data.length - 4))) = some (.ok rest) := by
    rw [← slice_eq (by omega) (Nat.le_refl _)]
    exact _h
  obtain rfl := Except.ok.inj (Option.some.inj hs)
  rw [List.length_take, List.length_drop]
  omega

theorem dropFront_eq (data : Bytes) : dropFront data = of (.ok (Wire.dropFront data)) := by
  fun_induction Wire.dropFront data with
  | case1 a b c d e rest h ih =>
    obtain ⟨rfl, rfl, rfl, rfl⟩ := h
    have hw : slice (0 :: 0 :: 0 :: 0 :: e :: rest) 0 4 = of (.ok Bytes.zeroWord) :=
      slice_eq (Nat.zero_le 4) (by simp)
    have hr : slice (0 :: 0 :: 0 :: 0 :: e :: rest) 4 (0 :: 0 :: 0 :: 0 :: e :: rest).length =
        of (.ok (e :: rest)) := by
      rw [slice_eq (by simp) (Nat.le_refl _)]
      simp
    rw [dropFront, if_pos (by simp), hw]
    simp only [of, if_true]
    split
    · next tail htail =>
      rw [hr] at htail
      cases htail
      exact ih
    · next hstuck => exact (hstuck (e :: rest) hr).elim
  | case2 a b c d e rest h =>
    have hw : slice (a :: b :: c :: d :: e :: rest) 0 4 = of (.ok [a, b, c, d]) :=
      slice_eq (Nat.zero_le 4) (by simp)
    have hne : ¬ [a, b, c, d] = Bytes.zeroWord := by
      simpa [Bytes.zeroWord] using h
    rw [dropFront, if_pos (by simp), hw]
    exact if_neg hne
  | case3 data h =>
    have hl : ¬ 4 < data.length := Nat.not_lt_of_le (Wire.length_le_four h)
    rw [dropFront, if_neg hl]

/-- The last position below `n` at which an octet is not zero. -/
def lastNonzero? (data : Bytes) : Nat → Option Nat
  | 0 => none
  | n + 1 => if data[n]? = some 0 then lastNonzero? data n else some n

theorem lt_of_lastNonzero? {data : Bytes} {n i : Nat} (h : lastNonzero? data n = some i) :
    i < n := by
  induction n with
  | zero => cases h
  | succ n ih =>
    rw [lastNonzero?] at h
    split at h
    · exact Nat.lt_succ_of_lt (ih h)
    · obtain rfl := Option.some.inj h
      exact Nat.lt_succ_self n

/-- Without the zero octets at their end, octets end behind the last that is not zero. -/
theorem trimEnd_take {data : Bytes} {n : Nat} (h : n ≤ data.length) :
    Bytes.trimEnd (data.take n) = data.take (((lastNonzero? data n).map (· + 1)).getD 0) := by
  induction n with
  | zero => rfl
  | succ n ih =>
    have ht : data.take (n + 1) = data.take n ++ [data[n]] := List.take_succ_eq_append_getElem h
    have hget : data[n]? = some data[n] := List.getElem?_eq_getElem h
    rw [lastNonzero?, hget]
    by_cases hx : data[n] = 0
    · rw [if_pos (by rw [hx]), ht, hx, Wire.trimEnd_append_zero, ih (Nat.le_of_succ_le h)]
    · rw [if_neg (by simpa using hx), ht, Wire.trimEnd_append_of_ne hx, ← ht]
      rfl

/-- Where octets end without the zero octets at their end. -/
def textEnd (data : Bytes) : Guarded Nat :=
  match lastNonzero? data data.length with
  | none => of (.ok 0)
  | some i => sum m i 1

theorem exists_textEnd_eq {data : Bytes} (fits : data.length ≤ m.greatest) :
    ∃ n ≤ data.length, textEnd m data = of (.ok n) ∧ Bytes.trimEnd data = data.take n := by
  have hkept := trimEnd_take (Nat.le_refl data.length)
  rw [List.take_length] at hkept
  rw [textEnd]
  cases hl : lastNonzero? data data.length with
  | none =>
    rw [hl] at hkept
    exact ⟨0, Nat.zero_le _, rfl, hkept⟩
  | some i =>
    have hi := lt_of_lastNonzero? hl
    rw [hl] at hkept
    exact ⟨i + 1, hi, sum_eq (by omega), hkept⟩

/-- The value of a text payload. -/
def text (data : Bytes) : Guarded Value := do
  let started ← dropFront data
  let stop ← textEnd m started
  let kept ← slice started 0 stop
  match Text.ofUtf8? kept with
  | some s => return .str s
  | none => return .bytes kept

theorem text_eq {data : Bytes} (fits : data.length ≤ m.greatest) :
    text m data = of (.ok (Wire.text data)) := by
  have hlen := Wire.length_dropFront_le data
  rw [text, dropFront_eq, of_ok_bind, Wire.text]
  generalize Wire.dropFront data = started at hlen
  obtain ⟨n, hn, hstop, hkept⟩ := exists_textEnd_eq m (Nat.le_trans hlen fits)
  rw [hstop, of_ok_bind, slice_eq (Nat.zero_le n) hn, of_ok_bind, hkept, Nat.sub_zero,
    List.drop_zero]
  cases Text.ofUtf8? (started.take n) <;> rfl

/-- An attribute as a table entry, with a reader for its payload. -/
def entry (read : UInt8 → Bytes → Guarded Value) (a : Attribute) : Guarded (String × Value) := do
  let v ← read a.id a.data
  return (Wire.nameText a, v)

theorem entry_eq {read : UInt8 → Bytes → Guarded Value} {run : UInt8 → Bytes → Except Fault Value}
    {a : Attribute} (h : read a.id a.data = of (run a.id a.data)) :
    entry read a = of (Wire.entry run a) := by
  rw [entry, h]
  exact of_bind _ _

/-- The value of a payload of the type `code` inside `depth` containers, with as many calls as
there is room for. -/
def value (calls depth : Nat) (code : UInt8) (data : Bytes) : Guarded Value :=
  match calls with
  | 0 => stuck
  | calls + 1 =>
    if maxDepth < depth then of (.error (.tooDeep maxDepth))
    else do
      match ← of (Tag.ofCode code) with
      | .unspecified => return .null
      | .table => do
        let inner ← sum m depth 1
        let entries ← each m (entry (value calls inner)) data
        return .table entries
      | .array => do
        let inner ← sum m depth 1
        let items ← each m (fun a => value calls inner a.id a.data) data
        return .array items
      | .string => text m data
      | .int8 => of (Wire.leadingInt .int8 data)
      | .int16 => of (Wire.leadingInt .int16 data)
      | .int32 => of (Wire.leadingInt .int32 data)
      | .int64 => of (Wire.leadingInt .int64 data)
      | .double => do
        let n ← of (Wire.leading .double data)
        return .double ⟨UInt64.ofNat n⟩

/-- With room for one call more than levels may be opened, no reading of a value is stuck. -/
theorem value_eq {levels depth : Nat} (h : depth + levels = maxDepth + 1) (code : UInt8)
    {data : Bytes} (fits : data.length ≤ m.greatest) :
    value m (levels + 1) depth code data = of (Wire.value levels code data) := by
  have hword := m.word_le
  induction levels generalizing depth code data with
  | zero => rw [value, if_pos (by omega), Wire.value]
  | succ levels ih =>
    have hinner : sum m depth 1 = of (.ok (depth + 1)) := by
      apply sum_eq
      unfold maxDepth at h
      omega
    have hread : ∀ a ∈ (walk data).attributes,
        value m (levels + 1) (depth + 1) a.id a.data = of (Wire.value levels a.id a.data) := by
      intro a ha
      have hle := extent_le_of_mem ha
      unfold Attribute.extent at hle
      exact ih (by omega) a.id (by omega)
    rw [value, if_neg (by omega), Wire.value]
    cases Tag.ofCode code with
    | error f => rfl
    | ok t =>
      rw [of_ok_bind, ok_bind]
      cases t with
      | unspecified | int8 | int16 | int32 | int64 => rfl
      | string => exact text_eq m fits
      | double => exact of_bind _ _
      | table =>
        simp only [hinner, of_ok_bind]
        rw [each_eq m data fun a ha => entry_eq (hread a ha), Wire.entriesOf]
        exact of_bind _ _
      | array =>
        simp only [hinner, of_ok_bind]
        rw [each_eq m data hread, Wire.itemsOf]
        exact of_bind _ _

/-- The value of an outermost payload. -/
def outermost (code : UInt8) (data : Bytes) : Guarded Value := value m (maxDepth + 2) 0 code data

theorem outermost_eq (code : UInt8) {data : Bytes} (fits : data.length ≤ m.greatest) :
    outermost m code data = of (Wire.outermost code data) :=
  value_eq m (Nat.zero_add _) code fits

/-- The entries of an outermost run of attributes. -/
def decodeEntries (b : Bytes) : Guarded Entries := each m (entry (outermost m)) b

/-- The contents of a container. -/
def contents (b : Bytes) : Guarded Bytes := do
  let h ← of (Header.parse b)
  slice b 4 h.length

/-- The entries of the table whose container is at the head of `b`. -/
def decodeTable (b : Bytes) : Guarded Entries := do
  decodeEntries m (← contents b)

/-- The items of the array whose container is at the head of `b`. -/
def decodeArray (b : Bytes) : Guarded (List Value) := do
  each m (fun a => outermost m a.id a.data) (← contents b)

/-- The name and the value of the first attribute in `b`. -/
def decodeNamed (b : Bytes) : Guarded (String × Value) :=
  if skipFiller b = [] then of (.error (.truncated .wholeAttribute 4 b.length))
  else do
    let (a, _) ← parse m (skipFiller b)
    entry (outermost m) a

/-- The attributes of a message body. -/
def fields (body : Bytes) : Guarded Fields :=
  match body with
  | [] => return ⟨[]⟩
  | _ => do
    let attributes ← each m (fun a => of (.ok a)) (← contents body)
    return ⟨attributes⟩

/-- The text of a field, up to its first zero octet. -/
def text? (fs : Fields) (field : Field) : Guarded (Option String) :=
  match fs.get? field with
  | none => return none
  | some a => do
    let kept ← slice a.data 0 ((a.data.findIdx? (· == 0)).getD a.data.length)
    return some (Text.ofUtf8Repaired kept)

/-- The table entries of a field. -/
def entries? (fs : Fields) (field : Field) : Guarded (Option Entries) :=
  match fs.get? field with
  | none => return none
  | some a => some <$> decodeEntries m a.data

/-- The whole body as table entries. -/
def asEntries (fs : Fields) : Guarded Entries := fs.attributes.mapM (entry (outermost m))

theorem decodeEntries_eq {b : Bytes} (fits : b.length ≤ m.greatest) :
    decodeEntries m b = of (MicroBus.decodeEntries b) := by
  apply each_eq
  intro a ha
  have hle := extent_le_of_mem ha
  unfold Attribute.extent at hle
  exact entry_eq (outermost_eq m a.id (by omega))

theorem contents_eq (b : Bytes) : contents b = of (Wire.contents b) := by
  rw [contents, Wire.contents]
  cases hh : Header.parse b with
  | error f => rfl
  | ok h =>
    obtain ⟨hfour, hle⟩ := Header.length_bounds_of_parse hh
    exact slice_eq hfour hle

theorem decodeTable_eq (b : Bytes) : decodeTable m b = of (MicroBus.decodeTable b) := by
  have hword := m.word_le
  rw [decodeTable, contents_eq, MicroBus.decodeTable]
  cases hc : Wire.contents b with
  | error f => rfl
  | ok inside =>
    have hlt := Wire.length_contents_lt hc
    exact decodeEntries_eq m (by omega)

theorem decodeArray_eq (b : Bytes) : decodeArray m b = of (MicroBus.decodeArray b) := by
  have hword := m.word_le
  rw [decodeArray, contents_eq, MicroBus.decodeArray]
  cases hc : Wire.contents b with
  | error f => rfl
  | ok inside =>
    have hlt := Wire.length_contents_lt hc
    apply each_eq
    intro a ha
    have hle := extent_le_of_mem ha
    unfold Attribute.extent at hle
    exact outermost_eq m a.id (by omega)

theorem decodeNamed_eq (b : Bytes) : decodeNamed m b = of (MicroBus.decodeNamed b) := by
  have hword := m.word_le
  rw [decodeNamed, MicroBus.decodeNamed]
  by_cases he : skipFiller b = []
  · rw [if_pos he, Cursor.next_of_nil (c := Cursor.start b) rfl he]
  · rw [if_neg he, parse_eq]
    cases hp : Attribute.parse (skipFiller b) with
    | error f =>
      rw [Cursor.next_of_error he hp]
      rfl
    | ok r =>
      obtain ⟨a, after⟩ := r
      obtain ⟨octets, -, -, spelled, -⟩ := Attribute.exists_spells_of_parse hp
      have hle := spelled.extent_le
      have hlt := spelled.length_lt
      unfold Attribute.extent at hle
      rw [Cursor.next_of_ok hp]
      exact entry_eq (outermost_eq m a.id (by omega))

theorem fields_eq (body : Bytes) : fields m body = of (Fields.parse body) := by
  have hw (b : Bytes) : each m (fun a => of (.ok a)) b = of (walk b).toExcept := by
    have hm (l : List Attribute) : l.mapM (fun a => (.ok a : Except Fault Attribute)) = .ok l :=
      mapM_eq_ok_iff.mpr (List.forall₂_same.mpr fun _ _ => rfl)
    rw [each_eq m b fun _ _ => rfl, Walk.decode, hm]
    rfl
  cases body with
  | nil => rfl
  | cons x body =>
    simp only [fields, Fields.parse, contents_eq, hw]
    cases Wire.contents (x :: body) with
    | error f => rfl
    | ok inside => exact of_bind _ _

/-- The text of a field is cut at a position inside it. -/
theorem text?_eq (fs : Fields) (field : Field) : text? fs field = of (.ok (fs.text? field)) := by
  rw [text?, Fields.text?]
  cases fs.get? field with
  | none => rfl
  | some a =>
    have hle : (a.data.findIdx? (· == 0)).getD a.data.length ≤ a.data.length := by
      rw [← List.findIdx_eq_getD_findIdx?]
      exact List.findIdx_le_length
    have ht : a.data.take ((a.data.findIdx? (· == 0)).getD a.data.length) =
        a.data.takeWhile (· != 0) := by
      rw [List.takeWhile_eq_take_findIdx_not, ← List.findIdx_eq_getD_findIdx?]
      simp only [bne, Bool.not_not]
    simp only [slice_eq (Nat.zero_le _) hle, of_ok_bind, Nat.sub_zero, List.drop_zero, ht]
    rfl

theorem entries?_eq {fs : Fields} (fits : ∀ a ∈ fs.attributes, a.data.length ≤ m.greatest)
    (field : Field) : entries? m fs field = of (fs.entries? field) := by
  rw [entries?, Fields.entries?]
  cases ha : fs.get? field with
  | none => rfl
  | some a =>
    have hm : a ∈ fs.attributes := List.mem_reverse.mp (List.mem_of_find?_eq_some ha)
    simp only [decodeEntries_eq m (fits a hm)]
    cases MicroBus.decodeEntries a.data <;> rfl

theorem asEntries_eq {fs : Fields} (fits : ∀ a ∈ fs.attributes, a.data.length ≤ m.greatest) :
    asEntries m fs = of fs.asEntries := by
  rw [asEntries, Fields.asEntries]
  apply mapM_eq
  intro a ha
  exact entry_eq (outermost_eq m a.id (fits a ha))

end Guarded

end MicroBus

import MicroBus.Client.Response
import MicroBus.Proofs.Bytes
import MicroBus.Proofs.Except

/-!
# What messages hold

A field of a body is its last unnamed attribute of that number, and what it holds is in the octets
of this attribute. The relations here say in these terms what a data message adds to the reply to a
call, which object it adds to that to a look-up, and which code a status message has, malformed
messages included. The readers find exactly this.
-/

namespace MicroBus

/-! ## Fields -/

/-- An attribute of a field: it has the number of the field and no name. -/
structure Attribute.Of (a : Attribute) (field : Field) : Prop where
  /-- The number is that of the field. -/
  id_eq : a.id = field.code
  /-- There is no name. -/
  name_eq : a.name = none

namespace Fields

/-- No attribute of a body is of the field. -/
def Lacks (fs : Fields) (field : Field) : Prop := ∀ a ∈ fs.attributes, ¬a.Of field

/-- The last attribute of a field. -/
structure Last (fs : Fields) (field : Field) (a : Attribute) : Prop where
  /-- The attribute is of the field. -/
  of : a.Of field
  /-- None of those behind it is. -/
  split : ∃ before after, fs.attributes = before ++ a :: after ∧ ∀ b ∈ after, ¬b.Of field

/-- What a field holds as an unsigned word. -/
inductive HoldsWord (fs : Fields) (field : Field) : Except Fault (Option UInt32) → Prop where
  /-- The field is not there. -/
  | absent (lacks : fs.Lacks field) : HoldsWord fs field (.ok none)
  /-- The word is in the first four octets. -/
  | word {a : Attribute} {w : UInt32} {rest : Bytes} (last : fs.Last field a)
    (data_eq : a.data = Bytes.bigEndian 4 w.toNat ++ rest) : HoldsWord fs field (.ok (some w))
  /-- There are fewer octets. -/
  | short {a : Attribute} (last : fs.Last field a) (lt : a.data.length < 4) :
    HoldsWord fs field (.error (.badPayload .word a.data.length))

/-- What a field holds as text. -/
inductive HoldsText (fs : Fields) (field : Field) : Option String → Prop where
  /-- The field is not there. -/
  | absent (lacks : fs.Lacks field) : HoldsText fs field none
  /-- The text ends in front of the first zero octet, or with the payload. -/
  | text {a : Attribute} {octets rest : Bytes} (last : fs.Last field a)
    (data_eq : a.data = octets ++ rest) (clean : ∀ b ∈ octets, b ≠ 0)
    (ends : ∀ b ∈ rest.head?, b = 0) : HoldsText fs field (some (Text.ofUtf8Repaired octets))

/-- What a field holds as the entries of a table. -/
inductive HoldsTable (fs : Fields) (field : Field) : Except Fault (Option Entries) → Prop where
  /-- The field is not there. -/
  | absent (lacks : fs.Lacks field) : HoldsTable fs field (.ok none)
  /-- The payload is decoded. -/
  | table {a : Attribute} {entries : Entries} (last : fs.Last field a)
    (h : decodeEntries a.data = .ok entries) : HoldsTable fs field (.ok (some entries))
  /-- The payload is malformed. -/
  | malformed {a : Attribute} {fault : Fault} (last : fs.Last field a)
    (h : decodeEntries a.data = .error fault) : HoldsTable fs field (.error fault)

section Fields

variable {fs : Fields} {field : Field} {a : Attribute}

theorem of_iff : (a.id = field.code && !a.isExtended) = true ↔ a.Of field := by
  rw [Bool.and_eq_true, decide_eq_true_eq, Bool.not_eq_true', Attribute.isExtended,
    Option.isSome_eq_false_iff, Option.isNone_iff_eq_none]
  exact ⟨fun ⟨hid, hname⟩ => ⟨hid, hname⟩, fun ⟨hid, hname⟩ => ⟨hid, hname⟩⟩

theorem get?_eq_none_iff : fs.get? field = none ↔ fs.Lacks field := by
  rw [get?, List.find?_eq_none]
  simp only [of_iff, List.mem_reverse]
  rfl

/-- The last attribute of a field is the first one when the search starts from the end. -/
theorem get?_eq_some_iff : fs.get? field = some a ↔ fs.Last field a := by
  rw [get?, List.find?_eq_some_iff_append, of_iff]
  constructor
  · rintro ⟨of, after, before, hsplit, others⟩
    refine ⟨of, before.reverse, after.reverse, ?_, fun b hb => ?_⟩
    · rw [← List.reverse_reverse fs.attributes, hsplit]
      simp
    · have hb := others b (List.mem_reverse.mp hb)
      rwa [Bool.not_eq_true', Bool.eq_false_iff, ne_eq, of_iff] at hb
  · rintro ⟨of, before, after, hsplit, others⟩
    refine ⟨of, after.reverse, before.reverse, by simp [hsplit], fun b hb => ?_⟩
    rw [Bool.not_eq_true', Bool.eq_false_iff, ne_eq, of_iff]
    exact others b (List.mem_reverse.mp hb)

/-- A field is not there, or one attribute is its last. -/
theorem lacks_or_last (fs : Fields) (field : Field) : fs.Lacks field ∨ ∃ a, fs.Last field a := by
  cases h : fs.get? field with
  | none => exact .inl (get?_eq_none_iff.mp h)
  | some a => exact .inr ⟨a, get?_eq_some_iff.mp h⟩

/-- A word is read off the octets in front of it. -/
theorem leading_word (w : UInt32) (rest : Bytes) :
    Wire.leading .word (Bytes.bigEndian 4 w.toNat ++ rest) = .ok w.toNat := by
  have long : Bytes.atLeast 4 (Bytes.bigEndian 4 w.toNat ++ rest) = true := by
    rw [Bytes.atLeast_iff, List.length_append, Bytes.length_bigEndian]
    exact Nat.le_add_right 4 _
  have front : (Bytes.bigEndian 4 w.toNat ++ rest).take 4 = Bytes.bigEndian 4 w.toNat :=
    List.take_left' (Bytes.length_bigEndian 4 _)
  rw [Wire.leading, Scalar.width, if_pos long, front, Bytes.ofBigEndian_bigEndian_of_lt w.toNat_lt]

theorem leading_word_of_lt {data : Bytes} (lt : data.length < 4) :
    Wire.leading .word data = .error (.badPayload .word data.length) := by
  have few : ¬Bytes.atLeast 4 data = true := by
    rw [Bytes.atLeast_iff]
    omega
  rw [Wire.leading, Scalar.width, if_neg few]

/-- Four octets or more begin with a word. -/
theorem exists_word {data : Bytes} (h : 4 ≤ data.length) :
    ∃ (w : UInt32) (rest : Bytes), data = Bytes.bigEndian 4 w.toNat ++ rest := by
  have hlength : (data.take 4).length = 4 := by rw [List.length_take, Nat.min_eq_left h]
  have hlt := Bytes.ofBigEndian_lt (data.take 4)
  have hfront := Bytes.bigEndian_ofBigEndian (data.take 4)
  rw [hlength] at hlt hfront
  refine ⟨UInt32.ofNat (Bytes.ofBigEndian (data.take 4)), data.drop 4, ?_⟩
  rw [UInt32.toNat_ofNat_of_lt' hlt, hfront, List.take_append_drop]

theorem word?_eq_iff {r : Except Fault (Option UInt32)} :
    fs.word? field = r ↔ fs.HoldsWord field r := by
  constructor
  · rintro rfl
    rcases lacks_or_last fs field with lacks | ⟨a, last⟩
    · rw [word?, get?_eq_none_iff.mpr lacks]
      exact .absent lacks
    · rw [word?, get?_eq_some_iff.mpr last]
      by_cases h : 4 ≤ a.data.length
      · obtain ⟨w, rest, data_eq⟩ := exists_word h
        simp only [data_eq, leading_word, ok_bind, UInt32.ofNat_toNat]
        exact .word last data_eq
      · simp only [leading_word_of_lt (Nat.lt_of_not_le h)]
        exact .short last (Nat.lt_of_not_le h)
  · intro h
    cases h with
    | absent lacks => rw [word?, get?_eq_none_iff.mpr lacks]
    | word last data_eq =>
      rw [word?, get?_eq_some_iff.mpr last]
      simp only [data_eq, leading_word, ok_bind, UInt32.ofNat_toNat]
    | short last lt =>
      rw [word?, get?_eq_some_iff.mpr last]
      simp only [leading_word_of_lt lt]
      rfl

/-- What is in front of the first zero octet, by the octets on either side of it. -/
theorem takeWhile_eq {octets rest : Bytes} (clean : ∀ b ∈ octets, b ≠ 0)
    (ends : ∀ b ∈ rest.head?, b = 0) : (octets ++ rest).takeWhile (· != 0) = octets := by
  have stops : rest.takeWhile (· != 0) = [] := by
    cases rest with
    | nil => rfl
    | cons b rest => simp [ends b rfl]
  rw [List.takeWhile_append_of_pos (by simpa using clean), stops, List.append_nil]

theorem text?_eq_iff {r : Option String} : fs.text? field = r ↔ fs.HoldsText field r := by
  constructor
  · rintro rfl
    rcases lacks_or_last fs field with lacks | ⟨a, last⟩
    · rw [text?, get?_eq_none_iff.mpr lacks]
      exact .absent lacks
    · rw [text?, get?_eq_some_iff.mpr last]
      refine .text last List.takeWhile_append_dropWhile.symm (fun b hb => ?_) (fun b hb => ?_)
      · simpa using List.all_eq_true.mp List.all_takeWhile b hb
      · have stops := List.head?_dropWhile_not (· != 0) a.data
        rw [hb] at stops
        simpa using stops
  · intro h
    cases h with
    | absent lacks => rw [text?, get?_eq_none_iff.mpr lacks, Option.map_none]
    | text last data_eq clean ends =>
      rw [text?, get?_eq_some_iff.mpr last, Option.map_some, data_eq, takeWhile_eq clean ends]

theorem entries?_eq_iff {r : Except Fault (Option Entries)} :
    fs.entries? field = r ↔ fs.HoldsTable field r := by
  constructor
  · rintro rfl
    rcases lacks_or_last fs field with lacks | ⟨a, last⟩
    · rw [entries?, get?_eq_none_iff.mpr lacks]
      exact .absent lacks
    · rw [entries?, get?_eq_some_iff.mpr last]
      cases h : decodeEntries a.data with
      | error fault =>
        simp only [h]
        exact .malformed last h
      | ok entries =>
        simp only [h]
        exact .table last h
  · intro h
    cases h with
    | absent lacks => rw [entries?, get?_eq_none_iff.mpr lacks]
    | table last h =>
      rw [entries?, get?_eq_some_iff.mpr last]
      simp only [h]
      rfl
    | malformed last h =>
      rw [entries?, get?_eq_some_iff.mpr last]
      simp only [h]
      rfl

theorem allExtended_iff : fs.allExtended = true ↔ ∀ a ∈ fs.attributes, a.name ≠ none := by
  simp only [allExtended, List.all_eq_true, Attribute.isExtended, Option.isSome_iff_ne_none]

/-- A body whose attributes all have names has no fields. -/
theorem lacks_of_named (named : ∀ a ∈ fs.attributes, a.name ≠ none) (field : Field) :
    fs.Lacks field :=
  fun a ha of => named a ha of.name_eq

end Fields

end Fields

/-! ## The data of a reply to a call -/

/-- The part that a data message has in the reply to a call, or what is malformed in it. -/
inductive Response.PartOf (frame : Frame) : Except Fault (Option Entries) → Prop where
  /-- The body is malformed. -/
  | unreadable {fault : Fault} (h : Fields.parse frame.body = .error fault) :
    PartOf frame (.error fault)
  /-- The data field holds a table. -/
  | wrapped {fields : Fields} {entries : Entries} (parsed : Fields.parse frame.body = .ok fields)
    (h : fields.HoldsTable .data (.ok (some entries))) : PartOf frame (.ok (some entries))
  /-- The data field is malformed. -/
  | malformed {fields : Fields} {fault : Fault} (parsed : Fields.parse frame.body = .ok fields)
    (h : fields.HoldsTable .data (.error fault)) : PartOf frame (.error fault)
  /-- The body is a table: its attributes all have names, and each of them is an entry. -/
  | bare {fields : Fields} {entries : Entries} (parsed : Fields.parse frame.body = .ok fields)
    (named : ∀ a ∈ fields.attributes, a.name ≠ none)
    (read : List.Forall₂ (fun a e => Wire.entry Wire.outermost a = .ok e)
      fields.attributes entries) : PartOf frame (.ok (some entries))
  /-- The body is a table with a malformed entry, and those in front of it are not. -/
  | malformedBare {fields : Fields} {before after : List Attribute} {a : Attribute} {fault : Fault}
    (parsed : Fields.parse frame.body = .ok fields)
    (named : ∀ a ∈ fields.attributes, a.name ≠ none)
    (split : fields.attributes = before ++ a :: after)
    (fine : ∀ b ∈ before, ∃ e, Wire.entry Wire.outermost b = .ok e)
    (h : Wire.entry Wire.outermost a = .error fault) : PartOf frame (.error fault)
  /-- There are other fields, and none of data. -/
  | without {fields : Fields} {a : Attribute} (parsed : Fields.parse frame.body = .ok fields)
    (lacks : fields.Lacks .data) (mem : a ∈ fields.attributes) (nameless : a.name = none) :
    PartOf frame (.ok none)

namespace Response

variable {frame : Frame}

theorem partOf_part (frame : Frame) : PartOf frame (part frame) := by
  rw [part]
  cases parsed : Fields.parse frame.body with
  | error fault => exact .unreadable parsed
  | ok fields =>
    simp only [ok_bind]
    have table : fields.HoldsTable .data (fields.entries? .data) := Fields.entries?_eq_iff.mp rfl
    generalize fields.entries? .data = found at table
    match found, table with
    | .error fault, table => exact .malformed parsed table
    | .ok (some entries), table => exact .wrapped parsed table
    | .ok none, .absent lacks =>
      simp only [ok_bind]
      split
      · next h =>
        have named := Fields.allExtended_iff.mp h
        cases read : fields.asEntries with
        | error fault =>
          obtain ⟨before, a, after, split, h, fine⟩ := mapM_eq_error_iff.mp read
          exact .malformedBare parsed named split fine h
        | ok entries => exact .bare parsed named (mapM_eq_ok_iff.mp read)
      · next h =>
        rw [Fields.allExtended_iff] at h
        push Not at h
        obtain ⟨a, mem, nameless⟩ := h
        exact .without parsed lacks mem nameless

/-- The part that is found in a message is the one that it has. -/
theorem part_eq_iff {r : Except Fault (Option Entries)} : part frame = r ↔ PartOf frame r := by
  constructor
  · rintro rfl
    exact partOf_part frame
  · have hnone {fields : Fields} (lacks : fields.Lacks .data) : fields.entries? .data = .ok none :=
      Fields.entries?_eq_iff.mpr (.absent lacks)
    intro h
    rw [part]
    cases h with
    | unreadable h => rw [h]; rfl
    | wrapped parsed h => simp only [parsed, ok_bind, Fields.entries?_eq_iff.mpr h]
    | malformed parsed h =>
      simp only [parsed, ok_bind, Fields.entries?_eq_iff.mpr h]
      rfl
    | bare parsed named read =>
      simp only [parsed, ok_bind, hnone (Fields.lacks_of_named named .data),
        Fields.allExtended_iff.mpr named, if_true]
      rw [Fields.asEntries, mapM_eq_ok_iff.mpr read]
      rfl
    | malformedBare parsed named split fine h =>
      simp only [parsed, ok_bind, hnone (Fields.lacks_of_named named .data),
        Fields.allExtended_iff.mpr named, if_true]
      rw [Fields.asEntries, mapM_eq_error_iff.mpr ⟨_, _, _, split, h, fine⟩]
      rfl
    | without parsed lacks mem nameless =>
      have unnamed (h : _) : False := Fields.allExtended_iff.mp h _ mem nameless
      simp only [parsed, ok_bind, hnone lacks, if_neg unnamed]

end Response

/-! ## The objects of a reply to a look-up -/

/-- The object that a data message reports in the reply to a look-up, or what is malformed in it:
of its fields the path counts first, then the identifier, the type and the signature. -/
inductive ObjectInfo.ReportOf (frame : Frame) : Except Fault ObjectInfo → Prop where
  /-- The body is malformed. -/
  | unreadable {fault : Fault} (h : Fields.parse frame.body = .error fault) :
    ReportOf frame (.error fault)
  /-- There is no path. -/
  | pathless {fields : Fields} (parsed : Fields.parse frame.body = .ok fields)
    (lacks : fields.Lacks .objectPath) : ReportOf frame (.error (.missingField .objectPath))
  /-- The identifier is malformed. -/
  | badId {fields : Fields} {path : String} {fault : Fault}
    (parsed : Fields.parse frame.body = .ok fields)
    (path_eq : fields.HoldsText .objectPath (some path))
    (h : fields.HoldsWord .objectId (.error fault)) : ReportOf frame (.error fault)
  /-- There is no identifier. -/
  | idless {fields : Fields} {path : String} (parsed : Fields.parse frame.body = .ok fields)
    (path_eq : fields.HoldsText .objectPath (some path)) (lacks : fields.Lacks .objectId) :
    ReportOf frame (.error (.missingField .objectId))
  /-- The type is malformed. -/
  | badType {fields : Fields} {path : String} {id : UInt32} {fault : Fault}
    (parsed : Fields.parse frame.body = .ok fields)
    (path_eq : fields.HoldsText .objectPath (some path))
    (id_eq : fields.HoldsWord .objectId (.ok (some id)))
    (h : fields.HoldsWord .objectType (.error fault)) : ReportOf frame (.error fault)
  /-- The signature is malformed. -/
  | badSignature {fields : Fields} {path : String} {id : UInt32} {typeId : Option UInt32}
    {fault : Fault} (parsed : Fields.parse frame.body = .ok fields)
    (path_eq : fields.HoldsText .objectPath (some path))
    (id_eq : fields.HoldsWord .objectId (.ok (some id)))
    (type_eq : fields.HoldsWord .objectType (.ok typeId))
    (h : fields.HoldsTable .signature (.error fault)) : ReportOf frame (.error fault)
  /-- The object has what the fields hold. -/
  | object {fields : Fields} {o : ObjectInfo} (parsed : Fields.parse frame.body = .ok fields)
    (path_eq : fields.HoldsText .objectPath (some o.path))
    (id_eq : fields.HoldsWord .objectId (.ok (some o.id)))
    (type_eq : fields.HoldsWord .objectType (.ok o.typeId))
    (signature_eq : fields.HoldsTable .signature (.ok o.signature)) : ReportOf frame (.ok o)

namespace ObjectInfo

variable {frame : Frame}

theorem reportOf_ofFrame (frame : Frame) : ReportOf frame (ofFrame frame) := by
  rw [ofFrame]
  cases parsed : Fields.parse frame.body with
  | error fault => exact .unreadable parsed
  | ok fields =>
    simp only [ok_bind]
    cases hpath : fields.text? .objectPath with
    | none =>
      refine .pathless parsed ?_
      cases Fields.text?_eq_iff.mp hpath with
      | absent lacks => exact lacks
    | some path =>
      have path_eq := Fields.text?_eq_iff.mp hpath
      simp only [Fields.require, ok_bind]
      cases hid : fields.word? .objectId with
      | error fault => exact .badId parsed path_eq (Fields.word?_eq_iff.mp hid)
      | ok found =>
        have id_eq := Fields.word?_eq_iff.mp hid
        match found, id_eq with
        | none, .absent lacks => exact .idless parsed path_eq lacks
        | some id, id_eq =>
          simp only [ok_bind]
          cases htype : fields.word? .objectType with
          | error fault => exact .badType parsed path_eq id_eq (Fields.word?_eq_iff.mp htype)
          | ok typeId =>
            have type_eq := Fields.word?_eq_iff.mp htype
            simp only [ok_bind]
            cases hsignature : fields.entries? .signature with
            | error fault =>
              have h := Fields.entries?_eq_iff.mp hsignature
              exact .badSignature parsed path_eq id_eq type_eq h
            | ok signature =>
              exact .object parsed path_eq id_eq type_eq (Fields.entries?_eq_iff.mp hsignature)

/-- The object that is found in a message is the one that it reports. -/
theorem ofFrame_eq_iff {r : Except Fault ObjectInfo} : ofFrame frame = r ↔ ReportOf frame r := by
  constructor
  · rintro rfl
    exact reportOf_ofFrame frame
  · intro h
    rw [ofFrame]
    cases h with
    | unreadable h =>
      rw [h]
      rfl
    | pathless parsed lacks =>
      rw [parsed]
      simp only [ok_bind, Fields.text?_eq_iff.mpr (.absent lacks)]
      rfl
    | badId parsed path_eq h =>
      rw [parsed]
      simp only [ok_bind, Fields.text?_eq_iff.mpr path_eq, Fields.require,
        Fields.word?_eq_iff.mpr h]
      rfl
    | idless parsed path_eq lacks =>
      rw [parsed]
      simp only [ok_bind, Fields.text?_eq_iff.mpr path_eq, Fields.require,
        Fields.word?_eq_iff.mpr (.absent lacks)]
      rfl
    | badType parsed path_eq id_eq h =>
      rw [parsed]
      simp only [ok_bind, Fields.text?_eq_iff.mpr path_eq, Fields.require,
        Fields.word?_eq_iff.mpr id_eq, Fields.word?_eq_iff.mpr h]
      rfl
    | badSignature parsed path_eq id_eq type_eq h =>
      rw [parsed]
      simp only [ok_bind, Fields.text?_eq_iff.mpr path_eq, Fields.require,
        Fields.word?_eq_iff.mpr id_eq, Fields.word?_eq_iff.mpr type_eq,
        Fields.entries?_eq_iff.mpr h]
      rfl
    | object parsed path_eq id_eq type_eq signature_eq =>
      rw [parsed]
      simp only [ok_bind, Fields.text?_eq_iff.mpr path_eq, Fields.require,
        Fields.word?_eq_iff.mpr id_eq, Fields.word?_eq_iff.mpr type_eq,
        Fields.entries?_eq_iff.mpr signature_eq]

end ObjectInfo

/-! ## The code of a status message -/

/-- The code of a status message, or what is malformed in it. -/
inductive CodeOf (frame : Frame) : Except Fault UInt32 → Prop where
  /-- The body is malformed. -/
  | unreadable {fault : Fault} (h : Fields.parse frame.body = .error fault) :
    CodeOf frame (.error fault)
  /-- A body without attributes is one of success. -/
  | empty (h : Fields.parse frame.body = .ok ⟨[]⟩) : CodeOf frame (.ok 0)
  /-- There are attributes, and none of the code. -/
  | missing {fields : Fields} (parsed : Fields.parse frame.body = .ok fields)
    (some : fields.attributes ≠ []) (lacks : fields.Lacks .status) :
    CodeOf frame (.error (.missingField .status))
  /-- The code is malformed. -/
  | malformed {fields : Fields} {fault : Fault} (parsed : Fields.parse frame.body = .ok fields)
    (h : fields.HoldsWord .status (.error fault)) : CodeOf frame (.error fault)
  /-- The code is there. -/
  | code {fields : Fields} {code : UInt32} (parsed : Fields.parse frame.body = .ok fields)
    (h : fields.HoldsWord .status (.ok (some code))) : CodeOf frame (.ok code)

/-- A body with a field is not empty. -/
theorem Fields.Last.isEmpty_eq {fs : Fields} {field : Field} {a : Attribute}
    (h : fs.Last field a) : fs.isEmpty = false := by
  obtain ⟨before, after, split, -⟩ := h.split
  rw [isEmpty, split]
  cases before <;> rfl

theorem codeOf_statusCode (frame : Frame) : CodeOf frame (statusCode frame) := by
  rw [statusCode]
  cases parsed : Fields.parse frame.body with
  | error fault => exact .unreadable parsed
  | ok fields =>
    obtain ⟨_ | ⟨a, attributes⟩⟩ := fields
    · exact .empty parsed
    · simp only [ok_bind, Fields.isEmpty, List.isEmpty_cons, if_false, Bool.false_eq_true]
      cases hcode : Fields.word? ⟨a :: attributes⟩ .status with
      | error fault => exact .malformed parsed (Fields.word?_eq_iff.mp hcode)
      | ok found =>
        have code_eq := Fields.word?_eq_iff.mp hcode
        match found, code_eq with
        | none, .absent lacks => exact .missing parsed (List.cons_ne_nil _ _) lacks
        | some code, code_eq => exact .code parsed code_eq

/-- The code that is found in a status message is the one that it has. -/
theorem statusCode_eq_iff {frame : Frame} {r : Except Fault UInt32} :
    statusCode frame = r ↔ CodeOf frame r := by
  constructor
  · rintro rfl
    exact codeOf_statusCode frame
  · intro h
    rw [statusCode]
    cases h with
    | unreadable h =>
      rw [h]
      rfl
    | empty h =>
      rw [h]
      rfl
    | @missing fields parsed some lacks =>
      have filled : ¬fields.isEmpty = true := by rwa [Fields.isEmpty, List.isEmpty_iff]
      rw [parsed]
      simp only [ok_bind, if_neg filled, Fields.word?_eq_iff.mpr (.absent lacks)]
      rfl
    | @malformed fields fault parsed h =>
      have filled : fields.isEmpty = false := by
        cases h with
        | short last _ => exact last.isEmpty_eq
      rw [parsed]
      simp only [ok_bind, filled, Bool.false_eq_true, if_false, Fields.word?_eq_iff.mpr h]
      rfl
    | @code fields code parsed h =>
      have filled : fields.isEmpty = false := by
        cases h with
        | word last _ => exact last.isEmpty_eq
      rw [parsed]
      simp only [ok_bind, filled, Bool.false_eq_true, if_false, Fields.word?_eq_iff.mpr h]
      rfl

/-! ## What a code stands for -/

/-- The failure that a code stands for, if it is not that of success. -/
inductive Failure.OfCode (target : String) (step : Step) : UInt32 → Failure → Prop where
  /-- The command is not valid for the object. -/
  | invalidCommand : OfCode target step 1 (.invalidParameter (.byStatus target .invalidCommand))
  /-- An argument is missing or malformed. -/
  | invalidArgument : OfCode target step 2 (.invalidParameter (.byStatus target .invalidArgument))
  /-- The object has no such method. -/
  | methodNotFound : OfCode target step 3 (.methodNotFound target)
  /-- There is no such object. -/
  | notFound : OfCode target step 4 (.notFound target)
  /-- There is no data. -/
  | noData : OfCode target step 5 .noData
  /-- The call is forbidden. -/
  | permissionDenied : OfCode target step 6 (.permissionDenied target)
  /-- Time ran out at the daemon. -/
  | timeout : OfCode target step 7 (.timeout step)
  /-- The operation is not supported. -/
  | notSupported : OfCode target step 8 (.notSupported target)
  /-- The daemon could not reach the object. -/
  | connectionFailed : OfCode target step 10 (.connectionFailed (.target target))
  /-- Nothing more is known of any other code. -/
  | unknown {code : UInt32} (other : code = 9 ∨ 10 < code) :
    OfCode target step code (.unknown code)

theorem Failure.ofStatus_eq_some_iff {target : String} {step : Step} {code : UInt32} {f : Failure} :
    ofStatus code target step = some f ↔ OfCode target step code f := by
  constructor
  · intro h
    rw [ofStatus] at h
    cases hs : Status.ofCode? code with
    | none =>
      rw [hs] at h
      obtain rfl := Option.some.inj h
      exact .unknown (.inr (Status.ofCode?_eq_none_iff.mp hs))
    | some status =>
      rw [hs] at h
      obtain rfl := Status.code_of_ofCode? hs
      cases status with
      | ok => cases h
      | unknownError =>
        obtain rfl := Option.some.inj h
        exact .unknown (.inl rfl)
      | _ =>
        obtain rfl := Option.some.inj h
        constructor
  · intro h
    cases h with
    | unknown other =>
      rcases other with rfl | high
      · rfl
      · rw [ofStatus, Status.ofCode?_eq_none_iff.mpr high]
    | _ => rfl

end MicroBus

import MicroBus.Proofs.Body.Puts
import MicroBus.Proofs.Client.InTurn
import MicroBus.Proofs.Value.Canonical

/-!
# Replies brought together

The data of a reply may come in any number of messages, each of which carries a table in its data
field or as its whole body. Both are read as what arrives of the table, and the parts are brought
together as if there had been one table with all the entries in order: each name is there once, with
what arrives of its last entry. So how the entries are packed makes no difference.
-/

namespace MicroBus

/-! ## A table in a body -/

/-- A body that carries a table. -/
inductive Carries (t : Entries) : Bytes → Prop where
  /-- The table is in the data field, beside any other fields. -/
  | field {before after : List Put} {body : Bytes}
    (others : ∀ p ∈ before ++ after, p.field ≠ .data)
    (built : Builder.build (before ++ .table .data t :: after) = .ok body) : Carries t body
  /-- The table is the whole body. -/
  | bare {body : Bytes} (encoded : encodeTable t = .ok body) : Carries t body

/-- A table that is a whole body is parsed into the attributes of its entries, in the order of their
names, and what is read of these is what arrives of the table. -/
theorem Fields.of_encodeTable {t : Entries} {body : Bytes} (h : encodeTable t = .ok body) :
    ∃ fields, Fields.parse body = .ok fields ∧
      fields.attributes = Value.attributes (sortByName t) ∧
      fields.asEntries = .ok (sortByName (Value.receivedEntries t)) := by
  obtain ⟨c, hc, hb⟩ := bind_eq_ok_iff.mp h
  obtain ⟨keeps, hpayload⟩ := Wire.toExcept_entriesDraft_eq_ok_iff.mp hc
  have hs := Value.segments_layouts (fun e he => keeps e (mem_sortByName.mp he)) (.done [])
  rw [← Value.payload_table, ← hpayload, List.append_nil, List.append_nil] at hs
  have run : Run c (Value.attributes (sortByName t)) := ⟨[], hs, by simp, by simp⟩
  refine ⟨_, Fields.parse_of_sealContainer hb run, rfl, ?_⟩
  rw [Fields.asEntries, ← Wire.entriesOf_eq_of_run run]
  exact (Wire.readAs_of_entriesDraft hc).entriesOf_eq

/-- Attributes that all carry names are no fields. -/
theorem Fields.get?_of_allExtended {fields : Fields} (h : fields.allExtended = true)
    (field : Field) : fields.get? field = none := by
  rw [get?, List.find?_eq_none]
  intro a ha
  rw [allExtended, List.all_eq_true] at h
  simp [h a (List.mem_reverse.mp ha)]

/-- Whichever way a body carries a table, what arrives of the table is its part in the reply. -/
theorem Carries.part_eq {t : Entries} {f : Frame} (h : Carries t f.body) :
    Response.part f = .ok (some (sortByName (Value.receivedEntries t))) := by
  obtain ⟨envelope, body⟩ := f
  cases h with
  | @field before after _ others built =>
    obtain ⟨fits, parsed⟩ := Builder.parse_of_build built
    have last : (Put.table .data t).Last (before ++ .table .data t :: after) :=
      ⟨before, after, rfl, fun q hq => others q (List.mem_append_right _ hq)⟩
    rw [Response.part, parsed]
    simp only [ok_bind, last.entries?_eq fits]
  | bare encoded =>
    obtain ⟨fields, parsed, hattributes, entries⟩ := Fields.of_encodeTable encoded
    have named : fields.allExtended = true := by
      rw [Fields.allExtended, hattributes, List.all_eq_true]
      intro a ha
      obtain ⟨e, -, rfl⟩ := List.mem_map.mp ha
      rfl
    have hnone : fields.entries? .data = .ok none := by
      rw [Fields.entries?, Fields.get?_of_allExtended named]
    rw [Response.part, parsed]
    simp only [ok_bind, hnone, named, if_true, entries]
    rfl

/-- A body that carries a table declares its length, if it is no longer than is accepted. -/
theorem Carries.declared {t : Entries} {f : Frame} (h : Carries t f.body)
    (le : f.body.length ≤ Frame.maxBodyLength) : f.Declared := by
  obtain ⟨envelope, body⟩ := f
  cases h with
  | field others built => exact Builder.declared_of_build built le envelope
  | bare encoded =>
    obtain ⟨c, -, hb⟩ := bind_eq_ok_iff.mp encoded
    exact Frame.declared_of_sealContainer hb le envelope

/-! ## Replies that deliver tables -/

/-- A message that delivers a table. -/
structure Frame.Delivers (f : Frame) (t : Entries) : Prop where
  /-- It is a data message. -/
  kind_eq : f.envelope.kind = .data
  /-- Its body carries the table. -/
  carries : Carries t f.body
  /-- Its body is accepted. -/
  le_max : f.body.length ≤ maxBodyLength

/-- A stream that delivers tables, each in a message of its own, in order, and then a status message
of success, with `rest` behind it. -/
structure Delivers (ts : List Entries) (stream rest : Bytes) : Prop where
  /-- The messages stand on the stream one after another. -/
  messages : ∃ frames last, stream = Frame.written (frames ++ [last]) ++ rest ∧
    List.Forall₂ Frame.Delivers frames ts ∧
    last.Declared ∧ last.envelope.kind = .status ∧ statusCode last = .ok 0

/-- The parts that tables have in a reply. -/
def Response.partsOf (ts : List Entries) : List (Option Entries) :=
  ts.map fun t => some (sortByName (Value.receivedEntries t))

/-- A stream that delivers tables begins with a reply whose verdict is that of the parts. -/
theorem Delivers.exists_atFront {ts : List Entries} {stream rest : Bytes}
    (h : Delivers ts stream rest) : ∃ frames last, Reply.AtFront stream frames last rest ∧
      ∀ target, verdict Client.tableReader target .invoke (Reply.dataAmong frames) last =
        .ok (Response.partsOf ts) := by
  obtain ⟨frames, last, rfl, delivers, declared, status, success⟩ := h
  have hframes (f : Frame) (hf : f ∈ frames) : f.envelope.kind = .data ∧ f.Declared := by
    obtain ⟨t, kind_eq, carries, le_max⟩ := exists_of_forall₂ delivers f hf
    exact ⟨kind_eq, carries.declared le_max⟩
  refine ⟨frames, last, ⟨?_, fun f hf => ?_, status⟩, fun target => ?_⟩
  · apply Frame.sequence_written
    intro f hf
    rcases List.mem_append.mp hf with hf | hf
    · exact (hframes f hf).2
    · exact List.mem_singleton.mp hf ▸ declared
  · simp [(hframes f hf).1]
  · have hdata : Reply.dataAmong frames = frames :=
      List.filter_eq_self.mpr fun f hf => decide_eq_true (hframes f hf).1
    have read : List.Forall₂ (fun f a => Client.tableReader.part f = .ok a) frames
        (Response.partsOf ts) := by
      rw [Response.partsOf, List.forall₂_map_right_iff]
      exact delivers.imp fun f t h => h.carries.part_eq
    rw [hdata]
    exact verdict_of_read read success

/-- Sorting parts one by one leaves the last entry of each name where it was. -/
theorem Value.findLast?_flatten_received (name : String) (ts : List Entries) :
    findLast? name (ts.map fun t => sortByName (receivedEntries t)).flatten =
      findLast? name (receivedEntries ts.flatten) := by
  induction ts with
  | nil => rfl
  | cons t ts ih =>
    rw [List.map_cons, List.flatten_cons, findLast?_append, ih, findLast?_sortByName,
      List.flatten_cons, receivedEntries_append, findLast?_append]

/-- Parts that are brought together are what arrives of one table with all their entries in
order. -/
theorem Response.ofParts_partsOf (ts : List Entries) :
    ofParts ((partsOf ts).filterMap fun part => part) =
      ofEntries (Value.receivedEntries ts.flatten) := by
  have hparts : (partsOf ts).filterMap (fun part => part) =
      ts.map fun t => sortByName (Value.receivedEntries t) := by
    rw [partsOf, List.filterMap_map]
    exact congrFun List.filterMap_eq_map ts
  rw [ofParts, hparts]
  exact Response.ext (canonical_congr fun name => Value.findLast?_flatten_received name ts)

namespace Client

/-- A call whose object is found and whose reply delivers tables. -/
structure Answered (c : Client) (service method : String) (arguments : Arguments)
    (ts : List Entries) : Prop where
  /-- The client is open. -/
  opened : c.closed = false
  /-- The request is sent by a client that has the reply in front of it. -/
  reply : ∃ entries id d body rest, arguments.normalize = .ok entries ∧
    c.lookupId service = (.ok id, d) ∧ invokeBody id method entries = .ok body ∧ d.Ready ∧
    Delivers ts d.link.incoming rest

theorem Answered.call_eq {c : Client} {service method : String} {arguments : Arguments}
    {ts : List Entries} (h : c.Answered service method arguments ts) :
    (c.call service method arguments).1 =
      .ok (Response.ofEntries (Value.receivedEntries ts.flatten)) := by
  obtain ⟨opened, entries, id, d, body, rest, normal, resolves, asked, ready, delivers⟩ := h
  obtain ⟨frames, last, front, hv⟩ := delivers.exists_atFront
  have hi := (@invoke_eq d frames last rest front id (service ++ "." ++ method) method entries body
    asked (send_eq_ok_iff.mpr ⟨ready.attached, ready.receives⟩)).1
  rw [call_eq_invoke opened normal resolves, hi, hv, ← Response.ofParts_partsOf]
  rfl

/-- The data of a reply is brought together without loss, however it is packed. Tables that come
one after another, each in a message of its own, in its data field beside any other fields or as
its whole body, make a response with exactly the names that occur in them, each once, in ascending
order, with what arrives of its last entry: the last of the name in the last table that has it. Any
other call whose reply delivers the same entries in order, in whatever tables and messages, comes to
the same response; so it is for all the entries in one table. -/
theorem replies_merged {c : Client} {service method : String} {arguments : Arguments}
    {ts : List Entries} (h : c.Answered service method arguments ts) :
    ∃ r : Response, (c.call service method arguments).1 = .ok r ∧
      r.entries.Pairwise (fun a b => Text.utf8 a.1 < Text.utf8 b.1) ∧
      (∀ name, (∃ v, (name, v) ∈ r.entries) ↔ ∃ t ∈ ts, ∃ w, (name, w) ∈ t) ∧
      (∀ name v, (name, v) ∈ r.entries ↔
        ∃ w, Value.findLast? name ts.flatten = some w ∧ v = w.received) ∧
      ∀ (d : Client) (service method : String) (arguments : Arguments) (others : List Entries),
        d.Answered service method arguments others → others.flatten = ts.flatten →
        (d.call service method arguments).1 = .ok r := by
  refine ⟨_, h.call_eq, (Response.ascending _).pairwise_utf8, fun name => ?_, fun name v => ?_,
    fun d service method arguments others k same => ?_⟩
  · simp only [Response.entries_ofEntries, Value.mem_canonical_received_iff]
    rw [exists_comm]
    simp only [exists_and_left, exists_eq, and_true, Value.exists_findLast?_iff, List.mem_flatten]
    exact ⟨fun ⟨w, t, ht, hw⟩ => ⟨t, ht, w, hw⟩, fun ⟨t, ht, w, hw⟩ => ⟨w, t, ht, hw⟩⟩
  · exact Value.mem_canonical_received_iff
  · rw [k.call_eq, same]

/-- Two tables in two messages, one beside an object and one bare, and the same entries in one
message: both replies make the same response, with the second of two entries of one name. -/
theorem replies_merged_packed :
    let wrapped : Frame := ⟨.current .data 1 7, [0, 0, 0, 40, 3, 0, 0, 8, 0, 0, 0, 1, 7, 0, 0, 28,
      135, 0, 0, 9, 0, 1, 97, 0, 1, 0, 0, 0, 131, 0, 0, 10, 0, 1, 98, 0, 120, 0, 0, 0]⟩
    let bare : Frame := ⟨.current .data 1 7, [0, 0, 0, 16, 133, 0, 0, 12, 0, 1, 98, 0, 0, 0, 0, 5]⟩
    let packed : Frame := ⟨.current .data 1 7, [0, 0, 0, 44, 7, 0, 0, 40,
      135, 0, 0, 9, 0, 1, 97, 0, 1, 0, 0, 0, 131, 0, 0, 10, 0, 1, 98, 0, 120, 0, 0, 0,
      133, 0, 0, 12, 0, 1, 98, 0, 0, 0, 0, 5]⟩
    let last : Frame := ⟨.current .status 1 7, [0, 0, 0, 12, 1, 0, 0, 8, 0, 0, 0, 0]⟩
    let c (frames : List Frame) : Client :=
      ⟨7, 0, ⟨[("s", 1)]⟩, false, true, ⟨Frame.written (frames ++ [last]), .none, []⟩, none, []⟩
    ∃ r : Response, ((c [wrapped, bare]).call "s" "m" .none).1 = .ok r ∧
      ((c [packed]).call "s" "m" .none).1 = .ok r ∧
      ("a", .int 1) ∈ r.entries ∧ ("b", .int 5) ∈ r.entries := by
  intro wrapped bare packed last c
  have hlast : last.Declared ∧ last.envelope.kind = .status ∧ statusCode last = .ok 0 :=
    ⟨by decide, rfl, by cbv⟩
  have asked : invokeBody 1 "m" [] = .ok [0, 0, 0, 24, 3, 0, 0, 8, 0, 0, 0, 1,
      4, 0, 0, 6, 109, 0, 0, 0, 7, 0, 0, 4] := by cbv
  have answered {frames : List Frame} {ts : List Entries}
      (delivers : List.Forall₂ Frame.Delivers frames ts) :
      (c frames).Answered "s" "m" .none ts :=
    ⟨rfl, [], 1, c frames, _, [], rfl, rfl, asked, ⟨rfl, by simp [c]⟩,
      frames, last, (List.append_nil _).symm, delivers, hlast⟩
  have first : wrapped.Delivers [("a", .bool true), ("b", .str "x")] :=
    ⟨rfl, @Carries.field _ [.word .objectId 1] [] _ (by simp [Put.field]) (by cbv), by decide⟩
  have second : bare.Delivers [("b", .int 5)] := ⟨rfl, .bare (by cbv), by decide⟩
  have all : packed.Delivers [("a", .bool true), ("b", .str "x"), ("b", .int 5)] :=
    ⟨rfl, @Carries.field _ [] [] _ (by simp) (by cbv), by decide⟩
  obtain ⟨r, hr, -, -, entries, same⟩ := replies_merged (answered (.cons first (.cons second .nil)))
  refine ⟨r, hr, same _ _ _ _ _ (answered (.cons all .nil)) rfl, ?_, ?_⟩
  · exact (entries "a" (.int 1)).mpr ⟨.bool true, rfl, rfl⟩
  · exact (entries "b" (.int 5)).mpr ⟨.int 5, rfl, rfl⟩

end Client

end MicroBus

import MicroBus.Proofs.Client.Kept
import MicroBus.Proofs.Value.Canonical

/-!
# What a daemon is asked

A caller gives a path, a method and arguments in one of several forms. What is sent is one message
that any daemon reads back whole: its envelope has the peer of the greeting and the next number, and
its body has the fields of the request and no others. The arguments arrive as a table with each name
once, in ascending order, with what the last given entry of the name turns into on the way.
-/

namespace MicroBus

/-! ## Arguments -/

namespace Arguments

/-- The entries of a value, if it is a table or nothing. -/
def entriesOf? : Value → Option Entries
  | .table entries => some entries
  | .null => some []
  | _ => Option.none

/-- The entries that were given, in the order in which they were given. -/
def given? : Arguments → Option Entries
  | none => some []
  | named m => some m.entries
  | value v => entriesOf? v
  | json text =>
    if text.all isBlank then some [] else (Json.ofUtf8? text).bind fun j => entriesOf? (.ofJson j)
  | faulty _ => Option.none

theorem ofTable_eq_ok_iff {v : Value} {entries : Entries} :
    ofTable v = .ok entries ↔ ∃ given, entriesOf? v = some given ∧ entries = canonical given := by
  cases v with
  | table given => simp [ofTable, Value.toCanonical, entriesOf?, eq_comm]
  | null => simp [ofTable, Value.toCanonical, entriesOf?, eq_comm]
  | _ => simp [ofTable, Value.toCanonical, entriesOf?]

/-- What is sent is the canonical form of what was given. -/
theorem normalize_eq_ok_iff {a : Arguments} {entries : Entries} :
    a.normalize = .ok entries ↔ ∃ given, a.given? = some given ∧ entries = canonical given := by
  cases a with
  | none => simp [normalize, given?, eq_comm]
  | named m => simp [normalize, given?, m.ascending.canonical_eq, eq_comm]
  | value v => exact ofTable_eq_ok_iff
  | json text =>
    rw [normalize, given?]
    split
    · simp [eq_comm]
    · cases Json.ofUtf8? text with
      | none => simp
      | some j => exact ofTable_eq_ok_iff
  | faulty f => simp [normalize, given?]

end Arguments

/-! ## Bodies -/

/-- A body that is read as a call: it has the object, the method and the arguments as its fields, in
this order, and no others. -/
structure ReadsAsCall (body : Bytes) (id : UInt32) (method : String) (given : Entries) : Prop where
  /-- There are three attributes, none of which carries a name. -/
  fields : ∃ payload, Fields.parse body = .ok ⟨[
    ⟨Field.objectId.code, none, Bytes.bigEndian 4 id.toNat⟩,
    ⟨Field.method.code, none, Text.utf8 method ++ [0]⟩, ⟨Field.data.code, none, payload⟩]⟩
  /-- The object and the method are those of the call. -/
  target : ∀ fields, Fields.parse body = .ok fields →
    fields.word? .objectId = .ok (some id) ∧ fields.text? .method = some method
  /-- Each name was given, and has what arrives of the last entry of it; the names ascend by their
  octets. -/
  arguments : ∀ fields, Fields.parse body = .ok fields → ∃ sent : Entries,
    fields.entries? .data = .ok (some sent) ∧
    sent.Pairwise (fun a b => Text.utf8 a.1 < Text.utf8 b.1) ∧
    ∀ name v, (name, v) ∈ sent ↔
      ∃ w, Value.findLast? name given = some w ∧ v = w.received

/-- A body that is read as a look-up: it has the pattern as its only field, or no field. -/
structure ReadsAsLookup (body : Bytes) (pattern : Option String) : Prop where
  /-- There is at most one attribute, and it carries no name. -/
  fields : Fields.parse body =
    .ok ⟨pattern.toList.map fun p => ⟨Field.objectPath.code, none, Text.utf8 p ++ [0]⟩⟩
  /-- The path is the pattern. -/
  path : ∀ fields, Fields.parse body = .ok fields → fields.text? .objectPath = pattern

namespace Client

theorem readsAsCall_invokeBody {id : UInt32} {method : String} {given : Entries} {body : Bytes}
    (terminated : '\x00' ∉ method.toList)
    (h : invokeBody id method (canonical given) = .ok body) :
    ReadsAsCall body id method given := by
  rw [invokeBody_eq] at h
  obtain ⟨fits, parsed⟩ := Builder.parse_of_build h
  refine ⟨⟨_, parsed⟩, fun fields hf => ?_, fun fields hf => ?_⟩
  all_goals obtain rfl := Except.ok.inj (parsed.symm.trans hf)
  · have hm := (last_method id method (canonical given)).text?_eq
    rw [Text.untilZero_eq terminated] at hm
    exact ⟨(last_objectId id method (canonical given)).word?_eq, hm⟩
  · have hd := (last_data id method (canonical given)).entries?_eq fits
    rw [Value.received_canonical] at hd
    exact ⟨_, hd, (ascending_canonical _).pairwise_utf8,
      fun _ _ => Value.mem_canonical_received_iff⟩

theorem readsAsLookup_lookupBody {pattern : Option String} {body : Bytes}
    (terminated : ∀ path ∈ pattern, '\x00' ∉ path.toList)
    (h : lookupBody pattern = .ok body) : ReadsAsLookup body pattern := by
  rw [lookupBody_eq] at h
  obtain ⟨-, parsed⟩ := Builder.parse_of_build h
  cases pattern with
  | none =>
    refine ⟨parsed, fun fields hf => ?_⟩
    obtain rfl := Except.ok.inj (parsed.symm.trans hf)
    rfl
  | some path =>
    refine ⟨parsed, fun fields hf => ?_⟩
    obtain rfl := Except.ok.inj (parsed.symm.trans hf)
    have hp : (Put.text .objectPath path).Last (lookupPuts (some path)) :=
      ⟨[], [], rfl, by simp⟩
    have ht := hp.text?_eq
    rwa [Text.untilZero_eq (terminated path rfl)] at ht

/-! ## Messages -/

/-- A message of a body is read back whole, unless the body is longer than is accepted. -/
theorem read_message {puts : List Put} {body : Bytes} (h : Builder.build puts = .ok body)
    (envelope : Envelope) : Frame.read (Frame.encode envelope body) =
      if body.length ≤ Frame.maxBodyLength then (.ok ⟨envelope, body⟩, [])
      else (.error (.badBodyLength body.length), body.drop 4) := by
  rw [← List.append_nil (Frame.encode envelope body)]
  split
  · next hle => exact (Builder.declared_of_build h hle envelope).read_eq []
  · next hlt =>
    obtain ⟨b, -, finished⟩ := bind_eq_ok_iff.mp h
    obtain ⟨hlength, hword⟩ := word_of_sealContainer finished
    have hmax := (sealContainer_eq_ok_iff.mp finished).1
    rw [Header.maxLength] at hmax
    rw [Frame.read_of_long (by omega) (by rw [hword]; omega) (Nat.lt_of_not_le hlt),
      List.append_nil]

section Sent

variable {c : Client} (held : c.Held) (opened : c.closed = false)

include held opened

/-- An open client sends one message for a request, unless nobody receives. -/
theorem sent_exchange {α : Type} (kind : Kind) (body : Bytes) (step : Step)
    (reader : PartReader α) : (c.exchange kind body step reader).2.link.sent =
      (if c.link.ending = .gone then [] else [c.nextMessage kind body]) ++ c.link.sent := by
  by_cases hg : c.link.ending = .gone
  · obtain ⟨f, he⟩ := exchange_of_not_ready kind body step (fun h : c.Ready => h.receives hg) reader
    rw [he, if_pos hg]
    rfl
  · have attached : c.attached = true := by rw [held, opened]; rfl
    obtain ⟨log, he⟩ := exchange_of_ready kind body step ⟨attached, hg⟩ reader
    rw [he, if_neg hg]
    rfl

theorem sent_lookup {pattern : Option String} {body : Bytes}
    (asked : lookupBody pattern = .ok body) :
    (c.lookup pattern).2.link.sent =
      (if c.link.ending = .gone then [] else [c.nextMessage .lookup body]) ++ c.link.sent := by
  rw [← sent_exchange held opened .lookup body .lookup objectReader]
  simp only [lookup, asked]
  obtain ⟨_ | ⟨code, objects⟩, d⟩ := c.exchange .lookup body .lookup objectReader
  · rfl
  · simp only
    split <;> simp only [Client.note, noteAll_link]

theorem sent_invoke {id : UInt32} {method : String} {entries : Entries} {body : Bytes}
    (asked : invokeBody id method entries = .ok body) (target : String) :
    (c.invoke id target method entries).2.link.sent =
      (if c.link.ending = .gone then [] else [c.nextMessage .invoke body]) ++ c.link.sent := by
  rw [← sent_exchange held opened .invoke body .invoke tableReader]
  simp only [invoke, asked]
  obtain ⟨_ | ⟨code, parts⟩, d⟩ := c.exchange .invoke body .invoke tableReader
  · rfl
  · simp only
    split <;> simp only [Client.note, noteAll_link]

end Sent

/-- What a request with this body adds to the messages of a session, of which there were `earlier`
before it: one with the next number and the peer, unless nobody receives. It is read back whole,
unless the body is longer than is accepted. -/
structure Asks (c d : Client) (earlier : List Bytes) (kind : Kind) (peer : UInt32)
    (body : Bytes) : Prop where
  /-- The message goes out, and a reader of it finds what was sent. -/
  sent : ∃ messages message, c.link.sent = messages ++ earlier ∧
    d.link.sent = (if c.link.ending = .gone then [] else [message]) ++ c.link.sent ∧
    Frame.read message = if body.length ≤ Frame.maxBodyLength then
      (.ok ⟨⟨0, kind, UInt16.ofNat (messages.length + 1), peer⟩, body⟩, [])
    else (.error (.badBodyLength body.length), body.drop 4)

theorem Speaks.asks {c d : Client} {peer : UInt32} {earlier : List Bytes} {kind : Kind}
    {puts : List Put} {body : Bytes} (speaks : c.Speaks peer earlier)
    (built : Builder.build puts = .ok body)
    (sent : d.link.sent =
      (if c.link.ending = .gone then [] else [c.nextMessage kind body]) ++ c.link.sent) :
    c.Asks d earlier kind peer body := by
  obtain ⟨messages, hm, next⟩ := speaks.nextMessage_eq
  rw [next] at sent
  exact ⟨messages, _, hm, sent, read_message built _⟩

theorem LookedUp.closed_eq {c d : Client} {r : Except Failure (List ObjectInfo)}
    (h : c.LookedUp r d) : d.closed = c.closed := by
  cases h <;> rfl

theorem Resolved.closed_eq {c d : Client} {path : String} {r : Except Failure UInt32}
    (h : c.Resolved path r d) : d.closed = c.closed := by
  cases h with
  | closed h => rfl
  | known log opened h => rfl
  | found opened unknown looked h => exact looked.closed_eq
  | absent opened unknown looked h => exact looked.closed_eq
  | failed opened unknown looked => exact looked.closed_eq

/-- A path that is not known is looked up. -/
theorem sent_lookupId {c : Client} {path : String} {body : Bytes} (held : c.Held)
    (opened : c.closed = false) (unknown : c.directory.find? path = none)
    (asked : lookupBody (some path) = .ok body) : (c.lookupId path).2.link.sent =
      (if c.link.ending = .gone then [] else [c.nextMessage .lookup body]) ++ c.link.sent := by
  rw [← sent_lookup held opened asked, lookupId, if_neg (by simp [opened])]
  simp only [unknown]
  obtain ⟨_ | objects, d⟩ := c.lookup (some path)
  · rfl
  · simp only
    split <;> rfl

/-- Whatever an open client of a session is asked for, the daemon sees. A call on a path that is
resolved sends one message: it is read back with the kind of a call, the current version, the peer
of the greeting and the next number, and its body has the object, the method and the arguments as
its fields, the arguments with each name once, in ascending order, and what arrives of the last
given entry of it. A look-up sends one with the path as its only field, or without fields if every
object is asked for; so does resolving a path that is not known. -/
theorem requests_arrive {s : Settings} {endpoint : Endpoint} {link : Link} {start c : Client}
    {replies : List Reply} (greeted : connect s endpoint link = (.ok (), start))
    (run : start.Run replies c) (opened : c.closed = false) :
    ∃ hello rest, Frame.read link.incoming = (.ok hello, rest) ∧ hello.envelope.kind = .hello ∧
      (∀ service method arguments entries id d body,
        arguments.normalize = .ok entries → '\x00' ∉ method.toList →
        c.lookupId service = (.ok id, d) → invokeBody id method entries = .ok body →
        d.Asks (c.call service method arguments).2 link.sent .invoke hello.envelope.peer body ∧
          ∃ given, arguments.given? = some given ∧ ReadsAsCall body id method given) ∧
      (∀ pattern body, (∀ path ∈ pattern, '\x00' ∉ path.toList) → lookupBody pattern = .ok body →
        ReadsAsLookup body pattern ∧
        c.Asks (c.list pattern).2 link.sent .lookup hello.envelope.peer body ∧
        ∀ path, pattern = some path → c.directory.find? path = none →
          c.Asks (c.lookupId path).2 link.sent .lookup hello.envelope.peer body) ∧
      lookupBody none = .ok [0, 0, 0, 4] := by
  obtain ⟨hello, rest, hr, hk, -, greetedSpeaks⟩ := speaks_of_connect greeted
  have speaks : c.Speaks hello.envelope.peer link.sent := run.speaks greetedSpeaks
  have held : c.Held := (run.reachable (.connected greeted)).held
  refine ⟨hello, rest, hr, hk, ?_, ?_, rfl⟩
  · intro service method arguments entries id d body normal terminated resolves asked
    obtain ⟨given, hg, rfl⟩ := Arguments.normalize_eq_ok_iff.mp normal
    refine ⟨?_, given, hg, readsAsCall_invokeBody terminated asked⟩
    have resolved := resolved_lookupId c service
    rw [resolves] at resolved
    have hd : d.closed = false := resolved.closed_eq.trans opened
    have hcall : (c.call service method arguments).2 =
        (d.invoke id (service ++ "." ++ method) method (canonical given)).2 := by
      rw [call, if_neg (by simp [opened])]
      simp only [normal, resolves]
    have sent := sent_invoke (resolved.moves.held held) hd asked (service ++ "." ++ method)
    rw [← hcall] at sent
    rw [invokeBody_eq] at asked
    exact (resolved.moves.speaks speaks).asks asked sent
  · intro pattern body terminated asked
    have built := asked
    rw [lookupBody_eq] at built
    refine ⟨readsAsLookup_lookupBody terminated asked, speaks.asks built ?_, ?_⟩
    · rw [list, if_neg (by simp [opened])]
      exact sent_lookup held opened asked
    · rintro path rfl unknown
      exact speaks.asks built (sent_lookupId held opened unknown asked)

/-- A client that was greeted calls a method of an object that it has to look up, with a name given
twice. The call is the second message. -/
theorem requests_arrive_call :
    let reply : Bytes := [0, 2, 0, 1, 0, 0, 0, 7,
      0, 0, 0, 20, 2, 0, 0, 6, 97, 0, 0, 0, 3, 0, 0, 8, 0, 0, 0, 1, 0, 1, 0, 1, 0, 0, 0, 7,
      0, 0, 0, 12, 1, 0, 0, 8, 0, 0, 0, 0]
    let link : Link := ⟨[0, 0, 0, 0, 0, 0, 0, 7, 0, 0, 0, 0] ++ reply, .none, []⟩
    let given : Entries := [("b", .bool true), ("a", .int 5), ("b", .str "x")]
    let body : Bytes := [0, 0, 0, 48, 3, 0, 0, 8, 0, 0, 0, 1, 4, 0, 0, 6, 109, 0, 0, 0,
      7, 0, 0, 28, 133, 0, 0, 12, 0, 1, 97, 0, 0, 0, 0, 5, 131, 0, 0, 10, 0, 1, 98, 0, 120, 0, 0, 0]
    ∃ c d, connect .default .listening link = (.ok (), c) ∧ c.lookupId "a" = (.ok 1, d) ∧
      d.link.sent.length = 1 ∧
      d.Asks (c.call "a" "m" (.value (.table given))).2 [] .invoke 7 body ∧
      ReadsAsCall body 1 "m" given ∧
      c.Asks (c.lookupId "a").2 [] .lookup 7 [0, 0, 0, 12, 2, 0, 0, 6, 97, 0, 0, 0] ∧
      ReadsAsLookup [0, 0, 0, 12, 2, 0, 0, 6, 97, 0, 0, 0] (some "a") := by
  intro reply link given body
  have greeted : connect .default .listening link =
      (.ok (), ⟨7, 0, .empty, false, true, ⟨reply, .none, []⟩, none, []⟩) := by cbv
  generalize hc : Client.mk 7 0 .empty false true ⟨reply, .none, []⟩ none [] = c at greeted
  have resolves : c.lookupId "a" = (.ok 1, (c.lookupId "a").2) := by
    rw [← hc]
    cbv
  obtain ⟨hello, rest, hr, -, calls, lookups, -⟩ :=
    requests_arrive greeted .start (by rw [← hc])
  have hpeer : hello.envelope.peer = 7 := by
    have hh : (Frame.read link.incoming).1 = .ok ⟨.current .hello 0 7, []⟩ := by cbv
    rw [hr] at hh
    rw [Except.ok.inj hh]
    rfl
  rw [hpeer] at calls lookups
  obtain ⟨asks, _, hg, reads⟩ := calls "a" "m" (.value (.table given)) (canonical given) 1 _ body
    rfl (by decide) resolves (by cbv)
  obtain rfl := Option.some.inj hg
  have terminated : ∀ path ∈ some "a", '\x00' ∉ path.toList := by
    rintro _ ⟨⟩
    decide
  obtain ⟨readsLookup, -, resolving⟩ := lookups (some "a") [0, 0, 0, 12, 2, 0, 0, 6, 97, 0, 0, 0]
    terminated (by cbv)
  refine ⟨c, (c.lookupId "a").2, greeted, resolves, ?_, asks, reads,
    resolving "a" rfl (by rw [← hc]; rfl), readsLookup⟩
  rw [← hc]
  cbv

end Client

end MicroBus

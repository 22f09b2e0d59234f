import MicroBus.Proofs.Client.Asked

/-!
# What a sequence number is used for

A client has one number for each message that it has written, and no others. Whatever it does, it
uses as many numbers as it writes messages: none for what is answered without writing, refused or
not written, and one for a request that is written, whatever becomes of the reply.
-/

namespace MicroBus.Client

variable {c d : Client}

/-! ## The numbers of written messages -/

/-- Messages are numbered by their places, modulo the number of sequence numbers. -/
theorem Numbered.eq_of_getElem? {peer : UInt32} {messages : List Bytes} {seq : UInt16}
    (h : Numbered peer messages seq) {k : Nat} {message : Bytes}
    (hk : messages.reverse[k]? = some message) : ∃ kind body,
      message = Frame.encode ⟨0, kind, UInt16.ofNat (k + 1), peer⟩ body := by
  induction h with
  | none => simp at hk
  | @next messages seq h kind body ih =>
    rw [List.reverse_cons] at hk
    by_cases hlt : k < messages.reverse.length
    · rw [List.getElem?_append_left hlt] at hk
      exact ih hk
    · -- What stands behind the other messages is the newest.
      have hlast : k = messages.length := by
        have hbound := (List.getElem?_eq_some_iff.mp hk).1
        simp only [List.length_append, List.length_reverse, List.length_singleton] at hbound hlt
        omega
      subst hlast
      rw [List.getElem?_append_right (by rw [List.length_reverse]), List.length_reverse,
        Nat.sub_self] at hk
      obtain rfl := Option.some.inj hk
      refine ⟨kind, body, ?_⟩
      rw [h.seq_eq, Envelope.current, UInt16.ofNat_add, UInt16.ofNat_one]

/-- A client whose messages, from the `earlier` ones on, have the version 0, one peer, and as
sequence numbers their places, counted from one and modulo 65536. -/
structure Numbers (peer : UInt32) (earlier : List Bytes) (c : Client) : Prop where
  /-- The client has the peer. -/
  peer_eq : c.peer = peer
  /-- The messages, oldest first, and the number of the last of them. -/
  messages : ∃ messages : List Bytes, c.link.sent = messages.reverse ++ earlier ∧
    c.seq.toNat = messages.length % 0x10000 ∧
    ∀ k message, messages[k]? = some message → ∃ kind seq body,
      message = Frame.encode ⟨0, kind, seq, peer⟩ body ∧ seq.toNat = (k + 1) % 0x10000

theorem Speaks.numbers {peer : UInt32} {earlier : List Bytes} (h : c.Speaks peer earlier) :
    c.Numbers peer earlier := by
  obtain ⟨peer_eq, messages, sent, numbered⟩ := h
  refine ⟨peer_eq, messages.reverse, by rwa [List.reverse_reverse], ?_, ?_⟩
  · rw [numbered.seq_eq, UInt16.toNat_ofNat', List.length_reverse]
  · intro k message hk
    obtain ⟨kind, body, rfl⟩ := numbered.eq_of_getElem? hk
    exact ⟨kind, _, body, rfl, UInt16.toNat_ofNat'⟩

/-! ## What is written -/

/-- From one client to the other these messages were written, newest first, and as many sequence
numbers were used. -/
structure Wrote (c d : Client) (new : List Bytes) : Prop where
  /-- The messages are in front of those written before. -/
  sent_eq : d.link.sent = new ++ c.link.sent
  /-- There is one number for each. -/
  seq_eq : d.seq = c.seq + UInt16.ofNat new.length

theorem Moves.exists_wrote (h : c.Moves d) : ∃ new, c.Wrote d new := by
  induction h with
  | stay => exact ⟨[], rfl, (UInt16.add_zero _).symm⟩
  | @exchange d h kind body log ih =>
    obtain ⟨new, sent_eq, seq_eq⟩ := ih
    refine ⟨d.nextMessage kind body :: new, congrArg _ sent_eq, ?_⟩
    rw [exchanged, seq_eq, List.length_cons, UInt16.ofNat_add, UInt16.add_assoc, UInt16.ofNat_one]
  | learn h directory ih => exact ih.imp fun _ h => ⟨h.sent_eq, h.seq_eq⟩
  | tell h log ih => exact ih.imp fun _ h => ⟨h.sent_eq, h.seq_eq⟩
  | close h ih => exact ih.imp fun _ h => ⟨h.sent_eq, h.seq_eq⟩
  | setLogger h name ih => exact ih.imp fun _ h => ⟨h.sent_eq, h.seq_eq⟩

/-- Moves use as many numbers as there are new messages. -/
theorem Moves.wrote (h : c.Moves d) {new : List Bytes} (sent : d.link.sent = new ++ c.link.sent) :
    c.Wrote d new := by
  obtain ⟨other, sent_eq, seq_eq⟩ := h.exists_wrote
  obtain rfl := List.append_cancel_right (sent_eq.symm.trans sent)
  exact ⟨sent, seq_eq⟩

/-! ## What is not written -/

/-- Actions for which nothing is written: the client is closed or nobody receives, the answer is
known, the arguments or the request are refused, or nothing is asked of the daemon. -/
inductive Idle (c : Client) : Action → Prop where
  /-- Anything that a closed client is asked for. -/
  | closed (h : c.closed = true) (a : Action) : Idle c a
  /-- Anything while nobody receives. -/
  | unheard (h : c.link.ending = .gone) (a : Action) : Idle c a
  /-- Resolving a path that is known. -/
  | known {path : String} {id : UInt32} (h : c.directory.find? path = some id) :
    Idle c (.lookupId path)
  /-- Resolving a path that no request can hold. -/
  | unresolvable {path : String} {f : Fault} (h : lookupBody (some path) = .error f) :
    Idle c (.lookupId path)
  /-- Listing by a pattern that no request can hold. -/
  | unlistable {pattern : Option String} {f : Fault} (h : lookupBody pattern = .error f) :
    Idle c (.list pattern)
  /-- A call whose arguments are refused. -/
  | refused {arguments : Arguments} {why : Rejection} (h : arguments.normalize = .error why)
    (service method : String) : Idle c (.call service method arguments)
  /-- A call on a known path that no request can hold. -/
  | uncallable {service method : String} {arguments : Arguments} {entries : Entries} {id : UInt32}
    {f : Fault} (h : c.directory.find? service = some id)
    (normal : arguments.normalize = .ok entries)
    (unwritten : invokeBody id method entries = .error f) : Idle c (.call service method arguments)
  /-- Closing. -/
  | close : Idle c .close
  /-- Replacing the logger. -/
  | setLogger (name : String) : Idle c (.setLogger name)

/-- A look-up that has no request or no receiver leaves the client as it is. -/
theorem lookup_eq_of_unsent {pattern : Option String}
    (h : (∃ f, lookupBody pattern = .error f) ∨ ¬ c.Ready) :
    ∃ f, c.lookup pattern = (.error f, c) := by
  unfold lookup
  cases hb : lookupBody pattern with
  | error f => exact ⟨_, rfl⟩
  | ok body =>
    have unready : ¬ c.Ready := h.resolve_left fun ⟨f, hf⟩ => by
      rw [hb] at hf
      cases hf
    obtain ⟨f, he⟩ := exchange_of_not_ready .lookup body .lookup unready objectReader
    exact ⟨f, by simp only [he]⟩

/-- A path is resolved without writing if it is known, or if its look-up is not sent. -/
theorem lookupId_eq_of_unsent {path : String}
    (h : (∃ id, c.directory.find? path = some id) ∨ (∃ f, lookupBody (some path) = .error f) ∨
      ¬ c.Ready) : ∃ r log, c.lookupId path = (r, c.told log) := by
  unfold lookupId
  split
  · exact ⟨_, c.log, rfl⟩
  · split
    · next id _ =>
      obtain ⟨log, hn⟩ := exists_noteAll_eq c [.known path id]
      exact ⟨_, log, congrArg (Prod.mk _) hn⟩
    · next unknown =>
      have unsent := h.resolve_left fun ⟨id, hid⟩ => by
        rw [unknown] at hid
        cases hid
      obtain ⟨f, hl⟩ := lookup_eq_of_unsent unsent
      exact ⟨_, c.log, by simp only [hl]; rfl⟩

/-- A path that is known is resolved to what is known, if it is resolved. -/
theorem lookupId_eq_of_known {path : String} {id other : UInt32}
    (known : c.directory.find? path = some id) (h : (c.lookupId path).1 = .ok other) :
    other = id := by
  unfold lookupId at h
  split at h
  · cases h
  · simp only [known] at h
    exact (Except.ok.inj h).symm

/-- A call writes nothing if its path is resolved without writing and the call is not sent. -/
theorem call_eq_of_unsent {service method : String} {arguments : Arguments}
    (resolves : ∃ r log, c.lookupId service = (r, c.told log))
    (unsent : ¬ c.Ready ∨ ∀ id entries, (c.lookupId service).1 = .ok id →
      arguments.normalize = .ok entries → ∃ f, invokeBody id method entries = .error f) :
    ∃ log, (c.call service method arguments).2 = c.told log := by
  obtain ⟨r, log, hr⟩ := resolves
  unfold call
  split
  · exact ⟨c.log, rfl⟩
  · split
    · exact ⟨c.log, rfl⟩
    · next entries normal =>
      simp only [hr]
      cases r with
      | error f => exact ⟨log, rfl⟩
      | ok id =>
        have invoked := invoked_invoke (c.told log) id (service ++ "." ++ method) method entries
        simp only
        generalize ((c.told log).invoke id (service ++ "." ++ method) method entries).2 = d
          at invoked
        cases invoked with
        | unsent => exact ⟨log, rfl⟩
        | sent log' ready asked =>
          -- The call would have been sent only by a client that is ready, and with a body.
          rcases unsent with unready | unwritten
          · exact (unready ⟨ready.attached, ready.receives⟩).elim
          · obtain ⟨f, hf⟩ := unwritten id entries (by rw [hr]) normal
            rw [hf] at asked
            cases asked

theorem Idle.sent_eq {a : Action} (h : c.Idle a) : (c.act a).2.link.sent = c.link.sent := by
  have resolved {path : String} (h : ∃ r log, c.lookupId path = (r, c.told log)) :
      (c.act (.lookupId path)).2.link.sent = c.link.sent := by
    obtain ⟨r, log, hr⟩ := h
    rw [act, hr]
    rfl
  have listed {pattern : Option String} (h : ∃ f, c.lookup pattern = (.error f, c)) :
      (c.act (.list pattern)).2.link.sent = c.link.sent := by
    obtain ⟨f, hf⟩ := h
    have same : (c.list pattern).2 = c := by
      rw [list, hf]
      split <;> rfl
    exact congrArg (fun d => d.link.sent) same
  have called {service method : String} {arguments : Arguments}
      (h : ∃ log, (c.call service method arguments).2 = c.told log) :
      (c.act (.call service method arguments)).2.link.sent = c.link.sent := by
    obtain ⟨log, hlog⟩ := h
    exact congrArg (fun d => d.link.sent) hlog
  cases h with
  | closed closed =>
    cases a with
    | lookupId path => exact resolved ⟨_, c.log, by rw [lookupId, if_pos closed]; rfl⟩
    | list pattern => rw [act, list, if_pos closed]
    | call service method arguments => exact called ⟨c.log, by rw [call, if_pos closed]; rfl⟩
    | close => rfl
    | setLogger name => rfl
  | unheard gone =>
    have unready : ¬ c.Ready := fun ready => ready.receives gone
    cases a with
    | lookupId path => exact resolved (lookupId_eq_of_unsent (.inr (.inr unready)))
    | list pattern => exact listed (lookup_eq_of_unsent (.inr unready))
    | call service method arguments =>
      exact called (call_eq_of_unsent (lookupId_eq_of_unsent (.inr (.inr unready))) (.inl unready))
    | close => rfl
    | setLogger name => rfl
  | known known => exact resolved (lookupId_eq_of_unsent (.inl ⟨_, known⟩))
  | unresolvable unasked => exact resolved (lookupId_eq_of_unsent (.inr (.inl ⟨_, unasked⟩)))
  | unlistable unasked => exact listed (lookup_eq_of_unsent (.inl ⟨_, unasked⟩))
  | refused refused service method =>
    refine called ⟨c.log, ?_⟩
    rw [call, refused]
    split <;> rfl
  | @uncallable service method arguments entries id f known normal unwritten =>
    refine called (call_eq_of_unsent (lookupId_eq_of_unsent (.inl ⟨_, known⟩)) (.inr ?_))
    intro other others resolves normal'
    obtain rfl := lookupId_eq_of_known known resolves
    obtain rfl := Except.ok.inj (normal.symm.trans normal')
    exact ⟨f, unwritten⟩
  | close => rfl
  | setLogger name => rfl

/-! ## What is written once -/

theorem send_eq_of_error (c : Client) (kind : Kind) (body : Bytes) (step : Step) {f : Failure}
    (h : (c.send kind body step).1 = .error f) : (c.send kind body step).2 = c := by
  revert h
  unfold send
  split
  · exact fun _ => rfl
  · split
    · exact fun _ => rfl
    · nofun

theorem Moves.ending_eq (h : c.Moves d) : d.link.ending = c.link.ending := by
  induction h with
  | stay => rfl
  | exchange h kind body log ih => exact ih
  | learn h directory ih => exact ih
  | tell h log ih => exact ih
  | close h ih => exact ih
  | setLogger h name ih => exact ih

/-- What the numbers of a client are used for: messages that are written, and nothing else. -/
structure Accounts (c : Client) : Prop where
  /-- A message that is not written leaves the client as it is. -/
  unsent (kind : Kind) (body : Bytes) (step : Step) (f : Failure) :
    (c.send kind body step).1 = .error f → (c.send kind body step).2 = c
  /-- An action uses one number for each message that it writes. -/
  act (a : Action) : ∃ new, c.Wrote (c.act a).2 new
  /-- Nothing is written, and no number is used, for what is idle. -/
  idle (a : Action) : c.Idle a → c.Wrote (c.act a).2 []
  /-- Listing writes one message, whatever becomes of the reply. -/
  list (pattern : Option String) (body : Bytes) : c.closed = false → c.link.ending ≠ .gone →
    lookupBody pattern = .ok body → c.Wrote (c.list pattern).2 [c.nextMessage .lookup body]
  /-- Resolving a path that is not known writes one message, whatever becomes of the reply. -/
  lookupId (path : String) (body : Bytes) : c.closed = false → c.link.ending ≠ .gone →
    c.directory.find? path = none → lookupBody (some path) = .ok body →
    c.Wrote (c.lookupId path).2 [c.nextMessage .lookup body]
  /-- A call writes one message after its path was resolved, whatever becomes of the reply. -/
  call (service method : String) (arguments : Arguments) (entries : Entries) (id : UInt32)
    (d : Client) (body : Bytes) : c.closed = false → c.link.ending ≠ .gone →
    arguments.normalize = .ok entries → c.lookupId service = (.ok id, d) →
    invokeBody id method entries = .ok body →
    d.Wrote (c.call service method arguments).2 [d.nextMessage .invoke body]

theorem Held.accounts (held : c.Held) : c.Accounts where
  unsent := fun kind body step _ => send_eq_of_error c kind body step
  act := fun a => (moves_act c a).exists_wrote
  idle := fun a idle => (moves_act c a).wrote idle.sent_eq
  list := fun pattern body opened receives asked => by
    have sent := sent_lookup held opened asked
    rw [if_neg receives] at sent
    rw [list_eq_lookup opened]
    exact (lookedUp_lookup c pattern).moves.wrote sent
  lookupId := fun path body opened receives unknown asked => by
    have sent := sent_lookupId held opened unknown asked
    rw [if_neg receives] at sent
    exact (resolved_lookupId c path).moves.wrote sent
  call := fun service method arguments entries id d body opened receives normal resolves asked => by
    have resolved := resolved_lookupId c service
    rw [resolves] at resolved
    have sent := sent_invoke (resolved.moves.held held) (resolved.closed_eq.trans opened) asked
      (service ++ "." ++ method)
    rw [if_neg (resolved.moves.ending_eq ▸ receives)] at sent
    rw [call_eq_invoke opened normal resolves]
    exact ((invoked_invoke d id _ method entries).moves .stay).wrote sent

theorem Course.held (h : c.Course d) (held : c.Held) : d.Held := by
  induction h with
  | start => exact held
  | @acted d h a ih => exact (moves_act d a).held ih
  | @invoked d h id target method arguments ih =>
    exact ((invoked_invoke d id target method arguments).moves .stay).held ih
  | beyond h incoming ending ih => exact ih

/-- Whatever becomes of a client that was greeted: its messages carry the version 0, the peer of the
greeting, and as sequence numbers their places modulo 65536, whatever frames come in later; and each
number is used for a message that was written, and for nothing else. -/
theorem messages_are_numbered {s : Settings} {endpoint : Endpoint} {link : Link} {start : Client}
    (greeted : connect s endpoint link = (.ok (), start)) :
    ∃ hello rest, Frame.read link.incoming = (.ok hello, rest) ∧ hello.envelope.kind = .hello ∧
      ∀ c, start.Course c → c.Numbers hello.envelope.peer link.sent ∧ c.Accounts := by
  obtain ⟨hello, rest, read, kind, -, speaks⟩ := speaks_of_connect greeted
  have held : start.Held := (Reachable.connected greeted).held
  refine ⟨hello, rest, read, kind, fun c course => ?_⟩
  exact ⟨(course.speaks speaks).numbers, (course.held held).accounts⟩

/-- A client with the peer 7 lists objects, and another greeting, from the peer 9, comes in before
the reply. It asks once more while nobody receives, and then a third time, without a reply. -/
theorem messages_are_numbered_greeted_twice :
    let reply : Bytes := [0, 0, 0, 0, 0, 0, 0, 9, 0, 0, 0, 0,
      0, 1, 0, 1, 0, 0, 0, 9, 0, 0, 0, 12, 1, 0, 0, 8, 0, 0, 0, 0]
    let start : Client := ⟨7, 0, .empty, false, true, ⟨reply, .none, []⟩, none, []⟩
    let c : Client := ⟨7, 2, .empty, false, true, ⟨[], .none,
      [[0, 4, 0, 2, 0, 0, 0, 7, 0, 0, 0, 4], [0, 4, 0, 1, 0, 0, 0, 7, 0, 0, 0, 4]]⟩, none, []⟩
    start.Course c ∧ c.Numbers 7 [] ∧ c.Accounts := by
  intro reply start c
  have greeted : connect .default .listening ⟨[0, 0, 0, 0, 0, 0, 0, 7, 0, 0, 0, 0] ++ reply,
      .none, []⟩ = (.ok (), start) := by cbv
  have course : start.Course c := by
    have answered : (start.act (.list none)).2 = ⟨7, 1, .empty, false, true,
        ⟨[], .none, [[0, 4, 0, 1, 0, 0, 0, 7, 0, 0, 0, 4]]⟩, none, []⟩ := by cbv
    have unheard : (Client.act ⟨7, 1, .empty, false, true,
        ⟨[], .gone, [[0, 4, 0, 1, 0, 0, 0, 7, 0, 0, 0, 4]]⟩, none, []⟩ (.list none)).2 =
        ⟨7, 1, .empty, false, true,
          ⟨[], .gone, [[0, 4, 0, 1, 0, 0, 0, 7, 0, 0, 0, 4]]⟩, none, []⟩ := by cbv
    have unanswered : (Client.act ⟨7, 1, .empty, false, true,
        ⟨[], .none, [[0, 4, 0, 1, 0, 0, 0, 7, 0, 0, 0, 4]]⟩, none, []⟩ (.list none)).2 = c := by
      cbv
    have first := Course.start (c := start) |>.acted (.list none) |>.beyond [] .gone
    rw [answered] at first
    have second := first.acted (.list none) |>.beyond [] .none
    rw [unheard] at second
    have third := second.acted (.list none)
    rwa [unanswered] at third
  obtain ⟨hello, rest, read, -, all⟩ := messages_are_numbered greeted
  have greeting : Frame.read ([0, 0, 0, 0, 0, 0, 0, 7, 0, 0, 0, 0] ++ reply) =
      (.ok ⟨⟨0, .hello, 0, 7⟩, []⟩, reply) := by cbv
  obtain ⟨hframe, -⟩ := Prod.mk.inj (greeting.symm.trans read)
  obtain rfl := Except.ok.inj hframe
  exact ⟨course, all c course⟩

end MicroBus.Client

import MicroBus.Proofs.Client.History

/-!
# The moves of a client

Whatever an action does to a client is made of a few moves: it sends a message and takes one reply,
it learns objects, it tells the logger something, it closes the client or replaces the logger. So
what holds of a client and is kept by every move holds after every action, and what is kept too by
whatever happens beyond the connection holds throughout a session. The sequence numbers are such an
invariant: the messages of a session are numbered from one on, without a gap, and carry the peer of
the greeting.
-/

namespace MicroBus

namespace Client

/-! ## Actions as moves -/

/-- A client that some moves lead to. -/
inductive Moves (c : Client) : Client → Prop where
  /-- No move. -/
  | stay : Moves c c
  /-- A message was sent and one reply taken. -/
  | exchange {d : Client} (h : Moves c d) (kind : Kind) (body : Bytes)
    (log : List (String × Event)) : Moves c (d.exchanged kind body log)
  /-- The directory was changed. -/
  | learn {d : Client} (h : Moves c d) (directory : Directory) :
    Moves c { d with directory := directory }
  /-- The logger was told something. -/
  | tell {d : Client} (h : Moves c d) (log : List (String × Event)) : Moves c (d.told log)
  /-- The client was closed. -/
  | close {d : Client} (h : Moves c d) : Moves c d.close
  /-- The logger was replaced. -/
  | setLogger {d : Client} (h : Moves c d) (name : String) : Moves c (d.setLogger name)

section Moves

variable {c d e : Client}

theorem LookedUp.moves {r : Except Failure (List ObjectInfo)} (h : c.LookedUp r d) :
    c.Moves d := by
  cases h with
  | unsent f => exact .stay
  | listed body log lists => exact .learn (.exchange .stay .lookup body log) _
  | failed f body log fails => exact .exchange .stay .lookup body log

theorem Resolved.moves {path : String} {r : Except Failure UInt32} (h : c.Resolved path r d) :
    c.Moves d := by
  cases h with
  | closed h => exact .stay
  | known log opened h => exact .tell .stay log
  | found opened unknown looked h => exact looked.moves
  | absent opened unknown looked h => exact looked.moves
  | failed opened unknown looked => exact looked.moves

theorem Invoked.moves {id : UInt32} {method : String} {arguments : Entries} (h : c.Moves d)
    (invoked : d.Invoked id method arguments e) : c.Moves e := by
  cases invoked with
  | unsent => exact h
  | sent log ready asked => exact .exchange h .invoke _ log

theorem Called.moves {service method : String} {arguments : Arguments}
    (h : c.Called service method arguments d) : c.Moves d := by
  cases h with
  | refused h => exact .stay
  | unresolved opened resolved => exact resolved.moves
  | invoked opened resolved normal invoked => exact invoked.moves resolved.moves

/-- Every action is made of moves. -/
theorem moves_act (c : Client) (a : Action) : c.Moves (c.act a).2 := by
  cases a with
  | lookupId path => exact (resolved_lookupId c path).moves
  | list pattern =>
    rw [act]
    simp only [list]
    split
    · exact .stay
    · exact (lookedUp_lookup c pattern).moves
  | call service method arguments => exact (called_call c service method arguments).moves
  | close => exact .close .stay
  | setLogger name => exact .setLogger .stay name

end Moves

/-! ## Courses of a client -/

/-- What may become of a client: it acts, it calls a method of an object that was found before, and
in between anything may happen beyond its connection. Octets may come in or get lost there, and the
other side may stop receiving and receive again. -/
inductive Course (c : Client) : Client → Prop where
  /-- Nothing. -/
  | start : Course c c
  /-- An action. -/
  | acted {d : Client} (h : Course c d) (a : Action) : Course c (d.act a).2
  /-- A call of a method of an object. -/
  | invoked {d : Client} (h : Course c d) (id : UInt32) (target method : String)
    (arguments : Entries) : Course c (d.invoke id target method arguments).2
  /-- Something happens beyond the connection; what was sent stays sent. -/
  | beyond {d : Client} (h : Course c d) (incoming : Bytes) (ending : Ending) :
    Course c { d with link := ⟨incoming, ending, d.link.sent⟩ }

@[simp] theorem sent_feed (l : Link) (b : Bytes) : (l.feed b).sent = l.sent := by
  unfold Link.feed
  split <;> rfl

@[simp] theorem sent_finish (l : Link) (ending : Ending) : (l.finish ending).sent = l.sent := by
  unfold Link.finish
  split <;> rfl

@[simp] theorem incoming_finish (l : Link) (ending : Ending) :
    (l.finish ending).incoming = l.incoming := by
  unfold Link.finish
  split <;> rfl

/-- A run is a course in which the daemon only adds to what it sent, and does not receive again. -/
theorem Run.course {c d : Client} {replies : List Reply} (h : c.Run replies d) : c.Course d := by
  induction h with
  | start => exact .start
  | acted h a ih => exact ih.acted a
  | @fed replies d h b ending ih =>
    have hsent : ((d.link.feed b).finish ending).sent = d.link.sent := by
      rw [sent_finish, sent_feed]
    have hcourse := ih.beyond ((d.link.feed b).finish ending).incoming
      ((d.link.feed b).finish ending).ending
    rwa [← hsent] at hcourse

/-! ## Numbered messages -/

/-- Messages that carry a peer and are numbered from one on, newest first, and the number of the
newest. -/
inductive Numbered (peer : UInt32) : List Bytes → UInt16 → Prop where
  /-- No messages. -/
  | none : Numbered peer [] 0
  /-- A message with the next number. -/
  | next {messages : List Bytes} {seq : UInt16} (h : Numbered peer messages seq) (kind : Kind)
    (body : Bytes) :
    Numbered peer (Frame.encode (.current kind (seq + 1) peer) body :: messages) (seq + 1)

/-- The number of the newest message is how many there are. -/
theorem Numbered.seq_eq {peer : UInt32} {messages : List Bytes} {seq : UInt16}
    (h : Numbered peer messages seq) : seq = UInt16.ofNat messages.length := by
  induction h with
  | none => rfl
  | next h kind body ih => rw [ih, List.length_cons, UInt16.ofNat_add, UInt16.ofNat_one]

/-- A client that has sent numbered messages after some earlier ones, all with its peer. -/
structure Speaks (peer : UInt32) (earlier : List Bytes) (c : Client) : Prop where
  /-- The client keeps its peer. -/
  peer_eq : c.peer = peer
  /-- The messages are numbered, and the client has the number of the newest. -/
  numbered : ∃ messages, c.link.sent = messages ++ earlier ∧ Numbered peer messages c.seq

section Speaks

variable {c d : Client} {peer : UInt32} {earlier : List Bytes}

/-- Every move keeps the messages numbered. -/
theorem Moves.speaks (h : c.Moves d) (speaks : c.Speaks peer earlier) : d.Speaks peer earlier := by
  induction h with
  | stay => exact speaks
  | exchange h kind body log ih =>
    obtain ⟨peer_eq, messages, sent, numbered⟩ := ih
    refine ⟨peer_eq, _, ?_, numbered.next kind body⟩
    rw [exchanged, nextMessage, peer_eq, sent]
    rfl
  | learn h directory ih => exact ⟨ih.peer_eq, ih.numbered⟩
  | tell h log ih => exact ⟨ih.peer_eq, ih.numbered⟩
  | close h ih => exact ⟨ih.peer_eq, ih.numbered⟩
  | setLogger h name ih => exact ⟨ih.peer_eq, ih.numbered⟩

/-- Throughout a course the messages stay numbered. -/
theorem Course.speaks (h : c.Course d) (speaks : c.Speaks peer earlier) :
    d.Speaks peer earlier := by
  induction h with
  | start => exact speaks
  | @acted d h a ih => exact (moves_act d a).speaks ih
  | @invoked d h id target method arguments ih =>
    exact ((invoked_invoke d id target method arguments).moves .stay).speaks ih
  | beyond h incoming ending ih => exact ⟨ih.peer_eq, ih.numbered⟩

theorem Run.speaks {replies : List Reply} (h : c.Run replies d)
    (speaks : c.Speaks peer earlier) : d.Speaks peer earlier :=
  h.course.speaks speaks

/-- The next message has the number behind those of the others. -/
theorem Speaks.nextMessage_eq (h : c.Speaks peer earlier) :
    ∃ messages, c.link.sent = messages ++ earlier ∧ ∀ kind body, c.nextMessage kind body =
      Frame.encode ⟨0, kind, UInt16.ofNat (messages.length + 1), peer⟩ body := by
  obtain ⟨peer_eq, messages, sent, numbered⟩ := h
  refine ⟨messages, sent, fun kind body => ?_⟩
  rw [nextMessage, Envelope.current, peer_eq, numbered.seq_eq, UInt16.ofNat_add, UInt16.ofNat_one]

/-- A client that was greeted has its peer from the greeting, and has sent nothing yet. -/
theorem speaks_of_connect {s : Settings} {endpoint : Endpoint} {link : Link}
    (greeted : connect s endpoint link = (.ok (), c)) :
    ∃ hello rest, Frame.read link.incoming = (.ok hello, rest) ∧ hello.envelope.kind = .hello ∧
      c.link.sent = link.sent ∧ c.Speaks hello.envelope.peer link.sent := by
  have connected := connected_connect s endpoint link
  rw [greeted] at connected
  cases connected with
  | greeted log read kind => exact ⟨_, _, read, kind, rfl, rfl, [], rfl, .none⟩

end Speaks

end Client

end MicroBus

import MicroBus.Client.Reachable
import MicroBus.Proofs.Client.Effect

/-!
# Histories of look-ups

A session is told by the replies to the look-ups that its client sent. Each action adds at most
one: a look-up is a message on the connection, and its reply is the next one there. The directory
holds what the replies reported, in order, and nothing else.
-/

namespace MicroBus

/-- The objects that replies to look-ups reported, in order. -/
inductive Reported : List Reply → List ObjectInfo → Prop where
  /-- No replies. -/
  | nil : Reported [] []
  /-- A reply that lists objects after others. -/
  | listed {replies : List Reply} {reply : Reply} {earlier objects : List ObjectInfo}
    (h : Reported replies earlier) (lists : reply.Lists objects) :
    Reported (replies ++ [reply]) (earlier ++ objects)
  /-- A reply that fails after others. -/
  | failed {replies : List Reply} {reply : Reply} {earlier : List ObjectInfo}
    (h : Reported replies earlier) (fails : reply.Fails) : Reported (replies ++ [reply]) earlier

/-- An object was reported exactly if some reply lists it. -/
theorem Reported.mem_iff {replies : List Reply} {objects : List ObjectInfo}
    (h : Reported replies objects) (o : ObjectInfo) :
    o ∈ objects ↔ ∃ reply ∈ replies, ∃ listed, reply.Lists listed ∧ o ∈ listed := by
  induction h with
  | nil => simp
  | @listed replies reply earlier objects h lists ih =>
    -- A reply cannot be read in two ways, so what it lists is what it added.
    have hone : (∃ listed, reply.Lists listed ∧ o ∈ listed) ↔ o ∈ objects := by
      constructor
      · rintro ⟨listed, hl, ho⟩
        rwa [lists.unique hl]
      · exact fun ho => ⟨objects, lists, ho⟩
    simp only [List.mem_append, List.mem_singleton, or_and_right, exists_or, exists_eq_left, ih,
      hone]
  | @failed replies reply earlier h fails ih =>
    have hone : ¬ ∃ listed, reply.Lists listed ∧ o ∈ listed := by
      rintro ⟨listed, hl, -⟩
      exact Reply.fails_iff.mp fails listed hl
    simp only [List.mem_append, List.mem_singleton, or_and_right, exists_or, exists_eq_left, ih,
      hone, or_false]

theorem Directory.addAll_append (d : Directory) (objects others : List ObjectInfo) :
    d.addAll (objects ++ others) = (d.addAll objects).addAll others :=
  List.foldl_append

namespace Client

/-! ## Look-ups among the messages -/

/-- Whether the octets of a message are those of a look-up. -/
def isLookup (message : Bytes) : Bool := decide (message[1]? = some Kind.lookup.code)

theorem isLookup_nextMessage (c : Client) (kind : Kind) (body : Bytes) :
    isLookup (c.nextMessage kind body) = decide (kind = .lookup) := by
  have h : (c.nextMessage kind body)[1]? = some kind.code := rfl
  rw [isLookup, h]
  cases kind <;> rfl

/-- The messages that went out between two states of a client, newest first. -/
def newMessages (c d : Client) : List Bytes :=
  d.link.sent.take (d.link.sent.length - c.link.sent.length)

theorem newMessages_eq {c d : Client} {new : List Bytes} (h : d.link.sent = new ++ c.link.sent) :
    c.newMessages d = new := by
  rw [newMessages, h, List.length_append, Nat.add_sub_cancel, List.take_left]

/-- The replies to the look-ups that an action sends. There is at most one, and its reply is the
next on the connection. -/
def lookups (c : Client) (a : Action) : List Reply :=
  if (c.newMessages (c.act a).2).any isLookup then [c.nextReply] else []

/-- What became of the directory of a client that has sent messages since, by the replies to the
look-ups among them. -/
inductive Learned (c d : Client) (new : List Bytes) : List Reply → Prop where
  /-- No look-up was sent, and the directory is the same. -/
  | nothing (none : new.any isLookup = false) (same : d.directory = c.directory) :
    Learned c d new []
  /-- A look-up was sent, and its reply lists the objects that the directory has now too. -/
  | listed {objects : List ObjectInfo} (some : new.any isLookup = true)
    (lists : c.nextReply.Lists objects) (grown : d.directory = c.directory.addAll objects) :
    Learned c d new [c.nextReply]
  /-- A look-up was sent, its reply fails, and the directory is the same. -/
  | failed (some : new.any isLookup = true) (fails : c.nextReply.Fails)
    (same : d.directory = c.directory) : Learned c d new [c.nextReply]

theorem LookedUp.learned {c d : Client} {r : Except Failure (List ObjectInfo)}
    (h : c.LookedUp r d) :
    ∃ new replies, d.link.sent = new ++ c.link.sent ∧ c.Learned d new replies := by
  have hm (body : Bytes) : [c.nextMessage .lookup body].any isLookup = true := by
    rw [List.any_cons, isLookup_nextMessage]
    rfl
  cases h with
  | unsent f => exact ⟨[], [], rfl, .nothing rfl rfl⟩
  | listed body log lists => exact ⟨_, _, rfl, .listed (hm body) lists rfl⟩
  | failed f body log fails => exact ⟨_, _, rfl, .failed (hm body) fails rfl⟩

theorem Resolved.learned {c d : Client} {path : String} {r : Except Failure UInt32}
    (h : c.Resolved path r d) :
    ∃ new replies, d.link.sent = new ++ c.link.sent ∧ c.Learned d new replies := by
  cases h with
  | closed h => exact ⟨[], [], rfl, .nothing rfl rfl⟩
  | known log opened h => exact ⟨[], [], rfl, .nothing rfl rfl⟩
  | found opened unknown looked h => exact looked.learned
  | absent opened unknown looked h => exact looked.learned
  | failed opened unknown looked => exact looked.learned

/-- A call after a look-up adds nothing to what was learned. -/
theorem Invoked.learned {c d e : Client} {id : UInt32} {method : String} {arguments : Entries}
    (h : d.Invoked id method arguments e) {new : List Bytes} {replies : List Reply}
    (sent : d.link.sent = new ++ c.link.sent) (learned : c.Learned d new replies) :
    ∃ new replies, e.link.sent = new ++ c.link.sent ∧ c.Learned e new replies := by
  cases h with
  | unsent h => exact ⟨new, replies, sent, learned⟩
  | @sent body log ready asked =>
    -- One more message has gone out, but it is none of a look-up.
    have hsent : (d.exchanged .invoke body log).link.sent =
        (d.nextMessage .invoke body :: new) ++ c.link.sent := congrArg _ sent
    have hany : (d.nextMessage .invoke body :: new).any isLookup = new.any isLookup := by
      rw [List.any_cons, isLookup_nextMessage]
      rfl
    refine ⟨_, replies, hsent, ?_⟩
    cases learned with
    | nothing none same => exact .nothing (hany.trans none) same
    | listed some lists grown => exact .listed (hany.trans some) lists grown
    | failed some fails same => exact .failed (hany.trans some) fails same

theorem Called.learned {c d : Client} {service method : String} {arguments : Arguments}
    (h : c.Called service method arguments d) :
    ∃ new replies, d.link.sent = new ++ c.link.sent ∧ c.Learned d new replies := by
  cases h with
  | refused h => exact ⟨[], [], rfl, .nothing rfl rfl⟩
  | unresolved opened resolved => exact resolved.learned
  | invoked opened resolved normal invoked =>
    obtain ⟨new, replies, sent, learned⟩ := resolved.learned
    exact invoked.learned sent learned

/-- After an action the directory has what the look-ups among its messages reported. -/
theorem learned_act (c : Client) (a : Action) :
    c.Learned (c.act a).2 (c.newMessages (c.act a).2) (c.lookups a) := by
  obtain ⟨new, replies, sent, learned⟩ : ∃ new replies,
      (c.act a).2.link.sent = new ++ c.link.sent ∧ c.Learned (c.act a).2 new replies := by
    cases a with
    | lookupId path => exact (resolved_lookupId c path).learned
    | list pattern =>
      rw [act]
      simp only [list]
      by_cases hc : c.closed = true
      · rw [if_pos hc]
        exact ⟨[], [], rfl, .nothing rfl rfl⟩
      · rw [if_neg hc]
        exact (lookedUp_lookup c pattern).learned
    | call service method arguments => exact (called_call c service method arguments).learned
    | close => exact ⟨[], [], rfl, .nothing rfl rfl⟩
    | setLogger name => exact ⟨[], [], rfl, .nothing rfl rfl⟩
  rw [lookups, newMessages_eq sent]
  cases learned with
  | nothing none same =>
    rw [if_neg (by rw [none]; exact Bool.false_ne_true)]
    exact .nothing none same
  | listed some lists grown =>
    rw [if_pos some]
    exact .listed some lists grown
  | failed some fails same =>
    rw [if_pos some]
    exact .failed some fails same

/-! ## Runs of a client -/

/-- What a client does from a state on, with the replies to the look-ups that it sends, up to
another state. -/
inductive Run (c : Client) : List Reply → Client → Prop where
  /-- Nothing. -/
  | start : Run c [] c
  /-- An action. -/
  | acted {replies : List Reply} {d : Client} (h : Run c replies d) (a : Action) :
    Run c (replies ++ d.lookups a) (d.act a).2
  /-- The daemon sends something, or comes to an end. -/
  | fed {replies : List Reply} {d : Client} (h : Run c replies d) (b : Bytes) (ending : Ending) :
    Run c replies { d with link := (d.link.feed b).finish ending }

/-- A session: it begins with a greeting, and its client looks up what these replies answer. -/
def Session (replies : List Reply) (c : Client) : Prop :=
  ∃ s endpoint link start, connect s endpoint link = (.ok (), start) ∧ start.Run replies c

theorem Run.reachable {c d : Client} {replies : List Reply} (h : c.Run replies d)
    (reach : Reachable c) : Reachable d := by
  induction h with
  | start => exact reach
  | acted h a ih => exact .acted ih rfl
  | fed h b ending ih => exact .fed b ending ih

/-- The clients that sessions lead to are the reachable ones. -/
theorem reachable_iff {c : Client} : Reachable c ↔ ∃ replies, Session replies c := by
  constructor
  · intro h
    induction h with
    | connected h => exact ⟨[], _, _, _, _, h, .start⟩
    | @acted c d a r h run ih =>
      obtain ⟨replies, s, endpoint, link, start, greeted, hr⟩ := ih
      have acted := hr.acted a
      rw [run] at acted
      exact ⟨_, s, endpoint, link, start, greeted, acted⟩
    | fed b ending h ih =>
      obtain ⟨replies, s, endpoint, link, start, greeted, hr⟩ := ih
      exact ⟨replies, s, endpoint, link, start, greeted, hr.fed b ending⟩
  · rintro ⟨replies, s, endpoint, link, start, greeted, hr⟩
    exact hr.reachable (.connected greeted)

/-- After a run the directory has what the look-ups of the run reported beside what it had. -/
theorem Run.directory_eq {c d : Client} {replies : List Reply} (h : c.Run replies d) :
    ∃ objects, Reported replies objects ∧ d.directory = c.directory.addAll objects := by
  induction h with
  | start => exact ⟨[], .nil, rfl⟩
  | @acted replies d h a ih =>
    obtain ⟨earlier, reported, hd⟩ := ih
    have learned := learned_act d a
    cases hl : d.lookups a with
    | nil =>
      rw [hl] at learned
      cases learned with
      | nothing none same => exact ⟨earlier, by rwa [List.append_nil], same.trans hd⟩
    | cons reply rest =>
      rw [hl] at learned
      cases learned with
      | listed some lists grown =>
        exact ⟨_, reported.listed lists, by rw [grown, hd, Directory.addAll_append]⟩
      | failed some fails same => exact ⟨earlier, reported.failed fails, same.trans hd⟩
  | fed h b ending ih => exact ih

/-! ## Connecting -/

/-- How connecting can end. -/
inductive Connected (s : Settings) (link : Link) : Except Failure Unit → Client → Prop where
  /-- The greeting was read, and nothing else. The peer is from there, and nothing was sent. -/
  | greeted {hello : Frame} {rest : Bytes} (log : List (String × Event))
    (read : Frame.read link.incoming = (.ok hello, rest))
    (kind : hello.envelope.kind = .hello) :
    Connected s link (.ok ()) ⟨hello.envelope.peer, 0, .empty, false, true,
      ⟨rest, link.ending, link.sent⟩, s.logger, log⟩
  /-- There was no greeting. -/
  | failed (f : Failure) (left : Link) (log : List (String × Event)) :
    Connected s link (.error f) { ungreeted s link with link := left, log := log }

theorem connected_connect (s : Settings) (endpoint : Endpoint) (link : Link) :
    Connected s link (connect s endpoint link).1 (connect s endpoint link).2 := by
  unfold connect
  simp only
  split
  · exact .failed _ _ _
  · unfold greet
    split
    · exact .failed _ _ _
    · split
      · exact .failed _ _ _
      · next hello rest read =>
        obtain ⟨log, hn⟩ := exists_noteAll_eq
          { ungreeted s link with link := { (ungreeted s link).link with incoming := rest } }
          [Reply.received hello]
        simp only [note, hn]
        split
        · next kind =>
          obtain ⟨told, hn⟩ := exists_noteAll_eq
            ⟨hello.envelope.peer, 0, .empty, false, true, ⟨rest, link.ending, link.sent⟩, s.logger,
              log⟩
            [.connected s.path hello.envelope.peer]
          exact (congrArg (Connected s link (.ok ())) hn).mpr (.greeted told read kind)
        · exact .failed _ _ _

/-- A session begins with an empty directory. -/
theorem directory_connect (s : Settings) (endpoint : Endpoint) (link : Link) :
    (connect s endpoint link).2.directory = .empty := by
  have connected := connected_connect s endpoint link
  generalize (connect s endpoint link).1 = r, (connect s endpoint link).2 = c at connected
  cases connected <;> rfl

end Client

end MicroBus

import Mathlib
import MicroBus.Proofs.Client.Moves
import MicroBus.Proofs.Frame.Lossless
import MicroBus.Proofs.Value.Canonical

/-!
# Replies that come late

A request reads the next reply on the connection, whatever number its messages carry. As long as the
status message of every earlier request was read, that is the request's own reply. A request that
gives up before leaves its reply to the next one, and from then on every reply is read by a later
request than it was meant for: by as many later as were given up.
-/

namespace MicroBus

/-! ## Whole messages -/

namespace Frame

/-- A message that is read back from its octets: its body is empty, or declares its length. -/
def Whole (f : Frame) : Prop := f.body = [] ∨ f.Declared

theorem Whole.read_eq {f : Frame} (h : f.Whole) (rest : Bytes) :
    read (f.octets ++ rest) = (.ok f, rest) := by
  rcases h with h | h
  · obtain ⟨envelope, body⟩ := f
    obtain rfl : body = [] := h
    have hl : Bytes.zeroWord.length = 4 := rfl
    have hz : readBody (Bytes.zeroWord ++ rest) = (.ok [], rest) := by
      have hb : bodyLength Bytes.zeroWord = .ok 0 := by decide
      rw [readBody, take_append hl]
      simp only [hb]
    rw [octets, if_pos rfl, encode, List.append_assoc, read_append, hz]
    rfl
  · have hne : f.body ≠ [] := List.ne_nil_of_length_pos (Nat.lt_of_lt_of_le (by decide) h.four_le)
    rw [octets, if_neg hne, h.read_eq]

/-- The octets of messages one after another. -/
def stream (frames : List Frame) : Bytes := (frames.map octets).flatten

theorem stream_append (frames others : List Frame) :
    stream (frames ++ others) = stream frames ++ stream others := by
  rw [stream, List.map_append, List.flatten_append]
  rfl

theorem sequence_stream {frames : List Frame} (h : ∀ f ∈ frames, f.Whole) (tail : Bytes) :
    Sequence (stream frames ++ tail) frames tail :=
  sequence_flatten (fun f hf => (h f hf).read_eq) tail

/-- Whether a message ends a reply. -/
def isStatus (f : Frame) : Bool := decide (f.envelope.kind = .status)

/-- Messages have a first status message, or none. -/
theorem exists_first_status (frames : List Frame) :
    (∀ f ∈ frames, f.envelope.kind ≠ .status) ∨
      ∃ before last after, frames = before ++ last :: after ∧
        (∀ f ∈ before, f.envelope.kind ≠ .status) ∧ last.envelope.kind = .status := by
  induction frames with
  | nil => exact .inl (by simp)
  | cons f frames ih =>
    by_cases hf : f.envelope.kind = .status
    · exact .inr ⟨[], f, frames, rfl, by simp, hf⟩
    · rcases ih with none | ⟨before, last, after, rfl, first, status⟩
      · exact .inl (List.forall_mem_cons.mpr ⟨hf, none⟩)
      · exact .inr ⟨f :: before, last, after, rfl, List.forall_mem_cons.mpr ⟨hf, first⟩, status⟩

theorem countP_isStatus_eq_zero {frames : List Frame}
    (h : ∀ f ∈ frames, f.envelope.kind ≠ .status) : frames.countP isStatus = 0 := by
  rw [List.countP_eq_zero]
  simpa [isStatus] using h

end Frame

namespace Reply

/-- What a request takes of the messages that have come: a whole reply, or, if there is no status
message among them, everything. -/
inductive Takes : List Frame → Reply → List Frame → Prop where
  /-- A reply up to its status message. -/
  | whole {before after : List Frame} {last : Frame}
    (first : ∀ f ∈ before, f.envelope.kind ≠ .status) (status : last.envelope.kind = .status) :
    Takes (before ++ last :: after) ⟨before, .ok last⟩ after
  /-- Messages without a status message. -/
  | cutShort {frames : List Frame} (none : ∀ f ∈ frames, f.envelope.kind ≠ .status) :
    Takes frames ⟨frames, .error (.stream .ended)⟩ []

/-- Messages without a status message are all taken, and then reading fails. -/
theorem collectOnto_of_cutShort {frames : List Frame} (whole : ∀ f ∈ frames, f.Whole)
    (none : ∀ f ∈ frames, f.envelope.kind ≠ .status) (met : List Frame) :
    collectOnto met (Frame.stream frames) =
      (⟨met.reverse ++ frames, .error (.stream .ended)⟩, []) := by
  induction frames generalizing met with
  | nil =>
    have hr : Frame.read (Frame.stream []) = (.error (.stream .ended), []) := rfl
    rw [collectOnto_of_error hr, List.append_nil]
  | cons f frames ih =>
    rw [List.forall_mem_cons] at whole none
    have hr : Frame.read (Frame.stream (f :: frames)) = (.ok f, Frame.stream frames) :=
      whole.1.read_eq _
    rw [collectOnto_of_ok hr, if_neg none.1, ih whole.2 none.2, List.reverse_cons,
      List.append_assoc, List.singleton_append]

/-- A request takes what stands on the stream, message by message. -/
theorem exists_takes {frames : List Frame} (whole : ∀ f ∈ frames, f.Whole) :
    ∃ left, Takes frames (collect (Frame.stream frames)).1 left ∧
      (collect (Frame.stream frames)).2 = Frame.stream left := by
  rcases Frame.exists_first_status frames with none | ⟨before, last, after, rfl, first, status⟩
  · rw [collect, collectOnto_of_cutShort whole none]
    exact ⟨[], .cutShort none, rfl⟩
  · have hsplit : before ++ last :: after = (before ++ [last]) ++ after := by simp
    have front : AtFront (Frame.stream (before ++ last :: after)) before last
        (Frame.stream after) := by
      refine ⟨?_, first, status⟩
      rw [hsplit, Frame.stream_append]
      refine Frame.sequence_stream (fun f hf => whole f ?_) _
      rw [hsplit]
      exact List.mem_append_left _ hf
    rw [collect, collectOnto_eq front]
    exact ⟨after, .whole first status, rfl⟩

end Reply

/-! ## A daemon that answers in order -/

/-- Messages of a daemon that answers the requests from number `n` on, one after another: the data
messages and the status message of each answer carry the number of the request. The last answer may
still be incomplete. -/
inductive Answers : UInt16 → List Frame → Prop where
  /-- Nothing more. -/
  | nothing (n : UInt16) : Answers n []
  /-- A message before the status message. -/
  | before {n : UInt16} {f : Frame} {frames : List Frame} (kind : f.envelope.kind ≠ .status)
    (own : f.envelope.kind = .data → f.envelope.seq = n) (h : Answers n frames) :
    Answers n (f :: frames)
  /-- The status message, and the answers to later requests. -/
  | status {n : UInt16} {f : Frame} {frames : List Frame} (kind : f.envelope.kind = .status)
    (own : f.envelope.seq = n) (h : Answers (n + 1) frames) : Answers n (f :: frames)

/-- Each status message ends the answer to one request. -/
theorem Answers.behind {n : UInt16} {frames others : List Frame}
    (h : Answers n (frames ++ others)) :
    Answers (n + UInt16.ofNat (frames.countP Frame.isStatus)) others := by
  induction frames generalizing n with
  | nil => simpa using h
  | cons f frames ih =>
    cases h with
    | before kind own h =>
      rw [List.countP_cons_of_neg (by simpa [Frame.isStatus] using kind)]
      exact ih h
    | status kind own h =>
      rw [List.countP_cons_of_pos (by simpa [Frame.isStatus] using kind), UInt16.ofNat_add,
        UInt16.ofNat_one, UInt16.add_comm _ 1, ← UInt16.add_assoc]
      exact ih h

/-- The data messages of an answer carry the number of its request. -/
theorem Answers.seq_eq {n : UInt16} {before others : List Frame} (h : Answers n (before ++ others))
    (first : ∀ f ∈ before, f.envelope.kind ≠ .status) :
    ∀ f ∈ before, f.envelope.kind = .data → f.envelope.seq = n := by
  induction before with
  | nil => simp
  | cons f before ih =>
    rw [List.forall_mem_cons] at first
    cases h with
    | before kind own h => exact List.forall_mem_cons.mpr ⟨own, ih h first.2⟩
    | status kind own h => exact (first.1 kind).elim

namespace Client

/-- A session from a client on in which the daemon sends these messages, each of them whole: what
has come when a request gives up does not end within a message. -/
inductive Served (start : Client) : List Frame → Client → Prop where
  /-- Nothing has happened. -/
  | start : Served start [] start
  /-- An action. -/
  | acted {sent : List Frame} {c : Client} (h : Served start sent c) (a : Action) :
    Served start sent (c.act a).2
  /-- The daemon sends messages. -/
  | fed {sent : List Frame} {c : Client} (h : Served start sent c) (frames : List Frame)
    (whole : ∀ f ∈ frames, f.Whole) (going : c.link.ending = .none) :
    Served start (sent ++ frames) { c with link := c.link.feed (Frame.stream frames) }
  /-- The daemon's side comes to an end. -/
  | ended {sent : List Frame} {c : Client} (h : Served start sent c) (ending : Ending) :
    Served start sent { c with link := c.link.finish ending }

/-- A client that has read the status message for each of its messages but for `late` of them, from
a daemon that has sent these messages. -/
structure Late (start c : Client) (sent : List Frame) (late : Nat) : Prop where
  /-- The messages of the daemon are whole. -/
  whole : ∀ f ∈ sent, f.Whole
  /-- Some of them were read, and the others stand on the connection. -/
  split : ∃ read unread requests, sent = read ++ unread ∧
    c.link.incoming = Frame.stream unread ∧ c.link.sent = requests ++ start.link.sent ∧
    requests.length = read.countP Frame.isStatus + late

section Late

variable {start c d : Client} {sent : List Frame} {late : Nat}

/-- A request reads one status message, or is one more whose status message was not read. -/
theorem Late.exchanged (h : start.Late c sent late) (kind : Kind) (body : Bytes)
    (log : List (String × Event)) :
    (∀ last, c.nextReply.status = .ok last →
      start.Late (c.exchanged kind body log) sent late) ∧
    (∀ fault, c.nextReply.status = .error fault →
      start.Late (c.exchanged kind body log) sent (late + 1)) := by
  obtain ⟨whole, read, unread, requests, rfl, incoming, hsent, count⟩ := h
  obtain ⟨left, takes, hleft⟩ :=
    Reply.exists_takes fun f hf => whole f (List.mem_append_right read hf)
  rw [← incoming] at takes hleft
  have hnext : (c.exchanged kind body log).link.sent =
      (c.nextMessage kind body :: requests) ++ start.link.sent := congrArg _ hsent
  rw [nextReply]
  generalize (Reply.collect c.link.incoming).1 = reply at takes
  -- One more message was sent, and either one more status message was read or everything was.
  cases takes with
  | @whole before after last first status =>
    refine ⟨fun _ _ => ⟨whole, read ++ (before ++ [last]), left, _, by simp, hleft, hnext, ?_⟩, ?_⟩
    · rw [List.length_cons, count, List.countP_append, List.countP_append,
        Frame.countP_isStatus_eq_zero first, List.countP_singleton, Frame.isStatus,
        if_pos (decide_eq_true status)]
      omega
    · intro fault h
      cases h
  | cutShort none =>
    refine ⟨?_, fun _ _ => ⟨whole, read ++ unread, [], _, by simp, hleft, hnext, ?_⟩⟩
    · intro last h
      cases h
    · rw [List.length_cons, count, List.countP_append, Frame.countP_isStatus_eq_zero none]
      omega

/-- Whatever a client does, it has some number of requests whose status message was not read. -/
theorem Late.moves (h : start.Late c sent late) (moves : c.Moves d) :
    ∃ late, start.Late d sent late := by
  induction moves with
  | stay => exact ⟨late, h⟩
  | @exchange d moves kind body log ih =>
    obtain ⟨late, h⟩ := ih
    cases hs : d.nextReply.status with
    | ok last => exact ⟨_, (h.exchanged kind body log).1 last hs⟩
    | error fault => exact ⟨_, (h.exchanged kind body log).2 fault hs⟩
  | learn moves directory ih =>
    obtain ⟨late, h⟩ := ih
    exact ⟨late, h.whole, h.split⟩
  | tell moves log ih =>
    obtain ⟨late, h⟩ := ih
    exact ⟨late, h.whole, h.split⟩
  | close moves ih =>
    obtain ⟨late, h⟩ := ih
    exact ⟨late, h.whole, h.split⟩
  | setLogger moves name ih =>
    obtain ⟨late, h⟩ := ih
    exact ⟨late, h.whole, h.split⟩

/-- Resolving a path with success leaves no request behind. -/
theorem Late.resolved {path : String} {id : UInt32} (h : start.Late c sent late)
    (resolved : c.Resolved path (.ok id) d) : start.Late d sent late := by
  cases resolved with
  | known log opened known => exact ⟨h.whole, h.split⟩
  | found opened unknown looked first =>
    cases looked with
    | listed body log lists =>
      obtain ⟨last, hlast, -⟩ := lists.ended
      have read := (h.exchanged .lookup body log).1 last hlast
      exact ⟨read.whole, read.split⟩

/-- Throughout a session there is such a number. -/
theorem Served.exists_late (h : start.Served sent c) (quiet : start.link.incoming = []) :
    ∃ late, start.Late c sent late := by
  induction h with
  | start => exact ⟨0, by simp, [], [], [], rfl, quiet, rfl, rfl⟩
  | @acted sent c h a ih =>
    obtain ⟨late, h⟩ := ih
    exact h.moves (moves_act c a)
  | @fed sent c h frames whole going ih =>
    obtain ⟨late, h⟩ := ih
    obtain ⟨wholeBefore, read, unread, requests, rfl, incoming, hsent, count⟩ := h
    refine ⟨late, ?_, read, unread ++ frames, requests, List.append_assoc .., ?_, ?_, count⟩
    · intro f hf
      exact (List.mem_append.mp hf).elim (wholeBefore f) (whole f)
    · simp only [Link.feed, if_pos going, incoming, Frame.stream_append]
    · rw [sent_feed, hsent]
  | @ended sent c h ending ih =>
    obtain ⟨late, h⟩ := ih
    refine ⟨late, h.whole, ?_⟩
    rw [sent_finish, incoming_finish]
    exact h.split

end Late

/-! ## Calls that succeed -/

/-- A call of a method that succeeded was sent, and its response was made of the parts in the reply
that was next on the connection. -/
theorem exists_of_invoke {c d : Client} {id : UInt32} {target method : String} {entries : Entries}
    {r : Response} (h : c.invoke id target method entries = (.ok r, d)) :
    ∃ body last parts log, c.nextReply.status = .ok last ∧
      c.nextReply.dataFrames.mapM Response.part = .ok parts ∧
      r = Response.ofParts (parts.filterMap fun part => part) ∧
      d = c.exchanged .invoke body log := by
  unfold invoke at h
  split at h
  · cases h
  · next body hb =>
    by_cases hr : c.Ready
    · obtain ⟨log, he⟩ := exchange_of_ready .invoke body .invoke hr tableReader
      simp only [he] at h
      cases ho : c.nextReply.outcome .invoke c.link.ending tableReader with
      | error f =>
        simp only [ho] at h
        cases h
      | ok answer =>
        obtain ⟨code, parts⟩ := answer
        obtain ⟨⟨last, hs, -⟩, read⟩ := Reply.outcome_eq_ok_iff.mp ho
        simp only [ho] at h
        split at h
        · cases h
        · obtain ⟨told, hn⟩ := exists_noteAll_eq (c.exchanged .invoke body log)
            [.callComplete target id
              (Response.ofParts (parts.filterMap fun part => part)).entries.length]
          obtain ⟨hr, hd⟩ := Prod.mk.inj h
          exact ⟨body, last, parts, told, hs, read, (Except.ok.inj hr).symm, hd.symm.trans hn⟩
    · obtain ⟨f, he⟩ := exchange_of_not_ready .invoke body .invoke hr tableReader
      simp only [he] at h
      cases h

theorem exists_of_call {c d : Client} {service method : String} {arguments : Arguments}
    {r : Response} (h : c.call service method arguments = (.ok r, d)) :
    ∃ id e entries, c.lookupId service = (.ok id, e) ∧
      e.invoke id (service ++ "." ++ method) method entries = (.ok r, d) := by
  unfold call at h
  split at h
  · cases h
  · split at h
    · cases h
    · next entries _ =>
      split at h
      · cases h
      · next id e hl => exact ⟨id, e, entries, hl, h⟩

theorem Served.speaks {start c : Client} {sent : List Frame} {peer : UInt32}
    {earlier : List Bytes} (h : start.Served sent c) (speaks : start.Speaks peer earlier) :
    c.Speaks peer earlier := by
  induction h with
  | start => exact speaks
  | @acted sent c h a ih => exact (moves_act c a).speaks ih
  | fed h frames whole going ih => exact ⟨ih.peer_eq, by rw [sent_feed]; exact ih.numbered⟩
  | ended h ending ih => exact ⟨ih.peer_eq, by rw [sent_finish]; exact ih.numbered⟩

/-- The data messages of the reply that is read next carry the number of the next request, less the
number of requests whose status message was not read. -/
theorem Late.seq_add_eq {start c : Client} {sent : List Frame} {late : Nat} {last : Frame}
    (h : start.Late c sent late) (answers : Answers 1 sent)
    (ended : c.nextReply.status = .ok last) :
    ∃ requests, c.link.sent = requests ++ start.link.sent ∧ ∀ f ∈ c.nextReply.dataFrames,
      f ∈ sent ∧ f.envelope.kind = .data ∧
        f.envelope.seq + UInt16.ofNat late = UInt16.ofNat (requests.length + 1) := by
  obtain ⟨whole, read, unread, requests, rfl, incoming, hsent, count⟩ := h
  obtain ⟨left, takes, -⟩ :=
    Reply.exists_takes fun f hf => whole f (List.mem_append_right read hf)
  rw [← incoming] at takes
  refine ⟨requests, hsent, ?_⟩
  unfold nextReply at ended ⊢
  generalize (Reply.collect c.link.incoming).1 = reply at takes ended
  cases takes with
  | @whole before after last' first status =>
    intro f hf
    obtain ⟨hbefore, hkind⟩ := List.mem_filter.mp hf
    have hseq := answers.behind.seq_eq first f hbefore (of_decide_eq_true hkind)
    refine ⟨by simp [hbefore], of_decide_eq_true hkind, ?_⟩
    rw [hseq, count, UInt16.ofNat_add, UInt16.ofNat_add, UInt16.ofNat_one]
    ac_rfl
  | cutShort none => cases ended

/-- In a session with a daemon that answers every request in order, under the number of the request,
every entry of the response of a call that succeeds was carried by a data message. If the status
message of every earlier request was read, whatever came of it, the message has the number of the
call's own request. In general its number is smaller by as many as there are earlier requests that
gave up before. -/
theorem reply_is_late {s : Settings} {endpoint : Endpoint} {link : Link} {start c d : Client}
    {sent : List Frame} (greeted : connect s endpoint link = (.ok (), start))
    (quiet : start.link.incoming = []) (served : start.Served sent c) (answers : Answers 1 sent)
    {service method : String} {arguments : Arguments} {r : Response}
    (h : c.call service method arguments = (.ok r, d)) :
    (∃ late, start.Late c sent late) ∧ ∀ late, start.Late c sent late →
      ∃ requests request body, d.link.sent = request :: requests ++ link.sent ∧
        request = Frame.encode ⟨0, .invoke, UInt16.ofNat (requests.length + 1), start.peer⟩ body ∧
        ∀ e ∈ r.entries, ∃ f ∈ sent, f.envelope.kind = .data ∧
          f.envelope.seq + UInt16.ofNat late = UInt16.ofNat (requests.length + 1) ∧
          (late = 0 → f.envelope.seq = UInt16.ofNat (requests.length + 1)) ∧
          ∃ entries, Response.part f = .ok (some entries) ∧ e ∈ entries := by
  refine ⟨served.exists_late quiet, fun late hlate => ?_⟩
  obtain ⟨hello, rest, -, -, hsent, hspeaks⟩ := speaks_of_connect greeted
  rw [← hspeaks.peer_eq] at hspeaks
  obtain ⟨id, e, entries, hl, hi⟩ := exists_of_call h
  have resolved := resolved_lookupId c service
  rw [hl] at resolved
  obtain ⟨messages, hmessages, next⟩ :=
    (resolved.moves.speaks (served.speaks hspeaks)).nextMessage_eq
  obtain ⟨body, last, parts, told, ended, read, rfl, rfl⟩ := exists_of_invoke hi
  -- Resolving the path read the whole reply to its look-up, if it sent one.
  obtain ⟨requests, hrequests, numbers⟩ := (hlate.resolved resolved).seq_add_eq answers ended
  obtain rfl : requests = messages :=
    List.append_cancel_right (hrequests.symm.trans (hsent.symm ▸ hmessages))
  refine ⟨requests, e.nextMessage .invoke body, body, congrArg _ hmessages, next _ _, ?_⟩
  intro entry hentry
  obtain ⟨part, hpart, hin⟩ := List.mem_flatten.mp (mem_of_mem_canonical hentry)
  obtain ⟨_, hsome, rfl⟩ := List.mem_filterMap.mp hpart
  obtain ⟨f, hf, hread⟩ := exists_mem_of_mapM read _ hsome
  obtain ⟨mem, kind, seq⟩ := numbers f hf
  refine ⟨f, mem, kind, seq, ?_, part, hread, hin⟩
  rintro rfl
  simpa using seq

/-- A call gives up before its reply comes. The next call reads that reply, which carries the number
2, as the answer to its own request with the number 3. -/
theorem reply_is_late_by_one :
    let status (seq : UInt16) : Frame :=
      ⟨.current .status seq 7, [0, 0, 0, 12, 1, 0, 0, 8, 0, 0, 0, 0]⟩
    let found : Frame :=
      ⟨.current .data 1 7, [0, 0, 0, 20, 2, 0, 0, 6, 97, 0, 0, 0, 3, 0, 0, 8, 0, 0, 0, 1]⟩
    let late : Frame := ⟨.current .data 2 7, [0, 0, 0, 24, 7, 0, 0, 20, 133, 0, 0, 16,
      0, 4, 108, 97, 116, 101, 0, 0, 0, 0, 0, 1]⟩
    let own : Frame := ⟨.current .data 3 7, [0, 0, 0, 24, 7, 0, 0, 20, 133, 0, 0, 16,
      0, 3, 111, 119, 110, 0, 0, 0, 0, 0, 0, 2]⟩
    let sent := [found, status 1] ++ [late, status 2, own, status 3]
    ∃ start c d, connect .default .listening ⟨[0, 0, 0, 0, 0, 0, 0, 7, 0, 0, 0, 0], .none, []⟩ =
        (.ok (), start) ∧ start.Served sent c ∧ Answers 1 sent ∧ start.Late c sent 1 ∧
      c.call "a" "n" .none = (.ok ⟨[("late", .int 1)], List.pairwise_singleton _ _⟩, d) ∧
      ∃ f ∈ sent, f.envelope.kind = .data ∧ f.envelope.seq + 1 = 3 ∧
        ∃ entries, Response.part f = .ok (some entries) ∧ ("late", .int 1) ∈ entries := by
  intro status found late own sent
  let request (kind : Kind) (seq : UInt16) (body : Bytes) : Bytes :=
    Frame.encode (.current kind seq 7) body
  let start : Client := ⟨7, 0, .empty, false, true, ⟨[], .none, []⟩, none, []⟩
  let waiting : Client := ⟨7, 2, ⟨[("a", 1)]⟩, false, true, ⟨[], .none, [
      request .invoke 2 [0, 0, 0, 24, 3, 0, 0, 8, 0, 0, 0, 1, 4, 0, 0, 6, 109, 0, 0, 0, 7, 0, 0, 4],
      request .lookup 1 [0, 0, 0, 12, 2, 0, 0, 6, 97, 0, 0, 0]]⟩, none, []⟩
  let c : Client := waiting.hearing (Frame.stream [late, status 2, own, status 3])
  have greeted : connect .default .listening ⟨[0, 0, 0, 0, 0, 0, 0, 7, 0, 0, 0, 0], .none, []⟩ =
      (.ok (), start) := by cbv
  have whole : ∀ f ∈ sent, f.Whole := by
    have bounds : ∀ f ∈ sent, 4 ≤ f.body.length ∧ f.body.length ≤ Frame.maxBodyLength ∧
        Bytes.ofBigEndian (f.body.take 4) % 0x1000000 = f.body.length := by decide
    intro f hf
    obtain ⟨four_le, le_max, length_eq⟩ := bounds f hf
    exact .inr ⟨four_le, le_max, length_eq⟩
  have served : start.Served sent c := by
    have first := (@Served.start start).fed [found, status 1]
      (fun f hf => whole f (List.mem_append_left _ hf)) rfl
    have acted := first.acted (.call "a" "m" .none)
    have gaveUp : (({ start with
        link := start.link.feed (Frame.stream [found, status 1]) } : Client).act
        (.call "a" "m" .none)).2 = waiting := by cbv
    rw [gaveUp] at acted
    exact acted.fed [late, status 2, own, status 3]
      (fun f hf => whole f (List.mem_append_right _ hf)) rfl
  have answers : Answers 1 sent :=
    .before (by decide) (fun _ => rfl) (.status rfl rfl (.before (by decide) (fun _ => rfl)
      (.status rfl rfl (.before (by decide) (fun _ => rfl) (.status rfl rfl (.nothing _))))))
  have behind : start.Late c sent 1 :=
    ⟨whole, [found, status 1], [late, status 2, own, status 3], c.link.sent, rfl, rfl,
      (List.append_nil _).symm, by decide⟩
  have called : c.call "a" "n" .none =
      (.ok ⟨[("late", .int 1)], List.pairwise_singleton _ _⟩, (c.call "a" "n" .none).2) := by
    cbv
  obtain ⟨-, entries⟩ := reply_is_late greeted rfl served answers called
  obtain ⟨requests, request, body, hsent, -, carried⟩ := entries 1 behind
  obtain ⟨f, hf, hkind, hseq, -, part⟩ := carried ("late", .int 1) (List.mem_singleton.mpr rfl)
  have hlength : (c.call "a" "n" .none).2.link.sent.length = 3 := by cbv
  rw [hsent, List.append_nil, List.length_cons] at hlength
  rw [hlength] at hseq
  exact ⟨start, c, _, greeted, served, answers, behind, called, f, hf, hkind, hseq, part⟩

end Client

end MicroBus

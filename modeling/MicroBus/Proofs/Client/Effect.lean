import MicroBus.Proofs.Client.InTurn

/-!
# What requests do to a client

A request is sent or it is not. If it is not, the client stays as it was; if it is, the next
sequence number is used up, one message has gone out and the frames of one reply have come in,
and only a look-up that succeeded has changed the directory. These are all the ways in which an
operation can leave a client.
-/

namespace MicroBus

/-! ## Replies to look-ups -/

namespace Reply

/-- A reply that lists objects: it ends with success, and its data frames hold these objects in
order. -/
structure Lists (r : Reply) (objects : List ObjectInfo) : Prop where
  /-- Each data frame holds one of the objects. -/
  read : List.Forall₂ (fun f o => ObjectInfo.ofFrame f = .ok o) r.dataFrames objects
  /-- The status message was read and is one of success. -/
  ended : ∃ last, r.status = .ok last ∧ statusCode last = .ok 0

/-- A reply that lists nothing: it is cut short by a frame that cannot be read, or one of its data
frames is malformed, or its status message is malformed or not one of success. -/
def Fails (r : Reply) : Prop :=
  (∃ fault, r.status = .error fault) ∨
  (∃ frame ∈ r.dataFrames, ∃ fault, ObjectInfo.ofFrame frame = .error fault) ∨
  ∃ last, r.status = .ok last ∧ statusCode last ≠ .ok 0

theorem Lists.unique {r : Reply} {objects others : List ObjectInfo} (h : r.Lists objects)
    (k : r.Lists others) : objects = others :=
  Except.ok.inj ((mapM_eq_ok_iff.mpr h.read).symm.trans (mapM_eq_ok_iff.mpr k.read))

/-- A reply fails exactly if it lists no objects, not even none. -/
theorem fails_iff {r : Reply} : r.Fails ↔ ∀ objects, ¬ r.Lists objects := by
  constructor
  · rintro (⟨fault, hf⟩ | ⟨frame, hframe, fault, hf⟩ | ⟨last, hlast, hne⟩) objects
      ⟨read, last', hl, hc⟩
    · rw [hf] at hl
      cases hl
    · obtain ⟨o, ho⟩ := exists_of_forall₂ read frame hframe
      rw [hf] at ho
      cases ho
    · rw [hlast] at hl
      obtain rfl := Except.ok.inj hl
      exact hne hc
  · intro h
    cases hs : r.status with
    | error fault => exact .inl ⟨fault, hs⟩
    | ok last =>
      by_cases hc : statusCode last = .ok 0
      · cases hd : r.dataFrames.mapM ObjectInfo.ofFrame with
        | error fault =>
          obtain ⟨before, frame, after, hl, hf, -⟩ := mapM_eq_error_iff.mp hd
          exact .inr (.inl ⟨frame, by simp [hl], fault, hf⟩)
        | ok objects => exact (h objects ⟨mapM_eq_ok_iff.mp hd, last, hs, hc⟩).elim
      · exact .inr (.inr ⟨last, hs, hc⟩)

/-- A reply comes to a code and parts if its status message has the code and its data frames are
these parts. -/
theorem outcome_eq_ok_iff {α : Type} {r : Reply} {step : Step} {ending : Ending}
    {reader : PartReader α} {code : UInt32} {parts : List α} :
    r.outcome step ending reader = .ok (code, parts) ↔
      (∃ last, r.status = .ok last ∧ statusCode last = .ok code) ∧
        r.dataFrames.mapM reader.part = .ok parts := by
  have hp : r.parts reader = r.dataFrames.mapM reader.part := rfl
  rw [outcome]
  constructor
  · intro h
    split at h
    · cases h
    · next last hs =>
      split at h
      · cases h
      · next others hparts =>
        split at h
        · cases h
        · next other hc =>
          obtain ⟨rfl, rfl⟩ := Prod.mk.inj (Except.ok.inj h)
          exact ⟨⟨last, hs, hc⟩, hp ▸ hparts⟩
  · rintro ⟨⟨last, hs, hc⟩, read⟩
    rw [hs]
    simp only [hp, read, hc]

/-- A reply lists the objects that a look-up comes to with the code of success. -/
theorem lists_iff_outcome {r : Reply} {objects : List ObjectInfo} {step : Step} {ending : Ending} :
    r.Lists objects ↔ r.outcome step ending Client.objectReader = .ok (0, objects) := by
  rw [outcome_eq_ok_iff, mapM_eq_ok_iff]
  exact ⟨fun ⟨read, ended⟩ => ⟨ended, read⟩, fun ⟨ended, read⟩ => ⟨read, ended⟩⟩

end Reply

namespace Client

/-! ## One request -/

/-- The reply that stands next on a client's connection. -/
def nextReply (c : Client) : Reply := (Reply.collect c.link.incoming).1

/-- The message with the next sequence number. -/
def nextMessage (c : Client) (kind : Kind) (body : Bytes) : Bytes :=
  Frame.encode (Envelope.current kind (c.seq + 1) c.peer) body

/-- A client that has sent a request and taken the reply to it off its connection, and has told
its logger so. -/
def exchanged (c : Client) (kind : Kind) (body : Bytes) (log : List (String × Event)) : Client :=
  { c with
    seq := c.seq + 1
    link :=
      ⟨(Reply.collect c.link.incoming).2, c.link.ending, c.nextMessage kind body :: c.link.sent⟩
    log := log }

/-- A client that has told its logger something. -/
def told (c : Client) (log : List (String × Event)) : Client := { c with log := log }

theorem exists_noteAll_eq (c : Client) (events : List Event) :
    ∃ log, c.noteAll events = c.told log := by
  unfold noteAll
  split
  · exact ⟨c.log, rfl⟩
  · exact ⟨_, rfl⟩

section Request

variable {c : Client} (kind : Kind) (body : Bytes) (step : Step)

/-- A client that is not ready stays as it is. -/
theorem exchange_of_not_ready {α : Type} (h : ¬ c.Ready) (reader : PartReader α) :
    ∃ f, c.exchange kind body step reader = (.error f, c) := by
  have hs : ∃ f, c.send kind body step = (.error f, c) := by
    unfold send
    by_cases ha : c.attached = true
    · have hg : c.link.ending = .gone := by
        by_contra hg
        exact h ⟨ha, hg⟩
      exact ⟨_, by simp [ha, hg]; rfl⟩
    · exact ⟨_, by simp [ha]; rfl⟩
  obtain ⟨f, hs⟩ := hs
  exact ⟨f, by rw [exchange, hs]⟩

/-- A client that is ready sends the request and takes one reply. -/
theorem exchange_of_ready {α : Type} (h : c.Ready) (reader : PartReader α) :
    ∃ log, c.exchange kind body step reader =
      (c.nextReply.outcome step c.link.ending reader, c.exchanged kind body log) := by
  have hs : ∃ log, c.send kind body step = (.ok (), { c with
      seq := c.seq + 1
      link := { c.link with sent := c.nextMessage kind body :: c.link.sent }
      log := log }) := by
    -- What the logger is told does not matter, only that nothing else changes.
    obtain ⟨log, hn⟩ := exists_noteAll_eq { c with
      seq := c.seq + 1
      link := { c.link with sent := c.nextMessage kind body :: c.link.sent } }
      [.sent kind (c.seq + 1) body.length]
    refine ⟨log, ?_⟩
    unfold send
    rw [if_neg (by simp [h.attached]), if_neg h.receives]
    exact congrArg (Prod.mk _) hn
  obtain ⟨log, hs⟩ := hs
  rw [exchange, hs]
  obtain ⟨log, hn⟩ := exists_noteAll_eq (c.exchanged kind body log) (c.nextReply.events step reader)
  exact ⟨log, congrArg (Prod.mk _) hn⟩

end Request

/-! ## Look-ups and calls -/

/-- What a look-up comes to, and the client after it. -/
inductive LookedUp (c : Client) : Except Failure (List ObjectInfo) → Client → Prop where
  /-- The look-up was not sent. -/
  | unsent (f : Failure) : LookedUp c (.error f) c
  /-- The reply lists objects, and the directory has their reports now. -/
  | listed {objects : List ObjectInfo} (body : Bytes) (log : List (String × Event))
    (lists : c.nextReply.Lists objects) :
    LookedUp c (.ok objects)
      { c.exchanged .lookup body log with directory := c.directory.addAll objects }
  /-- The reply fails, and the directory is the same. -/
  | failed (f : Failure) (body : Bytes) (log : List (String × Event)) (fails : c.nextReply.Fails) :
    LookedUp c (.error f) (c.exchanged .lookup body log)

theorem lookedUp_lookup (c : Client) (pattern : Option String) :
    c.LookedUp (c.lookup pattern).1 (c.lookup pattern).2 := by
  unfold lookup
  cases lookupBody pattern with
  | error f => exact .unsent _
  | ok body =>
    by_cases hr : c.Ready
    · obtain ⟨log, he⟩ := exchange_of_ready .lookup body .lookup hr objectReader
      simp only [he]
      cases ho : c.nextReply.outcome .lookup c.link.ending objectReader with
      | error f =>
        refine .failed f body log (Reply.fails_iff.mpr fun objects hl => ?_)
        rw [Reply.lists_iff_outcome, ho] at hl
        cases hl
      | ok answer =>
        obtain ⟨code, objects⟩ := answer
        simp only
        cases hf : Failure.ofStatus code (pattern.getD "*") .lookup with
        | some f =>
          obtain ⟨told, hn⟩ := exists_noteAll_eq (c.exchanged .lookup body log)
            [.lookupFailed (pattern.getD "*") code]
          simp only [Client.note, hn]
          refine .failed f body told (Reply.fails_iff.mpr fun others hl => ?_)
          rw [Reply.lists_iff_outcome, ho] at hl
          obtain ⟨rfl, -⟩ := Prod.mk.inj (Except.ok.inj hl)
          cases hf
        | none =>
          obtain rfl := Failure.ofStatus_eq_none_iff.mp hf
          obtain ⟨told, hn⟩ := exists_noteAll_eq (c.exchanged .lookup body log)
            [.lookupComplete (pattern.getD "*") objects.length]
          simp only [Client.note, hn]
          exact .listed body told (Reply.lists_iff_outcome.mpr ho)
    · obtain ⟨f, he⟩ := exchange_of_not_ready .lookup body .lookup hr objectReader
      simp only [he]
      exact .unsent f

/-- What resolving a path comes to, and the client after it. -/
inductive Resolved (c : Client) (path : String) : Except Failure UInt32 → Client → Prop where
  /-- The client is closed, and nothing was looked up. -/
  | closed (h : c.closed = true) : Resolved c path (.error .closed) c
  /-- The directory has the path. -/
  | known {id : UInt32} (log : List (String × Event)) (opened : c.closed = false)
    (h : c.directory.find? path = some id) : Resolved c path (.ok id) (c.told log)
  /-- The path was looked up, and the first object of that path in the reply counts. -/
  | found {objects : List ObjectInfo} {o : ObjectInfo} {d : Client} (opened : c.closed = false)
    (unknown : c.directory.find? path = none) (looked : c.LookedUp (.ok objects) d)
    (h : objects.find? (fun o => o.path = path) = some o) : Resolved c path (.ok o.id) d
  /-- The path was looked up, and the reply has no object of that path. -/
  | absent {objects : List ObjectInfo} {d : Client} (opened : c.closed = false)
    (unknown : c.directory.find? path = none) (looked : c.LookedUp (.ok objects) d)
    (h : objects.find? (fun o => o.path = path) = none) :
    Resolved c path (.error (.notFound path)) d
  /-- The look-up failed. -/
  | failed {f : Failure} {d : Client} (opened : c.closed = false)
    (unknown : c.directory.find? path = none) (looked : c.LookedUp (.error f) d) :
    Resolved c path (.error f) d

theorem resolved_lookupId (c : Client) (path : String) :
    c.Resolved path (c.lookupId path).1 (c.lookupId path).2 := by
  unfold lookupId
  by_cases hc : c.closed = true
  · rw [if_pos hc]
    exact .closed hc
  · have opened : c.closed = false := Bool.eq_false_iff.mpr hc
    rw [if_neg hc]
    cases hd : c.directory.find? path with
    | some id =>
      obtain ⟨log, hn⟩ := exists_noteAll_eq c [.known path id]
      simp only [Client.note, hn]
      exact .known log opened hd
    | none =>
      have looked := lookedUp_lookup c (some path)
      generalize c.lookup (some path) = result at looked
      obtain ⟨_ | objects, d⟩ := result
      · exact .failed opened hd looked
      · simp only
        cases ho : objects.find? (fun o => o.path = path) with
        | some o => exact .found opened hd looked ho
        | none => exact .absent opened hd looked ho

/-- What a call of a method of an object comes to, and the client after it. -/
inductive Invoked (c : Client) (id : UInt32) (method : String) (arguments : Entries) :
    Client → Prop where
  /-- The call was not sent. -/
  | unsent (h : ∀ body, invokeBody id method arguments = .ok body → ¬ c.Ready) :
    Invoked c id method arguments c
  /-- The call was sent, and its reply taken. -/
  | sent {body : Bytes} (log : List (String × Event)) (ready : c.Ready)
    (asked : invokeBody id method arguments = .ok body) :
    Invoked c id method arguments (c.exchanged .invoke body log)

theorem invoked_invoke (c : Client) (id : UInt32) (target method : String) (arguments : Entries) :
    c.Invoked id method arguments (c.invoke id target method arguments).2 := by
  unfold invoke
  cases hb : invokeBody id method arguments with
  | error f =>
    refine .unsent fun body h => ?_
    rw [hb] at h
    cases h
  | ok body =>
    by_cases hr : c.Ready
    · obtain ⟨log, he⟩ := exchange_of_ready .invoke body .invoke hr tableReader
      simp only [he]
      cases c.nextReply.outcome .invoke c.link.ending tableReader with
      | error f => exact .sent log hr hb
      | ok answer =>
        obtain ⟨code, parts⟩ := answer
        simp only
        have hnote (event : Event) : ∃ told, (c.exchanged .invoke body log).note event =
            c.exchanged .invoke body told := exists_noteAll_eq _ [event]
        cases Failure.ofStatus code target .invoke with
        | some f =>
          obtain ⟨told, hn⟩ := hnote (.callFailed target id code)
          simp only [hn]
          exact .sent told hr hb
        | none =>
          obtain ⟨told, hn⟩ := hnote (.callComplete target id
            (Response.ofParts (parts.filterMap fun part => part)).entries.length)
          simp only [hn]
          exact .sent told hr hb
    · obtain ⟨f, he⟩ := exchange_of_not_ready .invoke body .invoke hr tableReader
      simp only [he]
      exact .unsent fun _ _ => hr

/-- What a call comes to: the client after it. -/
inductive Called (c : Client) (service method : String) (arguments : Arguments) :
    Client → Prop where
  /-- The client is closed, or the arguments are refused. -/
  | refused (h : c.closed = true ∨ ∃ why, arguments.normalize = .error why) :
    Called c service method arguments c
  /-- The object was not found. -/
  | unresolved {f : Failure} {d : Client} (opened : c.closed = false)
    (resolved : c.Resolved service (.error f) d) : Called c service method arguments d
  /-- The object was found, and its method called. -/
  | invoked {id : UInt32} {entries : Entries} {d e : Client} (opened : c.closed = false)
    (resolved : c.Resolved service (.ok id) d) (normal : arguments.normalize = .ok entries)
    (invoked : d.Invoked id method entries e) : Called c service method arguments e

theorem called_call (c : Client) (service method : String) (arguments : Arguments) :
    c.Called service method arguments (c.call service method arguments).2 := by
  unfold call
  by_cases hc : c.closed = true
  · rw [if_pos hc]
    exact .refused (.inl hc)
  · have opened : c.closed = false := Bool.eq_false_iff.mpr hc
    rw [if_neg hc]
    cases hn : arguments.normalize with
    | error why => exact .refused (.inr ⟨why, hn⟩)
    | ok entries =>
      have resolved := resolved_lookupId c service
      simp only
      generalize c.lookupId service = result at resolved
      obtain ⟨_ | id, d⟩ := result
      · exact .unresolved opened resolved
      · exact .invoked opened resolved hn (invoked_invoke d id _ method entries)

end Client

end MicroBus

import MicroBus.Client.Connect
import MicroBus.Proofs.Client.Heard
import MicroBus.Proofs.Frame.Read

/-!
# One request and its reply

A request takes the frames up to the first status message off the stream, whatever they hold,
so the next reply begins where this one ended. What the request comes to is decided by the data
frames and the status message alone: the first malformed data frame counts before the status
message, and its code counts last.
-/

namespace MicroBus

/-! ## Collecting a reply -/

namespace Reply

/-- A stream that begins with a reply: readable frames, the last of which is the first status
message, and what follows them. -/
structure AtFront (stream : Bytes) (before : List Frame) (last : Frame) (rest : Bytes) : Prop where
  /-- The frames are read one after another. -/
  frames : Frame.Sequence stream (before ++ [last]) rest
  /-- None before the last is a status message. -/
  first : ∀ f ∈ before, f.envelope.kind ≠ .status
  /-- The last is one. -/
  status : last.envelope.kind = .status

/-- A reply that is read up to its status message is collected as it stands. -/
theorem collectOnto_eq {before : List Frame} {last : Frame} {stream rest : Bytes}
    (h : AtFront stream before last rest) (met : List Frame) :
    collectOnto met stream = (⟨met.reverse ++ before, .ok last⟩, rest) := by
  obtain ⟨frames, first, status⟩ := h
  induction before generalizing stream met with
  | nil =>
    rw [List.nil_append] at frames
    cases frames with
    | cons read_eq following =>
      cases following
      rw [collectOnto_of_ok read_eq, if_pos status, List.append_nil]
  | cons frame before ih =>
    rw [List.forall_mem_cons] at first
    cases frames with
    | cons read_eq following =>
      rw [collectOnto_of_ok read_eq, if_neg first.1, ih _ following first.2, List.reverse_cons,
        List.append_assoc, List.singleton_append]

end Reply

/-! ## What a reply comes to -/

/-- Every code except that of success stands for a failure. -/
theorem Failure.ofStatus_eq_none_iff {code : UInt32} {target : String} {step : Step} :
    ofStatus code target step = none ↔ code = 0 := by
  constructor
  · intro h
    rw [ofStatus] at h
    cases hs : Status.ofCode? code with
    | none => rw [hs] at h; cases h
    | some status =>
      rw [hs] at h
      obtain rfl := Status.code_of_ofCode? hs
      cases status with
      | ok => rfl
      | _ => cases h
  · rintro rfl
    rfl

/-- What a request comes to, computed from the data frames and the status message. -/
def verdict {α : Type} (reader : PartReader α) (target : String) (step : Step)
    (data : List Frame) (last : Frame) : Except Failure (List α) :=
  match data.mapM reader.part, statusCode last with
  | .error fault, _ => .error (.invalidResponse fault)
  | .ok _, .error fault => .error (.invalidResponse fault)
  | .ok parts, .ok code =>
    match Failure.ofStatus code target step with
    | some failure => .error failure
    | none => .ok parts

section Verdict

variable {α : Type} {reader : PartReader α} {target : String} {step : Step} {data : List Frame}
  {last : Frame}

/-- Data frames that are all read, in front of a status message of success, come to their parts. -/
theorem verdict_of_read {parts : List α}
    (read : List.Forall₂ (fun f a => reader.part f = .ok a) data parts)
    (success : statusCode last = .ok 0) : verdict reader target step data last = .ok parts := by
  rw [verdict, mapM_eq_ok_iff.mpr read, success]
  rfl

/-- The verdict is what the reply comes to, with its code taken for what it means. -/
theorem verdict_eq_bind (before : List Frame) (ending : Ending) :
    verdict reader target step (Reply.dataAmong before) last =
      ((Reply.mk before (.ok last)).outcome step ending reader >>= fun answer =>
        match Failure.ofStatus answer.1 target step with
        | some failure => .error failure
        | none => .ok answer.2) := by
  have hd : (Reply.mk before (.ok last)).dataFrames = Reply.dataAmong before := rfl
  rw [verdict, Reply.outcome]
  simp only [Reply.parts, hd]
  cases (Reply.dataAmong before).mapM reader.part with
  | error fault => rfl
  | ok parts => cases statusCode last <;> rfl

end Verdict

/-! ## Requests of a client -/

namespace Client

@[simp] theorem noteAll_link (c : Client) (events : List Event) :
    (c.noteAll events).link = c.link := by
  unfold noteAll
  split <;> rfl

@[simp] theorem noteAll_directory (c : Client) (events : List Event) :
    (c.noteAll events).directory = c.directory := by
  unfold noteAll
  split <;> rfl

@[simp] theorem noteAll_attached (c : Client) (events : List Event) :
    (c.noteAll events).attached = c.attached := by
  unfold noteAll
  split <;> rfl

@[simp] theorem noteAll_closed (c : Client) (events : List Event) :
    (c.noteAll events).closed = c.closed := by
  unfold noteAll
  split <;> rfl

@[simp] theorem noteAll_peer (c : Client) (events : List Event) :
    (c.noteAll events).peer = c.peer := by
  unfold noteAll
  split <;> rfl

/-- A client that has read its connection up to `rest`, and is ready for a request whenever it
was before. -/
structure ReadTo (c : Client) (rest : Bytes) (d : Client) : Prop where
  /-- What is left to be read. -/
  incoming_eq : d.link.incoming = rest
  /-- The other side has come to what it had come to. -/
  ending_eq : d.link.ending = c.link.ending
  /-- The connection is held if it was. -/
  attached_eq : d.attached = c.attached
  /-- The client is closed if it was. -/
  closed_eq : d.closed = c.closed
  /-- The peer is the same. -/
  peer_eq : d.peer = c.peer

/-- Telling the logger more changes nothing of this. -/
theorem ReadTo.noteAll {c d : Client} {rest : Bytes} (h : c.ReadTo rest d) (events : List Event) :
    c.ReadTo rest (d.noteAll events) := by
  constructor
  · rw [noteAll_link, h.incoming_eq]
  · rw [noteAll_link, h.ending_eq]
  · rw [noteAll_attached, h.attached_eq]
  · rw [noteAll_closed, h.closed_eq]
  · rw [noteAll_peer, h.peer_eq]

/-- A request can be sent while the connection is held and the other side is not gone. -/
theorem send_eq_ok_iff {c : Client} {kind : Kind} {body : Bytes} {step : Step} :
    (c.send kind body step).1 = .ok () ↔ c.attached = true ∧ c.link.ending ≠ .gone := by
  unfold send
  by_cases ha : c.attached = true
  · by_cases hg : c.link.ending = .gone
    · simp [ha, hg]
    · simp [ha, hg]
  · simp [ha]

theorem readTo_send (c : Client) (kind : Kind) (body : Bytes) (step : Step) :
    c.ReadTo c.link.incoming (c.send kind body step).2 ∧
      (c.send kind body step).2.directory = c.directory := by
  unfold send
  split
  · exact ⟨⟨rfl, rfl, rfl, rfl, rfl⟩, rfl⟩
  · split
    · exact ⟨⟨rfl, rfl, rfl, rfl, rfl⟩, rfl⟩
    · refine ⟨ReadTo.noteAll ?_ _, noteAll_directory _ _⟩
      exact ⟨rfl, rfl, rfl, rfl, rfl⟩

/-- A request that was sent hears its reply out, frame by frame, whatever the stream holds. -/
theorem exchange_eq_hear {α : Type} {c : Client} {kind : Kind} {body : Bytes} {step : Step}
    (sent : (c.send kind body step).1 = .ok ()) (reader : PartReader α) :
    (c.exchange kind body step reader).1 =
        (Reply.hear reader step c.link.ending .nothing c.link.incoming).1 ∧
      c.ReadTo (Reply.hear reader step c.link.ending .nothing c.link.incoming).2
        (c.exchange kind body step reader).2 ∧
      (c.exchange kind body step reader).2.directory = c.directory := by
  obtain ⟨kept, same⟩ := readTo_send c kind body step
  rw [exchange, Reply.hear_nothing]
  cases hs : c.send kind body step with
  | mk result d =>
    rw [hs] at sent kept same
    obtain rfl : result = .ok () := sent
    simp only at kept same
    obtain ⟨incoming, ending, attached, closed, peer⟩ := kept
    simp only [incoming]
    refine ⟨by rw [ending], ReadTo.noteAll ?_ _, by rw [noteAll_directory, same]⟩
    exact ⟨rfl, ending, attached, closed, peer⟩

section Exchange

variable {c : Client} {before : List Frame} {last : Frame} {rest : Bytes}

/-- A request that was sent reads its reply to the status message, whatever comes of it. -/
theorem exchange_eq {α : Type} (h : Reply.AtFront c.link.incoming before last rest)
    {kind : Kind} {body : Bytes} {step : Step} (sent : (c.send kind body step).1 = .ok ())
    (reader : PartReader α) :
    (c.exchange kind body step reader).1 =
        (Reply.mk before (.ok last)).outcome step c.link.ending reader ∧
      c.ReadTo rest (c.exchange kind body step reader).2 ∧
      (c.exchange kind body step reader).2.directory = c.directory := by
  have hh : Reply.hear reader step c.link.ending .nothing c.link.incoming =
      ((Reply.mk before (.ok last)).outcome step c.link.ending reader, rest) := by
    rw [Reply.hear_nothing, Reply.collect, Reply.collectOnto_eq h]
    rfl
  have he := exchange_eq_hear sent reader
  rwa [hh] at he

/-- A look-up that was sent comes to its verdict, and only success adds to the directory. -/
theorem lookup_eq (h : Reply.AtFront c.link.incoming before last rest)
    {pattern : Option String} {body : Bytes} (asked : lookupBody pattern = .ok body)
    (sent : (c.send .lookup body .lookup).1 = .ok ()) :
    (c.lookup pattern).1 = verdict objectReader (pattern.getD "*") .lookup
        (Reply.dataAmong before) last ∧
      c.ReadTo rest (c.lookup pattern).2 ∧
      (c.lookup pattern).2.directory =
        match (c.lookup pattern).1 with
        | .ok objects => c.directory.addAll objects
        | .error _ => c.directory := by
  obtain ⟨ho, kept, same⟩ := exchange_eq h sent objectReader
  rw [verdict_eq_bind before c.link.ending, ← ho]
  simp only [lookup, asked]
  generalize c.exchange .lookup body .lookup objectReader = answer at kept same
  obtain ⟨_ | ⟨code, objects⟩, d⟩ := answer
  · exact ⟨rfl, kept, same⟩
  · simp only at kept same
    simp only [bind, Except.bind]
    cases Failure.ofStatus code (pattern.getD "*") .lookup with
    | some failure =>
      refine ⟨rfl, kept.noteAll _, ?_⟩
      simp only [Client.note, noteAll_directory, same]
    | none =>
      obtain ⟨incoming, ending, attached, closed, peer⟩ :=
        kept.noteAll [.lookupComplete (pattern.getD "*") objects.length]
      refine ⟨rfl, ⟨incoming, ending, attached, closed, peer⟩, ?_⟩
      simp only [Client.note, noteAll_directory, same]

/-- A call that was sent comes to its verdict, and the parts of its reply are brought together. -/
theorem invoke_eq (h : Reply.AtFront c.link.incoming before last rest)
    {id : UInt32} {target method : String} {arguments : Entries} {body : Bytes}
    (asked : invokeBody id method arguments = .ok body)
    (sent : (c.send .invoke body .invoke).1 = .ok ()) :
    (c.invoke id target method arguments).1 =
        (fun parts => Response.ofParts (parts.filterMap fun part => part)) <$>
          verdict tableReader target .invoke (Reply.dataAmong before) last ∧
      c.ReadTo rest (c.invoke id target method arguments).2 ∧
      (c.invoke id target method arguments).2.directory = c.directory := by
  obtain ⟨ho, kept, same⟩ := exchange_eq h sent tableReader
  rw [verdict_eq_bind before c.link.ending, ← ho]
  simp only [invoke, asked]
  generalize c.exchange .invoke body .invoke tableReader = answer at kept same
  obtain ⟨_ | ⟨code, parts⟩, d⟩ := answer
  · exact ⟨rfl, kept, same⟩
  · simp only at kept same
    simp only [bind, Except.bind]
    cases Failure.ofStatus code target .invoke with
    | some failure =>
      refine ⟨rfl, kept.noteAll _, ?_⟩
      simp only [Client.note, noteAll_directory, same]
    | none =>
      refine ⟨rfl, kept.noteAll _, ?_⟩
      simp only [Client.note, noteAll_directory, same]

end Exchange

/-! ## Open clients -/

theorem list_eq_lookup {c : Client} (opened : c.closed = false) (pattern : Option String) :
    c.list pattern = c.lookup pattern := by
  rw [list, if_neg (by simp [opened])]

/-- A call on a path that is resolved is a call of a method of its object. -/
theorem call_eq_invoke {c d : Client} {service method : String} {arguments : Arguments}
    {entries : Entries} {id : UInt32} (opened : c.closed = false)
    (normal : arguments.normalize = .ok entries) (resolves : c.lookupId service = (.ok id, d)) :
    c.call service method arguments = d.invoke id (service ++ "." ++ method) method entries := by
  rw [call, if_neg (by simp [opened])]
  simp only [normal, resolves]

/-- A client whose connection has other octets to be read. -/
def hearing (c : Client) (stream : Bytes) : Client :=
  { c with link := { c.link with incoming := stream } }

theorem send_hearing {c : Client} {kind : Kind} {body : Bytes} {step : Step}
    (sent : (c.send kind body step).1 = .ok ()) (stream : Bytes) :
    ((c.hearing stream).send kind body step).1 = .ok () := by
  rw [send_eq_ok_iff] at sent ⊢
  exact sent

end Client

end MicroBus

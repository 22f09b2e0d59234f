import MicroBus.Client.Script
import MicroBus.Proofs.Client.Exchange

/-!
# Requests in turn

Replies stand on the stream one after another. Each request takes the reply at the front and
leaves the others, so what each of any number of requests comes to is the verdict on its own
reply.
-/

namespace MicroBus

/-- A request that takes one reply. -/
inductive Request where
  /-- A look-up. -/
  | lookup (pattern : Option String)
  /-- A call of a method of the object `id`. -/
  | invoke (id : UInt32) (target method : String) (arguments : Entries)

namespace Request

/-- The body of the message that makes the request. -/
def body : Request → Except Fault Bytes
  | lookup pattern => Client.lookupBody pattern
  | invoke id _ method arguments => Client.invokeBody id method arguments

/-- What the request comes to, by the data frames and the status message of its reply. -/
def verdict (data : List Frame) (last : Frame) : Request → Except Failure Answer
  | lookup pattern =>
    (MicroBus.verdict Client.objectReader (pattern.getD "*") .lookup data last).map .objects
  | invoke _ target _ _ =>
    (MicroBus.verdict Client.tableReader target .invoke data last).map fun parts =>
      .response (Response.ofParts (parts.filterMap fun part => part))

end Request

/-- Replies that stand on a stream one after another, each by the frames before its status
message and that message, and what follows them. -/
inductive Reply.Queue : Bytes → List (List Frame × Frame) → Bytes → Prop where
  /-- No replies. -/
  | done (rest : Bytes) : Queue rest [] rest
  /-- A reply and replies after it. -/
  | cons {stream middle rest : Bytes} {before : List Frame} {last : Frame}
    {replies : List (List Frame × Frame)} (front : AtFront stream before last middle)
    (following : Queue middle replies rest) : Queue stream ((before, last) :: replies) rest

theorem Reply.Queue.exists_atFront {stream rest : Bytes} {r : List Frame × Frame}
    {replies : List (List Frame × Frame)} (h : Queue stream (r :: replies) rest) :
    ∃ middle, AtFront stream r.1 r.2 middle ∧ Queue middle replies rest := by
  cases h with
  | cons front following => exact ⟨_, front, following⟩

namespace Client

/-- Makes a request. -/
def request (c : Client) : Request → Except Failure Answer × Client
  | .lookup pattern => let (r, c) := c.lookup pattern; (r.map .objects, c)
  | .invoke id target method arguments =>
    let (r, c) := c.invoke id target method arguments; (r.map .response, c)

/-- Makes requests one after another, whatever they come to. -/
def requests (c : Client) : List Request → List (Except Failure Answer) × Client
  | [] => ([], c)
  | q :: rest =>
    let (answer, c) := c.request q
    let (answers, c) := c.requests rest
    (answer :: answers, c)

/-- A client whose messages reach the daemon. -/
structure Ready (c : Client) : Prop where
  /-- It holds its connection. -/
  attached : c.attached = true
  /-- The other side receives. -/
  receives : c.link.ending ≠ .gone

theorem ReadTo.ready {c d : Client} {rest : Bytes} (h : c.ReadTo rest d) (ready : c.Ready) :
    d.Ready := by
  constructor
  · rw [h.attached_eq]
    exact ready.attached
  · rw [h.ending_eq]
    exact ready.receives

theorem ReadTo.trans {c d e : Client} {middle rest : Bytes} (h : c.ReadTo middle d)
    (k : d.ReadTo rest e) : c.ReadTo rest e where
  incoming_eq := k.incoming_eq
  ending_eq := k.ending_eq.trans h.ending_eq
  attached_eq := k.attached_eq.trans h.attached_eq
  closed_eq := k.closed_eq.trans h.closed_eq
  peer_eq := k.peer_eq.trans h.peer_eq

/-- A request comes to the verdict on the reply at the front, and takes it off the stream. -/
theorem request_eq {c : Client} {before : List Frame} {last : Frame} {rest : Bytes}
    (ready : c.Ready) (h : Reply.AtFront c.link.incoming before last rest) {q : Request}
    {body : Bytes} (asked : q.body = .ok body) :
    (c.request q).1 = q.verdict (Reply.dataAmong before) last ∧ c.ReadTo rest (c.request q).2 := by
  have sent (kind : Kind) (step : Step) : (c.send kind body step).1 = .ok () :=
    send_eq_ok_iff.mpr ⟨ready.attached, ready.receives⟩
  cases q with
  | lookup pattern =>
    obtain ⟨hv, kept, -⟩ := lookup_eq h asked (sent _ _)
    exact ⟨congrArg (Except.map Answer.objects) hv, kept⟩
  | invoke id target method arguments =>
    have hi := @invoke_eq c before last rest h id target method arguments body asked (sent _ _)
    obtain ⟨hv, kept, -⟩ := hi
    refine ⟨?_, kept⟩
    rw [request, Request.verdict]
    simp only [hv]
    cases verdict tableReader target .invoke (Reply.dataAmong before) last <;> rfl

/-- Requests in turn come to the verdicts on their own replies, and take these off the stream,
even where earlier requests were refused or had malformed replies. -/
theorem requests_eq {c : Client} {qs : List Request} {replies : List (List Frame × Frame)}
    {rest : Bytes} (ready : c.Ready) (h : Reply.Queue c.link.incoming replies rest)
    (paired : qs.length = replies.length) (asked : ∀ q ∈ qs, ∃ body, q.body = .ok body) :
    (c.requests qs).1 =
        List.zipWith (fun q r => q.verdict (Reply.dataAmong r.1) r.2) qs replies ∧
      c.ReadTo rest (c.requests qs).2 := by
  induction qs generalizing c replies with
  | nil =>
    cases h with
    | done rest => exact ⟨rfl, rfl, rfl, rfl, rfl, rfl⟩
    | cons front following => cases paired
  | cons q qs ih =>
    cases h with
    | done rest => cases paired
    | cons front following =>
      rw [List.forall_mem_cons] at asked
      obtain ⟨⟨body, hbody⟩, hasked⟩ := asked
      obtain ⟨hv, kept⟩ := request_eq ready front hbody
      rw [← kept.incoming_eq] at following
      obtain ⟨hvs, keptRest⟩ := ih (kept.ready ready) following (Nat.succ.inj paired) hasked
      rw [requests, List.zipWith_cons_cons, ← hv, ← hvs]
      exact ⟨rfl, kept.trans keptRest⟩

end Client

end MicroBus

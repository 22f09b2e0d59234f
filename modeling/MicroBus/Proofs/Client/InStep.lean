import MicroBus.Proofs.Client.Settled
import MicroBus.Proofs.Frame.Lossless

/-!
# Requests in step

A look-up or a call takes its reply off the stream up to the status message, whatever the reply
holds, so the next request begins with its own reply. What each comes to is settled by the data
messages of its own reply and its status message.
-/

namespace MicroBus

/-- Replies that are written one after another stand on the stream in turn. -/
theorem Reply.queue_written {replies : List (List Frame × Frame)}
    (declared : ∀ r ∈ replies, ∀ f ∈ r.1 ++ [r.2], f.Declared)
    (ends : ∀ r ∈ replies, (∀ f ∈ r.1, f.envelope.kind ≠ .status) ∧ r.2.envelope.kind = .status)
    (rest : Bytes) :
    Queue (Frame.written (replies.flatMap fun r => r.1 ++ [r.2]) ++ rest) replies rest := by
  induction replies with
  | nil => exact .done rest
  | cons r replies ih =>
    rw [List.forall_mem_cons] at declared ends
    have split : Frame.written ((r :: replies).flatMap fun r => r.1 ++ [r.2]) ++ rest =
        Frame.written (r.1 ++ [r.2]) ++
          (Frame.written (replies.flatMap fun r => r.1 ++ [r.2]) ++ rest) := by
      simp [Frame.written]
    rw [split]
    exact .cons ⟨Frame.sequence_written declared.1 _, ends.1.1, ends.1.2⟩
      (ih declared.2 ends.2)

namespace Request

/-- What a request comes to, by the data frames and the status message of its reply. -/
inductive ComesTo (data : List Frame) (last : Frame) : Request → Except Failure Answer → Prop where
  /-- A look-up comes to the objects that are reported. -/
  | lookup {pattern : Option String} {r : Except Failure (List ObjectInfo)}
    (settled : Settled ObjectInfo.ReportOf (pattern.getD "*") .lookup data last r) :
    ComesTo data last (.lookup pattern) (r.map .objects)
  /-- A call comes to the parts of its reply, brought together. -/
  | invoke {id : UInt32} {target method : String} {arguments : Entries}
    {answer : Except Failure (List (Option Entries))} {r : Except Failure Response}
    (settled : Settled Response.PartOf target .invoke data last answer)
    (gathers : Response.Gathers answer r) :
    ComesTo data last (.invoke id target method arguments) (r.map .response)

/-- Requests one after another, the replies to them, and what they come to. -/
inductive InTurn : List Request → List (List Frame × Frame) → List (Except Failure Answer) → Prop
    where
  /-- No requests. -/
  | done : InTurn [] [] []
  /-- A request and requests after it. -/
  | cons {q : Request} {qs : List Request} {before : List Frame} {last : Frame}
    {replies : List (List Frame × Frame)} {answer : Except Failure Answer}
    {answers : List (Except Failure Answer)}
    (first : q.ComesTo (Reply.dataAmong before) last answer) (later : InTurn qs replies answers) :
    InTurn (q :: qs) ((before, last) :: replies) (answer :: answers)

variable {q : Request} {qs : List Request} {data : List Frame} {last : Frame}
  {replies : List (List Frame × Frame)} {answers : List (Except Failure Answer)}

theorem comesTo_iff {r : Except Failure Answer} :
    q.ComesTo data last r ↔ q.verdict data last = r := by
  constructor
  · intro h
    cases h with
    | lookup settled => rw [verdict, settled.verdict_eq Client.objectReader_reads]
    | @invoke _ target _ _ answer r settled gathers =>
      rw [verdict, settled.verdict_eq Client.tableReader_reads, ← Response.gathers_iff.mp gathers]
      cases answer <;> rfl
  · rintro rfl
    cases q with
    | lookup pattern => exact .lookup (settled_verdict Client.objectReader_reads)
    | invoke id target method arguments =>
      have settled : Settled Response.PartOf target .invoke data last _ :=
        settled_verdict Client.tableReader_reads
      have comes := @ComesTo.invoke data last id target method arguments _ _ settled
        (Response.gathers_iff.mpr rfl)
      rw [verdict]
      cases hv : MicroBus.verdict Client.tableReader target .invoke data last <;>
        rwa [hv] at comes

theorem inTurn_iff (paired : qs.length = replies.length) : InTurn qs replies answers ↔
    List.zipWith (fun q r => q.verdict (Reply.dataAmong r.1) r.2) qs replies = answers := by
  induction qs generalizing replies answers with
  | nil =>
    obtain rfl := List.length_eq_zero_iff.mp paired.symm
    constructor
    · rintro ⟨⟩
      rfl
    · rintro rfl
      exact .done
  | cons q qs ih =>
    obtain ⟨⟨before, last⟩, replies, rfl⟩ := List.exists_cons_of_length_eq_add_one paired.symm
    have ih {answers} := @ih replies answers (Nat.succ.inj paired)
    rw [List.zipWith_cons_cons]
    constructor
    · rintro (_ | ⟨first, later⟩)
      rw [comesTo_iff.mp first, ih.mp later]
    · rintro rfl
      exact .cons (comesTo_iff.mpr rfl) (ih.mpr rfl)

end Request

namespace Client

/-- A look-up or a call that was sent takes the octets of its reply off the stream, up to the
first status message and no further, whatever it comes to, so that the requests after it come to
what their own replies settle. What it comes to is settled by what the data frames and the status
message hold, and other frames among them make no difference. A status message without attributes
has the code of success. -/
theorem reply_in_step {c : Client} {before : List Frame} {last : Frame} {rest : Bytes}
    (h : Reply.AtFront c.link.incoming before last rest) :
    c.link.incoming = ((before ++ [last]).map Frame.octets).flatten ++ rest ∧
    (Fields.parse last.body = .ok ⟨[]⟩ → ∀ r, CodeOf last r ↔ r = .ok 0) ∧
    (∀ pattern body, lookupBody pattern = .ok body → (c.send .lookup body .lookup).1 = .ok () →
      c.ReadTo rest (c.lookup pattern).2 ∧
      (∀ r, (c.lookup pattern).1 = r ↔ Settled ObjectInfo.ReportOf (pattern.getD "*") .lookup
        (Reply.dataAmong before) last r) ∧
      ((c.lookup pattern).2.directory = match (c.lookup pattern).1 with
        | .ok objects => c.directory.addAll objects
        | .error _ => c.directory) ∧
      ∀ stream others left, Reply.AtFront stream others last left →
        Reply.dataAmong others = Reply.dataAmong before →
        ((c.hearing stream).lookup pattern).1 = (c.lookup pattern).1) ∧
    (∀ id target method arguments body, invokeBody id method arguments = .ok body →
      (c.send .invoke body .invoke).1 = .ok () →
      c.ReadTo rest (c.invoke id target method arguments).2 ∧
      (∀ r, (c.invoke id target method arguments).1 = r ↔ ∃ answer,
        Settled Response.PartOf target .invoke (Reply.dataAmong before) last answer ∧
        Response.Gathers answer r) ∧
      (c.invoke id target method arguments).2.directory = c.directory ∧
      ∀ stream others left, Reply.AtFront stream others last left →
        Reply.dataAmong others = Reply.dataAmong before →
        ((c.hearing stream).invoke id target method arguments).1 =
          (c.invoke id target method arguments).1) ∧
    ∀ q qs replies left, c.Ready → Reply.Queue rest replies left → qs.length = replies.length →
      (∀ p ∈ q :: qs, ∃ body, p.body = .ok body) →
      c.ReadTo left (c.requests (q :: qs)).2 ∧
      ∀ answers, (c.requests (q :: qs)).1 = answers ↔
        Request.InTurn (q :: qs) ((before, last) :: replies) answers := by
  refine ⟨h.frames.eq_octets, fun empty r => ?_, ?_, ?_, ?_⟩
  · rw [← statusCode_eq_iff, statusCode, empty, eq_comm]
    rfl
  · intro pattern body asked sent
    obtain ⟨hv, kept, same⟩ := lookup_eq h asked sent
    refine ⟨kept, fun r => ?_, same, ?_⟩
    · rw [hv, settled_iff objectReader_reads]
    · intro stream others left ho hd
      have hh : Reply.AtFront (c.hearing stream).link.incoming others last left := ho
      rw [(lookup_eq hh asked (send_hearing sent stream)).1, hd, hv]
  · intro id target method arguments body asked sent
    have hi := @invoke_eq c before last rest h id target method arguments body asked sent
    obtain ⟨hv, kept, same⟩ := hi
    refine ⟨kept, fun r => ?_, same, ?_⟩
    · rw [hv]
      simp only [settled_iff tableReader_reads, exists_eq_left', Response.gathers_iff]
    · intro stream others left ho hd
      have hh : Reply.AtFront (c.hearing stream).link.incoming others last left := ho
      rw [(invoke_eq hh asked (send_hearing sent stream)).1, hd, hv]
  · intro q qs replies left ready following paired asked
    have hpaired : (q :: qs).length = ((before, last) :: replies).length := congrArg _ paired
    obtain ⟨hv, kept⟩ := requests_eq ready (.cons h following) hpaired asked
    refine ⟨kept, fun answers => ?_⟩
    rw [hv, Request.inTurn_iff hpaired]

/-- Five replies to two look-ups and three calls. Malformed data counts even in front of a refusal,
fine data in front of one does not, and two tables, one in its field and one bare, come together.
What follows the last status message is left, and a sign of life makes no difference. -/
theorem reply_in_step_mixed :
    let data (body : Bytes) : Frame := ⟨.current .data 1 7, body⟩
    let status (body : Bytes) : Frame := ⟨.current .status 1 7, body⟩
    let ping : Frame := ⟨.current .ping 1 7, [0, 0, 0, 4]⟩
    let pathless := data [0, 0, 0, 4]
    let object := data [0, 0, 0, 20, 2, 0, 0, 6, 97, 0, 0, 0, 3, 0, 0, 8, 0, 0, 0, 1]
    let wrapped := data [0, 0, 0, 20, 7, 0, 0, 16, 133, 0, 0, 12, 0, 1, 97, 0, 0, 0, 0, 1]
    let bare := data [0, 0, 0, 16, 133, 0, 0, 12, 0, 1, 98, 0, 0, 0, 0, 5]
    let short := data [0, 0, 0, 20, 7, 0, 0, 16, 133, 0, 0, 10, 0, 1, 97, 0, 1, 2, 0, 0]
    let forbidden := status [0, 0, 0, 12, 1, 0, 0, 8, 0, 0, 0, 6]
    let replies := [([ping, pathless], forbidden), ([object], status [0, 0, 0, 4]),
      ([wrapped, short], forbidden), ([wrapped], forbidden),
      ([wrapped, ping, bare], status [0, 0, 0, 12, 1, 0, 0, 8, 0, 0, 0, 0])]
    let stream := Frame.written (replies.flatMap fun r => r.1 ++ [r.2]) ++ [9]
    let c := (ungreeted .default .fresh).hearing stream
    let call : Request := .invoke 1 "a.m" "m" []
    let asked := c.requests [.lookup none, .lookup (some "a"), call, call, call]
    ∃ r : Response, r.entries = [("a", .int 1), ("b", .int 5)] ∧
      asked.1 = [.error (.invalidResponse (.missingField .objectPath)),
        .ok (.objects [⟨"a", 1, none, none⟩]), .error (.invalidResponse (.badPayload .int32 2)),
        .error (.permissionDenied "a.m"), .ok (.response r)] ∧
      asked.2.link.incoming = [9] ∧
      ((c.hearing (Frame.written [pathless, forbidden] ++ [9])).lookup none).1 =
        (c.lookup none).1 := by
  intro data status ping pathless object wrapped bare short forbidden replies stream c call asked
  have queue : Reply.Queue c.link.incoming (([ping, pathless], forbidden) :: replies.tail) [9] :=
    Reply.queue_written (by decide) (by decide) [9]
  obtain ⟨rest, front, following⟩ := queue.exists_atFront
  obtain ⟨-, -, lookups, -, series⟩ := reply_in_step front
  have written : ∀ q ∈ [Request.lookup none, .lookup (some "a"), call, call, call],
      ∃ body, q.body = .ok body := by
    have hlookup : (Request.lookup (some "a")).body =
        .ok [0, 0, 0, 12, 2, 0, 0, 6, 97, 0, 0, 0] := by cbv
    have hcall : call.body = .ok [0, 0, 0, 24, 3, 0, 0, 8, 0, 0, 0, 1, 4, 0, 0, 6, 109, 0, 0, 0,
        7, 0, 0, 4] := by cbv
    have calls : ∀ q ∈ [call, call, call], ∃ body, q.body = .ok body := by
      intro q hq
      have hq : q = call := by simpa using hq
      exact ⟨_, hq ▸ hcall⟩
    exact List.forall_mem_cons.mpr ⟨⟨_, rfl⟩, List.forall_mem_cons.mpr ⟨⟨_, hlookup⟩, calls⟩⟩
  obtain ⟨kept, comes⟩ := series (.lookup none) _ _ [9] ⟨rfl, by decide⟩ following rfl written
  have holds : Response.PartOf wrapped (.ok (some [("a", .int 1)])) :=
    Response.part_eq_iff.mp (by cbv)
  have holdsBare : Response.PartOf bare (.ok (some [("b", .int 5)])) :=
    Response.part_eq_iff.mp (by cbv)
  have malformed : Response.PartOf short (.error (.badPayload .int32 2)) :=
    Response.part_eq_iff.mp (by cbv)
  have lacking : ObjectInfo.ReportOf pathless (.error (.missingField .objectPath)) :=
    ObjectInfo.ofFrame_eq_iff.mp (by cbv)
  have reported : ObjectInfo.ReportOf object (.ok ⟨"a", 1, none, none⟩) :=
    ObjectInfo.ofFrame_eq_iff.mp (by cbv)
  have refuses : CodeOf forbidden (.ok 6) := statusCode_eq_iff.mp (by cbv)
  let r : Response := ⟨[("a", .int 1), ("b", .int 5)], by decide⟩
  have merges : r.Merges [some [("a", .int 1)], some [("b", .int 5)]] :=
    Response.merges_iff.mpr (Response.ext (by cbv))
  have answers : Request.InTurn [.lookup none, .lookup (some "a"), call, call, call] replies
      [.error (.invalidResponse (.missingField .objectPath)),
        .ok (.objects [⟨"a", 1, none, none⟩]), .error (.invalidResponse (.badPayload .int32 2)),
        .error (.permissionDenied "a.m"), .ok (.response r)] := by
    refine .cons ?_ (.cons ?_ (.cons ?_ (.cons ?_ (.cons ?_ .done))))
    · have settled : Settled ObjectInfo.ReportOf ((none : Option String).getD "*") .lookup
          [pathless] forbidden _ := .malformed (List.nil_append _).symm (by simp) lacking
      exact .lookup settled
    · exact .lookup (.answered (.cons reported .nil) (statusCode_eq_iff.mp (by cbv)))
    · have fine : ∀ f ∈ [wrapped], ∃ a, Response.PartOf f (.ok a) := by simpa using ⟨_, holds⟩
      exact .invoke (.malformed (rfl : [wrapped, short] = [wrapped] ++ short :: []) fine malformed)
        (.failure _)
    · exact .invoke (.refused (.cons holds .nil) refuses .permissionDenied) (.failure _)
    · exact .invoke (.answered (.cons holds (.cons holdsBare .nil))
        (statusCode_eq_iff.mp (by cbv))) (.merged merges)
  refine ⟨r, rfl, (comes _).mpr answers, kept.incoming_eq, ?_⟩
  have quiet : Reply.AtFront (Frame.written [pathless, forbidden] ++ [9]) [pathless] forbidden
      [9] := ⟨Frame.sequence_written (by decide) [9], by decide, rfl⟩
  obtain ⟨-, -, -, same⟩ := lookups none [0, 0, 0, 4] rfl rfl
  exact same _ _ _ quiet rfl

end Client

end MicroBus

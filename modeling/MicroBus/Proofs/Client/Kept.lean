import MicroBus.Proofs.Body.Puts
import MicroBus.Proofs.Client.Directory
import MicroBus.Proofs.Client.Moves

/-!
# What a resolved path is resolved to later

A look-up answers with the first report of the path in its reply, and the directory keeps the last
one. So a path that was resolved once has one identifier from then on, but that is the identifier
of the answer only if the reply did not report the path again with another one. Until the next
look-up every call on the path names the object that is kept.
-/

namespace MicroBus.Client

/-! ## Holding the connection -/

/-- A client that holds its connection exactly while it is not closed. -/
def Held (c : Client) : Prop := c.attached = !c.closed

/-- No move gives up the connection but closing. -/
theorem Moves.held {c d : Client} (h : c.Moves d) (held : c.Held) : d.Held := by
  induction h with
  | stay => exact held
  | exchange h kind body log ih => exact ih
  | learn h directory ih => exact ih
  | tell h log ih => exact ih
  | close h ih => rfl
  | setLogger h name ih => exact ih

theorem Reachable.held {c : Client} (h : Reachable c) : c.Held := by
  induction h with
  | @connected s endpoint link c greeted =>
    have connected := connected_connect s endpoint link
    rw [greeted] at connected
    cases connected
    rfl
  | @acted c d a r h run ih =>
    have moves := moves_act c a
    rw [run] at moves
    exact moves.held ih
  | fed b ending h ih => exact ih

/-! ## Identifiers that are kept -/

/-- The identifier that is kept for a path that a client resolved to `id`. -/
inductive Kept (c : Client) (path : String) (id : UInt32) : UInt32 → Prop where
  /-- The path was known, and its identifier is kept. -/
  | known (h : c.directory.find? path = some id) : Kept c path id id
  /-- The path was looked up. The first report of it was the answer, and the last is kept. -/
  | reported {objects : List ObjectInfo} {o : ObjectInfo} {kept : UInt32}
    (unknown : c.directory.find? path = none) (lists : c.nextReply.Lists objects)
    (first : objects.find? (fun o => o.path = path) = some o) (answer : o.id = id)
    (newest : Newest objects path kept) : Kept c path id kept

/-- The identifier of the answer is kept if the reply has no other for the path. -/
theorem Kept.eq_of_forall {c : Client} {path : String} {id kept : UInt32} (h : c.Kept path id kept)
    (one : ∀ objects, c.nextReply.Lists objects → ∀ o ∈ objects, o.path = path → o.id = id) :
    kept = id := by
  cases h with
  | known h => rfl
  | reported unknown lists first answer newest =>
    obtain ⟨before, o, after, rfl, hpath, rfl, -⟩ := newest
    exact one _ lists o (by simp) hpath

theorem Resolved.exists_kept {c d : Client} {path : String} {id : UInt32}
    (h : c.Resolved path (.ok id) d) :
    ∃ kept, c.Kept path id kept ∧ d.directory.find? path = some kept := by
  cases h with
  | known log opened h => exact ⟨id, .known h, h⟩
  | @found objects o d opened unknown looked first =>
    cases looked with
    | listed body log lists =>
      obtain ⟨kept, newest⟩ := exists_newest_iff.mpr
        ⟨o, List.mem_of_find?_eq_some first, by simpa using List.find?_some first⟩
      refine ⟨kept, .reported unknown lists first rfl newest, ?_⟩
      have hd := Directory.find?_addAll c.directory objects path
      rw [newest_iff.mp newest, Option.some_or] at hd
      exact hd

/-- A path that an open client knows is resolved to what it knows. -/
theorem Resolved.eq_of_known {c d : Client} {path : String} {r : Except Failure UInt32}
    {kept : UInt32} (h : c.Resolved path r d) (opened : c.closed = false)
    (known : c.directory.find? path = some kept) : r = .ok kept ∧ ∃ log, d = c.told log := by
  -- Three of the ways to resolve a path begin with not finding it.
  have never (unknown : c.directory.find? path = none) : False := by
    rw [known] at unknown
    cases unknown
  cases h with
  | closed h =>
    rw [opened] at h
    cases h
  | known log _ h =>
    rw [known] at h
    exact ⟨congrArg Except.ok (Option.some.inj h).symm, log, rfl⟩
  | found _ unknown => exact (never unknown).elim
  | absent _ unknown => exact (never unknown).elim
  | failed _ unknown => exact (never unknown).elim

/-- A run without look-ups leaves the directory as it is. -/
theorem Run.directory_eq_of_nil {c d : Client} (h : c.Run [] d) : d.directory = c.directory := by
  obtain ⟨objects, reported, hd⟩ := h.directory_eq
  obtain rfl : objects = [] := List.eq_nil_iff_forall_not_mem.mpr fun o ho => by
    obtain ⟨reply, hr, -⟩ := (reported.mem_iff o).mp ho
    exact List.not_mem_nil hr
  exact hd

/-! ## Calls on a path that is known -/

/-- What a call of a method of the object `id` sends: a message that names the object, or nothing
at all. -/
inductive Sends (c : Client) (id : UInt32) (method : String) (arguments : Arguments) :
    List Bytes → Prop where
  /-- One message. -/
  | invoke {entries : Entries} {body : Bytes} {fields : Fields} (opened : c.closed = false)
    (receives : c.link.ending ≠ .gone) (normal : arguments.normalize = .ok entries)
    (asked : invokeBody id method entries = .ok body) (read : Fields.parse body = .ok fields)
    (names : fields.word? .objectId = .ok (some id)) :
    Sends c id method arguments [c.nextMessage .invoke body]
  /-- No message: the client is closed, the arguments are refused, there is no body, or nobody
  receives. -/
  | nothing (h : c.closed = true ∨ (∃ why, arguments.normalize = .error why) ∨
      (∃ entries f, arguments.normalize = .ok entries ∧ invokeBody id method entries = .error f) ∨
      c.link.ending = .gone) : Sends c id method arguments []

theorem sends_call {c : Client} {path : String} {kept : UInt32} (held : c.Held)
    (known : c.directory.find? path = some kept) (method : String) (arguments : Arguments) :
    ∃ new, (c.call path method arguments).2.link.sent = new ++ c.link.sent ∧
      c.Sends kept method arguments new := by
  have called := called_call c path method arguments
  generalize (c.call path method arguments).2 = d at called
  cases called with
  | refused h =>
    refine ⟨[], rfl, .nothing ?_⟩
    exact h.imp_right .inl
  | unresolved opened resolved =>
    obtain ⟨h, -⟩ := resolved.eq_of_known opened known
    cases h
  | @invoked id entries d e opened resolved normal invoked =>
    obtain ⟨h, log, rfl⟩ := resolved.eq_of_known opened known
    obtain rfl := Except.ok.inj h
    cases invoked with
    | unsent h =>
      cases hb : invokeBody id method entries with
      | error f => exact ⟨[], rfl, .nothing (.inr (.inr (.inl ⟨entries, f, normal, hb⟩)))⟩
      | ok body =>
        -- There is something to send over a connection that is held, so nobody receives.
        have attached : c.attached = true := by rw [held, opened]; rfl
        refine ⟨[], rfl, .nothing (.inr (.inr (.inr ?_)))⟩
        by_contra receives
        exact h body hb ⟨attached, receives⟩
    | @sent body log ready asked =>
      obtain ⟨fields, read, names⟩ := word_invokeBody asked
      exact ⟨[_], rfl, .invoke opened ready.receives normal asked read names⟩

/-- Once a path was resolved, one identifier is kept for it. It is that of the answer if the path
was known or the reply had no other for it, and in general the last of the reply, of which the
answer was the first. Until the next look-up the path is resolved to what is kept, by telling the
logger and nothing else, and a call on the path sends a message that names the object of this
identifier, if it sends anything. -/
theorem resolved_id_kept {c : Client} {path : String} {id : UInt32} (reach : Reachable c)
    (h : (c.lookupId path).1 = .ok id) :
    ∃ kept, c.Kept path id kept ∧
      ((∀ objects, c.nextReply.Lists objects → ∀ o ∈ objects, o.path = path → o.id = id) →
        kept = id) ∧
      ∀ d, (c.lookupId path).2.Run [] d →
        (d.closed = false → ∃ log, d.lookupId path = (.ok kept, d.told log)) ∧
        (d.closed = true → d.lookupId path = (.error .closed, d)) ∧
        ∀ method arguments, ∃ new,
          (d.call path method arguments).2.link.sent = new ++ d.link.sent ∧
            d.Sends kept method arguments new := by
  have resolved := resolved_lookupId c path
  rw [h] at resolved
  obtain ⟨kept, hk, hd⟩ := resolved.exists_kept
  refine ⟨kept, hk, hk.eq_of_forall, fun d run => ?_⟩
  have known : d.directory.find? path = some kept := by rw [run.directory_eq_of_nil, hd]
  have held : d.Held := run.reachable (.acted (a := .lookupId path) reach rfl) |>.held
  refine ⟨fun opened => exists_lookupId_eq opened known, ?_, sends_call held known⟩
  intro closed
  rw [lookupId, if_pos closed]

/-- A reply reports a path with the identifier 1 and then with 2. The path is resolved to 1, and
from then on to 2, which calls name too. -/
theorem resolved_id_kept_other :
    let reply : Bytes := [0, 2, 0, 1, 0, 0, 0, 7,
      0, 0, 0, 20, 2, 0, 0, 6, 97, 0, 0, 0, 3, 0, 0, 8, 0, 0, 0, 1, 0, 2, 0, 1, 0, 0, 0, 7,
      0, 0, 0, 20, 2, 0, 0, 6, 97, 0, 0, 0, 3, 0, 0, 8, 0, 0, 0, 2, 0, 1, 0, 1, 0, 0, 0, 7,
      0, 0, 0, 12, 1, 0, 0, 8, 0, 0, 0, 0]
    let c : Client := ⟨7, 0, .empty, false, true, ⟨reply, .none, []⟩, none, []⟩
    (c.lookupId "a").1 = .ok 1 ∧ ((c.lookupId "a").2.lookupId "a").1 = .ok 2 ∧
      ∃ new, ((c.lookupId "a").2.call "a" "m" .none).2.link.sent =
          new ++ (c.lookupId "a").2.link.sent ∧
        (c.lookupId "a").2.Sends 2 "m" .none new := by
  intro reply c
  have greeted : connect .default .listening ⟨[0, 0, 0, 0, 0, 0, 0, 7, 0, 0, 0, 0] ++ reply,
      .none, []⟩ = (.ok (), c) := by cbv
  have first : (c.lookupId "a").1 = .ok 1 := by cbv
  have second : ((c.lookupId "a").2.lookupId "a").1 = .ok 2 := by cbv
  have opened : (c.lookupId "a").2.closed = false := by cbv
  obtain ⟨kept, -, -, later⟩ := resolved_id_kept (.connected greeted) first
  obtain ⟨again, -, calls⟩ := later _ .start
  obtain ⟨log, he⟩ := again opened
  rw [he] at second
  obtain rfl := Except.ok.inj second
  exact ⟨first, by rw [he], calls "m" .none⟩

end MicroBus.Client

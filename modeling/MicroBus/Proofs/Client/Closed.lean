import MicroBus.Proofs.Client.Kept

/-!
# A closed client stays closed

A client is closed exactly while it holds no connection. From then on every request fails before
anything else is looked at, so nothing is sent, nothing is read, and nothing that the client knows
changes, whatever it is asked for and whatever the daemon still sends.
-/

namespace MicroBus.Client

variable {c d : Client}

/-- A client as it was when it was closed, but for its logger, what the daemon has sent since, and
what the daemon's side has come to. -/
inductive Frozen (c : Client) : Client → Prop where
  /-- The same client, closed and without its connection. -/
  | mk (more : Bytes) (ending : Ending) (logger : Option String) : Frozen c
    { c with
      closed := true, attached := false, logger := logger
      link := ⟨c.link.incoming ++ more, ending, c.link.sent⟩ }

theorem frozen_close (c : Client) : c.Frozen c.close := by
  have h := Frozen.mk (c := c) [] c.link.ending c.logger
  rwa [List.append_nil] at h

/-- What the daemon sends is left unread. -/
theorem Frozen.fed (h : c.Frozen d) (b : Bytes) (ending : Ending) :
    c.Frozen { d with link := (d.link.feed b).finish ending } := by
  obtain ⟨more, before, logger⟩ := h
  obtain ⟨fed, hfed⟩ : ∃ fed, (Link.feed ⟨c.link.incoming ++ more, before, c.link.sent⟩ b) =
      ⟨c.link.incoming ++ fed, before, c.link.sent⟩ := by
    unfold Link.feed
    split
    · exact ⟨more ++ b, by rw [List.append_assoc]⟩
    · exact ⟨more, rfl⟩
  simp only [hfed]
  cases ending <;> cases before <;> exact .mk fed _ logger

/-- What a closed client answers: every request fails for being on a closed client, whatever its
path, its pattern or its arguments, and closing once more succeeds. The client is the same after
each of them. -/
structure Refuses (d : Client) : Prop where
  /-- No path is resolved, known or not. -/
  lookupId (path : String) : d.lookupId path = (.error .closed, d)
  /-- No objects are listed. -/
  list (pattern : Option String) : d.list pattern = (.error .closed, d)
  /-- No method is called, and the arguments are not looked at. -/
  call (service method : String) (arguments : Arguments) :
    d.call service method arguments = (.error .closed, d)
  /-- Closing changes nothing. -/
  close : d.act .close = (.ok .done, d)

theorem Frozen.refuses (h : c.Frozen d) : d.Refuses := by
  obtain ⟨more, ending, logger⟩ := h
  exact ⟨fun _ => rfl, fun _ => rfl, fun _ _ _ => rfl, rfl⟩

/-- Nothing that a closed client is asked for changes it, but a new logger is taken. -/
theorem Frozen.act (h : c.Frozen d) (a : Action) : c.Frozen (d.act a).2 := by
  have refuses := h.refuses
  cases a with
  | lookupId path =>
    rw [Client.act, refuses.lookupId]
    exact h
  | list pattern =>
    rw [Client.act, refuses.list]
    exact h
  | call service method arguments =>
    rw [Client.act, refuses.call]
    exact h
  | close =>
    rw [refuses.close]
    exact h
  | setLogger name =>
    obtain ⟨more, ending, logger⟩ := h
    exact .mk more ending (some name)

/-- Throughout a run a closed client stays as it is. -/
theorem Frozen.run {e : Client} {replies : List Reply} (h : c.Frozen d) (run : d.Run replies e) :
    c.Frozen e := by
  induction run with
  | start => exact h
  | acted run a ih => exact ih.act a
  | fed run b ending ih => exact ih.fed b ending

/-- A client of a session holds its connection exactly while it is not closed. Once it is closed,
whatever it is asked for then and however often, and whatever the daemon sends: every request fails
for being on a closed client, closing succeeds, nothing is sent or read, and the directory, the
peer and the sequence number stay as they were. -/
theorem closed_is_absorbing (reach : Reachable c) :
    (c.attached = false ↔ c.closed = true) ∧
      ∀ replies d, c.close.Run replies d → c.Frozen d ∧ d.Refuses := by
  constructor
  · have held : c.attached = !c.closed := reach.held
    rw [held, Bool.not_eq_false']
  · intro replies d run
    have frozen := (frozen_close c).run run
    exact ⟨frozen, frozen.refuses⟩

/-- A client that knows a path is closed, and then the daemon still sends something. -/
theorem closed_is_absorbing_known :
    let reply : Bytes := [0, 2, 0, 1, 0, 0, 0, 7,
      0, 0, 0, 20, 2, 0, 0, 6, 97, 0, 0, 0, 3, 0, 0, 8, 0, 0, 0, 1, 0, 1, 0, 1, 0, 0, 0, 7,
      0, 0, 0, 12, 1, 0, 0, 8, 0, 0, 0, 0]
    let start : Client := ⟨7, 0, .empty, false, true, ⟨reply, .none, []⟩, none, []⟩
    let c : Client := ⟨7, 1, ⟨[("a", 1)]⟩, false, true, ⟨[], .none,
      [[0, 4, 0, 1, 0, 0, 0, 7, 0, 0, 0, 12, 2, 0, 0, 6, 97, 0, 0, 0]]⟩, none, []⟩
    let d : Client :=
      { c with closed := true, attached := false, link := ⟨[1], .gone, c.link.sent⟩ }
    start.lookupId "a" = (.ok 1, c) ∧ (c.attached = false ↔ c.closed = true) ∧ c.Frozen d ∧
      d.lookupId "a" = (.error .closed, d) ∧ d.list (some "*") = (.error .closed, d) ∧
      d.call "a" "m" (.json [123]) = (.error .closed, d) ∧ d.act .close = (.ok .done, d) := by
  intro reply start c d
  have greeted : connect .default .listening ⟨[0, 0, 0, 0, 0, 0, 0, 7, 0, 0, 0, 0] ++ reply,
      .none, []⟩ = (.ok (), start) := by cbv
  have resolves : start.lookupId "a" = (.ok 1, c) := by cbv
  have reach : Reachable c := by
    refine .acted (a := .lookupId "a") (.connected greeted) (r := .ok (.id 1)) ?_
    rw [act, resolves]
    rfl
  obtain ⟨holds, absorbs⟩ := closed_is_absorbing reach
  obtain ⟨frozen, refuses⟩ := absorbs [] d (.fed .start [1] .gone)
  exact ⟨resolves, holds, frozen, refuses.lookupId "a", refuses.list _, refuses.call "a" "m" _,
    refuses.close⟩

end MicroBus.Client

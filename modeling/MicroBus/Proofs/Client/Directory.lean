import Mathlib
import MicroBus.Proofs.Client.History

/-!
# What the directory holds

The directory is a cache of the whole session: it has a path exactly if some successful look-up
reported it, with the identifier of the newest report. Failures leave it as it is, nothing is
ever taken out of it, and a path that it has is resolved without the daemon.
-/

namespace MicroBus

/-- The newest report of a path among reports in order has this identifier. -/
def Newest (objects : List ObjectInfo) (path : String) (id : UInt32) : Prop :=
  ∃ before o after, objects = before ++ o :: after ∧ o.path = path ∧ o.id = id ∧
    ∀ other ∈ after, other.path ≠ path

theorem newest_iff {objects : List ObjectInfo} {path : String} {id : UInt32} :
    Newest objects path id ↔
      (objects.reverse.find? fun o => o.path = path).map ObjectInfo.id = some id := by
  simp only [Option.map_eq_some_iff, List.find?_eq_some_iff_append, decide_eq_true_eq]
  constructor
  · rintro ⟨before, o, after, rfl, hpath, rfl, hnew⟩
    refine ⟨o, ⟨hpath, after.reverse, before.reverse, by simp, ?_⟩, rfl⟩
    simpa using hnew
  · rintro ⟨o, ⟨hpath, after, before, hsplit, hnew⟩, rfl⟩
    refine ⟨before.reverse, o, after.reverse, ?_, hpath, rfl, by simpa using hnew⟩
    rw [← List.reverse_reverse objects, hsplit]
    simp

/-- Some report of a path is the newest exactly if there is one. -/
theorem exists_newest_iff {objects : List ObjectInfo} {path : String} :
    (∃ id, Newest objects path id) ↔ ∃ o ∈ objects, o.path = path := by
  simp only [newest_iff, Option.map_eq_some_iff]
  constructor
  · rintro ⟨id, o, h, -⟩
    exact ⟨o, List.mem_reverse.mp (List.mem_of_find?_eq_some h), by simpa using List.find?_some h⟩
  · rintro ⟨o, ho, hpath⟩
    have hs : (objects.reverse.find? fun o => o.path = path).isSome := by
      rw [List.find?_isSome]
      exact ⟨o, List.mem_reverse.mpr ho, by simpa using hpath⟩
    obtain ⟨other, h⟩ := Option.isSome_iff_exists.mp hs
    exact ⟨other.id, other, h, rfl⟩

namespace Directory

/-- Reports of a path count before what was known about it. -/
theorem find?_addAll (d : Directory) (objects : List ObjectInfo) (path : String) :
    (d.addAll objects).find? path =
      ((objects.reverse.find? fun o => o.path = path).map ObjectInfo.id).or (d.find? path) := by
  -- On the last report, since a later one covers those before it.
  induction objects using List.reverseRecOn with
  | nil => rfl
  | append_singleton objects o ih =>
    rw [addAll_append, List.reverse_append, List.reverse_singleton, List.singleton_append,
      List.find?_cons]
    rw [show (d.addAll objects).addAll [o] = (d.addAll objects).add o from rfl, find?_add, ih]
    by_cases h : o.path = path <;> simp [h]

/-- A directory of nothing but these reports has the newest of each path. -/
theorem find?_empty_addAll {objects : List ObjectInfo} {path : String} {id : UInt32} :
    (empty.addAll objects).find? path = some id ↔ Newest objects path id := by
  rw [find?_addAll, newest_iff, show empty.find? path = none from rfl, Option.or_none]

/-- More reports take no path out of a directory. -/
theorem exists_find?_addAll {d : Directory} {path : String} {id : UInt32}
    (h : d.find? path = some id) (objects : List ObjectInfo) :
    ∃ kept, (d.addAll objects).find? path = some kept := by
  rw [find?_addAll, h, Option.or_some]
  exact ⟨_, rfl⟩

end Directory

namespace Client

/-- A look-up that fails adds nothing to the directory. -/
theorem LookedUp.directory_eq {c d : Client} {f : Failure} (h : c.LookedUp (.error f) d) :
    d.directory = c.directory := by
  cases h <;> rfl

/-- An action all of whose look-ups fail adds nothing to the directory. -/
theorem directory_act_of_fails {c : Client} {a : Action} (h : ∀ r ∈ c.lookups a, r.Fails) :
    (c.act a).2.directory = c.directory := by
  have learned := learned_act c a
  generalize c.lookups a = replies at h learned
  cases learned with
  | nothing none same => exact same
  | listed some lists grown =>
    exact (Reply.fails_iff.mp (h _ (List.mem_singleton_self _)) _ lists).elim
  | failed some fails same => exact same

/-- After a session the directory has what the look-ups of the session reported. -/
theorem Session.directory_eq {c : Client} {replies : List Reply} (h : Session replies c) :
    ∃ objects, Reported replies objects ∧ c.directory = .addAll .empty objects := by
  obtain ⟨s, endpoint, link, start, greeted, run⟩ := h
  obtain ⟨objects, reported, hd⟩ := run.directory_eq
  have he : start.directory = .empty := by rw [← directory_connect s endpoint link, greeted]
  rw [he] at hd
  exact ⟨objects, reported, hd⟩

/-- A path that the directory of an open client has is resolved by telling the logger so. -/
theorem exists_lookupId_eq {c : Client} {path : String} {id : UInt32} (opened : c.closed = false)
    (h : c.directory.find? path = some id) : ∃ log, c.lookupId path = (.ok id, c.told log) := by
  obtain ⟨log, hn⟩ := exists_noteAll_eq c [.known path id]
  refine ⟨log, ?_⟩
  rw [lookupId, if_neg (by rw [opened]; exact Bool.false_ne_true), h]
  exact congrArg (Prod.mk _) hn

/-- In every reachable client the directory is the history of the session's look-ups: it has a
path exactly if the reply to one of them reported it and ended with success, and then with the
identifier of the newest such report. Whatever the client does later, it has the path; look-ups
that fail change nothing; and resolving the path sends nothing, reads nothing and uses up no
number. -/
theorem directory_is_history :
    (∀ c, Reachable c ↔ ∃ replies, Session replies c) ∧
    ∀ replies c, Session replies c →
      (∃ objects, Reported replies objects ∧
        (∀ o, o ∈ objects ↔ ∃ reply ∈ replies, ∃ listed, reply.Lists listed ∧ o ∈ listed) ∧
        (∀ path, (∃ id, c.directory.find? path = some id) ↔ ∃ o ∈ objects, o.path = path) ∧
        ∀ path id, c.directory.find? path = some id ↔ Newest objects path id) ∧
      (∀ later d, Run c later d → ∀ path id, c.directory.find? path = some id →
        ∃ kept, d.directory.find? path = some kept) ∧
      (∀ a, (∀ reply ∈ c.lookups a, reply.Fails) → (c.act a).2.directory = c.directory) ∧
      (∀ pattern f, (c.lookup pattern).1 = .error f →
        (c.lookup pattern).2.directory = c.directory) ∧
      ∀ path id, c.closed = false → c.directory.find? path = some id →
        ∃ log, c.lookupId path = (.ok id, c.told log) := by
  refine ⟨fun c => reachable_iff, fun replies c session => ⟨?_, ?_, ?_, ?_, ?_⟩⟩
  · obtain ⟨objects, reported, hd⟩ := session.directory_eq
    have newest (path : String) (id : UInt32) :
        c.directory.find? path = some id ↔ Newest objects path id := by
      rw [hd, Directory.find?_empty_addAll]
    refine ⟨objects, reported, reported.mem_iff, fun path => ?_, newest⟩
    simp only [newest, exists_newest_iff]
  · intro later d run path id h
    obtain ⟨objects, -, hd⟩ := run.directory_eq
    rw [hd]
    exact Directory.exists_find?_addAll h objects
  · exact fun a => directory_act_of_fails
  · intro pattern f h
    have looked := lookedUp_lookup c pattern
    rw [h] at looked
    exact looked.directory_eq
  · exact fun path id => exists_lookupId_eq

/-- A daemon reports a path twice in the reply to a look-up. The directory has the newer of the
two identifiers, keeps the path, and resolves it on its own. -/
theorem directory_is_history_twice :
    let reply : Bytes := [0, 2, 0, 1, 0, 0, 0, 7,
      0, 0, 0, 20, 2, 0, 0, 6, 97, 0, 0, 0, 3, 0, 0, 8, 0, 0, 0, 1, 0, 2, 0, 1, 0, 0, 0, 7,
      0, 0, 0, 20, 2, 0, 0, 6, 97, 0, 0, 0, 3, 0, 0, 8, 0, 0, 0, 2, 0, 1, 0, 1, 0, 0, 0, 7,
      0, 0, 0, 12, 1, 0, 0, 8, 0, 0, 0, 0]
    let start : Client := ⟨7, 0, .empty, false, true, ⟨reply, .none, []⟩, none, []⟩
    let c := (start.act (.list none)).2
    Session (start.lookups (.list none)) c ∧ c.directory.find? "a" = some 2 ∧
      (∀ later d, Run c later d → ∃ kept, d.directory.find? "a" = some kept) ∧
      ∃ log, c.lookupId "a" = (.ok 2, c.told log) := by
  intro reply start c
  have greeted : connect .default .listening ⟨[0, 0, 0, 0, 0, 0, 0, 7, 0, 0, 0, 0] ++ reply,
      .none, []⟩ = (.ok (), start) := by cbv
  have run : start.Run ([] ++ start.lookups (.list none)) c := .acted .start (.list none)
  rw [List.nil_append] at run
  have session : Session (start.lookups (.list none)) c := ⟨_, _, _, start, greeted, run⟩
  have known : c.directory.find? "a" = some 2 := by
    simp only [c, start, reply]
    cbv
  have opened : c.closed = false := by
    simp only [c, start, reply]
    cbv
  obtain ⟨-, kept, -, -, resolved⟩ := directory_is_history.2 _ c session
  exact ⟨session, known, fun later d run => kept later d run "a" 2 known,
    resolved "a" 2 opened known⟩

end Client

end MicroBus

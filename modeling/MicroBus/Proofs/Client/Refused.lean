import MicroBus.Proofs.Body.Puts
import MicroBus.Proofs.Client.History

/-!
# Calls that are refused before they are sent

Arguments that are no table are refused first of all. Whether a call can be written does not depend
on the object, but the object is looked up before it is written. So a call that cannot be written
leaves the client as the look-up does, and nothing else is sent.
-/

namespace MicroBus

/-! ## Arguments that are refused -/

namespace Value

/-- A value that can be no arguments. -/
structure NoTable (v : Value) : Prop where
  /-- There is a value. -/
  not_null : v ≠ .null
  /-- It is no table. -/
  not_table : ∀ entries, v ≠ .table entries

/-- Among the values of JSON only those of null and of objects can be arguments. -/
theorem noTable_ofJson_iff {j : Json} :
    NoTable (ofJson j) ↔ j ≠ .null ∧ ∀ members, j ≠ .obj members := by
  have hinteger (i : Int) : NoTable (ofInteger i) := by
    unfold ofInteger
    split
    · exact ⟨by simp, by simp⟩
    · exact ⟨by simp, by simp⟩
  cases j with
  | null => exact iff_of_false (fun h => h.not_null rfl) (fun h => h.1 rfl)
  | obj members => exact iff_of_false (fun h => h.not_table _ rfl) (fun h => h.2 _ rfl)
  | int i => exact iff_of_true (hinteger i) (by simp)
  | bool | double | str | arr => exact iff_of_true ⟨by simp [ofJson], by simp [ofJson]⟩ (by simp)

end Value

namespace Arguments

/-- Arguments that are refused, and why. -/
inductive Refused : Arguments → Rejection → Prop where
  /-- A text that is not JSON. -/
  | notJson {text : Bytes} (marked : text.all isBlank = false)
    (h : Json.ofUtf8? text = Option.none) : Refused (.json text) .notJson
  /-- JSON that is neither null nor an object. -/
  | json {text : Bytes} {j : Json} (marked : text.all isBlank = false)
    (h : Json.ofUtf8? text = some j) (not_null : j ≠ .null)
    (not_object : ∀ members, j ≠ .obj members) :
    Refused (.json text) (.noTable (Value.ofJson j).kind)
  /-- A value that is neither null nor a table. -/
  | value {v : Value} (h : v.NoTable) : Refused (.value v) (.noTable v.kind)
  /-- Data that could not be made a value. -/
  | faulty (f : Fault) : Refused (.faulty f) (.noValue f)

theorem ofTable_eq_error_iff {v : Value} {why : Rejection} :
    ofTable v = .error why ↔ v.NoTable ∧ why = .noTable v.kind := by
  cases v with
  | null =>
    refine iff_of_false (fun h => ?_) fun h => h.1.not_null rfl
    cases h
  | table entries =>
    refine iff_of_false (fun h => ?_) fun h => h.1.not_table entries rfl
    cases h
  | bool | int | uint | double | str | bytes | array =>
    exact ⟨fun h => ⟨⟨by simp, by simp⟩, (Except.error.inj h).symm⟩, fun h => h.2 ▸ rfl⟩

/-- Arguments have no normal form exactly if they are refused. -/
theorem normalize_eq_error_iff {a : Arguments} {why : Rejection} :
    a.normalize = .error why ↔ a.Refused why := by
  constructor
  · intro h
    cases a with
    | none => cases h
    | named m => cases h
    | value v =>
      obtain ⟨hv, rfl⟩ := ofTable_eq_error_iff.mp h
      exact .value hv
    | json text =>
      rw [normalize] at h
      split at h
      · cases h
      · next marked =>
        rw [Bool.not_eq_true] at marked
        cases hj : Json.ofUtf8? text with
        | none =>
          simp only [hj] at h
          obtain rfl := Except.error.inj h
          exact .notJson marked hj
        | some j =>
          simp only [hj] at h
          obtain ⟨hv, rfl⟩ := ofTable_eq_error_iff.mp h
          obtain ⟨not_null, not_object⟩ := Value.noTable_ofJson_iff.mp hv
          exact .json marked hj not_null not_object
    | faulty f =>
      obtain rfl := Except.error.inj h
      exact .faulty f
  · intro h
    cases h with
    | notJson marked hj => simp only [normalize, marked, hj, Bool.false_eq_true, if_false]
    | json marked hj not_null not_object =>
      simp only [normalize, marked, hj, Bool.false_eq_true, if_false]
      exact ofTable_eq_error_iff.mpr
        ⟨Value.noTable_ofJson_iff.mpr ⟨not_null, not_object⟩, rfl⟩
    | value hv => exact ofTable_eq_error_iff.mpr ⟨hv, rfl⟩
    | faulty f => rfl

end Arguments

/-! ## Calls that cannot be written -/

/-- A body of these fields can be finished exactly if each of them fits and so do they all. -/
theorem Builder.exists_build_iff {puts : List Put} : (∃ body, build puts = .ok body) ↔
    (∀ p ∈ puts, p.Fits) ∧ bodySize puts ≤ Header.maxLength := by
  constructor
  · rintro ⟨body, h⟩
    obtain ⟨b, put, finished⟩ := bind_eq_ok_iff.mp h
    rw [← length_written_of_putEach put]
    exact ⟨((putEach_eq_ok_iff rfl).mp put).1, (sealContainer_eq_ok_iff.mp finished).1⟩
  · rintro ⟨fits, size⟩
    have put : empty.putEach puts = .ok _ := (putEach_eq_ok_iff rfl).mpr ⟨fits, rfl⟩
    rw [← length_written_of_putEach put] at size
    exact ⟨_, bind_eq_ok_iff.mpr ⟨_, put, sealContainer_eq_ok_iff.mpr ⟨size, rfl⟩⟩⟩

namespace Client

/-- A call that can be written, whatever its object is. -/
structure Writable (method : String) (entries : Entries) : Prop where
  /-- The names in the arguments fit. -/
  names_fit : Value.NamesOfEntriesFit entries
  /-- No value in the arguments lies too deep. -/
  depth_le : ∀ e ∈ entries, e.2.depth ≤ maxDepth
  /-- The body with the object, the method and the arguments fits. -/
  size_le : 16 + Bytes.align (5 + method.utf8ByteSize) + Value.sizeOfEntries entries ≤
    Header.maxLength

theorem bodySize_callPuts (id : UInt32) (method : String) (entries : Entries) :
    bodySize (callPuts id method entries) =
      16 + Bytes.align (5 + method.utf8ByteSize) + Value.sizeOfEntries entries := by
  have hwords := Value.sizeOfEntries_mod entries
  simp only [bodySize, callPuts, Put.payload, List.map_cons, List.map_nil, List.sum_cons,
    List.sum_nil, Bytes.length_bigEndian, List.length_append, Text.length_utf8,
    List.length_singleton, Value.length_payload, Value.payloadSize, Bytes.align]
  omega

/-- A call has a body exactly if it can be written. -/
theorem exists_invokeBody_iff {id : UInt32} {method : String} {entries : Entries} :
    (∃ body, invokeBody id method entries = .ok body) ↔ Writable method entries := by
  simp only [invokeBody_eq, Builder.exists_build_iff, bodySize_callPuts]
  have halign := Bytes.le_align (5 + method.utf8ByteSize)
  constructor
  · rintro ⟨fits, size⟩
    obtain ⟨⟨names, depth⟩, -⟩ := fits (.table .data entries) (by simp [callPuts])
    exact ⟨names, depth, size⟩
  · rintro ⟨names, depth, size⟩
    refine ⟨?_, size⟩
    simp only [callPuts, List.forall_mem_cons, Put.Fits, Put.payload, Bytes.length_bigEndian,
      List.length_append, Text.length_utf8, List.length_singleton, List.not_mem_nil,
      false_implies, implies_true, and_true]
    refine ⟨by decide, by omega, ⟨names, depth⟩, by omega⟩

/-- Resolving a path sends no message but one look-up with the next number. -/
theorem Resolved.sent_eq {c d : Client} {path : String} {r : Except Failure UInt32}
    (h : c.Resolved path r d) : ∃ new, d.link.sent = new ++ c.link.sent ∧
      (new = [] ∨ ∃ body, new = [c.nextMessage .lookup body]) := by
  have sent {r : Except Failure (List ObjectInfo)} (looked : c.LookedUp r d) :
      ∃ new, d.link.sent = new ++ c.link.sent ∧
        (new = [] ∨ ∃ body, new = [c.nextMessage .lookup body]) := by
    cases looked with
    | unsent f => exact ⟨[], rfl, .inl rfl⟩
    | listed body log lists => exact ⟨_, rfl, .inr ⟨body, rfl⟩⟩
    | failed f body log fails => exact ⟨_, rfl, .inr ⟨body, rfl⟩⟩
  cases h with
  | closed h => exact ⟨[], rfl, .inl rfl⟩
  | known log opened h => exact ⟨[], rfl, .inl rfl⟩
  | found opened unknown looked h => exact sent looked
  | absent opened unknown looked h => exact sent looked
  | failed opened unknown looked => exact sent looked

section Call

variable {c : Client} (opened : c.closed = false)

include opened

theorem call_of_refused {arguments : Arguments} {why : Rejection} (h : arguments.Refused why)
    (service method : String) :
    c.call service method arguments = (.error (.invalidParameter why), c) := by
  rw [call, if_neg (by simp [opened])]
  simp only [Arguments.normalize_eq_error_iff.mpr h]

/-- A call that cannot be written comes to what resolving its path comes to, if that fails, and
else to the fault of its body. Either way it leaves the client as resolving the path does. -/
theorem call_of_not_writable {arguments : Arguments} {entries : Entries} {method : String}
    (normal : arguments.normalize = .ok entries) (unwritable : ¬ Writable method entries)
    (service : String) :
    (c.call service method arguments).2 = (c.lookupId service).2 ∧
    (∀ f, (c.lookupId service).1 = .error f → (c.call service method arguments).1 = .error f) ∧
    ∀ id, (c.lookupId service).1 = .ok id → ∃ f, invokeBody id method entries = .error f ∧
      (c.call service method arguments).1 = .error (.invalidParameter (.noRequest f)) := by
  have hc : ¬ c.closed = true := by simp [opened]
  rw [call, if_neg hc]
  simp only [normal]
  obtain ⟨f | id, d⟩ := c.lookupId service
  · refine ⟨rfl, fun g h => congrArg Except.error (Except.error.inj h), fun id h => ?_⟩
    cases h
  · obtain ⟨f, hf⟩ : ∃ f, invokeBody id method entries = .error f := by
      cases hb : invokeBody id method entries with
      | error f => exact ⟨f, rfl⟩
      | ok body => exact (unwritable (exists_invokeBody_iff.mp ⟨body, hb⟩)).elim
    simp only [invoke, hf]
    refine ⟨trivial, fun g h => ?_, fun other h => ?_⟩
    · cases h
    · obtain rfl := Except.ok.inj h
      exact ⟨f, hf, rfl⟩

end Call

/-- A call of an open client whose arguments are refused, or whose body cannot be written. Arguments
are refused unless they have a normal form. If they are, nothing is read or written, no number is
used, the directory is the same, and the caller is told that they are no parameters, whether or not
the path is known. Else, if a name is too long, a value too deep or the whole too long, the client
is left as resolving the path leaves it: at most one look-up was sent, and nothing of the call. The
caller is told what resolving the path failed for, if it did, and else that the parameters cannot be
written. -/
theorem refused_calls_unsent {c : Client} (opened : c.closed = false) (service method : String)
    (arguments : Arguments) :
    ((∃ why, arguments.Refused why) ∨ ∃ entries, arguments.normalize = .ok entries) ∧
    (∀ why, arguments.Refused why →
      c.call service method arguments = (.error (.invalidParameter why), c)) ∧
    ∀ entries, arguments.normalize = .ok entries → ¬ Writable method entries →
      (c.call service method arguments).2 = (c.lookupId service).2 ∧
      (∃ new, (c.call service method arguments).2.link.sent = new ++ c.link.sent ∧
        (new = [] ∨ ∃ body, new = [c.nextMessage .lookup body])) ∧
      (∀ f, (c.lookupId service).1 = .error f → (c.call service method arguments).1 = .error f) ∧
      ∀ id, (c.lookupId service).1 = .ok id → ∃ f, invokeBody id method entries = .error f ∧
        (c.call service method arguments).1 = .error (.invalidParameter (.noRequest f)) := by
  refine ⟨?_, fun why h => call_of_refused opened h service method, ?_⟩
  · cases hn : arguments.normalize with
    | error why => exact .inl ⟨why, Arguments.normalize_eq_error_iff.mp hn⟩
    | ok entries => exact .inr ⟨entries, rfl⟩
  · intro entries normal unwritable
    obtain ⟨left, failed, resolved⟩ := call_of_not_writable opened normal unwritable service
    refine ⟨left, ?_, failed, resolved⟩
    rw [left]
    exact (resolved_lookupId c service).sent_eq

/-- Arguments that are an array are refused at once. Arguments that hold a value too deep are
refused behind a look-up that finds the object, and behind one whose reply never comes. -/
theorem refused_calls_unsent_behind_lookup :
    let found : Bytes := [0, 2, 0, 1, 0, 0, 0, 7, 0, 0, 0, 20, 2, 0, 0, 6, 97, 0, 0, 0,
      3, 0, 0, 8, 0, 0, 0, 1, 0, 1, 0, 1, 0, 0, 0, 7, 0, 0, 0, 12, 1, 0, 0, 8, 0, 0, 0, 0]
    let c : Client := ⟨7, 0, .empty, false, true, ⟨found, .none, []⟩, none, []⟩
    let d : Client := ⟨7, 0, .empty, false, true, ⟨[], .none, []⟩, none, []⟩
    let deep : Value := Nat.repeat (fun v => .array [v]) 65 .null
    let tooDeep : Arguments := .value (.table [("a", deep)])
    c.call "a" "m" (.json [91, 49, 93]) = (.error (.invalidParameter (.noTable "array")), c) ∧
    (∃ f, (c.call "a" "m" tooDeep).1 = .error (.invalidParameter (.noRequest f))) ∧
    (c.call "a" "m" tooDeep).2 = (c.lookupId "a").2 ∧
    (d.call "a" "m" tooDeep).1 = .error (.timeout .lookup) ∧
    (d.call "a" "m" tooDeep).2 = (d.lookupId "a").2 := by
  intro found c d deep tooDeep
  have resolves : (c.lookupId "a").1 = .ok 1 := by cbv
  have waits : (d.lookupId "a").1 = .error (.timeout .lookup) := by cbv
  have openC : c.closed = false := rfl
  have openD : d.closed = false := rfl
  have hj : Json.ofUtf8? [91, 49, 93] = some (.arr [.int 1]) := by cbv
  have refused : (Arguments.json [91, 49, 93]).Refused (.noTable "array") :=
    .json (by decide) hj (by simp) (by simp)
  have normal : tooDeep.normalize = .ok [("a", deep)] := by cbv
  have hdepth : deep.depth = 65 := by cbv
  have unwritable : ¬ Writable "m" [("a", deep)] := by
    intro h
    have := h.depth_le _ (List.mem_singleton_self _)
    rw [hdepth] at this
    exact absurd this (by decide)
  obtain ⟨-, atOnce, -⟩ := refused_calls_unsent openC "a" "m" (.json [91, 49, 93])
  obtain ⟨-, -, behind⟩ := refused_calls_unsent openC "a" "m" tooDeep
  obtain ⟨left, -, -, told⟩ := behind _ normal unwritable
  obtain ⟨-, -, behind⟩ := refused_calls_unsent openD "a" "m" tooDeep
  obtain ⟨left', -, told', -⟩ := behind _ normal unwritable
  obtain ⟨f, -, hf⟩ := told 1 resolves
  exact ⟨atOnce _ refused, ⟨f, hf⟩, left, told' _ waits, left'⟩

end Client

end MicroBus

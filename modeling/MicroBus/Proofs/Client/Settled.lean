import MicroBus.Proofs.Client.Content
import MicroBus.Proofs.Client.InTurn
import MicroBus.Proofs.Wire.Views

/-!
# What a reply settles

The data messages of a reply and its status message settle what a request comes to: the first
malformed data message counts, then a malformed status message, then its code, and only success
gives the parts of all data messages. The parts of the reply to a call are brought together, each
name with what its last entry holds. All of it is said of what the messages hold.
-/

namespace MicroBus

/-! ## One reply -/

/-- What a request comes to, by the data frames and the status message of its reply, and by what a
data frame holds. -/
inductive Settled {α : Type} (Part : Frame → Except Fault α → Prop) (target : String) (step : Step)
    (data : List Frame) (last : Frame) : Except Failure (List α) → Prop where
  /-- A data frame is malformed, and those before it are not. -/
  | malformed {before after : List Frame} {frame : Frame} {fault : Fault}
    (split : data = before ++ frame :: after) (fine : ∀ f ∈ before, ∃ a, Part f (.ok a))
    (h : Part frame (.error fault)) :
    Settled Part target step data last (.error (.invalidResponse fault))
  /-- The data frames are read, and the status message is malformed. -/
  | statusMalformed {parts : List α} {fault : Fault}
    (read : List.Forall₂ (fun f a => Part f (.ok a)) data parts) (h : CodeOf last (.error fault)) :
    Settled Part target step data last (.error (.invalidResponse fault))
  /-- The data frames are read, and the code is not that of success. -/
  | refused {parts : List α} {code : UInt32} {failure : Failure}
    (read : List.Forall₂ (fun f a => Part f (.ok a)) data parts) (h : CodeOf last (.ok code))
    (means : Failure.OfCode target step code failure) :
    Settled Part target step data last (.error failure)
  /-- The data frames are read, and the code is that of success. -/
  | answered {parts : List α} (read : List.Forall₂ (fun f a => Part f (.ok a)) data parts)
    (h : CodeOf last (.ok 0)) : Settled Part target step data last (.ok parts)

section Settled

variable {α : Type} {reader : PartReader α} {Part : Frame → Except Fault α → Prop}
  (reads : ∀ f r, reader.part f = r ↔ Part f r) {target : String} {step : Step}
  {data : List Frame} {last : Frame} {r : Except Failure (List α)}

include reads

theorem forall₂_part_iff {parts : List α} :
    List.Forall₂ (fun f a => Part f (.ok a)) data parts ↔ data.mapM reader.part = .ok parts := by
  rw [mapM_eq_ok_iff]
  simp only [reads]

theorem Settled.verdict_eq (h : Settled Part target step data last r) :
    verdict reader target step data last = r := by
  cases h with
  | @malformed before after frame fault split fine h =>
    have hd : data.mapM reader.part = .error fault := by
      refine mapM_eq_error_iff.mpr ⟨before, frame, after, split, (reads _ _).mpr h, fun f hf => ?_⟩
      obtain ⟨a, ha⟩ := fine f hf
      exact ⟨a, (reads _ _).mpr ha⟩
    rw [verdict, hd]
  | statusMalformed read h =>
    rw [verdict, (forall₂_part_iff reads).mp read, statusCode_eq_iff.mpr h]
  | refused read h means =>
    rw [verdict, (forall₂_part_iff reads).mp read, statusCode_eq_iff.mpr h]
    simp only [Failure.ofStatus_eq_some_iff.mpr means]
  | answered read h =>
    rw [verdict, (forall₂_part_iff reads).mp read, statusCode_eq_iff.mpr h]
    rfl

theorem settled_verdict : Settled Part target step data last
    (verdict reader target step data last) := by
  cases hd : data.mapM reader.part with
  | error fault =>
    obtain ⟨before, frame, after, split, h, fine⟩ := mapM_eq_error_iff.mp hd
    rw [verdict, hd]
    refine .malformed split (fun f hf => ?_) ((reads _ _).mp h)
    obtain ⟨a, ha⟩ := fine f hf
    exact ⟨a, (reads _ _).mp ha⟩
  | ok parts =>
    have read := (forall₂_part_iff reads).mpr hd
    cases hs : statusCode last with
    | error fault =>
      rw [verdict, hd, hs]
      exact .statusMalformed read (statusCode_eq_iff.mp hs)
    | ok code =>
      cases hf : Failure.ofStatus code target step with
      | some failure =>
        rw [verdict, hd, hs]
        simp only [hf]
        exact .refused read (statusCode_eq_iff.mp hs) (Failure.ofStatus_eq_some_iff.mp hf)
      | none =>
        obtain rfl := Failure.ofStatus_eq_none_iff.mp hf
        rw [verdict, hd, hs]
        exact .answered read (statusCode_eq_iff.mp hs)

/-- A reader that finds what the data frames hold comes to what the reply settles. -/
theorem settled_iff : Settled Part target step data last r ↔
    verdict reader target step data last = r := by
  constructor
  · exact Settled.verdict_eq reads
  · rintro rfl
    exact settled_verdict reads

end Settled

namespace Client

theorem objectReader_reads (f : Frame) (r : Except Fault ObjectInfo) :
    objectReader.part f = r ↔ ObjectInfo.ReportOf f r :=
  ObjectInfo.ofFrame_eq_iff

theorem tableReader_reads (f : Frame) (r : Except Fault (Option Entries)) :
    tableReader.part f = r ↔ Response.PartOf f r :=
  Response.part_eq_iff

end Client

/-! ## The parts of a reply -/

namespace Response

/-- A reply that has the entries of some parts: an entry is in it exactly if it is the last one of
its name in all of them. -/
def Merges (r : Response) (parts : List (Option Entries)) : Prop :=
  ∀ name v, (name, v) ∈ r.entries ↔ LastNamed name (parts.filterMap id).flatten (some v)

theorem merges_iff {r : Response} {parts : List (Option Entries)} :
    r.Merges parts ↔ ofParts (parts.filterMap fun part => part) = r := by
  constructor
  · intro h
    refine Response.ext ((ascending_canonical _).ext r.ascending fun name => Option.ext fun v => ?_)
    rw [findLast?_canonical, ← r.ascending.mem_iff, h]
    exact Value.findLast?_eq_iff
  · rintro rfl name v
    exact mem_canonical_iff.trans Value.findLast?_eq_iff

/-- What a call comes to, by what its reply settles. -/
inductive Gathers : Except Failure (List (Option Entries)) → Except Failure Response → Prop where
  /-- A failure is one of the call. -/
  | failure (f : Failure) : Gathers (.error f) (.error f)
  /-- The parts are brought together. -/
  | merged {parts : List (Option Entries)} {response : Response} (h : response.Merges parts) :
    Gathers (.ok parts) (.ok response)

theorem gathers_iff {answer : Except Failure (List (Option Entries))}
    {r : Except Failure Response} : Gathers answer r ↔
      (fun parts => ofParts (parts.filterMap fun part => part)) <$> answer = r := by
  constructor
  · intro h
    cases h with
    | failure f => rfl
    | merged h => exact congrArg Except.ok (merges_iff.mp h)
  · rintro rfl
    cases answer with
    | error f => exact .failure f
    | ok parts => exact .merged (merges_iff.mpr rfl)

end Response

end MicroBus

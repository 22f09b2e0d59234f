import MicroBus.Client.Basic
import MicroBus.Proofs.Except

/-!
# Replies heard frame by frame

A reply can be made sense of while it comes in, with the first malformed part put aside until
the status message ends the reply. This comes to what is made of all its frames afterwards, and
it takes the same octets off the stream.
-/

namespace MicroBus.Reply

variable {α : Type}

/-! ## Collecting the frames of a reply -/

theorem collectOnto_of_error {stream rest : Bytes} {fault : Fault}
    (h : Frame.read stream = (.error fault, rest)) (met : List Frame) :
    collectOnto met stream = (⟨met.reverse, .error fault⟩, rest) := by
  rw [collectOnto]
  split
  · next hr =>
    rw [h] at hr
    cases hr
    rfl
  · next hr =>
    rw [h] at hr
    cases hr

theorem collectOnto_of_ok {stream rest : Bytes} {frame : Frame}
    (h : Frame.read stream = (.ok frame, rest)) (met : List Frame) :
    collectOnto met stream = if frame.envelope.kind = .status then
      (⟨met.reverse, .ok frame⟩, rest) else collectOnto (frame :: met) rest := by
  rw [collectOnto]
  split
  · next hr =>
    rw [h] at hr
    cases hr
  · next hr =>
    rw [h] at hr
    cases hr
    rfl

/-! ## Hearing a reply -/

/-- The data frames among some frames. -/
def dataAmong (frames : List Frame) : List Frame := frames.filter fun f => f.envelope.kind = .data

/-- What was heard of a reply. -/
structure Heard (α : Type) where
  /-- The parts, newest first. -/
  parts : List α
  /-- The fault of the first malformed part. -/
  malformed : Option Fault

namespace Heard

/-- Nothing. -/
def nothing : Heard α := ⟨[], none⟩

/-- Hears a frame before the status message. Once a part was malformed, no other is looked at. -/
def take (reader : PartReader α) (heard : Heard α) (frame : Frame) : Heard α :=
  if frame.envelope.kind = .data ∧ heard.malformed = none then
    match reader.part frame with
    | .ok part => { heard with parts := part :: heard.parts }
    | .error fault => { heard with malformed := some fault }
  else heard

/-- Hears the status message. -/
def conclude (heard : Heard α) (last : Frame) : Except Failure (UInt32 × List α) :=
  match heard.malformed, statusCode last with
  | some fault, _ => .error (.invalidResponse fault)
  | none, .error fault => .error (.invalidResponse fault)
  | none, .ok code => .ok (code, heard.parts.reverse)

/-- The parts in order, or the fault that was put aside. -/
def toExcept (heard : Heard α) : Except Fault (List α) :=
  match heard.malformed with
  | some fault => .error fault
  | none => .ok heard.parts.reverse

/-- Hearing a frame reads one part more, if it is a data frame. -/
theorem toExcept_take {reader : PartReader α} {heard : Heard α} {frames : List Frame}
    (h : heard.toExcept = (dataAmong frames).mapM reader.part) (frame : Frame) :
    (heard.take reader frame).toExcept = (dataAmong (frames ++ [frame])).mapM reader.part := by
  obtain ⟨parts, malformed⟩ := heard
  rw [dataAmong, List.filter_append, List.mapM_append, ← dataAmong, ← h]
  by_cases hk : frame.envelope.kind = .data
  · rw [List.filter_cons_of_pos (by simpa using hk), List.filter_nil, List.mapM_cons,
      List.mapM_nil]
    cases malformed with
    | some fault =>
      rw [take, if_neg (fun hn => Option.some_ne_none fault hn.2)]
      rfl
    | none =>
      rw [take, if_pos ⟨hk, rfl⟩]
      cases reader.part frame with
      | error fault => rfl
      | ok part => exact congrArg Except.ok (List.reverse_cons ..)
  · rw [List.filter_cons_of_neg (by simpa using hk), List.filter_nil, List.mapM_nil, take,
      if_neg (fun hn => hk hn.1)]
    cases malformed with
    | some fault => rfl
    | none => exact congrArg Except.ok (List.append_nil _).symm

end Heard

/-- Hears a reply to its end. -/
def hear (reader : PartReader α) (step : Step) (ending : Ending) (heard : Heard α)
    (stream : Bytes) : Except Failure (UInt32 × List α) × Bytes :=
  match _h : Frame.read stream with
  | (.error fault, rest) => (.error (.ofRead step ending fault), rest)
  | (.ok frame, rest) =>
    if frame.envelope.kind = .status then (heard.conclude frame, rest)
    else hear reader step ending (heard.take reader frame) rest
termination_by stream.length
decreasing_by exact Frame.length_lt_of_read ‹_›

/-- The status message decides last about the frames before it. -/
theorem Heard.conclude_eq {reader : PartReader α} {heard : Heard α} {frames : List Frame}
    (h : heard.toExcept = (dataAmong frames).mapM reader.part) (step : Step) (ending : Ending)
    (last : Frame) :
    heard.conclude last = (Reply.mk frames (.ok last)).outcome step ending reader := by
  have hp : (Reply.mk frames (.ok last)).parts reader = heard.toExcept := h.symm
  obtain ⟨parts, malformed⟩ := heard
  rw [conclude, outcome, hp]
  cases malformed with
  | some fault => rfl
  | none =>
    simp only [toExcept]
    cases statusCode last <;> rfl

theorem hear_eq {reader : PartReader α} {step : Step} {ending : Ending} {heard : Heard α}
    {met : List Frame} (h : heard.toExcept = (dataAmong met.reverse).mapM reader.part)
    (stream : Bytes) :
    hear reader step ending heard stream =
      ((collectOnto met stream).1.outcome step ending reader, (collectOnto met stream).2) := by
  induction hn : stream.length using Nat.strongRecOn generalizing heard met stream with
  | ind n ih =>
    rw [hear]
    split
    · next fault rest hr =>
      rw [collectOnto_of_error hr]
      rfl
    · next frame rest hr =>
      rw [collectOnto_of_ok hr]
      by_cases hk : frame.envelope.kind = .status
      · rw [if_pos hk, if_pos hk, Heard.conclude_eq h]
      · have ht := Heard.toExcept_take h frame
        have hlt := Frame.length_lt_of_read hr
        rw [← List.reverse_cons] at ht
        rw [if_neg hk, if_neg hk]
        exact ih rest.length (by omega) ht rest rfl

/-- A reply that is heard out frame by frame comes to what its frames come to together. -/
theorem hear_nothing (reader : PartReader α) (step : Step) (ending : Ending) (stream : Bytes) :
    hear reader step ending .nothing stream =
      ((collect stream).1.outcome step ending reader, (collect stream).2) :=
  hear_eq rfl stream

end MicroBus.Reply

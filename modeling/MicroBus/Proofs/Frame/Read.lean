import MicroBus.Frame.Basic
import MicroBus.Proofs.Bytes

/-!
# Frames read off a stream

A frame that was read stood at the front of the stream, octet by octet, and all of it is gone.
So reading frames one after another cuts a stream exactly between them.
-/

namespace MicroBus

theorem Kind.code_of_ofCode? {x : UInt8} {k : Kind} (h : ofCode? x = some k) : k.code = x := by
  unfold ofCode? at h
  split at h <;> cases h <;> rfl

/-- An envelope that was read has the octets it was read from. -/
theorem Envelope.encode_of_decode {b : Bytes} {e : Envelope} (h : decode b = .ok e) :
    e.encode = b := by
  unfold decode at h
  split at h
  · next version kind s t p q r z =>
    split at h
    · cases h
    · next k hk =>
      obtain rfl := Except.ok.inj h
      have hseq := Bytes.ofBigEndian_lt [s, t]
      have hpeer := Bytes.ofBigEndian_lt [p, q, r, z]
      rw [show [s, t].length = 2 from rfl] at hseq
      rw [show [p, q, r, z].length = 4 from rfl] at hpeer
      have hs : (UInt16.ofNat (Bytes.ofBigEndian [s, t])).toNat = Bytes.ofBigEndian [s, t] := by
        rw [UInt16.toNat_ofNat']
        omega
      have hp : (UInt32.ofNat (Bytes.ofBigEndian [p, q, r, z])).toNat =
          Bytes.ofBigEndian [p, q, r, z] := by
        rw [UInt32.toNat_ofNat']
        omega
      have hsb : Bytes.bigEndian 2 (Bytes.ofBigEndian [s, t]) = [s, t] :=
        Bytes.bigEndian_ofBigEndian [s, t]
      have hpb : Bytes.bigEndian 4 (Bytes.ofBigEndian [p, q, r, z]) = [p, q, r, z] :=
        Bytes.bigEndian_ofBigEndian [p, q, r, z]
      rw [encode, hs, hp, hsb, hpb, Kind.code_of_ofCode? hk]
      rfl
  · cases h

namespace Frame

/-- The octets that stand for a frame on a stream. -/
def octets (f : Frame) : Bytes :=
  encode f.envelope (if f.body = [] then Bytes.zeroWord else f.body)

/-- What was taken off a stream was at its front. -/
theorem eq_append_of_take {n : Nat} {stream taken rest : Bytes}
    (h : take n stream = (.ok taken, rest)) : taken.length = n ∧ stream = taken ++ rest := by
  unfold take at h
  split at h
  · next hb =>
    obtain ⟨ht, rfl⟩ := Prod.mk.inj h
    obtain rfl := Except.ok.inj ht
    have := Bytes.atLeast_iff.mp hb
    refine ⟨?_, (List.take_append_drop n stream).symm⟩
    rw [List.length_take]
    omega
  · cases h

/-- Only the zero word stands for a body without octets. -/
theorem bodyLength_eq_zero {word : Bytes} (hw : word.length = 4)
    (h : bodyLength word = .ok 0) : word = Bytes.zeroWord := by
  have hb := Bytes.bigEndian_ofBigEndian word
  rw [hw] at hb
  unfold bodyLength at h
  simp only at h
  split at h
  · next hz =>
    rw [← hb, hz]
    rfl
  · split at h
    · cases h
    · next hlen =>
      have := Except.ok.inj h
      omega

/-- A body that was read was at the front of the stream, or the zero word was. -/
theorem eq_append_of_readBody {stream body rest : Bytes}
    (h : readBody stream = (.ok body, rest)) :
    stream = (if body = [] then Bytes.zeroWord else body) ++ rest := by
  unfold readBody at h
  split at h
  · cases h
  · next word tail hword =>
    obtain ⟨hl, rfl⟩ := eq_append_of_take hword
    split at h
    · cases h
    · next hz =>
      obtain ⟨hbody, rfl⟩ := Prod.mk.inj h
      obtain rfl := Except.ok.inj hbody
      rw [if_pos rfl, bodyLength_eq_zero hl hz]
    · next length _ _ =>
      split at h
      · cases h
      · next inside last hinside =>
        obtain ⟨-, rfl⟩ := eq_append_of_take hinside
        obtain ⟨hbody, rfl⟩ := Prod.mk.inj h
        obtain rfl := Except.ok.inj hbody
        have hne : word ++ inside ≠ [] := by
          intro he
          rw [List.append_eq_nil_iff.mp he |>.1] at hl
          cases hl
        rw [if_neg hne, List.append_assoc]

/-- A frame that was read was at the front of the stream. -/
theorem eq_octets_of_read {stream rest : Bytes} {frame : Frame}
    (h : read stream = (.ok frame, rest)) : stream = frame.octets ++ rest := by
  unfold read at h
  split at h
  · cases h
  · next head tail hhead =>
    obtain ⟨-, rfl⟩ := eq_append_of_take hhead
    split at h
    · cases h
    · next envelope henvelope =>
      split at h
      · cases h
      · next body last hbody =>
        obtain ⟨hframe, rfl⟩ := Prod.mk.inj h
        obtain rfl := Except.ok.inj hframe
        rw [octets, encode, Envelope.encode_of_decode henvelope, List.append_assoc,
          ← eq_append_of_readBody hbody]

/-- Octets off which these frames are read one after another, and the octets that are left. -/
inductive Sequence : Bytes → List Frame → Bytes → Prop where
  /-- No frames. -/
  | done (rest : Bytes) : Sequence rest [] rest
  /-- A frame and frames after it. -/
  | cons {stream middle rest : Bytes} {frame : Frame} {frames : List Frame}
    (read_eq : read stream = (.ok frame, middle)) (following : Sequence middle frames rest) :
    Sequence stream (frame :: frames) rest

/-- What is read off a stream as frames are the octets of these frames and no others. -/
theorem Sequence.eq_octets {stream rest : Bytes} {frames : List Frame}
    (h : Sequence stream frames rest) : stream = (frames.map octets).flatten ++ rest := by
  induction h with
  | done rest => rfl
  | cons read_eq _ ih =>
    rw [eq_octets_of_read read_eq, ih, List.map_cons, List.flatten_cons, List.append_assoc]

end Frame

end MicroBus

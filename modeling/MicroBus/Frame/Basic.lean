import MicroBus.Bytes
import MicroBus.Fault

/-!
# Frames

A message on a stream is a frame: eight octets with the version, the kind, the sequence number
and the peer, and then the body, whose first word holds its length. `Frame.read` takes one
frame off the front of a stream; what it took is gone whether or not it succeeded.
-/

namespace MicroBus

/-- The version, kind, sequence number and peer of a message. -/
structure Envelope where
  /-- The version of the protocol. -/
  version : UInt8
  /-- What the message is. -/
  kind : Kind
  /-- The sequence number. -/
  seq : UInt16
  /-- The peer identifier that the daemon assigned. -/
  peer : UInt32
  deriving DecidableEq

namespace Envelope

/-- An envelope of the current version. -/
def current (kind : Kind) (seq : UInt16) (peer : UInt32) : Envelope := ⟨0, kind, seq, peer⟩

/-- The octets of an envelope. -/
def size : Nat := 8

/-- The eight octets of an envelope. -/
def encode (e : Envelope) : Bytes :=
  [e.version, e.kind.code] ++ Bytes.bigEndian 2 e.seq.toNat ++ Bytes.bigEndian 4 e.peer.toNat

@[simp] theorem length_encode (e : Envelope) : e.encode.length = 8 := by
  simp [encode]

/-- The envelope with these octets, of which there have to be eight. -/
def decode (b : Bytes) : Except Fault Envelope :=
  match b with
  | [version, kind, s, t, p, q, r, z] =>
    match Kind.ofCode? kind with
    | none => .error (.unknownKind kind)
    | some k =>
      .ok ⟨version, k, UInt16.ofNat (Bytes.ofBigEndian [s, t]),
        UInt32.ofNat (Bytes.ofBigEndian [p, q, r, z])⟩
  | _ => .error (.stream .ended)

end Envelope

/-- A message: its envelope, and its body with the length word, or nothing if the length word
was zero. -/
structure Frame where
  /-- The envelope. -/
  envelope : Envelope
  /-- The body, with its length word. -/
  body : Bytes
  deriving DecidableEq

namespace Frame

/-- The greatest length of a body that is accepted. -/
def maxBodyLength : Nat := 1024 * 1024

/-- The octets of a message. -/
def encode (envelope : Envelope) (body : Bytes) : Bytes := envelope.encode ++ body

/-- Takes exactly `n` octets off a stream. A stream with fewer is used up. -/
def take (n : Nat) (stream : Bytes) : Except Fault Bytes × Bytes :=
  if Bytes.atLeast n stream then (.ok (stream.take n), stream.drop n)
  else (.error (.stream .ended), [])

/-- The length of the body that begins with a word: nothing for the zero word, and else the
low twenty-four bits, which count the word itself. -/
def bodyLength (word : Bytes) : Except Fault Nat :=
  let raw := Bytes.ofBigEndian word
  let length := raw % 0x1000000
  if raw = 0 then .ok 0
  else if length < 4 ∨ maxBodyLength < length then .error (.badBodyLength length)
  else .ok length

/-- Takes a body off a stream. -/
def readBody (stream : Bytes) : Except Fault Bytes × Bytes :=
  match take 4 stream with
  | (.error f, rest) => (.error f, rest)
  | (.ok word, rest) =>
    match bodyLength word with
    | .error f => (.error f, rest)
    | .ok 0 => (.ok [], rest)
    | .ok length =>
      match take (length - 4) rest with
      | (.error f, rest) => (.error f, rest)
      | (.ok inside, rest) => (.ok (word ++ inside), rest)

/-- Takes one frame off a stream, and gives what is left. The kind is checked before the body
is touched. -/
def read (stream : Bytes) : Except Fault Frame × Bytes :=
  match take Envelope.size stream with
  | (.error f, rest) => (.error f, rest)
  | (.ok head, rest) =>
    match Envelope.decode head with
    | .error f => (.error f, rest)
    | .ok envelope =>
      match readBody rest with
      | (.error f, rest) => (.error f, rest)
      | (.ok body, rest) => (.ok ⟨envelope, body⟩, rest)

theorem length_take_le (n : Nat) (stream : Bytes) :
    (take n stream).2.length ≤ stream.length := by
  unfold take
  split
  · simp only [List.length_drop]
    omega
  · exact Nat.zero_le _

theorem length_readBody_le (stream : Bytes) : (readBody stream).2.length ≤ stream.length := by
  unfold readBody
  have hw := length_take_le 4 stream
  split
  · next h => rwa [h] at hw
  · next word rest h =>
    rw [h] at hw
    split
    · exact hw
    · exact hw
    · next length _ _ =>
      have hi := length_take_le (length - 4) rest
      split
      · next h => rw [h] at hi; exact Nat.le_trans hi hw
      · next h => rw [h] at hi; exact Nat.le_trans hi hw

/-- Taking octets off a stream succeeds only if they are there. -/
theorem length_of_take {n : Nat} {stream taken rest : Bytes}
    (h : take n stream = (.ok taken, rest)) : rest.length + n = stream.length := by
  unfold take at h
  split at h
  · next hb =>
    obtain ⟨-, rfl⟩ := Prod.mk.inj h
    have := Bytes.atLeast_iff.mp hb
    simp only [List.length_drop]
    omega
  · cases h

/-- A frame that was read is no shorter than its envelope. -/
theorem length_lt_of_read {stream rest : Bytes} {frame : Frame}
    (h : read stream = (.ok frame, rest)) : rest.length < stream.length := by
  unfold read at h
  split at h
  · cases h
  · next head r ht =>
    have hr := length_of_take ht
    simp only [Envelope.size] at hr
    split at h
    · cases h
    · have hb := length_readBody_le r
      split at h
      · cases h
      · next body s hs =>
        obtain ⟨-, rfl⟩ := Prod.mk.inj h
        rw [hs] at hb
        simp only at hb
        omega

/-- Writes a message over the front of a sink of fixed size. The sink takes what fits. -/
def writeInto (sink : Bytes) (envelope : Envelope) (body : Bytes) :
    Option Fault × Bytes :=
  let octets := encode envelope body
  let fault := if octets.length ≤ sink.length then none else some (.stream .full)
  (fault, octets.take sink.length ++ sink.drop octets.length)

end Frame

end MicroBus

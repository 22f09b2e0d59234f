import MicroBus.Body.Fields
import MicroBus.Proofs.Attribute.Word
import MicroBus.Proofs.Except
import MicroBus.Proofs.Frame.Read

/-!
# Frames keep their bounds

The length word of a body serves twice: a stream is cut by it, and the container in the body
counts its attributes by it. Both readers agree on it, so messages written one after another are
read back one by one with nothing left over, and whatever is read off a stream is a message whose
container ends where the body does.
-/

namespace MicroBus

namespace Envelope

/-- An envelope is read back from its octets. -/
theorem decode_encode_eq (e : Envelope) : decode e.encode = .ok e := by
  obtain ⟨version, kind, seq, peer⟩ := e
  have hs : Bytes.ofBigEndian (Bytes.bigEndian 2 seq.toNat) = seq.toNat :=
    Bytes.ofBigEndian_bigEndian_of_lt seq.toNat_lt
  have hp : Bytes.ofBigEndian (Bytes.bigEndian 4 peer.toNat) = peer.toNat :=
    Bytes.ofBigEndian_bigEndian_of_lt peer.toNat_lt
  have hseq : Bytes.bigEndian 2 seq.toNat =
      [UInt8.ofNat (seq.toNat / 256), UInt8.ofNat seq.toNat] := rfl
  have hpeer : Bytes.bigEndian 4 peer.toNat =
      [UInt8.ofNat (peer.toNat / 256 / 256 / 256), UInt8.ofNat (peer.toNat / 256 / 256),
        UInt8.ofNat (peer.toNat / 256), UInt8.ofNat peer.toNat] := rfl
  rw [hseq] at hs
  rw [hpeer] at hp
  simp only [encode, hseq, hpeer, List.cons_append, List.nil_append, decode, Kind.ofCode?_code, hs,
    hp, UInt16.ofNat_toNat, UInt32.ofNat_toNat]

end Envelope

namespace Frame

/-- A body that is as long as its first word says, and no longer than is accepted. -/
structure Declared (f : Frame) : Prop where
  /-- The body holds its length word. -/
  four_le : 4 ≤ f.body.length
  /-- The body is accepted. -/
  le_max : f.body.length ≤ maxBodyLength
  /-- The low bits of the word are the length. -/
  length_eq : Bytes.ofBigEndian (f.body.take 4) % 0x1000000 = f.body.length

instance (f : Frame) : Decidable f.Declared :=
  decidable_of_iff (4 ≤ f.body.length ∧ f.body.length ≤ maxBodyLength ∧
      Bytes.ofBigEndian (f.body.take 4) % 0x1000000 = f.body.length)
    ⟨fun ⟨four_le, le_max, length_eq⟩ => ⟨four_le, le_max, length_eq⟩,
      fun ⟨four_le, le_max, length_eq⟩ => ⟨four_le, le_max, length_eq⟩⟩

/-! ## Octets taken off a stream -/

theorem take_append {n : Nat} {front : Bytes} (h : front.length = n) (rest : Bytes) :
    take n (front ++ rest) = (.ok front, rest) := by
  have hb : Bytes.atLeast n (front ++ rest) = true := by
    rw [Bytes.atLeast_iff, List.length_append]
    omega
  rw [take, if_pos hb, List.take_left' h, List.drop_left' h]

theorem take_of_length_lt {n : Nat} {stream : Bytes} (h : stream.length < n) :
    take n stream = (.error (.stream .ended), []) := by
  have hb : ¬ Bytes.atLeast n stream = true := by
    rw [Bytes.atLeast_iff]
    omega
  rw [take, if_neg hb]

theorem bodyLength_eq_ok_iff {word : Bytes} {n : Nat} (h : n ≠ 0) : bodyLength word = .ok n ↔
    Bytes.ofBigEndian word % 0x1000000 = n ∧ 4 ≤ n ∧ n ≤ maxBodyLength := by
  unfold bodyLength
  simp only
  split
  · next hz =>
    rw [hz]
    constructor
    · intro he
      exact absurd (Except.ok.inj he).symm h
    · rintro ⟨he, -, -⟩
      exact absurd he.symm h
  · split
    · next hbad =>
      constructor
      · intro he
        cases he
      · rintro ⟨rfl, hfour, hmax⟩
        omega
    · next hgood =>
      rw [Except.ok.injEq]
      constructor
      · rintro rfl
        exact ⟨rfl, by omega, by omega⟩
      · exact fun he => he.1

/-- Behind the length word of a body stands the rest of it. -/
theorem readBody_word {word : Bytes} {n : Nat} (hw : word.length = 4) (hn : n ≠ 0)
    (hl : bodyLength word = .ok n) (rest : Bytes) : readBody (word ++ rest) =
      ((take (n - 4) rest).1.map (word ++ ·), (take (n - 4) rest).2) := by
  rw [readBody, take_append hw]
  simp only [hl]
  obtain ⟨result, left⟩ := take (n - 4) rest
  cases result <;> rfl

/-- The length word of a body that declares its length. -/
theorem Declared.bodyLength_eq {f : Frame} (h : f.Declared) :
    bodyLength (f.body.take 4) = .ok f.body.length := by
  have := h.four_le
  exact (bodyLength_eq_ok_iff (by omega)).mpr ⟨h.length_eq, h.four_le, h.le_max⟩

/-! ## What is written is read -/

/-- A body behind an envelope is read up to the length that it declares. -/
theorem Declared.readBody_eq {f : Frame} (h : f.Declared) (rest : Bytes) :
    readBody (f.body ++ rest) = (.ok f.body, rest) := by
  have four_le := h.four_le
  have hw : (f.body.take 4).length = 4 := by
    rw [List.length_take]
    omega
  have hi : (f.body.drop 4).length = f.body.length - 4 := List.length_drop
  have hsplit : f.body ++ rest = f.body.take 4 ++ (f.body.drop 4 ++ rest) := by
    rw [← List.append_assoc, List.take_append_drop]
  rw [hsplit, readBody_word hw (by omega) h.bodyLength_eq, take_append hi, Except.map,
    List.take_append_drop]

/-- A message is read behind its envelope. -/
theorem read_append (e : Envelope) (stream : Bytes) : read (e.encode ++ stream) =
    ((readBody stream).1.map (Frame.mk e), (readBody stream).2) := by
  have ht : take Envelope.size (e.encode ++ stream) = (.ok e.encode, stream) :=
    take_append (Envelope.length_encode e) stream
  rw [read, ht]
  simp only [Envelope.decode_encode_eq]
  obtain ⟨result, left⟩ := readBody stream
  cases result <;> rfl

/-- A message that was written is read, and what follows it is left. -/
theorem Declared.read_eq {f : Frame} (h : f.Declared) (rest : Bytes) :
    read (encode f.envelope f.body ++ rest) = (.ok f, rest) := by
  rw [encode, List.append_assoc, read_append, h.readBody_eq]
  rfl

/-- A message whose body is longer than is accepted is refused after the length word. -/
theorem read_of_long {body : Bytes} (four_le : 4 ≤ body.length)
    (length_eq : Bytes.ofBigEndian (body.take 4) % 0x1000000 = body.length)
    (long : maxBodyLength < body.length) (envelope : Envelope) (rest : Bytes) :
    read (encode envelope body ++ rest) =
      (.error (.badBodyLength body.length), body.drop 4 ++ rest) := by
  have hw : (body.take 4).length = 4 := by
    rw [List.length_take]
    omega
  have hl : bodyLength (body.take 4) = .error (.badBodyLength body.length) := by
    have hz : Bytes.ofBigEndian (body.take 4) ≠ 0 := by
      intro hz
      rw [hz] at length_eq
      omega
    rw [bodyLength]
    simp only [length_eq, if_neg hz, if_pos (Or.inr long)]
  have hsplit : body ++ rest = body.take 4 ++ (body.drop 4 ++ rest) := by
    rw [← List.append_assoc, List.take_append_drop]
  rw [encode, List.append_assoc, read_append, hsplit, readBody, take_append hw]
  simp only [hl]
  rfl

/-- The octets of messages that were written one after another. -/
def written (frames : List Frame) : Bytes :=
  (frames.map fun f => encode f.envelope f.body).flatten

/-- Writes messages one after another over the front of a sink, up to the first that does not
fit. -/
def writeEach (sink : Bytes) : List Frame → Option Fault × Bytes
  | [] => (none, sink)
  | f :: rest =>
    match writeInto sink f.envelope f.body with
    | (some fault, sink) => (some fault, sink)
    | (none, sink) =>
      let size := (encode f.envelope f.body).length
      let (fault, behind) := writeEach (sink.drop size) rest
      (fault, sink.take size ++ behind)

/-- A sink with room for messages takes their octets and keeps the rest of its own. -/
theorem writeEach_eq (frames : List Frame) {room : Bytes}
    (h : room.length = (written frames).length) (tail : Bytes) :
    writeEach (room ++ tail) frames = (none, written frames ++ tail) := by
  induction frames generalizing room with
  | nil =>
    obtain rfl := List.length_eq_zero_iff.mp h
    rfl
  | cons f frames ih =>
    generalize ho : encode f.envelope f.body = octets
    have hw : written (f :: frames) = octets ++ written frames := by
      rw [← ho]
      rfl
    rw [hw, List.length_append] at h
    have hroom : (room.drop octets.length).length = (written frames).length := by
      rw [List.length_drop]
      omega
    have hinto : writeInto (room ++ tail) f.envelope f.body =
        (none, octets ++ (room.drop octets.length ++ tail)) := by
      rw [writeInto, ho]
      simp only [List.length_append]
      rw [if_pos (by omega), List.take_of_length_le (by omega),
        List.drop_append_of_le_length (by omega)]
    rw [writeEach, hinto]
    simp only [ho, List.drop_left, List.take_left, ih hroom, hw, List.append_assoc]

/-- Messages that are read back each from its octets are read one after another from these. -/
theorem sequence_flatten {spelled : Frame → Bytes} {frames : List Frame}
    (h : ∀ f ∈ frames, ∀ rest, read (spelled f ++ rest) = (.ok f, rest)) (tail : Bytes) :
    Sequence ((frames.map spelled).flatten ++ tail) frames tail := by
  induction frames with
  | nil => exact .done tail
  | cons f frames ih =>
    rw [List.forall_mem_cons] at h
    rw [List.map_cons, List.flatten_cons, List.append_assoc]
    exact .cons (h.1 _) (ih h.2)

/-- Messages that were written one after another are read one after another. -/
theorem sequence_written {frames : List Frame} (h : ∀ f ∈ frames, f.Declared) (tail : Bytes) :
    Sequence (written frames ++ tail) frames tail :=
  sequence_flatten (fun f hf => (h f hf).read_eq) tail

/-! ## Messages that are cut off -/

/-- A body that is cut off uses the stream up. -/
theorem Declared.readBody_of_prefix {f : Frame} (h : f.Declared) {front : Bytes}
    (hp : front <+: f.body) (hlt : front.length < f.body.length) :
    readBody front = (.error (.stream .ended), []) := by
  have four_le := h.four_le
  by_cases hf : front.length < 4
  · rw [readBody, take_of_length_lt hf]
  · have hw : (front.take 4).length = 4 := by
      rw [List.length_take]
      omega
    have hword : front.take 4 = f.body.take 4 := by
      obtain ⟨back, hb⟩ := hp
      rw [← hb, List.take_append_of_le_length (by omega)]
    have hcut : take (f.body.length - 4) (front.drop 4) = (.error (.stream .ended), []) := by
      apply take_of_length_lt
      rw [List.length_drop]
      omega
    have hr := readBody_word hw (by omega) (hword ▸ h.bodyLength_eq) (front.drop 4)
    rwa [List.take_append_drop, hcut] at hr

/-- A message that is cut off anywhere uses the stream up and is not read. -/
theorem Declared.read_of_prefix {f : Frame} (h : f.Declared) {front : Bytes}
    (hp : front <+: encode f.envelope f.body) (hne : front ≠ encode f.envelope f.body) :
    read front = (.error (.stream .ended), []) := by
  obtain ⟨back, hb⟩ := hp
  by_cases hs : front.length < Envelope.size
  · rw [read, take_of_length_lt hs]
  · have hhead : f.envelope.encode <+: front :=
      List.prefix_of_prefix_length_le ⟨f.body, rfl⟩ ⟨back, hb⟩ (by
        rw [Envelope.length_encode]
        exact Nat.le_of_not_lt hs)
    obtain ⟨inside, rfl⟩ := hhead
    rw [encode, List.append_assoc, List.append_cancel_left_eq] at hb
    have hlt : inside.length < f.body.length := by
      rw [← hb, List.length_append]
      have hback : back ≠ [] := by
        rintro rfl
        rw [List.append_nil] at hb
        exact hne (by rw [hb, encode])
      have := List.length_pos_iff.mpr hback
      omega
    rw [read_append, h.readBody_of_prefix ⟨back, hb⟩ hlt]
    rfl

/-! ## What is read was written -/

/-- A body that was read is empty or declares its own length. -/
theorem declared_of_readBody {stream body rest : Bytes} (envelope : Envelope)
    (h : readBody stream = (.ok body, rest)) (hne : body ≠ []) : Declared ⟨envelope, body⟩ := by
  unfold readBody at h
  split at h
  · cases h
  · next word tail hword =>
    obtain ⟨hw, -⟩ := eq_append_of_take hword
    split at h
    · cases h
    · obtain ⟨hbody, -⟩ := Prod.mk.inj h
      exact absurd (Except.ok.inj hbody).symm hne
    · next length hz hlength =>
      split at h
      · cases h
      · next inside last hinside =>
        obtain ⟨hi, -⟩ := eq_append_of_take hinside
        obtain ⟨hbody, -⟩ := Prod.mk.inj h
        obtain rfl := Except.ok.inj hbody
        obtain ⟨heq, hfour, hmax⟩ := (bodyLength_eq_ok_iff hz).mp hlength
        have hl : (word ++ inside).length = length := by
          rw [List.length_append]
          omega
        constructor
        · rwa [hl]
        · rwa [hl]
        · rw [hl, List.take_left' hw, heq]

theorem declared_of_read {stream rest : Bytes} {frame : Frame}
    (h : read stream = (.ok frame, rest)) (hne : frame.body ≠ []) : frame.Declared := by
  unfold read at h
  split at h
  · cases h
  · split at h
    · cases h
    · next envelope _ =>
      split at h
      · cases h
      · next body last hbody =>
        obtain ⟨hframe, -⟩ := Prod.mk.inj h
        obtain rfl := Except.ok.inj hframe
        exact declared_of_readBody envelope hbody hne

/-- The container in a body that declares its length ends where the body does. -/
theorem Declared.parse_eq {f : Frame} (h : f.Declared) :
    ∃ header, Header.parse f.body = .ok header ∧ header.length = f.body.length := by
  obtain ⟨four_le, -, length_eq⟩ := h
  rw [← Bytes.toNat_firstWord] at length_eq
  exact ⟨_, Header.parse_eq_ok_iff.mpr ⟨four_le, by omega, by omega, rfl⟩, length_eq⟩

theorem Declared.contents_eq {f : Frame} (h : f.Declared) :
    Wire.contents f.body = .ok (f.body.drop 4) := by
  obtain ⟨header, hp, hl⟩ := h.parse_eq
  have ht : (f.body.drop 4).take (f.body.length - 4) = f.body.drop 4 :=
    List.take_of_length_le (Nat.le_of_eq List.length_drop)
  rw [Wire.contents, hp, ok_bind, hl, ht]

/-- Messages of any envelopes whose bodies declare their lengths are written into any sink that
has room for them, and read back in order, with whatever follows them left; and a message that is
cut off anywhere ends the stream. Whatever is read stood on the stream octet by octet, with the
zero word for an empty body, and any other body is as long as its first word says, so that the
header of the container in it is never refused. -/
theorem framing_lossless :
    (∀ frames : List Frame, (∀ f ∈ frames, f.Declared) → ∀ room tail : Bytes,
      room.length = (written frames).length →
      writeEach (room ++ tail) frames = (none, written frames ++ tail) ∧
        Sequence (written frames ++ tail) frames tail) ∧
    (∀ f : Frame, f.Declared → ∀ front, front <+: encode f.envelope f.body →
      front ≠ encode f.envelope f.body → read front = (.error (.stream .ended), [])) ∧
    ∀ stream frame rest, read stream = (.ok frame, rest) →
      stream =
        frame.envelope.encode ++ (if frame.body = [] then Bytes.zeroWord else frame.body) ++ rest ∧
      (frame.body ≠ [] → Bytes.ofBigEndian (frame.body.take 4) % 0x1000000 = frame.body.length ∧
        (∃ header, Header.parse frame.body = .ok header ∧ header.length = frame.body.length) ∧
        Wire.contents frame.body = .ok (frame.body.drop 4)) := by
  refine ⟨?_, ?_, ?_⟩
  · intro frames h room tail hroom
    exact ⟨writeEach_eq frames hroom tail, sequence_written h tail⟩
  · intro f h front hp hne
    exact h.read_of_prefix hp hne
  · intro stream frame rest h
    refine ⟨eq_octets_of_read h, fun hne => ?_⟩
    have hd := declared_of_read h hne
    exact ⟨hd.length_eq, hd.parse_eq, hd.contents_eq⟩

/-- A body of nine octets whose word has every other bit set, and the shortest body behind it:
both are written over the front of a sink and read back, the first is not read without its last
octet, and its container is all of it. -/
theorem framing_lossless_unaligned :
    let f : Frame := ⟨⟨255, .monitor, 0xFFFF, 0xFFFFFFFF⟩, [255, 0, 0, 9, 1, 0, 0, 5, 0xAB]⟩
    let g : Frame := ⟨.current .status 2 9, [0, 0, 0, 4]⟩
    let sink : Bytes := List.replicate 29 0xEE ++ [7]
    let octets : Bytes := [255, 11, 255, 255, 255, 255, 255, 255, 255, 0, 0, 9, 1, 0, 0, 5, 0xAB,
      0, 1, 0, 2, 0, 0, 0, 9, 0, 0, 0, 4]
    writeEach sink [f, g] = (none, octets ++ [7]) ∧ Sequence (octets ++ [7]) [f, g] [7] ∧
      read (octets.take 16) = (.error (.stream .ended), []) ∧
      Wire.contents f.body = .ok [1, 0, 0, 5, 0xAB] := by
  intro f g sink octets
  have hf : f.Declared := by decide
  have hg : g.Declared := by decide
  have ho : written [f, g] = octets := by decide
  obtain ⟨written_read, cut, consumed⟩ := framing_lossless
  obtain ⟨hw, hs⟩ := written_read [f, g] (by simp [hf, hg]) (List.replicate 29 0xEE) [7]
    (by rw [ho]; decide)
  rw [ho] at hw hs
  have hread : read (octets ++ [7]) = (.ok f, octets.drop 17 ++ [7]) := by decide
  refine ⟨hw, hs, cut f hf (octets.take 16) ⟨[0xAB], by decide⟩ (by decide), ?_⟩
  exact ((consumed _ _ _ hread).2 (by decide)).2.2

end Frame

end MicroBus

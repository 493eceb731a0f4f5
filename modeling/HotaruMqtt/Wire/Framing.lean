import HotaruMqtt.Library.Incremental
import HotaruMqtt.Wire.Codec

/-!
# Framing

A decoding attempt either waits, refuses the fixed header, or takes one whole frame off the
buffer. Once it does anything but wait, bytes that arrive later do not change what it does. The
decoder is therefore a settled incremental decoder, and decoding a stream does not depend on how
the stream is cut into chunks.
-/

namespace HotaruMqtt.Codec

open Library

/-- A length that is finished or refused does not look at the bytes behind it. -/
theorem decodeLengthFrom_append (data more : Bytes) (i result multiplier : ℕ)
    (h : decodeLengthFrom data i result multiplier ≠ .ok none) :
    decodeLengthFrom (data ++ more) i result multiplier =
      decodeLengthFrom data i result multiplier := by
  induction data generalizing i result multiplier with
  | nil => exact absurd rfl h
  | cons byte data ih =>
    simp only [decodeLengthFrom, List.cons_append] at h ⊢
    split
    · rfl
    · rename_i hmore
      rw [if_neg hmore] at h
      split
      · rfl
      · rename_i hindex
        rw [if_neg hindex] at h
        exact ih _ _ _ h

/-- The only error of a remaining length is that it is malformed. -/
theorem decodeLengthFrom_error (data : Bytes) (i result multiplier : ℕ) {fault : Fault}
    (h : decodeLengthFrom data i result multiplier = .error fault) :
    fault = .codec .malformedLength := by
  induction data generalizing i result multiplier with
  | nil => cases h
  | cons byte data ih =>
    simp only [decodeLengthFrom] at h
    split at h
    · cases h
    · split at h
      · cases h
        rfl
      · exact ih _ _ _ h

/-- A finished length consists of the bytes up to its count, and these alone give it. -/
theorem decodeLengthFrom_split (data : Bytes) (i result multiplier remaining count : ℕ)
    (h : decodeLengthFrom data i result multiplier = .ok (some (remaining, count))) :
    ∃ lengthBytes rest, data = lengthBytes ++ rest ∧ count = i + lengthBytes.length ∧
      decodeLengthFrom lengthBytes i result multiplier = .ok (some (remaining, count)) := by
  induction data generalizing i result multiplier with
  | nil => cases h
  | cons byte data ih =>
    simp only [decodeLengthFrom] at h
    split at h
    · rename_i hlast
      cases h
      exact ⟨[byte], data, rfl, rfl, by simp only [decodeLengthFrom, if_pos hlast]⟩
    · rename_i hmore
      split at h
      · cases h
      · rename_i hindex
        obtain ⟨lengthBytes, rest, rfl, hcount, hbytes⟩ := ih _ _ _ h
        refine ⟨byte :: lengthBytes, rest, rfl, ?_, ?_⟩
        · rw [List.length_cons]
          omega
        · simp only [decodeLengthFrom, if_neg hmore, if_neg hindex]
          exact hbytes

/-- The four ways in which a decoding attempt on `buf` can end. -/
inductive Framed (version : ProtocolVersion) (buf : Bytes) :
    Except Fault (Option Packet) × Bytes → Prop where
  | waits : Framed version buf (.ok none, buf)
  | refusesType (first second : UInt8) (data : Bytes) (hbuf : buf = first :: second :: data)
      (htype : PacketType.tryFrom (first >>> 4) = none) :
      Framed version buf (.error (.codec (.invalidPacketType (first >>> 4))), buf)
  | refusesLength (first second : UInt8) (data : Bytes) (hbuf : buf = first :: second :: data)
      (htype : (PacketType.tryFrom (first >>> 4)).isSome)
      (hlength : decodeRemainingLengthFromSlice (second :: data) =
        .error (.codec .malformedLength)) :
      Framed version buf (.error (.codec .malformedLength), buf)
  | consumes (first : UInt8) (packetType : PacketType) (lengthBytes body rest : Bytes)
      (hbuf : buf = first :: (lengthBytes ++ (body ++ rest)))
      (htype : PacketType.tryFrom (first >>> 4) = some packetType)
      (hlength : decodeRemainingLengthFromSlice lengthBytes =
        .ok (some (body.length, lengthBytes.length))) :
      Framed version buf
        (some <$> parsePacket first packetType body.length body version, rest)

/-- The attempt on a buffer of at least two bytes with a known packet type. -/
theorem decodePacketFromBytes_of_type (version : ProtocolVersion) (first second : UInt8)
    (data : Bytes) {packetType : PacketType}
    (htype : PacketType.tryFrom (first >>> 4) = some packetType) :
    decodePacketFromBytes (first :: second :: data) version =
      match decodeRemainingLengthFromSlice (second :: data) with
      | .error fault => (.error fault, first :: second :: data)
      | .ok none => (.ok none, first :: second :: data)
      | .ok (some (remaining, rlBytes)) =>
          if (first :: second :: data).length < 1 + rlBytes + remaining then
            (.ok none, first :: second :: data)
          else
            (some <$> parsePacket first packetType remaining
                (((first :: second :: data).take (1 + rlBytes + remaining)).drop (1 + rlBytes))
                version,
              (first :: second :: data).drop (1 + rlBytes + remaining)) := by
  unfold decodePacketFromBytes
  dsimp only
  split
  · rename_i hnone
    rw [htype] at hnone
    cases hnone
  · rename_i hsome
    rw [htype] at hsome
    cases hsome
    rfl

/-- An invalid type is reported before the length is looked at. -/
theorem decodePacketFromBytes_of_no_type (version : ProtocolVersion) (first second : UInt8)
    (data : Bytes) (htype : PacketType.tryFrom (first >>> 4) = none) :
    decodePacketFromBytes (first :: second :: data) version =
      (.error (.codec (.invalidPacketType (first >>> 4))), first :: second :: data) := by
  simp only [decodePacketFromBytes, htype]

theorem decodePacketFromBytes_of_malformed (version : ProtocolVersion) (first second : UInt8)
    (data : Bytes) (htype : (PacketType.tryFrom (first >>> 4)).isSome)
    (hlength : decodeRemainingLengthFromSlice (second :: data) =
      .error (.codec .malformedLength)) :
    decodePacketFromBytes (first :: second :: data) version =
      (.error (.codec .malformedLength), first :: second :: data) := by
  obtain ⟨packetType, htype⟩ := Option.isSome_iff_exists.mp htype
  rw [decodePacketFromBytes_of_type version first second data htype, hlength]

/-- A complete frame is taken off the front, whatever follows it. -/
theorem decodePacketFromBytes_frame (version : ProtocolVersion) {first : UInt8}
    {packetType : PacketType} {lengthBytes body : Bytes} (rest : Bytes)
    (htype : PacketType.tryFrom (first >>> 4) = some packetType)
    (hlength : decodeRemainingLengthFromSlice lengthBytes =
      .ok (some (body.length, lengthBytes.length))) :
    decodePacketFromBytes (first :: (lengthBytes ++ (body ++ rest))) version =
      (some <$> parsePacket first packetType body.length body version, rest) := by
  cases lengthBytes with
  | nil => cases hlength
  | cons second lengthBytes =>
    have hslice : decodeRemainingLengthFromSlice (second :: lengthBytes ++ (body ++ rest)) =
        .ok (some (body.length, (second :: lengthBytes).length)) := by
      rw [← hlength]
      refine decodeLengthFrom_append _ _ _ _ _ ?_
      change decodeRemainingLengthFromSlice (second :: lengthBytes) ≠ _
      simp [hlength]
    have hheader : first :: second :: (lengthBytes ++ (body ++ rest)) =
        (first :: second :: lengthBytes) ++ (body ++ rest) := rfl
    have hcount : 1 + (second :: lengthBytes).length = (first :: second :: lengthBytes).length := by
      simp only [List.length_cons]
      omega
    rw [List.cons_append, decodePacketFromBytes_of_type version first second _ htype,
      ← List.cons_append, hslice, List.cons_append, hheader]
    simp only [hcount, List.length_append]
    generalize first :: second :: lengthBytes = header
    rw [if_neg (by omega), ← List.append_assoc, ← List.length_append, List.take_left,
      List.drop_left, List.drop_left]

/-- Every attempt waits, fails or takes one frame from the buffer. -/
theorem framed_decodePacketFromBytes (version : ProtocolVersion) (buf : Bytes) :
    Framed version buf (decodePacketFromBytes buf version) := by
  match buf with
  | [] => exact .waits
  | [_] => exact .waits
  | first :: second :: data =>
    cases htype : PacketType.tryFrom (first >>> 4) with
    | none =>
      rw [decodePacketFromBytes_of_no_type version first second data htype]
      exact .refusesType first second data rfl htype
    | some packetType =>
      cases hlength : decodeRemainingLengthFromSlice (second :: data) with
      | error fault =>
        obtain rfl := decodeLengthFrom_error _ _ _ _ hlength
        have hsome : (PacketType.tryFrom (first >>> 4)).isSome := by simp [htype]
        rw [decodePacketFromBytes_of_malformed version first second data hsome hlength]
        exact .refusesLength first second data rfl hsome hlength
      | ok announced =>
        obtain _ | ⟨remaining, rlBytes⟩ := announced
        · rw [decodePacketFromBytes_of_type version first second data htype, hlength]
          exact .waits
        · obtain ⟨lengthBytes, tail, hdata, hcount, hbytes⟩ :=
            decodeLengthFrom_split _ _ _ _ _ _ hlength
          obtain rfl : rlBytes = lengthBytes.length := by omega
          by_cases hshort : (first :: second :: data).length < 1 + lengthBytes.length + remaining
          · rw [decodePacketFromBytes_of_type version first second data htype, hlength]
            simp only [if_pos hshort]
            exact .waits
          · obtain ⟨body, rest, rfl, rfl⟩ : ∃ body rest, tail = body ++ rest ∧
                body.length = remaining := by
              refine ⟨tail.take remaining, tail.drop remaining,
                (List.take_append_drop remaining tail).symm, ?_⟩
              rw [List.length_cons, hdata, List.length_append] at hshort
              rw [List.length_take]
              omega
            rw [hdata, decodePacketFromBytes_frame version rest htype hbytes]
            exact .consumes first packetType lengthBytes body rest rfl htype hbytes

/-- A packet is decoded from a frame at the front of the buffer. -/
theorem exists_frame_of_decode {version : ProtocolVersion} {buf rest : Bytes} {packet : Packet}
    (h : decodePacketFromBytes buf version = (.ok (some packet), rest)) :
    ∃ first packetType lengthBytes body, buf = first :: (lengthBytes ++ (body ++ rest)) ∧
      PacketType.tryFrom (first >>> 4) = some packetType ∧
      decodeRemainingLengthFromSlice lengthBytes =
        .ok (some (body.length, lengthBytes.length)) ∧
      parsePacket first packetType body.length body version = .ok packet := by
  have hframed := framed_decodePacketFromBytes version buf
  rw [h] at hframed
  generalize hresult : ((.ok (some packet), rest) : Except Fault (Option Packet) × Bytes) = result
    at hframed
  cases hframed with
  | waits | refusesType | refusesLength => cases hresult
  | consumes first packetType lengthBytes body rest' hbuf htype hlength =>
    obtain ⟨hparsed, rfl⟩ := Prod.mk.inj hresult
    refine ⟨first, packetType, lengthBytes, body, hbuf, htype, hlength, ?_⟩
    cases hparse : parsePacket first packetType body.length body version with
    | error fault =>
      rw [hparse] at hparsed
      cases hparsed
    | ok parsed =>
      rw [hparse] at hparsed
      cases hparsed
      rfl

/-- An attempt that does not wait has settled what it does. -/
theorem decodePacketFromBytes_append (version : ProtocolVersion) (buf more : Bytes)
    (h : (decodePacketFromBytes buf version).1 ≠ .ok none) :
    decodePacketFromBytes (buf ++ more) version =
      ((decodePacketFromBytes buf version).1, (decodePacketFromBytes buf version).2 ++ more) := by
  generalize hresult : decodePacketFromBytes buf version = result at h
  have hframed : Framed version buf result := hresult ▸ framed_decodePacketFromBytes version buf
  cases hframed with
  | waits => exact absurd rfl h
  | refusesType first second data hbuf htype =>
    subst hbuf
    exact decodePacketFromBytes_of_no_type version first second (data ++ more) htype
  | refusesLength first second data hbuf htype hlength =>
    subst hbuf
    refine decodePacketFromBytes_of_malformed version first second (data ++ more) htype ?_
    rw [← hlength]
    exact decodeLengthFrom_append (second :: data) more 0 0 1
      (fun h ↦ by rw [decodeRemainingLengthFromSlice, h] at hlength; cases hlength)
  | consumes first packetType lengthBytes body rest hbuf htype hlength =>
    subst hbuf
    rw [List.cons_append, List.append_assoc, List.append_assoc,
      decodePacketFromBytes_frame version (rest ++ more) htype hlength]

/-- The decoder waits without a change and takes at least a byte with each packet. -/
theorem settled_decodePacketFromBytes (version : ProtocolVersion) :
    Incremental.Settled (fun buf ↦ decodePacketFromBytes buf version) where
  waits buf h := by
    generalize hresult : decodePacketFromBytes buf version = result at h
    have hframed : Framed version buf result := hresult ▸ framed_decodePacketFromBytes version buf
    cases hframed with
    | waits => rfl
    | refusesType => cases h
    | refusesLength => cases h
    | consumes first packetType lengthBytes body rest hbuf htype hlength =>
      cases hparse : parsePacket first packetType body.length body version <;>
        rw [hparse] at h <;> cases h
  stable buf more h := decodePacketFromBytes_append version buf more h
  shrinks buf packet h := by
    generalize hresult : decodePacketFromBytes buf version = result at h
    have hframed : Framed version buf result := hresult ▸ framed_decodePacketFromBytes version buf
    cases hframed with
    | waits => cases h
    | refusesType => cases h
    | refusesLength => cases h
    | consumes first packetType lengthBytes body rest hbuf htype hlength =>
      change rest.length < buf.length
      rw [hbuf, List.length_cons, List.length_append, List.length_append]
      omega
  empty := rfl

/-- Append the stream chunk by chunk and decode as far as possible after every chunk. -/
def decodeChunks (version : ProtocolVersion) (chunks : List Bytes) :
    Incremental.Drained Fault UInt8 Packet :=
  Incremental.feedAll (fun buf ↦ decodePacketFromBytes buf version) chunks

/-- Decode the stream as one buffer. -/
def decodeWhole (version : ProtocolVersion) (stream : Bytes) :
    Incremental.Drained Fault UInt8 Packet :=
  Incremental.drain (fun buf ↦ decodePacketFromBytes buf version) stream

/-- Framing is independent of how the stream is cut. An attempt waits, refuses the header or takes
one whole frame; what it does other than waiting is not changed by later bytes; and every split
into chunks yields the packets, the failure and the rest of the whole stream, decoded until the
decoder waits. -/
theorem decodePacketFromBytes_chunk_independent (version : ProtocolVersion) :
    (∀ buf, Framed version buf (decodePacketFromBytes buf version)) ∧
    (∀ buf more, (decodePacketFromBytes buf version).1 ≠ .ok none →
      decodePacketFromBytes (buf ++ more) version =
        ((decodePacketFromBytes buf version).1,
          (decodePacketFromBytes buf version).2 ++ more)) ∧
    (∀ chunks, decodeChunks version chunks = decodeWhole version chunks.flatten) ∧
    (∀ stream, (decodeWhole version stream).fault = none →
      (decodePacketFromBytes (decodeWhole version stream).rest version).1 = .ok none) :=
  ⟨framed_decodePacketFromBytes version,
    decodePacketFromBytes_append version,
    Incremental.feedAll_eq_drain (settled_decodePacketFromBytes version),
    Incremental.drain_waits (settled_decodePacketFromBytes version)⟩

/-- A PINGREQ and the first byte of a PINGRESP, cut inside the first frame. -/
theorem decodeChunks_cut_pingreq :
    decodePacketFromBytes ([0xC0, 0x00] ++ [0xD0]) .v311 = (.ok (some .pingreq), [0xD0]) ∧
    decodeChunks .v311 [[0xC0], [0x00, 0xD0]] = decodeWhole .v311 [0xC0, 0x00, 0xD0] := by
  obtain ⟨-, hstable, hchunks, -⟩ := decodePacketFromBytes_chunk_independent .v311
  refine ⟨?_, hchunks [[0xC0], [0x00, 0xD0]]⟩
  have hpingreq : decodePacketFromBytes [0xC0, 0x00] .v311 = (.ok (some .pingreq), []) := rfl
  rw [hstable [0xC0, 0x00] [0xD0] (by rw [hpingreq]; nofun), hpingreq]
  rfl

end HotaruMqtt.Codec

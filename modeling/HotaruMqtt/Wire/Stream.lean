import HotaruMqtt.Wire.Framing
import HotaruMqtt.Wire.WellFormed

/-!
# Packets on a stream

A packet is framed twice in the code: `read_packet` takes it from a stream byte by byte, and
`decode_packet_from_bytes` looks at a buffer that may still be incomplete. On the same bytes they
do the same, except that the stream reader fails where the decoder would wait for more.

A PUBLISH is also written in two ways. `write_packet` encodes it into a buffer, and
`write_publish_packet` writes its header and then its payload. Both put the same bytes on the
stream, or none.
-/

namespace HotaruMqtt.Codec

/-- What the stream reader makes of a decoding attempt on all the bytes there are. -/
def ofAttempt : Except Fault (Option Packet) × Bytes → Except Fault (Packet × Bytes)
  | (.ok (some packet), rest) => .ok (packet, rest)
  | (.ok none, _) => .error (.error .io)
  | (.error fault, _) => .error fault

/-- The two loops over the bytes of a remaining length agree. -/
theorem readLengthFrom_eq (wire : Bytes) {i : ℕ} (hi : i ≤ 3) (result multiplier : ℕ) :
    readLengthFrom wire i result multiplier =
      match decodeLengthFrom wire i result multiplier with
      | .error fault => .error fault
      | .ok none => .error (.error .io)
      | .ok (some (remaining, count)) => .ok (remaining, wire.drop (count - i)) := by
  induction wire generalizing i result multiplier with
  | nil => rfl
  | cons byte wire ih =>
    simp only [readLengthFrom, decodeLengthFrom]
    by_cases hlast : byte &&& 0x80 = 0
    · simp [hlast]
    · rw [if_neg hlast, if_neg hlast]
      by_cases hthird : i = 3
      · rw [if_pos hthird, if_pos (Nat.le_of_eq hthird.symm)]
      · have hmore : ¬ i ≥ 3 := by omega
        rw [if_neg hthird, if_neg hmore, ih (by omega)]
        cases hlength : decodeLengthFrom wire (i + 1) _ (multiplier * 128) with
        | error fault => rfl
        | ok announced =>
          cases announced with
          | none => rfl
          | some length =>
            obtain ⟨remaining, count⟩ := length
            obtain ⟨lengthBytes, rest, -, hcount, -⟩ := decodeLengthFrom_split _ _ _ _ _ _ hlength
            have hdrop : count - i = count - (i + 1) + 1 := by omega
            simp only [hdrop, List.drop_succ_cons]

/-- Reading a length from a stream is decoding it from what is there. -/
theorem readRemainingLength_eq (wire : Bytes) :
    readRemainingLength wire =
      match decodeRemainingLengthFromSlice wire with
      | .error fault => .error fault
      | .ok none => .error (.error .io)
      | .ok (some (remaining, count)) => .ok (remaining, wire.drop count) :=
  readLengthFrom_eq wire (Nat.zero_le 3) 0 1

/-- On at least two bytes the stream reader does what the decoding attempt does. -/
theorem readPacket_eq_ofAttempt (version : ProtocolVersion) (first second : UInt8) (data : Bytes) :
    readPacket (first :: second :: data) version =
      ofAttempt (decodePacketFromBytes (first :: second :: data) version) := by
  cases htype : PacketType.tryFrom (first >>> 4) with
  | none =>
    rw [decodePacketFromBytes_of_no_type version first second data htype]
    simp only [readPacket, htype]
    rfl
  | some packetType =>
    rw [decodePacketFromBytes_of_type version first second data htype]
    simp only [readPacket, htype, readRemainingLength_eq]
    cases hlength : decodeRemainingLengthFromSlice (second :: data) with
    | error fault => rfl
    | ok announced =>
      cases announced with
      | none => rfl
      | some length =>
        obtain ⟨remaining, count⟩ := length
        obtain ⟨lengthBytes, tail, hdata, hcount, -⟩ := decodeLengthFrom_split _ _ _ _ _ _ hlength
        obtain rfl : count = lengthBytes.length := by omega
        have htotal : (first :: second :: data).length < 1 + lengthBytes.length + remaining ↔
            ¬ remaining ≤ tail.length := by
          rw [List.length_cons, hdata, List.length_append]
          omega
        have hwire : (second :: data).drop lengthBytes.length = tail := by
          rw [hdata, List.drop_left]
        have hheader : (first :: second :: data).drop (1 + lengthBytes.length) = tail := by
          rw [Nat.add_comm, List.drop_succ_cons, hwire]
        have hbody : ((first :: second :: data).take (1 + lengthBytes.length + remaining)).drop
            (1 + lengthBytes.length) = tail.take remaining := by
          rw [List.drop_take, hheader, Nat.add_sub_cancel_left]
        have hrest : (first :: second :: data).drop (1 + lengthBytes.length + remaining) =
            tail.drop remaining := by
          rw [← List.drop_drop, hheader]
        simp only [htotal, hbody, hrest, hwire, readExact, bind, Except.bind]
        by_cases hroom : remaining ≤ tail.length
        · simp only [hroom, if_true, not_true_eq_false, if_false]
          cases parsePacket first packetType remaining (tail.take remaining) version <;> rfl
        · simp only [hroom, if_false, not_false_eq_true, if_true]
          rfl

/-- A packet is decoded from the front of the buffer. -/
theorem exists_consumed_of_decode {version : ProtocolVersion} {buf rest : Bytes} {packet : Packet}
    (h : decodePacketFromBytes buf version = (.ok (some packet), rest)) :
    ∃ consumed, buf = consumed ++ rest := by
  obtain ⟨first, packetType, lengthBytes, body, hbuf, -, -, -⟩ := exists_frame_of_decode h
  exact ⟨first :: (lengthBytes ++ body), by rw [hbuf, List.cons_append, List.append_assoc]⟩

theorem ofAttempt_eq_ok_iff {attempt : Except Fault (Option Packet) × Bytes} {packet : Packet}
    {rest : Bytes} :
    ofAttempt attempt = .ok (packet, rest) ↔ attempt = (.ok (some packet), rest) := by
  match attempt with
  | (.ok (some packet'), rest') => simp [ofAttempt]
  | (.ok none, rest') => simp [ofAttempt]
  | (.error fault, rest') => simp [ofAttempt]

/-- The stream reader and the buffer decoder are the same decoder: they take the same packet off
the front of the same bytes, they fail with the same errors, and where the decoder waits the
stream ends too early. -/
theorem readPacket_agrees_decodePacketFromBytes (version : ProtocolVersion) (bytes : Bytes)
    (hlength : 2 ≤ bytes.length) :
    (∀ packet rest, decodePacketFromBytes bytes version = (.ok (some packet), rest) ↔
      readPacket bytes version = .ok (packet, rest) ∧ ∃ consumed, bytes = consumed ++ rest) ∧
    (∀ reason, (decodePacketFromBytes bytes version).1 = .error (.error reason) →
      readPacket bytes version = .error (.error reason)) ∧
    ((decodePacketFromBytes bytes version).1 = .ok none →
      readPacket bytes version = .error (.error .io)) := by
  obtain ⟨first, second, data, rfl⟩ : ∃ first second data, bytes = first :: second :: data := by
    match bytes, hlength with
    | first :: second :: data, _ => exact ⟨first, second, data, rfl⟩
  rw [readPacket_eq_ofAttempt]
  refine ⟨?_, ?_, ?_⟩
  · intro packet rest
    rw [ofAttempt_eq_ok_iff]
    exact ⟨fun h ↦ ⟨h, exists_consumed_of_decode h⟩, fun h ↦ h.1⟩
  · intro reason h
    rw [← Prod.eta (decodePacketFromBytes _ version), h]
    rfl
  · intro h
    rw [← Prod.eta (decodePacketFromBytes _ version), h]
    rfl

/-- A PINGREQ in front of another packet, and a PINGREQ that is cut off. -/
theorem readPacket_agrees_pingreq :
    readPacket [0xC0, 0x00, 0xD0] .v5 = .ok (.pingreq, [0xD0]) ∧
      readPacket [0xC0, 0x80] .v311 = .error (.error .io) := by
  obtain ⟨hwhole, -, -⟩ := readPacket_agrees_decodePacketFromBytes .v5 [0xC0, 0x00, 0xD0]
    (by decide)
  obtain ⟨-, -, hcut⟩ := readPacket_agrees_decodePacketFromBytes .v311 [0xC0, 0x80] (by decide)
  exact ⟨((hwhole .pingreq [0xD0]).mp rfl).1, hcut rfl⟩

/-- `write_packet` on a writer that accepts everything, with all that it was given. -/
def writePacketOn (wire : Bytes) (packet : Packet) (version : ProtocolVersion) :
    Except MqttError Unit × Bytes :=
  match encodePacket packet version with
  | .error reason => (.error reason, wire)
  | .ok buf => (.ok (), wire ++ buf)

/-- `write_publish_packet` on a writer that accepts everything: one write after the other. -/
def writePublishOn (wire : Bytes) (packet : PublishPacket) (version : ProtocolVersion) :
    Except MqttError Unit × Bytes :=
  match writePublishPacket packet version with
  | .error reason => (.error reason, wire)
  | .ok writes => (.ok (), writes.foldl (· ++ ·) wire)

theorem requirePacketId_of_isSome {p : PublishPacket}
    (h : p.qos ≠ .atMostOnce → p.packetId.isSome) (header : Bytes) :
    requirePacketId p header = .ok (header ++ packetIdField p) := by
  unfold requirePacketId packetIdField
  by_cases hqos : p.qos ≠ .atMostOnce
  · obtain ⟨id, hid⟩ := Option.isSome_iff_exists.mp (h hqos)
    rw [if_pos hqos, if_pos hqos, hid]
    rfl
  · rw [if_neg hqos, if_neg hqos, List.append_nil]

/-- With the identifier it needs, a PUBLISH is refused for its properties alone. -/
theorem writePublishPacket_of_block_error {p : PublishPacket} {version : ProtocolVersion}
    {reason : MqttError} (h : propertyBlock version p.properties = .error reason) :
    writePublishPacket p version = .error reason := by
  have hproperties : writeProperties version p.properties [] = .error reason := h
  simp only [writePublishPacket, hproperties, bind, Except.bind]

/-- The path that does not copy writes a header and the payload. -/
theorem exists_writePublishPacket {p : PublishPacket} {version : ProtocolVersion} {block : Bytes}
    (hid : p.qos ≠ .atMostOnce → p.packetId.isSome)
    (h : propertyBlock version p.properties = .ok block) :
    ∃ header, writePublishPacket p version = .ok [header, p.payload] := by
  have hproperties : writeProperties version p.properties [] = .ok block := h
  simp only [writePublishPacket, hproperties, requirePacketId_of_isSome hid, bind, Except.bind]
  exact ⟨_, rfl⟩

theorem encodePacket_of_block_error {p : PublishPacket} {version : ProtocolVersion}
    {reason : MqttError} (h : propertyBlock version p.properties = .error reason) :
    encodePacket (.publish p) version = .error reason := by
  have hbody : encodeBody (.publish p) version = .error reason := by
    change encodePublishBody p version = _
    rw [encodePublishBody_eq, h]
    rfl
  rw [encodePacket_eq, hbody]
  rfl

/-- Both ways to write a PUBLISH do the same to the stream. -/
theorem writePublishOn_eq {p : PublishPacket} (hid : p.qos ≠ .atMostOnce → p.packetId.isSome)
    (version : ProtocolVersion) (wire : Bytes) :
    writePublishOn wire p version = writePacketOn wire (.publish p) version := by
  cases hblock : propertyBlock version p.properties with
  | error reason =>
    rw [writePublishOn, writePacketOn, writePublishPacket_of_block_error hblock,
      encodePacket_of_block_error hblock]
  | ok block =>
    obtain ⟨header, hwrites⟩ := exists_writePublishPacket hid hblock
    obtain ⟨-, body, hbody, hflatten⟩ := exists_body_of_writePublishPacket hwrites
    have hencoded : encodePacket (.publish p) version = .ok [header, p.payload].flatten := by
      rw [encodePacket_eq, hbody, hflatten]
      rfl
    simp [writePublishOn, writePacketOn, hwrites, hencoded]

/-- The two ways to write a PUBLISH fail with the same error and nothing written, or succeed with
the same bytes on the stream: a header and then the payload. -/
theorem publish_paths_agree {p : PublishPacket} (hid : p.qos ≠ .atMostOnce → p.packetId.isSome)
    (version : ProtocolVersion) (wire : Bytes) :
    (∀ reason, encodePacket (.publish p) version = .error reason ↔
      writePublishOn wire p version = (.error reason, wire)) ∧
    (∀ bytes, encodePacket (.publish p) version = .ok bytes ↔
      writePublishOn wire p version = (.ok (), wire ++ bytes)) := by
  rw [writePublishOn_eq hid, writePacketOn]
  cases encodePacket (.publish p) version with
  | error reason => simp
  | ok bytes => simp

/-- A PUBLISH behind a PINGREQ, and one that is refused for its topic alias. -/
theorem publish_paths_agree_behind :
    let p : PublishPacket :=
      { topic := "t", payload := [1, 2], dup := false, qos := .atLeastOnce, retain := true
        packetId := some 7 }
    writePublishOn [0xC0, 0x00] p .v5 =
      (.ok (), [0xC0, 0x00] ++ [0x33, 0x08, 0x00, 0x01, 0x74, 0x00, 0x07, 0x00, 0x01, 0x02]) ∧
    writePublishOn [0xC0, 0x00] { p with properties := { topicAlias := some 0 } } .v5 =
      (.error (.protocol (.malformedProperty 0x23)), [0xC0, 0x00]) := by
  intro p
  have hid : p.qos ≠ .atMostOnce → p.packetId.isSome := by decide
  refine ⟨((publish_paths_agree hid .v5 _).2 _).mp (by decide), ?_⟩
  have hid' : ({ p with properties := { topicAlias := some 0 } } : PublishPacket).qos ≠
      .atMostOnce → p.packetId.isSome := by decide
  exact ((publish_paths_agree hid' .v5 _).1 _).mp (by decide)

end HotaruMqtt.Codec

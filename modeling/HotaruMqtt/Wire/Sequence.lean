import HotaruMqtt.Wire.Decoded
import HotaruMqtt.Wire.Stream

/-!
# Sequences of packets on a stream

Frames that follow one another on a stream are read one after the other, in whatever chunks they
arrive. What is read is what the version keeps of the packets: MQTT 3.1.1 has no properties, and no
reason codes in an UNSUBACK.
-/

namespace HotaruMqtt

open Library

/-- The properties that a version puts on the wire. -/
def Properties.seenIn (version : ProtocolVersion) (properties : Properties) : Properties :=
  if version = .v5 then properties else {}

def PublishPacket.seenIn (version : ProtocolVersion) (p : PublishPacket) : PublishPacket :=
  { p with properties := p.properties.seenIn version }

/-- What a version keeps of a packet. A CONNECT goes by its own version. -/
def Packet.seenIn (version : ProtocolVersion) : Packet → Packet
  | connect conn =>
      connect
        { conn with
          properties := conn.properties.seenIn conn.version
          will := conn.will.map fun will ↦
            { will with properties := will.properties.seenIn conn.version } }
  | connack ack => connack { ack with properties := ack.properties.seenIn version }
  | publish p => publish (p.seenIn version)
  | unsuback u => unsuback { u with reasonCodes := if version = .v5 then u.reasonCodes else [] }
  | packet => packet

namespace Codec

/-- The encoder leaves out what the version does not keep. -/
theorem encodeBody_seenIn (version : ProtocolVersion) (packet : Packet) :
    encodeBody (packet.seenIn version) version = encodeBody packet version := by
  cases packet with
  | connect conn =>
    obtain ⟨version, properties, clientId, cleanSession, keepAlive, username, password, will⟩ :=
      conn
    cases version <;> cases will <;> rfl
  | connack ack => cases version <;> rfl
  | publish p => cases version <;> rfl
  | unsuback u => cases version <;> rfl
  | _ => rfl

/-- What a version drops is not written in the first place. -/
theorem encodePacket_seenIn (version : ProtocolVersion) (packet : Packet) :
    encodePacket (packet.seenIn version) version = encodePacket packet version := by
  have hfirst : (packet.seenIn version).firstByte = packet.firstByte := by
    cases packet <;> rfl
  rw [encodePacket_eq, encodePacket_eq, encodeBody_seenIn, hfirst]

/-- The packets that a version can put on the wire. -/
def Sendable (version : ProtocolVersion) (packet : Packet) : Prop :=
  Representable version (packet.seenIn version)

theorem Sendable.of_body {version : ProtocolVersion} {packet : Packet} {body : Bytes}
    (hbody : encodeBody (packet.seenIn version) version = .ok body)
    (hshape : WellShaped version (packet.seenIn version))
    (hfields : ∀ field ∈ (packet.seenIn version).prefixedFields, field.length ≤ 65535)
    (hlength : body.length ≤ maxRemainingLength) : Sendable version packet where
  shape := hshape
  fields := hfields
  body := by
    intro body' hbody'
    obtain rfl := Except.ok.inj (hbody.symm.trans hbody')
    exact hlength

/-- A packet that can be sent is read as what the version keeps of it, in front of anything. -/
theorem Sendable.exists_frame {version : ProtocolVersion} {packet : Packet}
    (h : Sendable version packet) :
    ∃ bytes, encodePacket packet version = .ok bytes ∧
      ∀ rest, decodePacketFromBytes (bytes ++ rest) version =
        (.ok (some (packet.seenIn version)), rest) := by
  obtain ⟨body, hbody⟩ := h.shape.exists_body
  refine ⟨frame (packet.seenIn version).firstByte body, ?_, decode_frame h hbody⟩
  rw [← encodePacket_seenIn, encodePacket_eq, hbody]
  rfl

/-- The stream reader takes a packet exactly where the decoder does. -/
theorem readPacket_eq_ok_iff {wire rest : Bytes} {version : ProtocolVersion} {packet : Packet} :
    readPacket wire version = .ok (packet, rest) ↔
      decodePacketFromBytes wire version = (.ok (some packet), rest) := by
  match wire with
  | [] => simp [readPacket, decodePacketFromBytes]
  | [first] =>
    constructor
    · intro h
      simp only [readPacket] at h
      split at h
      · cases h
      · cases h
    · intro h
      cases h
  | first :: second :: data =>
    rw [readPacket_eq_ofAttempt, ofAttempt_eq_ok_iff]

/-- A packet that is read from a stream is the first that is decoded from it. -/
theorem decodeWhole_of_readPacket {wire rest : Bytes} {version : ProtocolVersion} {packet : Packet}
    (h : readPacket wire version = .ok (packet, rest)) :
    decodeWhole version wire =
      { decodeWhole version rest with items := packet :: (decodeWhole version rest).items } := by
  have hdecode := readPacket_eq_ok_iff.mp h
  have hitem : (decodePacketFromBytes wire version).1 = .ok (some packet) :=
    congrArg Prod.fst hdecode
  have hdrain := Incremental.drain_of_item (settled_decodePacketFromBytes version) hitem
  rw [hdecode] at hdrain
  exact hdrain

/-- The bytes are the frames of the packets, one after the other. -/
inductive Spells (version : ProtocolVersion) : Bytes → List Packet → Prop where
  | nil : Spells version [] []
  | cons {packet : Packet} {bytes rest : Bytes} {packets : List Packet}
      (sendable : Sendable version packet) (encoded : encodePacket packet version = .ok bytes)
      (more : Spells version rest packets) : Spells version (bytes ++ rest) (packet :: packets)

namespace Spells

variable {version : ProtocolVersion} {wire : Bytes} {packets : List Packet} {packet : Packet}

/-- A frame behind others is read behind the others. -/
theorem append (h : Spells version wire packets) {bytes : Bytes}
    (hsendable : Sendable version packet) (hbytes : encodePacket packet version = .ok bytes) :
    Spells version (wire ++ bytes) (packets ++ [packet]) := by
  induction h with
  | nil =>
    rw [List.nil_append, ← List.append_nil bytes]
    exact .cons hsendable hbytes .nil
  | cons sendable encoded _ ih =>
    rw [List.append_assoc]
    exact .cons sendable encoded ih

theorem readPacket_nil (h : Spells version wire []) :
    readPacket wire version = .error (.error .io) := by
  cases h
  rfl

/-- The first packet is read, and the frames of the others are left in front of what follows. -/
theorem exists_read_append (h : Spells version wire (packet :: packets)) (tail : Bytes) :
    ∃ rest, readPacket (wire ++ tail) version = .ok (packet.seenIn version, rest ++ tail) ∧
      Spells version rest packets := by
  cases h with
  | @cons _ bytes rest _ sendable encoded more =>
    obtain ⟨frame, hframe, hdecode⟩ := sendable.exists_frame
    obtain rfl : frame = bytes := Except.ok.inj (hframe.symm.trans encoded)
    refine ⟨rest, readPacket_eq_ok_iff.mpr ?_, more⟩
    rw [List.append_assoc]
    exact hdecode (rest ++ tail)

/-- The first of the spelled packets is read first. -/
theorem exists_read (h : Spells version wire (packet :: packets)) :
    ∃ rest, readPacket wire version = .ok (packet.seenIn version, rest) ∧
      Spells version rest packets := by
  obtain ⟨rest, hread, hrest⟩ := h.exists_read_append []
  rw [List.append_nil, List.append_nil] at hread
  exact ⟨rest, hread, hrest⟩

/-- What is read from a row of frames is the first packet, if there is one. No packet is read from
what follows the row. -/
theorem of_read_append (h : Spells version wire packets) {tail rest : Bytes}
    (htail : ∀ packet rest, readPacket tail version ≠ .ok (packet, rest))
    (hread : readPacket (wire ++ tail) version = .ok (packet, rest)) :
    ∃ first more frames, packets = first :: more ∧ packet = first.seenIn version ∧
      rest = frames ++ tail ∧ Spells version frames more := by
  cases packets with
  | nil =>
    cases h
    exact absurd hread (htail packet rest)
  | cons first more =>
    obtain ⟨frames, hfirst, hmore⟩ := h.exists_read_append tail
    obtain ⟨rfl, rfl⟩ := Prod.mk.inj (Except.ok.inj (hread.symm.trans hfirst))
    exact ⟨first, more, frames, rfl, rfl, rfl, hmore⟩

/-- Reading fails only at the end of the row. -/
theorem eq_nil_of_error (h : Spells version wire packets) {fault : Fault}
    (hread : readPacket wire version = .error fault) : packets = [] ∧ fault = .error .io := by
  cases packets with
  | nil => exact ⟨rfl, Except.error.inj (hread.symm.trans h.readPacket_nil)⟩
  | cons first more =>
    obtain ⟨rest, hread', -⟩ := h.exists_read
    rw [hread'] at hread
    cases hread

end Spells

/-- The kind of a packet that is read is announced by the first byte. -/
theorem packetType_of_read {first : UInt8} {wire rest : Bytes} {version : ProtocolVersion}
    {packet : Packet} (h : readPacket (first :: wire) version = .ok (packet, rest)) :
    PacketType.tryFrom (first >>> 4) = some packet.packetType := by
  obtain ⟨first', packetType, lengthBytes, body, hbuf, htype, -, hparse⟩ :=
    exists_frame_of_decode (readPacket_eq_ok_iff.mp h)
  obtain rfl : first = first' := (List.cons.inj hbuf).1
  rw [htype, gives_parsePacket _ _ _ _ _ _ hparse]

/-- In whatever version a packet was written and is read, its kind stays the same. -/
theorem packetType_of_written {written read : Packet} {bytes more rest : Bytes}
    {version version' : ProtocolVersion} (hwritten : encodePacket written version = .ok bytes)
    (hread : readPacket (bytes ++ more) version' = .ok (read, rest)) :
    read.packetType = written.packetType := by
  rw [encodePacket_eq] at hwritten
  cases hbody : encodeBody written version with
  | error reason =>
    rw [hbody] at hwritten
    cases hwritten
  | ok body =>
    rw [hbody] at hwritten
    obtain rfl := Except.ok.inj hwritten
    exact Option.some.inj ((packetType_of_read hread).symm.trans (tryFrom_firstByte written))

end Codec

end HotaruMqtt

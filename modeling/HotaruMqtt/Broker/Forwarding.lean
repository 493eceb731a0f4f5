import HotaruMqtt.Broker.Reference
import HotaruMqtt.Wire.Sequence

/-!
# Forwarding a PUBLISH between protocol versions

A PUBLISH is decoded in the version of its publisher, adjusted for a subscription and written in
the version of the subscriber. Everything that the write path could refuse has been checked by
the decoder, so the subscriber's writer never fails on a forwarded packet, and the subscriber
decodes the adjusted packet. Only the properties depend on the versions: MQTT 3.1.1 has none.
-/

namespace HotaruMqtt.Forwarding

open Codec

/-- The write path leaves the properties out where the version has none. -/
theorem writePublishPacket_seenIn (version : ProtocolVersion) (p : PublishPacket) :
    writePublishPacket (p.seenIn version) version = writePublishPacket p version := by
  cases version <;> rfl

/-- A PUBLISH that the write path can represent is read back. -/
theorem decode_writePublishPacket {version : ProtocolVersion} {p : PublishPacket}
    (h : PublishShape version p)
    (hbody : ∀ body, encodePublishBody p version = .ok body → body.length ≤ maxRemainingLength) :
    ∃ chunks, writePublishPacket p version = .ok chunks ∧
      ∀ following, decodePacketFromBytes (chunks.flatten ++ following) version =
        (.ok (some (.publish p)), following) := by
  obtain ⟨block, hblock⟩ := h.2.2.exists_block
  obtain ⟨header, hchunks⟩ := exists_writePublishPacket h.2.1.mpr hblock
  obtain ⟨-, body, hencoded, hflatten⟩ := exists_body_of_writePublishPacket hchunks
  have hrepresentable : Representable version (.publish p) :=
    ⟨h.2, by simpa [Packet.prefixedFields] using h.1, hbody⟩
  refine ⟨_, hchunks, fun following ↦ ?_⟩
  rw [hflatten]
  exact decode_frame hrepresentable hencoded following

/-- Properties that were decoded in one version can be carried on in any version. -/
theorem carries_seenIn {publisher subscriber : ProtocolVersion} {properties : Properties}
    (h : Carries publisher properties) :
    Carries subscriber (properties.seenIn subscriber) := by
  cases subscriber with
  | v311 => exact carries_default .v311
  | v5 =>
    cases publisher with
    | v311 =>
      obtain rfl : properties = {} := h
      exact carries_default .v5
    | v5 => exact h

/-- A decoded PUBLISH that was adjusted for a subscription can be written in any version. -/
theorem publishShape_deliver {publisher : ProtocolVersion} {p : PublishPacket}
    (h : PublishShape publisher p) (subscriber : ProtocolVersion) (subQos : QoS)
    (channel : MqttChannel) :
    PublishShape subscriber ((Broker.deliver p subQos channel).1.seenIn subscriber) := by
  refine ⟨h.1, ?_, carries_seenIn h.2.2⟩
  rw [← decide_eq_true_iff (p := _ ≠ QoS.atMostOnce)]
  exact iff_of_eq (congrArg (· = true) (deliver_packetId p subQos channel))

theorem allocatePacketId_ne_zero (session : MqttSession) : session.allocatePacketId.1 ≠ 0 := by
  unfold MqttSession.allocatePacketId
  dsimp only
  split
  · decide
  · assumption

/-- A PUBLISH that was decoded in the version of the publisher is written without failure in the
version of the subscriber, and decodes there to the same message at the granted QoS. -/
theorem forwarded_publish_decodes {publisher : ProtocolVersion} {buf rest : Bytes}
    {p : PublishPacket}
    (hdecode : decodePacketFromBytes buf publisher = (.ok (some (.publish p)), rest))
    (subscriber : ProtocolVersion) (subQos : QoS) (channel : MqttChannel)
    (hbody : ∀ body, encodePublishBody (Broker.deliver p subQos channel).1 subscriber = .ok body →
      body.length ≤ maxRemainingLength) :
    ∃ chunks received,
      writePublishPacket (Broker.deliver p subQos channel).1 subscriber = .ok chunks ∧
      (∀ following, decodePacketFromBytes (chunks.flatten ++ following) subscriber =
        (.ok (some (.publish received)), following)) ∧
      received.topic = p.topic ∧ received.payload = p.payload ∧
      received.qos = p.qos.min subQos ∧
      received.packetId = (if received.qos = .atMostOnce then none
        else some channel.session.allocatePacketId.1) ∧
      channel.session.allocatePacketId.1 ≠ 0 ∧ received.dup = false ∧ received.retain = false ∧
      received.properties = (if subscriber = .v5 then p.properties else {}) ∧
      (publisher = .v311 → received.properties = {}) := by
  have hshape := publishShape_of_decode hdecode
  obtain ⟨chunks, hchunks, hread⟩ :=
    decode_writePublishPacket (publishShape_deliver hshape subscriber subQos channel)
      fun body hencoded ↦
        hbody body ((encodeBody_seenIn subscriber (.publish _)).symm.trans hencoded)
  rw [writePublishPacket_seenIn] at hchunks
  refine ⟨chunks, _, hchunks, hread, rfl, rfl, rfl, ?_, allocatePacketId_ne_zero _, rfl, rfl, rfl,
    ?_⟩
  · simp only [PublishPacket.seenIn, Broker.deliver, Broker.trackOutbound]
    split <;> rfl
  · rintro rfl
    have hdefault : p.properties = {} := hshape.2.2
    change (if subscriber = .v5 then p.properties else {}) = {}
    rw [hdefault, ite_self]

/-- A retained QoS 2 message with a user property. -/
def crossing : PublishPacket :=
  { properties := { userProperties := [("k", "v")] }, topic := "a/b", payload := [1, 2]
    dup := false, qos := .exactlyOnce, retain := true, packetId := some 7 }

/-- The message goes from MQTT 5 to a QoS 1 subscription of MQTT 3.1.1 without its property. -/
theorem forwarded_publish_decodes_crossing :
    ∃ buf chunks received, decodePacketFromBytes buf .v5 = (.ok (some (.publish crossing)), []) ∧
      writePublishPacket (Broker.deliver crossing .atLeastOnce .new).1 .v311 = .ok chunks ∧
      decodePacketFromBytes (chunks.flatten ++ [0xC0]) .v311 =
        (.ok (some (.publish received)), [0xC0]) ∧
      received.topic = "a/b" ∧ received.payload = [1, 2] ∧ received.properties = {} := by
  have hbody : encodeBody (.publish crossing) .v5 =
      .ok [0, 3, 97, 47, 98, 0, 7, 7, 38, 0, 1, 107, 0, 1, 118, 1, 2] := by decide
  have hrepresentable : Representable .v5 (.publish crossing) := by
    refine ⟨And.intro (by decide) ⟨[7, 38, 0, 1, 107, 0, 1, 118], by decide⟩, by decide, ?_⟩
    intro body hbody'
    obtain rfl := Except.ok.inj (hbody.symm.trans hbody')
    decide
  have hdecode := decode_frame hrepresentable hbody []
  have hadjusted : encodePublishBody (Broker.deliver crossing .atLeastOnce .new).1 .v311 =
      .ok [0, 3, 97, 47, 98, 0, 1, 1, 2] := by decide
  obtain ⟨chunks, received, hchunks, hread, htopic, hpayload, -, -, -, -, -, hproperties, -⟩ :=
    forwarded_publish_decodes hdecode .v311 .atLeastOnce .new (by
      intro body hbody'
      obtain rfl := Except.ok.inj (hadjusted.symm.trans hbody')
      decide)
  exact ⟨_, chunks, received, hdecode, hchunks, hread [0xC0], htopic, hpayload, hproperties⟩

end HotaruMqtt.Forwarding

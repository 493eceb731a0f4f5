import HotaruMqtt.Wire.Codec
import HotaruMqtt.Wire.PropertyBlock

/-!
# What the encoders emit

Every encoder emits a frame: a first byte, the remaining length, and a body. The body is a
concatenation of fields, and the fields of variable length stand behind a two-byte length.
Here each encoder is brought into that form, from which both the round trip and the
well-formedness of the frames follow.
-/

namespace HotaruMqtt

open Library

/-- The fields of a packet that stand behind a two-byte length. -/
def Packet.prefixedFields : Packet → List Bytes
  | .connect conn =>
      asBytes conn.clientId ::
        (conn.will.toList.flatMap (fun will ↦ [asBytes will.topic, will.payload]) ++
          (conn.username.toList.map asBytes ++ conn.password.toList))
  | .publish p => [asBytes p.topic]
  | .subscribe s => s.subscriptions.map fun subscription ↦ asBytes subscription.topic
  | .unsubscribe u => u.topics.map asBytes
  | _ => []

def Packet.packetType : Packet → PacketType
  | .connect _ => .connect
  | .connack _ => .connack
  | .publish _ => .publish
  | .puback _ => .puback
  | .pubrec _ => .pubrec
  | .pubrel _ => .pubrel
  | .pubcomp _ => .pubcomp
  | .subscribe _ => .subscribe
  | .suback _ => .suback
  | .unsubscribe _ => .unsubscribe
  | .unsuback _ => .unsuback
  | .pingreq => .pingreq
  | .pingresp => .pingresp
  | .disconnect => .disconnect

def Packet.firstByte : Packet → UInt8
  | .connect _ => 0x10
  | .connack _ => 0x20
  | .publish p => 0x30 ||| Codec.packPublishFlags p
  | .puback _ => 0x40
  | .pubrec _ => 0x50
  | .pubrel _ => 0x62
  | .pubcomp _ => 0x70
  | .subscribe _ => 0x82
  | .suback _ => 0x90
  | .unsubscribe _ => 0xA2
  | .unsuback _ => 0xB0
  | .pingreq => 0xC0
  | .pingresp => 0xD0
  | .disconnect => 0xE0

namespace Codec

theorem encodeLengthGroups_eq (fuel value : ℕ) :
    encodeLengthGroups fuel value = Base128.groups fuel value := by
  induction fuel generalizing value with
  | zero => rfl
  | succ fuel ih =>
    by_cases hlast : value / 128 = 0
    · simp [encodeLengthGroups, Base128.groups, hlast]
    · have hmore : 0 < value / 128 := Nat.pos_of_ne_zero hlast
      simp only [encodeLengthGroups, Base128.groups, if_neg hlast, if_pos hmore, ih,
        Base128.setContinuation]

/-- The loop of the encoder gives the shortest form. -/
theorem encodeRemainingLength_eq (value : ℕ) :
    encodeRemainingLength value = Base128.encode value := encodeLengthGroups_eq _ _

/-- From index `i` on the groups of a number below `128 ^ (4 - i)` are read onto the result. -/
theorem decodeLengthFrom_encode (value i result multiplier : ℕ) (hi : i ≤ 3)
    (hvalue : value < 128 ^ (4 - i)) :
    decodeLengthFrom (Base128.encode value) i result multiplier =
      .ok (some (result + value * multiplier, i + (Base128.encode value).length)) := by
  induction value using Base128.encode_induction generalizing i result multiplier with
  | last value hlast =>
    have hbyte := Base128.toNat_lastGroup hlast
    have hstop : UInt8.ofNat value &&& 0x80 = 0 := by
      rw [Base128.continuation_eq_zero_iff, hbyte]
      exact hlast
    rw [Base128.encode_of_lt hlast]
    simp only [decodeLengthFrom, if_pos hstop, Base128.payload_eq_mod, hbyte,
      Nat.mod_eq_of_lt hlast, List.length_singleton]
  | more value hmore ih =>
    have hbyte := Base128.toNat_moreGroup value
    have hgo : ¬ UInt8.ofNat (value % 128 + 128) &&& 0x80 = 0 := by
      rw [Base128.continuation_eq_zero_iff, hbyte]
      omega
    have hindex : i < 3 := by
      by_contra hthree
      obtain rfl : i = 3 := by omega
      omega
    have hquot : value / 128 < 128 ^ (4 - (i + 1)) := by
      have hsplit : 4 - i = 4 - (i + 1) + 1 := by omega
      rw [hsplit, Nat.pow_succ] at hvalue
      rwa [Nat.div_lt_iff_lt_mul (by decide)]
    have hsum : result + value % 128 * multiplier + value / 128 * (multiplier * 128) =
        result + value * multiplier := by
      conv_rhs => rw [← Nat.div_add_mod value 128]
      ring
    have hpayload : (value % 128 + 128) % 128 = value % 128 := by omega
    rw [Base128.encode_of_le hmore]
    simp only [decodeLengthFrom, if_neg hgo, if_neg (Nat.not_le.mpr hindex),
      Base128.payload_eq_mod, hbyte, hpayload, List.length_cons]
    rw [ih (i + 1) _ _ (by omega) hquot, hsum, Nat.add_assoc, Nat.add_comm 1]

/-- Bytes that are read to the last one are groups of the number that is added to the result. -/
theorem denotes_of_decodeLengthFrom (data : Bytes) (i result multiplier value : ℕ)
    (h : decodeLengthFrom data i result multiplier = .ok (some (value, i + data.length))) :
    ∃ rest, Base128.Denotes rest data ∧ value = result + rest * multiplier := by
  induction data generalizing i result multiplier with
  | nil => cases h
  | cons byte data ih =>
    have hbyte : byte.toNat < 256 := byte.toNat_lt
    simp only [decodeLengthFrom, Base128.payload_eq_mod, Base128.continuation_eq_zero_iff] at h
    split at h
    · rename_i hlast
      obtain ⟨hvalue, hcount⟩ := Prod.mk.inj (Option.some.inj (Except.ok.inj h))
      rw [List.length_cons] at hcount
      obtain rfl : data = [] := List.eq_nil_of_length_eq_zero (by omega)
      refine ⟨byte.toNat, .last byte hlast, ?_⟩
      rw [← hvalue, Nat.mod_eq_of_lt hlast]
    · rename_i hmore
      split at h
      · cases h
      · have hcount : i + (byte :: data).length = i + 1 + data.length := by
          rw [List.length_cons]
          omega
        rw [hcount] at h
        obtain ⟨rest, hrest, rfl⟩ := ih _ _ _ h
        refine ⟨_, .more byte (Nat.le_of_not_lt hmore) hrest, ?_⟩
        have hgroup : byte.toNat % 128 = byte.toNat - 128 := by omega
        rw [hgroup]
        ring

/-- What is decoded as a length are groups of its number. -/
theorem denotes_of_decodeRemainingLength {data : Bytes} {value : ℕ}
    (h : decodeRemainingLengthFromSlice data = .ok (some (value, data.length))) :
    Base128.Denotes value data := by
  rw [← Nat.zero_add data.length] at h
  obtain ⟨rest, hrest, rfl⟩ := denotes_of_decodeLengthFrom data 0 0 1 value h
  simpa using hrest

/-- The longest body a remaining length can announce. -/
def maxRemainingLength : ℕ := 268435455

/-- From index `i` on at most `4 - i` groups are accepted. -/
theorem decodeLengthFrom_lt (data : Bytes) (i result multiplier value count : ℕ)
    (hi : i ≤ 3) (hresult : result < multiplier)
    (h : decodeLengthFrom data i result multiplier = .ok (some (value, count))) :
    value < 128 ^ (4 - i) * multiplier := by
  induction data generalizing i result multiplier with
  | nil => cases h
  | cons byte data ih =>
    have hpayload : (byte &&& 0x7F).toNat ≤ 127 := by
      rw [Base128.payload_eq_mod]
      omega
    have hbound : result + (byte &&& 0x7F).toNat * multiplier < multiplier * 128 := by
      have := Nat.mul_le_mul_right multiplier hpayload
      omega
    have hpow : 128 ^ (4 - i) = 128 * 128 ^ (3 - i) := by
      rw [show 4 - i = 3 - i + 1 by omega, Nat.pow_succ, Nat.mul_comm]
    have hpos : 1 ≤ 128 ^ (3 - i) := Nat.one_le_pow _ _ (by decide)
    simp only [decodeLengthFrom] at h
    split at h
    · cases h
      calc result + (byte &&& 0x7F).toNat * multiplier
        _ < multiplier * 128 := hbound
        _ ≤ 128 ^ (4 - i) * multiplier := by
          rw [hpow, Nat.mul_comm multiplier]
          exact Nat.mul_le_mul_right _ (by omega)
    · split at h
      · cases h
      · have := ih (i + 1) _ _ (by omega) hbound h
        rwa [show 4 - (i + 1) = 3 - i by omega, Nat.mul_comm multiplier, ← Nat.mul_assoc,
          Nat.mul_comm (128 ^ (3 - i)), ← hpow] at this

theorem le_maxRemainingLength_of_decode {data : Bytes} {value count : ℕ}
    (h : decodeRemainingLengthFromSlice data = .ok (some (value, count))) :
    value ≤ maxRemainingLength := by
  have := decodeLengthFrom_lt data 0 0 1 value count (by omega) (by omega) h
  unfold maxRemainingLength
  omega

/-- A length of at most four groups is read back. -/
theorem decodeRemainingLength_encode {value : ℕ} (h : value ≤ maxRemainingLength) :
    decodeRemainingLengthFromSlice (encodeRemainingLength value) =
      .ok (some (value, (encodeRemainingLength value).length)) := by
  have hlt : value < 128 ^ (4 - 0) := by
    unfold maxRemainingLength at h
    omega
  rw [encodeRemainingLength_eq, decodeRemainingLengthFromSlice,
    decodeLengthFrom_encode value 0 0 1 (by omega) hlt]
  simp

def encodeBody (packet : Packet) (version : ProtocolVersion) : Except MqttError Bytes :=
  match packet with
  | .connect conn => encodeConnectBody conn
  | .connack ack =>
      if version = .v311 then
        .ok [if ack.sessionPresent then 0x01 else 0x00, ack.returnCode.asU8]
      else encodeConnackBody ack
  | .publish p => encodePublishBody p version
  | .puback id | .pubrec id | .pubrel id | .pubcomp id => .ok (toBeBytes16 id)
  | .subscribe s => encodeSubscribeBody s version
  | .suback s => encodeSubackBody s version
  | .unsubscribe u => encodeUnsubscribeBody u version
  | .unsuback u =>
      .ok (if version = .v311 then toBeBytes16 u.packetId
        else toBeBytes16 u.packetId ++ [0x00] ++ u.reasonCodes)
  | .pingreq | .pingresp | .disconnect => .ok []

theorem frame_nil (first : UInt8) : frame first [] = [first, 0x00] := by
  have hlength : encodeRemainingLength 0 = [0x00] := by decide
  simp [frame, hlength]

theorem frame_two (first high low : UInt8) :
    frame first [high, low] = [first, 0x02, high, low] := by
  have hlength : encodeRemainingLength 2 = [0x02] := by decide
  simp [frame, hlength]

theorem map_frame (encoded : Except MqttError Bytes) (first : UInt8) :
    (do let body ← encoded; .ok (frame first body)) = encoded.map (frame first) := by
  cases encoded <;> rfl

/-- Every encoder puts the first byte and the remaining length in front of the body. -/
theorem encodePacket_eq (packet : Packet) (version : ProtocolVersion) :
    encodePacket packet version = (encodeBody packet version).map (frame packet.firstByte) := by
  cases packet with
  | connect conn => exact map_frame _ _
  | connack ack =>
    cases version with
    | v311 =>
      simp only [encodePacket, encodeConnack, encodeBody, if_true, Except.map, frame_two]
      rfl
    | v5 => exact map_frame _ _
  | publish p => exact map_frame _ _
  | puback id | pubrec id | pubrel id | pubcomp id =>
    simp only [encodePacket, encodeBody, Except.map, toBeBytes16, frame_two]
    rfl
  | subscribe s => exact map_frame _ _
  | suback s => exact map_frame _ _
  | unsubscribe u => exact map_frame _ _
  | unsuback u =>
    cases version with
    | v311 =>
      simp only [encodePacket, encodeUnsuback, encodeBody, if_true, Except.map, toBeBytes16,
        frame_two]
      rfl
    | v5 => rfl
  | pingreq | pingresp | disconnect =>
    simp only [encodePacket, encodeBody, Except.map, frame_nil]
    rfl

/-! ## Bodies -/

theorem writeArcStr_eq (out : Bytes) (s : String) :
    writeArcStr out s = out ++ prefixed (asBytes s) := List.append_assoc _ _ _

theorem writeBytes_eq (out bytes : Bytes) : writeBytes out bytes = out ++ prefixed bytes :=
  List.append_assoc _ _ _

/-- The property block of a packet, which is empty in MQTT 3.1.1. -/
def propertyBlock (version : ProtocolVersion) (properties : Properties) : Except MqttError Bytes :=
  writeProperties version properties []

theorem writeProperties_eq (version : ProtocolVersion) (properties : Properties) (body : Bytes) :
    writeProperties version properties body =
      (propertyBlock version properties).map (body ++ ·) := by
  cases version with
  | v311 => simp [propertyBlock, writeProperties, Except.map]
  | v5 => exact Properties.encode_eq_map properties body

theorem writeProperties_eq_ok_iff (version : ProtocolVersion) (properties : Properties)
    (body result : Bytes) :
    writeProperties version properties body = .ok result ↔
      ∃ block, propertyBlock version properties = .ok block ∧ result = body ++ block := by
  rw [writeProperties_eq]
  cases propertyBlock version properties with
  | error reason => simp [Except.map]
  | ok block => simp [Except.map, eq_comm]

/-- The block of the packets that have no properties of their own. -/
def emptyBlock (version : ProtocolVersion) : Bytes := if version = .v5 then [0x00] else []

/-- A packet without properties has an empty block in MQTT 5.0. -/
theorem propertyBlock_default (version : ProtocolVersion) :
    propertyBlock version {} = .ok (emptyBlock version) := by
  cases version <;> decide

theorem writeProperties_default (version : ProtocolVersion) (body : Bytes) :
    writeProperties version {} body = .ok (body ++ emptyBlock version) := by
  rw [writeProperties_eq_ok_iff]
  exact ⟨_, propertyBlock_default version, rfl⟩

/-- The ten bytes every CONNECT body starts with. -/
def connectHeader (conn : ConnectPacket) : Bytes :=
  [0x00, 0x04] ++ protocolName ++ [conn.version.level] ++ [packConnectFlags conn] ++
    toBeBytes16 conn.keepAlive

def willFields (version : ProtocolVersion) : Option WillPacket → Except MqttError Bytes
  | none => .ok []
  | some will => do
      let block ← propertyBlock version will.properties
      .ok (block ++ (prefixed (asBytes will.topic) ++ prefixed will.payload))

def optionalField (field : Option Bytes) : Bytes := field.elim [] prefixed

theorem writeIfSome_writeArcStr (body : Bytes) (field : Option String) :
    writeIfSome writeArcStr body field = body ++ optionalField (field.map asBytes) := by
  cases field <;> simp [writeIfSome, optionalField, writeArcStr_eq]

theorem writeIfSome_writeBytes (body : Bytes) (field : Option Bytes) :
    writeIfSome writeBytes body field = body ++ optionalField field := by
  cases field <;> simp [writeIfSome, optionalField, writeBytes_eq]

theorem writeWill_eq_ok_iff (version : ProtocolVersion) (body : Bytes) (will : Option WillPacket)
    (result : Bytes) :
    writeWill version body will = .ok result ↔
      ∃ fields, willFields version will = .ok fields ∧ result = body ++ fields := by
  cases will with
  | none => simp [writeWill, willFields, eq_comm]
  | some will =>
    simp only [writeWill, willFields, bind_eq_ok_iff, writeProperties_eq_ok_iff, writeArcStr_eq,
      writeBytes_eq, Except.ok.injEq]
    constructor
    · rintro ⟨_, ⟨block, hblock, rfl⟩, rfl⟩
      exact ⟨_, ⟨block, hblock, rfl⟩, by simp only [List.append_assoc]⟩
    · rintro ⟨_, ⟨block, hblock, rfl⟩, rfl⟩
      exact ⟨_, ⟨block, hblock, rfl⟩, by simp only [List.append_assoc]⟩

/-- The fields of a CONNECT in their order. -/
theorem encodeConnectBody_eq_ok_iff (conn : ConnectPacket) (body : Bytes) :
    encodeConnectBody conn = .ok body ↔
      ∃ block will, propertyBlock conn.version conn.properties = .ok block ∧
        willFields conn.version conn.will = .ok will ∧
        body = connectHeader conn ++ (block ++ (prefixed (asBytes conn.clientId) ++ (will ++
          (optionalField (conn.username.map asBytes) ++ optionalField conn.password)))) := by
  simp only [encodeConnectBody, bind_eq_ok_iff, writeProperties_eq_ok_iff, writeArcStr_eq,
    writeWill_eq_ok_iff, writeIfSome_writeArcStr, writeIfSome_writeBytes, Except.ok.injEq]
  constructor
  · rintro ⟨_, ⟨block, hblock, rfl⟩, _, ⟨will, hwill, rfl⟩, rfl⟩
    exact ⟨block, will, hblock, hwill, by simp only [connectHeader, List.append_assoc]⟩
  · rintro ⟨block, will, hblock, hwill, rfl⟩
    exact ⟨_, ⟨block, hblock, rfl⟩, _, ⟨will, hwill, rfl⟩,
      by simp only [connectHeader, List.append_assoc]⟩

/-- The packet identifier as the encoders write it: only above QoS 0, and only if there is one. -/
def packetIdField (p : PublishPacket) : Bytes :=
  if p.qos ≠ .atMostOnce then p.packetId.elim [] toBeBytes16 else []

theorem writeIfSome_writeU16 (body : Bytes) (p : PublishPacket) :
    (if p.qos ≠ .atMostOnce then writeIfSome writeU16 body p.packetId else body) =
      body ++ packetIdField p := by
  unfold packetIdField
  split
  · cases p.packetId <;> simp [writeIfSome, writeU16]
  · simp

theorem encodePublishBody_eq (p : PublishPacket) (version : ProtocolVersion) :
    encodePublishBody p version = (propertyBlock version p.properties).map fun block ↦
      prefixed (asBytes p.topic) ++ (packetIdField p ++ (block ++ p.payload)) := by
  simp only [encodePublishBody, writeIfSome_writeU16, writeProperties_eq, writeArcStr_eq]
  cases propertyBlock version p.properties with
  | error reason => rfl
  | ok block => simp [bind, Except.bind, Except.map]

/-- The fields of a PUBLISH in their order. -/
theorem encodePublishBody_eq_ok_iff (p : PublishPacket) (version : ProtocolVersion)
    (body : Bytes) :
    encodePublishBody p version = .ok body ↔
      ∃ block, propertyBlock version p.properties = .ok block ∧
        body = prefixed (asBytes p.topic) ++ (packetIdField p ++ (block ++ p.payload)) := by
  rw [encodePublishBody_eq]
  cases propertyBlock version p.properties with
  | error reason => simp [Except.map]
  | ok block => simp [Except.map, eq_comm]

def subscriptionBytes (subscription : TopicSubscription) : Bytes :=
  prefixed (asBytes subscription.topic) ++ [subscription.qos.asU8]

/-- A SUBSCRIBE is always encoded, with an empty property block. -/
theorem encodeSubscribeBody_eq (s : SubscribePacket) (version : ProtocolVersion) :
    encodeSubscribeBody s version =
      .ok (toBeBytes16 s.packetId ++ (emptyBlock version ++
        s.subscriptions.flatMap subscriptionBytes)) := by
  rw [encodeSubscribeBody, writeProperties_default]
  simp only [bind, Except.bind, writeArcStr_eq, List.append_assoc, List.foldl_append_eq_append]
  rfl

theorem encodeSubackBody_eq (s : SubackPacket) (version : ProtocolVersion) :
    encodeSubackBody s version =
      .ok (toBeBytes16 s.packetId ++ (emptyBlock version ++
        s.returnCodes.map SubackCode.asU8)) := by
  rw [encodeSubackBody, writeProperties_default]
  simp only [bind, Except.bind, List.append_assoc, List.foldl_append_eq_append]
  rw [← List.flatMap_def, List.map_eq_flatMap]

theorem encodeUnsubscribeBody_eq (u : UnsubscribePacket) (version : ProtocolVersion) :
    encodeUnsubscribeBody u version =
      .ok (toBeBytes16 u.packetId ++ (emptyBlock version ++
        u.topics.flatMap fun topic ↦ prefixed (asBytes topic))) := by
  have hwrite : writeArcStr = fun body topic ↦ body ++ prefixed (asBytes topic) := by
    funext body topic
    exact writeArcStr_eq body topic
  rw [encodeUnsubscribeBody, writeProperties_default, hwrite]
  simp only [bind, Except.bind, List.append_assoc, List.foldl_append_eq_append]
  rfl

end Codec

end HotaruMqtt

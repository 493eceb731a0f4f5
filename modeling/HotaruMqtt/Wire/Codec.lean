import HotaruMqtt.Wire.Packet

/-!
# The packet codec

Every parser follows its source function: the length guard first, then the fields in order. Bytes
that the source indexes or slices directly go through `index` and `slice`, which panic when they
are out of range. An encoder builds the body of its packet and puts the first byte and the
remaining length in front.
-/

namespace HotaruMqtt.Codec

open Library

abbrev Reader (α : Type) := Decoder Fault UInt8 α

def usizeMax : ℕ := 2 ^ 64 - 1

/-- `body[i]`. -/
def index (body : Bytes) (i : ℕ) : Except Fault UInt8 :=
  match body[i]? with
  | some byte => .ok byte
  | none => .error .panic

/-- `body[start..stop]`. -/
def slice (body : Bytes) (start stop : ℕ) : Except Fault Bytes :=
  if start ≤ stop ∧ stop ≤ body.length then .ok ((body.drop start).take (stop - start))
  else .error .panic

/-- The byte loop of `decode_remaining_length_from_slice`, at index `i`. -/
def decodeLengthFrom : Bytes → ℕ → ℕ → ℕ → Except Fault (Option (ℕ × ℕ))
  | [], _, _, _ => .ok none
  | byte :: data, i, result, multiplier =>
      let result := result + (byte &&& 0x7F).toNat * multiplier
      if byte &&& 0x80 = 0 then .ok (some (result, i + 1))
      else if i ≥ 3 then .error (.codec .malformedLength)
      else decodeLengthFrom data (i + 1) result (multiplier * 128)

def decodeRemainingLengthFromSlice (data : Bytes) : Except Fault (Option (ℕ × ℕ)) :=
  decodeLengthFrom data 0 0 1

/-- The loop of `encode_remaining_length`. -/
def encodeLengthGroups : ℕ → ℕ → Bytes
  | 0, _ => []
  | fuel + 1, value =>
      let byte := UInt8.ofNat (value % 128)
      let value := value / 128
      if value > 0 then (byte ||| 0x80) :: encodeLengthGroups fuel value else [byte]

def encodeRemainingLength (value : ℕ) : Bytes := encodeLengthGroups (value + 1) value

def readU16 : Reader UInt16 :=
  ⟨fun body cursor ↦
    if cursor + 2 > body.length then .error (.codec .unexpectedEof)
    else do
      let high ← index body cursor
      let low ← index body (cursor + 1)
      .ok (fromBeBytes16 high low, cursor + 2)⟩

/-- The bytes a length prefix announces. -/
def readField (len : ℕ) : Reader Bytes :=
  ⟨fun body cursor ↦
    if cursor + len > body.length then .error (.codec .unexpectedEof)
    else do
      let bytes ← slice body cursor (cursor + len)
      .ok (bytes, cursor + len)⟩

def readArcStr : Reader String := do
  let len ← readU16
  let bytes ← readField len.toNat
  match fromUtf8 bytes with
  | none => .raise (.codec .invalidUtf8)
  | some value => pure value

def readBytes : Reader Bytes := do
  let len ← readU16
  readField len.toNat

/-- `body[cursor..]`; nothing is read after it. -/
def readRest : Reader Bytes :=
  ⟨fun body cursor ↦ do
    let rest ← slice body cursor body.length
    .ok (rest, body.length)⟩

/-- The subscription options byte, which must still be inside the body. -/
def readOptions : Reader UInt8 :=
  ⟨fun body cursor ↦
    if cursor ≥ body.length then .error (.codec .unexpectedEof)
    else do
      let options ← index body cursor
      .ok (options, cursor + 1)⟩

/-- Bytes behind the last field are refused. -/
def requireEnd : Reader Unit :=
  ⟨fun body cursor ↦
    if cursor = body.length then .ok ((), cursor)
    else if cursor < body.length then .error (.codec (.payloadTooLong (body.length - cursor) 0))
    else .error .panic⟩

/-- Property blocks exist in MQTT 5 only. -/
def readProperties (version : ProtocolVersion) : Reader Properties :=
  if version = .v5 then Properties.parse else pure {}

/-- A field that a flag announces. -/
def readIf {α : Type} (present : Bool) (reader : Reader α) : Reader (Option α) :=
  if present then do
    let value ← reader
    pure (some value)
  else pure none

def writeU16 (out : Bytes) (value : UInt16) : Bytes := out ++ toBeBytes16 value

def writeArcStr (out : Bytes) (s : String) : Bytes :=
  out ++ toBeBytes16 (asU16 (asBytes s).length) ++ asBytes s

def writeBytes (out bytes : Bytes) : Bytes :=
  out ++ toBeBytes16 (asU16 bytes.length) ++ bytes

/-! ## Parsers -/

def requireEmptyBody (remaining : ℕ) : Except Fault Unit :=
  if remaining ≠ 0 then .error (.codec (.payloadTooLong remaining 0)) else .ok ()

def readWill (version : ProtocolVersion) (flagsByte : UInt8) : Reader WillPacket := do
  let properties ← readProperties version
  let topic ← readArcStr
  let payload ← readBytes
  let willQosBits := (flagsByte &&& ConnectFlags.willQosMask) >>> 3
  match QoS.fromU8 willQosBits with
  | none => .raise (.codec (.qosInvalid willQosBits))
  | some qos =>
      let retain := containsFlag (ConnectFlags.fromBitsTruncate flagsByte) ConnectFlags.willRetain
      pure { properties, topic, payload, qos, retain }

/-- The fields of CONNECT behind its fixed ten bytes. -/
def readConnectFields (version : ProtocolVersion) (flagsByte : UInt8) (keepAlive : UInt16) :
    Reader ConnectPacket := do
  let connectFlags := ConnectFlags.fromBitsTruncate flagsByte
  let properties ← readProperties version
  let clientId ← readArcStr
  let will ← readIf (containsFlag connectFlags ConnectFlags.willFlag) (readWill version flagsByte)
  let username ← readIf (containsFlag connectFlags ConnectFlags.username) readArcStr
  let password ← readIf (containsFlag connectFlags ConnectFlags.password) readBytes
  pure
    { version, properties, clientId, keepAlive, username, password, will
      cleanSession := containsFlag connectFlags ConnectFlags.cleanSession }

def protocolName : Bytes := [0x4D, 0x51, 0x54, 0x54]

def parseConnect (body : Bytes) : Except Fault Packet :=
  if body.length < 10 then .error (.codec .unexpectedEof)
  else do
    let high ← index body 0
    let low ← index body 1
    let name ← slice body 2 6
    if (fromBeBytes16 high low).toNat ≠ 4 ∨ name ≠ protocolName then
      .error (.protocol .invalidProtocolName)
    else
      let level ← index body 6
      match ProtocolVersion.fromLevel level with
      | none => .error (.protocol (.unsupportedProtocolLevel level))
      | some version =>
          let flagsByte ← index body 7
          let keepAliveHigh ← index body 8
          let keepAliveLow ← index body 9
          let (connect, _) ← (readConnectFields version flagsByte
            (fromBeBytes16 keepAliveHigh keepAliveLow)).run body 10
          .ok (.connect connect)

def parseConnack (body : Bytes) (version : ProtocolVersion) : Except Fault Packet :=
  if body.length < 2 then .error (.codec .unexpectedEof)
  else do
    let acknowledge ← index body 0
    let code ← index body 1
    let returnCode? := match version with
      | .v311 => ConnackReturnCode.tryFrom code
      | .v5 => ConnackReturnCode.fromV5Reason code
    match returnCode? with
    | none => .error (.codec (.invalidPacketType code))
    | some returnCode =>
        let (properties, cursor) ← (readProperties version).run body 2
        let _ ← requireEnd.run body cursor
        .ok (.connack { properties, sessionPresent := acknowledge &&& 0x01 ≠ 0, returnCode })

/-- The fields of PUBLISH, the payload last. -/
def readPublishFields (headerFlags : UInt8) (qos : QoS) (version : ProtocolVersion) :
    Reader PublishPacket := do
  let topic ← readArcStr
  let packetId ← readIf (qos ≠ .atMostOnce) readU16
  let properties ← readProperties version
  let payload ← readRest
  pure
    { properties, topic, payload, qos, packetId
      dup := containsFlag headerFlags FixedHeaderFlags.dup
      retain := containsFlag headerFlags FixedHeaderFlags.retain }

def parsePublish (first : UInt8) (body : Bytes) (version : ProtocolVersion) :
    Except Fault Packet :=
  if body.length < 2 then .error (.codec .unexpectedEof)
  else
    match FixedHeaderFlags.fromBits (first &&& 0x0F) with
    | none => .error (.codec .reservedFlagSet)
    | some headerFlags =>
        let qosBits := (headerFlags &&& FixedHeaderFlags.qos) >>> 1
        match QoS.fromU8 qosBits with
        | none => .error (.codec (.qosInvalid qosBits))
        | some qos => do
            let (publish, _) ← (readPublishFields headerFlags qos version).run body 0
            .ok (.publish publish)

/-- The acceptable lengths of an acknowledgement body. -/
def requireAckLength (remaining : ℕ) (version : ProtocolVersion) : Except Fault Unit :=
  if remaining < 2 ∨ (version = .v311 ∧ remaining ≠ 2) then
    .error (.codec (.payloadTooLong remaining (if version = .v311 then 2 else usizeMax)))
  else .ok ()

/-- What MQTT 5 allows behind the fixed part of an acknowledgement or a DISCONNECT: a reason code
in front of `cursor` and then, if there is more, a property block. -/
def skipReason (more : Bool) (body : Bytes) (cursor : ℕ) : Except Fault Unit := do
  let cursor ← if more then do
      let (_, cursor) ← Properties.parse.run body cursor
      pure cursor
    else pure cursor
  let _ ← requireEnd.run body cursor
  .ok ()

def parseAckPacket (first : UInt8) (packetType : PacketType) (remaining : ℕ) (body : Bytes)
    (version : ProtocolVersion) : Except Fault Packet := do
  requireAckLength remaining version
  let flags := first &&& 0x0F
  let expected : UInt8 := if packetType = .pubrel then 0x02 else 0x00
  if flags ≠ expected then .error (.codec .reservedFlagSet)
  else
    let high ← index body 0
    let low ← index body 1
    let id := fromBeBytes16 high low
    if version = .v5 ∧ remaining > 2 then skipReason (remaining > 3) body 3 else .ok ()
    match packetType with
    | .puback => .ok (.puback id)
    | .pubrec => .ok (.pubrec id)
    | .pubrel => .ok (.pubrel id)
    | _ => .ok (.pubcomp id)

/-- One round of the subscription loop. -/
def parseSubscription (version : ProtocolVersion) (subscriptions : List TopicSubscription) :
    Reader (List TopicSubscription) := do
  let topic ← readArcStr
  let options ← readOptions
  if (version = .v311 ∧ options > 2) ∨
      (version = .v5 ∧ (options &&& 0xC0 ≠ 0 ∨ (options >>> 4) &&& 0x03 = 0x03)) then
    .raise (.codec .reservedFlagSet)
  else
    match QoS.fromU8 (options &&& 0x03) with
    | none => .raise (.codec (.qosInvalid (options &&& 0x03)))
    | some qos => pure (subscriptions ++ [⟨topic, qos⟩])

def readSubscribeFields (version : ProtocolVersion) : Reader SubscribePacket := do
  let packetId ← readU16
  let _ ← readProperties version
  let subscriptions ← Decoder.whileMore (parseSubscription version) []
  pure { packetId, subscriptions }

def parseSubscribe (body : Bytes) (version : ProtocolVersion) : Except Fault Packet :=
  if body.length < 5 then .error (.codec .unexpectedEof)
  else do
    let (subscribe, _) ← (readSubscribeFields version).run body 0
    .ok (.subscribe subscribe)

/-- MQTT 5 reports every refusal by a code from `0x80` on. -/
def decodeSubackCode (version : ProtocolVersion) (byte : UInt8) : Except Fault SubackCode :=
  match SubackCode.fromU8 byte with
  | some code => .ok code
  | none =>
      if version = .v5 ∧ byte ≥ 0x80 then .ok .failure
      else .error (.codec (.invalidPacketType byte))

def readSubackFields (version : ProtocolVersion) : Reader SubackPacket := do
  let packetId ← readU16
  let _ ← readProperties version
  let codes ← readRest
  let returnCodes ← .lift (codes.mapM (decodeSubackCode version))
  pure { packetId, returnCodes }

def parseSuback (body : Bytes) (version : ProtocolVersion) : Except Fault Packet :=
  if body.length < 3 then .error (.codec .unexpectedEof)
  else do
    let (suback, _) ← (readSubackFields version).run body 0
    .ok (.suback suback)

/-- One round of the topic loop. -/
def parseTopic (topics : List String) : Reader (List String) := do
  let topic ← readArcStr
  pure (topics ++ [topic])

def readUnsubscribeFields (version : ProtocolVersion) : Reader UnsubscribePacket := do
  let packetId ← readU16
  let _ ← readProperties version
  let topics ← Decoder.whileMore parseTopic []
  pure { packetId, topics }

def parseUnsubscribe (body : Bytes) (version : ProtocolVersion) : Except Fault Packet :=
  if body.length < 4 then .error (.codec .unexpectedEof)
  else do
    let (unsubscribe, _) ← (readUnsubscribeFields version).run body 0
    .ok (.unsubscribe unsubscribe)

def parseUnsuback (remaining : ℕ) (body : Bytes) (version : ProtocolVersion) :
    Except Fault Packet := do
  requireAckLength remaining version
  let high ← index body 0
  let low ← index body 1
  let packetId := fromBeBytes16 high low
  if version = .v5 then
    let (_, cursor) ← Properties.parse.run body 2
    let reasonCodes ← slice body cursor body.length
    .ok (.unsuback { packetId, reasonCodes })
  else .ok (.unsuback { packetId, reasonCodes := [] })

def parsePacket (first : UInt8) (packetType : PacketType) (remaining : ℕ) (body : Bytes)
    (version : ProtocolVersion) : Except Fault Packet :=
  match packetType with
  | .connect => parseConnect body
  | .connack => parseConnack body version
  | .publish => parsePublish first body version
  | .puback | .pubrec | .pubrel | .pubcomp => parseAckPacket first packetType remaining body version
  | .subscribe => parseSubscribe body version
  | .suback => parseSuback body version
  | .unsubscribe => parseUnsubscribe body version
  | .unsuback => parseUnsuback remaining body version
  | .pingreq => do
      requireEmptyBody remaining
      .ok .pingreq
  | .pingresp => do
      requireEmptyBody remaining
      .ok .pingresp
  | .disconnect => do
      if version = .v311 then requireEmptyBody remaining
      else if body ≠ [] then skipReason (body.length > 1) body 1
      else .ok ()
      .ok .disconnect

/-- The result of one decoding attempt together with the bytes left in the buffer. -/
def decodePacketFromBytes (buf : Bytes) (version : ProtocolVersion) :
    Except Fault (Option Packet) × Bytes :=
  match buf with
  | [] | [_] => (.ok none, buf)
  | first :: data =>
      match PacketType.tryFrom (first >>> 4) with
      | none => (.error (.codec (.invalidPacketType (first >>> 4))), buf)
      | some packetType =>
          match decodeRemainingLengthFromSlice data with
          | .error fault => (.error fault, buf)
          | .ok none => (.ok none, buf)
          | .ok (some (remaining, rlBytes)) =>
              let headerLen := 1 + rlBytes
              let total := headerLen + remaining
              if buf.length < total then (.ok none, buf)
              else
                let body := (buf.take total).drop headerLen
                (some <$> parsePacket first packetType remaining body version, buf.drop total)

/-- `read_exact` on the bytes the peer is going to send, after which the stream ends. -/
def readExact (count : ℕ) (wire : Bytes) : Except Fault (Bytes × Bytes) :=
  if count ≤ wire.length then .ok (wire.take count, wire.drop count) else .error (.error .io)

/-- The loop of `read_remaining_length`, at index `i`. -/
def readLengthFrom : Bytes → ℕ → ℕ → ℕ → Except Fault (ℕ × Bytes)
  | [], _, _, _ => .error (.error .io)
  | byte :: wire, i, result, multiplier =>
      let result := result + (byte &&& 0x7F).toNat * multiplier
      if byte &&& 0x80 = 0 then .ok (result, wire)
      else if i = 3 then .error (.codec .malformedLength)
      else readLengthFrom wire (i + 1) result (multiplier * 128)

def readRemainingLength (wire : Bytes) : Except Fault (ℕ × Bytes) := readLengthFrom wire 0 0 1

/-- One packet from the stream, and the bytes that follow it. -/
def readPacket (wire : Bytes) (version : ProtocolVersion) : Except Fault (Packet × Bytes) :=
  match wire with
  | [] => .error (.error .io)
  | first :: wire =>
      match PacketType.tryFrom (first >>> 4) with
      | none => .error (.codec (.invalidPacketType (first >>> 4)))
      | some packetType => do
          let (remaining, wire) ← readRemainingLength wire
          let (body, wire) ← readExact remaining wire
          let packet ← parsePacket first packetType remaining body version
          .ok (packet, wire)

/-! ## Encoders -/

/-- The first byte, the remaining length and the body. -/
def frame (first : UInt8) (body : Bytes) : Bytes :=
  first :: (encodeRemainingLength body.length ++ body)

def writeProperties (version : ProtocolVersion) (properties : Properties) (body : Bytes) :
    Except MqttError Bytes :=
  if version = .v5 then properties.encode body else .ok body

def packConnectFlags (conn : ConnectPacket) : UInt8 :=
  let flags : UInt8 := if conn.cleanSession then ConnectFlags.cleanSession else 0
  let flags := match conn.will with
    | none => flags
    | some will =>
        let flags := flags ||| ConnectFlags.willFlag
        let flags := flags ||| ((will.qos.asU8 <<< 3) &&& ConnectFlags.willQosMask)
        if will.retain then flags ||| ConnectFlags.willRetain else flags
  let flags := if conn.username.isSome then flags ||| ConnectFlags.username else flags
  if conn.password.isSome then flags ||| ConnectFlags.password else flags

/-- Write a field if it is there. -/
def writeIfSome {α : Type} (write : Bytes → α → Bytes) (body : Bytes) (field : Option α) : Bytes :=
  match field with
  | none => body
  | some value => write body value

def writeWill (version : ProtocolVersion) (body : Bytes) (will : Option WillPacket) :
    Except MqttError Bytes :=
  match will with
  | none => .ok body
  | some will => do
      let body ← writeProperties version will.properties body
      let body := writeArcStr body will.topic
      .ok (writeBytes body will.payload)

def encodeConnectBody (conn : ConnectPacket) : Except MqttError Bytes := do
  let body := [0x00, 0x04] ++ protocolName
  let body := body ++ [conn.version.level] ++ [packConnectFlags conn]
  let body := body ++ toBeBytes16 conn.keepAlive
  let body ← writeProperties conn.version conn.properties body
  let body := writeArcStr body conn.clientId
  let body ← writeWill conn.version body conn.will
  let body := writeIfSome writeArcStr body conn.username
  .ok (writeIfSome writeBytes body conn.password)

def encodeConnect (conn : ConnectPacket) : Except MqttError Bytes := do
  let body ← encodeConnectBody conn
  .ok (frame (PacketType.connect.asU8 <<< 4) body)

def encodeConnackBody (ack : ConnackPacket) : Except MqttError Bytes :=
  ack.properties.encode [if ack.sessionPresent then 0x01 else 0x00, ack.returnCode.toV5Reason]

def encodeConnack (ack : ConnackPacket) (version : ProtocolVersion) : Except MqttError Bytes :=
  if version = .v311 then
    .ok [PacketType.connack.asU8 <<< 4, 0x02, if ack.sessionPresent then 0x01 else 0x00,
      ack.returnCode.asU8]
  else do
    let body ← encodeConnackBody ack
    .ok (frame (PacketType.connack.asU8 <<< 4) body)

def packPublishFlags (p : PublishPacket) : UInt8 :=
  let flags : UInt8 := if p.dup then FixedHeaderFlags.dup else 0
  let flags := if p.retain then flags ||| FixedHeaderFlags.retain else flags
  flags ||| ((p.qos.asU8 <<< 1) &&& FixedHeaderFlags.qos)

def encodePublishBody (p : PublishPacket) (version : ProtocolVersion) :
    Except MqttError Bytes := do
  let body := writeArcStr [] p.topic
  let body := if p.qos ≠ .atMostOnce then writeIfSome writeU16 body p.packetId else body
  let body ← writeProperties version p.properties body
  .ok (body ++ p.payload)

def encodePublish (p : PublishPacket) (version : ProtocolVersion) : Except MqttError Bytes := do
  let body ← encodePublishBody p version
  .ok (frame ((PacketType.publish.asU8 <<< 4) ||| packPublishFlags p) body)

def encodeSubscribeBody (s : SubscribePacket) (version : ProtocolVersion) :
    Except MqttError Bytes := do
  let body ← writeProperties version {} (toBeBytes16 s.packetId)
  .ok (s.subscriptions.foldl
    (fun body subscription ↦ writeArcStr body subscription.topic ++ [subscription.qos.asU8]) body)

def encodeSubscribe (s : SubscribePacket) (version : ProtocolVersion) :
    Except MqttError Bytes := do
  let body ← encodeSubscribeBody s version
  .ok (frame ((PacketType.subscribe.asU8 <<< 4) ||| 0x02) body)

def encodeSubackBody (s : SubackPacket) (version : ProtocolVersion) : Except MqttError Bytes := do
  let body ← writeProperties version {} (toBeBytes16 s.packetId)
  .ok (s.returnCodes.foldl (fun body code ↦ body ++ [code.asU8]) body)

def encodeSuback (s : SubackPacket) (version : ProtocolVersion) : Except MqttError Bytes := do
  let body ← encodeSubackBody s version
  .ok (frame (PacketType.suback.asU8 <<< 4) body)

def encodeUnsubscribeBody (u : UnsubscribePacket) (version : ProtocolVersion) :
    Except MqttError Bytes := do
  let body ← writeProperties version {} (toBeBytes16 u.packetId)
  .ok (u.topics.foldl writeArcStr body)

def encodeUnsubscribe (u : UnsubscribePacket) (version : ProtocolVersion) :
    Except MqttError Bytes := do
  let body ← encodeUnsubscribeBody u version
  .ok (frame ((PacketType.unsubscribe.asU8 <<< 4) ||| 0x02) body)

def encodeUnsuback (packet : UnsubackPacket) (version : ProtocolVersion) : Bytes :=
  if version = .v311 then [0xB0, 0x02] ++ toBeBytes16 packet.packetId
  else frame (PacketType.unsuback.asU8 <<< 4)
    (toBeBytes16 packet.packetId ++ [0x00] ++ packet.reasonCodes)

def encodePacket (packet : Packet) (version : ProtocolVersion) : Except MqttError Bytes :=
  match packet with
  | .connect c => encodeConnect c
  | .connack c => encodeConnack c version
  | .publish p => encodePublish p version
  | .puback id => .ok ([0x40, 0x02] ++ toBeBytes16 id)
  | .pubrec id => .ok ([0x50, 0x02] ++ toBeBytes16 id)
  | .pubrel id => .ok ([0x62, 0x02] ++ toBeBytes16 id)
  | .pubcomp id => .ok ([0x70, 0x02] ++ toBeBytes16 id)
  | .subscribe s => encodeSubscribe s version
  | .suback s => encodeSuback s version
  | .unsubscribe u => encodeUnsubscribe u version
  | .unsuback u => .ok (encodeUnsuback u version)
  | .pingreq => .ok [0xC0, 0x00]
  | .pingresp => .ok [0xD0, 0x00]
  | .disconnect => .ok [0xE0, 0x00]

/-- The packet identifier on the PUBLISH path, which refuses a missing one. -/
def requirePacketId (packet : PublishPacket) (header : Bytes) : Except MqttError Bytes :=
  if packet.qos ≠ .atMostOnce then
    match packet.packetId with
    | some id => .ok (header ++ toBeBytes16 id)
    | none => .error (.codec (.payloadTooLong 0 0))
  else .ok header

/-- The two writes of the PUBLISH path that does not copy the payload. -/
def writePublishPacket (packet : PublishPacket) (version : ProtocolVersion) :
    Except MqttError (List Bytes) := do
  let varHeaderLen := 2 + (asBytes packet.topic).length
  let varHeaderLen := if packet.qos ≠ .atMostOnce then varHeaderLen + 2 else varHeaderLen
  let properties ← writeProperties version packet.properties []
  let varHeaderLen := varHeaderLen + properties.length
  let bodyLen := varHeaderLen + packet.payload.length
  let header := [(PacketType.publish.asU8 <<< 4) ||| packPublishFlags packet]
  let header := header ++ encodeRemainingLength bodyLen
  let header := writeArcStr header packet.topic
  let header ← requirePacketId packet header
  .ok [header ++ properties, packet.payload]

end HotaruMqtt.Codec

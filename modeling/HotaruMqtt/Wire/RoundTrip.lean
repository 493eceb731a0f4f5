import HotaruMqtt.Wire.Framing
import HotaruMqtt.Wire.Layout

/-!
# Decoding undoes encoding

The readers of the codec recognise the fields the writers emit, the parsers recognise the bodies,
and the decoder takes an encoded frame off the front of a buffer and returns the packet.
-/

namespace HotaruMqtt.Codec

open Library Library.Decoder

theorem reads_readU16 (value : UInt16) : Reads readU16 (toBeBytes16 value) value := by
  intro before after
  simp [readU16, index, toBeBytes16, fromBeBytes16_toBeBytes16, bind, Except.bind]

theorem reads_readField (bytes : Bytes) : Reads (readField bytes.length) bytes bytes := by
  intro before after
  simp [readField, slice, bind, Except.bind]

theorem reads_readBytes {bytes : Bytes} (h : bytes.length ≤ 65535) :
    Reads readBytes (prefixed bytes) bytes := by
  refine Reads.bind (reads_readU16 _) ?_
  rw [toNat_asU16_of_le h]
  exact reads_readField bytes

/-- A string behind its length is read back if the length fits. -/
theorem reads_readArcStr {s : String} (h : (asBytes s).length ≤ 65535) :
    Reads readArcStr (prefixed (asBytes s)) s := by
  refine Reads.bind (reads_readU16 _) ?_
  rw [toNat_asU16_of_le h]
  refine Reads.map (reads_readField _) ?_
  simp only [fromUtf8_asBytes]
  exact reads_pure s

theorem readsToEnd_readRest (bytes : Bytes) : ReadsToEnd readRest bytes bytes := by
  intro before
  simp [readRest, slice, bind, Except.bind]

theorem reads_readOptions (options : UInt8) : Reads readOptions [options] options := by
  intro before after
  simp [readOptions, index, bind, Except.bind]

/-- The properties a packet of a version can carry. -/
def Carries (version : ProtocolVersion) (properties : Properties) : Prop :=
  match version with
  | .v311 => properties = {}
  | .v5 => ∃ block, properties.encode [] = .ok block

/-- Properties that a version carries can be encoded in it. -/
theorem Carries.exists_block {version : ProtocolVersion} {properties : Properties}
    (h : Carries version properties) : ∃ block, propertyBlock version properties = .ok block := by
  cases version with
  | v311 => exact ⟨[], rfl⟩
  | v5 => exact h

/-- The block of a packet is read back in either version. -/
theorem reads_readProperties {version : ProtocolVersion} {properties : Properties}
    (h : Carries version properties) {block : Bytes}
    (hblock : propertyBlock version properties = .ok block) :
    Reads (readProperties version) block properties := by
  cases version with
  | v311 =>
    obtain rfl : properties = {} := h
    obtain rfl : [] = block := Except.ok.inj hblock
    exact reads_pure _
  | v5 => exact Properties.reads_parse hblock

theorem carries_default (version : ProtocolVersion) : Carries version {} := by
  cases version with
  | v311 => rfl
  | v5 => exact ⟨_, propertyBlock_default .v5⟩

theorem reads_emptyBlock (version : ProtocolVersion) :
    Reads (readProperties version) (emptyBlock version) {} :=
  reads_readProperties (carries_default version) (propertyBlock_default version)

/-- A field announced by a flag is read if it is there. -/
theorem reads_readIf {α : Type} {reader : Reader α} {present : Bool} {field : Option α}
    {encoded : Bytes} (hpresent : present = field.isSome)
    (hnone : field = none → encoded = [])
    (hsome : ∀ value ∈ field, Reads reader encoded value) :
    Reads (readIf present reader) encoded field := by
  cases field with
  | none =>
    obtain rfl : encoded = [] := hnone rfl
    obtain rfl : present = false := hpresent
    exact reads_pure none
  | some value =>
    obtain rfl : present = true := hpresent
    exact Reads.map (hsome value rfl) (reads_pure _)

/-- The flags byte as a function of what it records. -/
def connectFlagBits (cleanSession : Bool) (will : Option (QoS × Bool)) (username password : Bool) :
    UInt8 :=
  let flags : UInt8 := if cleanSession then ConnectFlags.cleanSession else 0
  let flags := match will with
    | none => flags
    | some (qos, retain) =>
        let flags := flags ||| ConnectFlags.willFlag
        let flags := flags ||| ((qos.asU8 <<< 3) &&& ConnectFlags.willQosMask)
        if retain then flags ||| ConnectFlags.willRetain else flags
  let flags := if username then flags ||| ConnectFlags.username else flags
  if password then flags ||| ConnectFlags.password else flags

/-- The flags of a CONNECT depend on a few of its fields. -/
theorem packConnectFlags_eq (conn : ConnectPacket) :
    packConnectFlags conn = connectFlagBits conn.cleanSession
      (conn.will.map fun will ↦ (will.qos, will.retain)) conn.username.isSome
      conn.password.isSome := by
  unfold packConnectFlags connectFlagBits
  cases conn.will <;> rfl

/-- The parser finds in the flags byte which fields follow. -/
theorem connectFlagBits_fields (cleanSession : Bool) (will : Option (QoS × Bool))
    (username password : Bool) :
    let flags := ConnectFlags.fromBitsTruncate
      (connectFlagBits cleanSession will username password)
    containsFlag flags ConnectFlags.cleanSession = cleanSession ∧
    containsFlag flags ConnectFlags.willFlag = will.isSome ∧
    containsFlag flags ConnectFlags.username = username ∧
    containsFlag flags ConnectFlags.password = password := by
  rcases will with _ | ⟨qos, retain⟩
  · revert cleanSession username password
    decide
  · revert cleanSession username password retain
    cases qos <;> decide

/-- It also finds the service level of the will and whether the will is retained. -/
theorem connectFlagBits_will (cleanSession : Bool) (qos : QoS) (retain username password : Bool) :
    let bits := connectFlagBits cleanSession (some (qos, retain)) username password
    QoS.fromU8 ((bits &&& ConnectFlags.willQosMask) >>> 3) = some qos ∧
    containsFlag (ConnectFlags.fromBitsTruncate bits) ConnectFlags.willRetain = retain := by
  revert cleanSession username password retain
  cases qos <;> decide

theorem reads_readWill {version : ProtocolVersion} {will : WillPacket} {flagsByte : UInt8}
    {fields : Bytes} (hfields : willFields version (some will) = .ok fields)
    (hproperties : Carries version will.properties) (htopic : (asBytes will.topic).length ≤ 65535)
    (hpayload : will.payload.length ≤ 65535)
    (hqos : QoS.fromU8 ((flagsByte &&& ConnectFlags.willQosMask) >>> 3) = some will.qos)
    (hretain : containsFlag (ConnectFlags.fromBitsTruncate flagsByte)
      ConnectFlags.willRetain = will.retain) :
    Reads (readWill version flagsByte) fields will := by
  obtain ⟨block, hblock, hfields⟩ := bind_eq_ok_iff.mp hfields
  obtain rfl := Except.ok.inj hfields
  refine Reads.bind (reads_readProperties hproperties hblock) ?_
  refine Reads.bind (reads_readArcStr htopic) ?_
  refine Reads.map (reads_readBytes hpayload) ?_
  simp only [hqos, hretain]
  exact reads_pure will

/-- The fields of a CONNECT are read back in their order. -/
theorem reads_readConnectFields {conn : ConnectPacket} {block will : Bytes}
    (hproperties : Carries conn.version conn.properties)
    (hwillProperties : ∀ will ∈ conn.will, Carries conn.version will.properties)
    (hblock : propertyBlock conn.version conn.properties = .ok block)
    (hwill : willFields conn.version conn.will = .ok will)
    (hfields : ∀ field ∈ (Packet.connect conn).prefixedFields, field.length ≤ 65535) :
    Reads (readConnectFields conn.version (packConnectFlags conn) conn.keepAlive)
      (block ++ (prefixed (asBytes conn.clientId) ++ (will ++
        (optionalField (conn.username.map asBytes) ++ optionalField conn.password)))) conn := by
  obtain ⟨hclean, hwillFlag, husername, hpassword⟩ := connectFlagBits_fields conn.cleanSession
    (conn.will.map fun will ↦ (will.qos, will.retain)) conn.username.isSome conn.password.isSome
  simp only [← packConnectFlags_eq, Option.isSome_map] at hclean hwillFlag husername hpassword
  refine Reads.bind (reads_readProperties hproperties hblock) ?_
  refine Reads.bind (reads_readArcStr (hfields _ (by simp [Packet.prefixedFields]))) ?_
  refine Reads.bind (reads_readIf hwillFlag ?_ ?_) ?_
  · intro hnone
    rw [hnone] at hwill
    exact (Except.ok.inj hwill).symm
  · intro packet hpacket
    have hsome : conn.will = some packet := hpacket
    obtain ⟨hqos, hretain⟩ := connectFlagBits_will conn.cleanSession packet.qos packet.retain
      conn.username.isSome conn.password.isSome
    have hbits := packConnectFlags_eq conn
    rw [hsome, Option.map_some] at hbits
    rw [← hbits] at hqos hretain
    rw [hsome] at hwill
    exact reads_readWill hwill (hwillProperties packet hpacket)
      (hfields _ (by simp [Packet.prefixedFields, hsome]))
      (hfields _ (by simp [Packet.prefixedFields, hsome])) hqos hretain
  refine Reads.bind (reads_readIf husername (fun hnone ↦ by rw [hnone]; rfl) ?_) ?_
  · intro username hsome
    rw [Option.mem_def.mp hsome]
    exact reads_readArcStr (hfields _ (by simp [Packet.prefixedFields, Option.mem_def.mp hsome]))
  refine Reads.map (reads_readIf hpassword (fun hnone ↦ by rw [hnone]; rfl) ?_) ?_
  · intro password hsome
    rw [Option.mem_def.mp hsome]
    exact reads_readBytes (hfields _ (by simp [Packet.prefixedFields, Option.mem_def.mp hsome]))
  simp only [hclean]
  exact reads_pure conn

theorem parseConnect_header {conn : ConnectPacket} {fields : Bytes}
    (h : Reads (readConnectFields conn.version (packConnectFlags conn) conn.keepAlive) fields
      conn) :
    parseConnect (connectHeader conn ++ fields) = .ok (.connect conn) := by
  have hread := h (connectHeader conn) []
  have hlength : (connectHeader conn).length = 10 := rfl
  rw [List.append_nil, hlength] at hread
  have hten : ¬ (connectHeader conn ++ fields).length < 10 := by
    rw [List.length_append, hlength]
    omega
  have hname : (fromBeBytes16 0 4).toNat = 4 := rfl
  unfold parseConnect
  rw [if_neg hten]
  simp [connectHeader, protocolName, toBeBytes16, index, slice, hname, bind, Except.bind,
    fromBeBytes16_toBeBytes16] at hread ⊢
  simp [hread]

theorem requireEnd_length (body : Bytes) :
    requireEnd.run body body.length = .ok ((), body.length) := by
  simp [requireEnd]

/-- A CONNACK body is parsed back. -/
theorem parseConnack_body {ack : ConnackPacket} {version : ProtocolVersion} {body : Bytes}
    (hproperties : Carries version ack.properties)
    (hbody : encodeBody (.connack ack) version = .ok body) :
    parseConnack body version = .ok (.connack ack) := by
  obtain ⟨properties, sessionPresent, returnCode⟩ := ack
  cases version with
  | v311 =>
    obtain rfl := Except.ok.inj hbody
    obtain rfl : properties = {} := hproperties
    cases sessionPresent <;>
      simp [parseConnack, index, readProperties, requireEnd, bind, Except.bind]
  | v5 =>
    obtain ⟨block, hblock, rfl⟩ := (writeProperties_eq_ok_iff .v5 _ _ _).mp hbody
    have hread := reads_readProperties hproperties hblock
      [if sessionPresent then 0x01 else 0x00, returnCode.toV5Reason] []
    rw [List.append_nil, ← List.length_append] at hread
    have htwo : ¬ ([if sessionPresent then 0x01 else 0x00, returnCode.toV5Reason] ++
        block).length < 2 := by
      simp
    have hend := requireEnd_length ([if sessionPresent then 0x01 else 0x00,
      returnCode.toV5Reason] ++ block)
    unfold parseConnack
    rw [if_neg htwo]
    simp only [List.length_cons, List.length_nil, Nat.zero_add] at hread
    cases sessionPresent <;> simp_all [index, bind, Except.bind]

/-- The flags of PUBLISH as a function of what they record. -/
def publishFlagBits (dup retain : Bool) (qos : QoS) : UInt8 :=
  let flags : UInt8 := if dup then FixedHeaderFlags.dup else 0
  let flags := if retain then flags ||| FixedHeaderFlags.retain else flags
  flags ||| ((qos.asU8 <<< 1) &&& FixedHeaderFlags.qos)

theorem packPublishFlags_eq (p : PublishPacket) :
    packPublishFlags p = publishFlagBits p.dup p.retain p.qos := rfl

theorem publishFlagBits_fields (dup retain : Bool) (qos : QoS) :
    let flags := publishFlagBits dup retain qos
    FixedHeaderFlags.fromBits ((0x30 ||| flags) &&& 0x0F) = some flags ∧
    QoS.fromU8 ((flags &&& FixedHeaderFlags.qos) >>> 1) = some qos ∧
    containsFlag flags FixedHeaderFlags.dup = dup ∧
    containsFlag flags FixedHeaderFlags.retain = retain ∧
    PacketType.tryFrom ((0x30 ||| flags) >>> 4) = some .publish := by
  revert dup retain
  cases qos <;> decide

theorem readsToEnd_readPublishFields {p : PublishPacket} {version : ProtocolVersion}
    {block : Bytes} (hid : p.packetId.isSome ↔ p.qos ≠ .atMostOnce)
    (hproperties : Carries version p.properties)
    (hblock : propertyBlock version p.properties = .ok block)
    (htopic : (asBytes p.topic).length ≤ 65535) :
    ReadsToEnd (readPublishFields (packPublishFlags p) p.qos version)
      (prefixed (asBytes p.topic) ++ (packetIdField p ++ (block ++ p.payload))) p := by
  obtain ⟨-, -, hdup, hretain, -⟩ := publishFlagBits_fields p.dup p.retain p.qos
  have hpresent : decide (p.qos ≠ .atMostOnce) = p.packetId.isSome := by
    rw [Bool.eq_iff_iff, decide_eq_true_iff, hid]
  refine Reads.bindToEnd (reads_readArcStr htopic) ?_
  refine Reads.bindToEnd (reads_readIf hpresent ?_ ?_) ?_
  · intro hnone
    simp [packetIdField, hnone]
  · intro id hsome
    have hqos : p.qos ≠ .atMostOnce := hid.mp (by rw [Option.mem_def.mp hsome]; rfl)
    rw [packetIdField, if_pos hqos, Option.mem_def.mp hsome]
    exact reads_readU16 id
  refine Reads.bindToEnd (reads_readProperties hproperties hblock) ?_
  intro before
  rw [run_bind_ok (readsToEnd_readRest p.payload before)]
  simp only [run_pure]
  congr 3

/-- A PUBLISH body with its first byte is parsed back. -/
theorem parsePublish_body {p : PublishPacket} {version : ProtocolVersion} {body : Bytes}
    (hid : p.packetId.isSome ↔ p.qos ≠ .atMostOnce)
    (hproperties : Carries version p.properties) (htopic : (asBytes p.topic).length ≤ 65535)
    (hbody : encodeBody (.publish p) version = .ok body) :
    parsePublish (Packet.publish p).firstByte body version = .ok (.publish p) := by
  obtain ⟨block, hblock, rfl⟩ := (encodePublishBody_eq_ok_iff p version _).mp hbody
  have hread := readsToEnd_readPublishFields hid hproperties hblock htopic []
  obtain ⟨hbits, hqos, -, -, -⟩ := publishFlagBits_fields p.dup p.retain p.qos
  have hlength : ¬ (prefixed (asBytes p.topic) ++
      (packetIdField p ++ (block ++ p.payload))).length < 2 := by
    rw [List.length_append, length_prefixed]
    omega
  unfold parsePublish
  rw [if_neg hlength, Packet.firstByte, packPublishFlags_eq, hbits]
  simp only [hqos]
  rw [List.nil_append, List.length_nil, packPublishFlags_eq] at hread
  rw [hread]
  rfl

theorem requireAckLength_two (version : ProtocolVersion) : requireAckLength 2 version = .ok () := by
  cases version <;> rfl

theorem requireAckLength_v5 {remaining : ℕ} (h : 2 ≤ remaining) :
    requireAckLength remaining .v5 = .ok () := by
  simp [requireAckLength, Nat.not_lt.mpr h]

/-- The acknowledgements consist of the packet identifier alone. -/
theorem parseAckPacket_body (id : PacketId) (version : ProtocolVersion) :
    parseAckPacket 0x40 .puback 2 (toBeBytes16 id) version = .ok (.puback id) ∧
    parseAckPacket 0x50 .pubrec 2 (toBeBytes16 id) version = .ok (.pubrec id) ∧
    parseAckPacket 0x62 .pubrel 2 (toBeBytes16 id) version = .ok (.pubrel id) ∧
    parseAckPacket 0x70 .pubcomp 2 (toBeBytes16 id) version = .ok (.pubcomp id) := by
  simp [parseAckPacket, requireAckLength_two, toBeBytes16, index, fromBeBytes16_toBeBytes16, bind,
    Except.bind]
  decide

/-- An UNSUBACK body is parsed back; in MQTT 3.1.1 it has no reason codes. -/
theorem parseUnsuback_body {u : UnsubackPacket} {version : ProtocolVersion} {body : Bytes}
    (hreasons : version = .v311 → u.reasonCodes = [])
    (hbody : encodeBody (.unsuback u) version = .ok body) :
    parseUnsuback body.length body version = .ok (.unsuback u) := by
  obtain ⟨packetId, reasonCodes⟩ := u
  obtain rfl := Except.ok.inj hbody
  cases version with
  | v311 =>
    obtain rfl : reasonCodes = [] := hreasons rfl
    simp [parseUnsuback, requireAckLength, toBeBytes16, index, fromBeBytes16_toBeBytes16, bind,
      Except.bind]
  | v5 =>
    have hread := reads_emptyBlock .v5 (toBeBytes16 packetId) reasonCodes
    simp [readProperties, emptyBlock, toBeBytes16] at hread
    have hlength := requireAckLength_v5 (show 2 ≤ reasonCodes.length + 1 + 1 + 1 by omega)
    simp [parseUnsuback, hlength, toBeBytes16, index, fromBeBytes16_toBeBytes16, bind, Except.bind,
      hread, slice]

theorem reads_parseSubscription (version : ProtocolVersion) {subscription : TopicSubscription}
    (htopic : (asBytes subscription.topic).length ≤ 65535)
    (subscriptions : List TopicSubscription) :
    Reads (parseSubscription version subscriptions) (subscriptionBytes subscription)
      (subscriptions ++ [subscription]) := by
  obtain ⟨topic, qos⟩ := subscription
  refine Reads.bind (reads_readArcStr htopic) ?_
  refine Reads.map (reads_readOptions _) ?_
  have hallowed : ¬ ((version = .v311 ∧ qos.asU8 > 2) ∨
      (version = .v5 ∧ (qos.asU8 &&& 0xC0 ≠ 0 ∨ (qos.asU8 >>> 4) &&& 0x03 = 0x03))) := by
    cases version <;> cases qos <;> decide
  have hqos : QoS.fromU8 (qos.asU8 &&& 0x03) = some qos := by
    cases qos <;> decide
  simp only [if_neg hallowed, hqos]
  exact reads_pure _

/-- The loop appends the subscriptions in their order. -/
theorem loopReads_parseSubscription (version : ProtocolVersion)
    (subscriptions rest : List TopicSubscription)
    (htopics : ∀ subscription ∈ rest, (asBytes subscription.topic).length ≤ 65535) :
    LoopReads (parseSubscription version) subscriptions (rest.flatMap subscriptionBytes)
      (subscriptions ++ rest) := by
  induction rest generalizing subscriptions with
  | nil => simpa using loopReads_nil _ _
  | cons subscription rest ih =>
    have hrest := ih (subscriptions ++ [subscription])
      (fun other hother ↦ htopics other (List.mem_cons_of_mem _ hother))
    rw [List.append_assoc, List.singleton_append] at hrest
    rw [List.flatMap_cons]
    refine LoopReads.cons ?_ (reads_parseSubscription version
      (htopics _ List.mem_cons_self) subscriptions) hrest
    simp [subscriptionBytes]

/-- A SUBSCRIBE body with at least one subscription is parsed back. -/
theorem parseSubscribe_body {s : SubscribePacket} {version : ProtocolVersion} {body : Bytes}
    (hnonempty : s.subscriptions ≠ [])
    (htopics : ∀ subscription ∈ s.subscriptions, (asBytes subscription.topic).length ≤ 65535)
    (hbody : encodeBody (.subscribe s) version = .ok body) :
    parseSubscribe body version = .ok (.subscribe s) := by
  obtain rfl := Except.ok.inj ((encodeSubscribeBody_eq s version).symm.trans hbody)
  have hloop := (loopReads_parseSubscription version [] s.subscriptions htopics).whileMore
  have hread : ReadsToEnd (readSubscribeFields version) _ s :=
    Reads.bindToEnd (reads_readU16 s.packetId) (Reads.bindToEnd (reads_emptyBlock version)
      (fun before ↦ by rw [run_bind_ok (hloop before)]; rfl))
  have hlength : ¬ (toBeBytes16 s.packetId ++ (emptyBlock version ++
      s.subscriptions.flatMap subscriptionBytes)).length < 5 := by
    obtain ⟨subscription, rest, hcons⟩ := List.exists_cons_of_ne_nil hnonempty
    simp only [hcons, List.flatMap_cons, subscriptionBytes, List.length_append, length_prefixed,
      length_toBeBytes16, List.length_singleton]
    omega
  have hrun := hread []
  rw [List.nil_append, List.length_nil] at hrun
  rw [parseSubscribe, if_neg hlength, hrun]
  rfl

theorem reads_parseTopic {topic : String} (htopic : (asBytes topic).length ≤ 65535)
    (topics : List String) :
    Reads (parseTopic topics) (prefixed (asBytes topic)) (topics ++ [topic]) :=
  Reads.map (reads_readArcStr htopic) (reads_pure _)

theorem loopReads_parseTopic (topics rest : List String)
    (htopics : ∀ topic ∈ rest, (asBytes topic).length ≤ 65535) :
    LoopReads parseTopic topics (rest.flatMap fun topic ↦ prefixed (asBytes topic))
      (topics ++ rest) := by
  induction rest generalizing topics with
  | nil => simpa using loopReads_nil _ _
  | cons topic rest ih =>
    have hrest := ih (topics ++ [topic])
      (fun other hother ↦ htopics other (List.mem_cons_of_mem _ hother))
    rw [List.append_assoc, List.singleton_append] at hrest
    rw [List.flatMap_cons]
    refine LoopReads.cons ?_ (reads_parseTopic (htopics _ List.mem_cons_self) topics) hrest
    exact List.ne_nil_of_length_pos (by rw [length_prefixed]; omega)

/-- An UNSUBSCRIBE body with at least one topic is parsed back. -/
theorem parseUnsubscribe_body {u : UnsubscribePacket} {version : ProtocolVersion} {body : Bytes}
    (hnonempty : u.topics ≠ []) (htopics : ∀ topic ∈ u.topics, (asBytes topic).length ≤ 65535)
    (hbody : encodeBody (.unsubscribe u) version = .ok body) :
    parseUnsubscribe body version = .ok (.unsubscribe u) := by
  obtain rfl := Except.ok.inj ((encodeUnsubscribeBody_eq u version).symm.trans hbody)
  have hloop := (loopReads_parseTopic [] u.topics htopics).whileMore
  have hread : ReadsToEnd (readUnsubscribeFields version) _ u :=
    Reads.bindToEnd (reads_readU16 u.packetId) (Reads.bindToEnd (reads_emptyBlock version)
      (fun before ↦ by rw [run_bind_ok (hloop before)]; rfl))
  have hlength : ¬ (toBeBytes16 u.packetId ++ (emptyBlock version ++
      u.topics.flatMap fun topic ↦ prefixed (asBytes topic))).length < 4 := by
    obtain ⟨topic, rest, hcons⟩ := List.exists_cons_of_ne_nil hnonempty
    simp only [hcons, List.flatMap_cons, List.length_append, length_prefixed, length_toBeBytes16]
    omega
  have hrun := hread []
  rw [List.nil_append, List.length_nil] at hrun
  rw [parseUnsubscribe, if_neg hlength, hrun]
  rfl

theorem decodeSubackCode_asU8 (version : ProtocolVersion) (code : SubackCode) :
    decodeSubackCode version code.asU8 = .ok code := by
  rw [decodeSubackCode, SubackCode.fromU8_asU8]

theorem mapM_decodeSubackCode (version : ProtocolVersion) (codes : List SubackCode) :
    (codes.map SubackCode.asU8).mapM (decodeSubackCode version) = .ok codes := by
  induction codes with
  | nil => rfl
  | cons code codes ih =>
    rw [List.map_cons, List.mapM_cons, decodeSubackCode_asU8, ih]
    rfl

/-- A SUBACK body is parsed back; in MQTT 3.1.1 it has at least one code. -/
theorem parseSuback_body {s : SubackPacket} {version : ProtocolVersion} {body : Bytes}
    (hnonempty : version = .v311 → s.returnCodes ≠ [])
    (hbody : encodeBody (.suback s) version = .ok body) :
    parseSuback body version = .ok (.suback s) := by
  obtain rfl := Except.ok.inj ((encodeSubackBody_eq s version).symm.trans hbody)
  have hread : ReadsToEnd (readSubackFields version) _ s :=
    Reads.bindToEnd (reads_readU16 s.packetId) (Reads.bindToEnd (reads_emptyBlock version)
      (fun before ↦ by
        rw [run_bind_ok (readsToEnd_readRest _ before), mapM_decodeSubackCode]
        rfl))
  have hlength : ¬ (toBeBytes16 s.packetId ++ (emptyBlock version ++
      s.returnCodes.map SubackCode.asU8)).length < 3 := by
    simp only [List.length_append, length_toBeBytes16, List.length_map]
    cases version with
    | v311 =>
      have := List.length_pos_iff.mpr (hnonempty rfl)
      omega
    | v5 =>
      simp only [emptyBlock, if_true, List.length_singleton]
      omega
  have hrun := hread []
  rw [List.nil_append, List.length_nil] at hrun
  rw [parseSuback, if_neg hlength, hrun]
  rfl

theorem moves_readU16 : Moves 2 readU16 := by
  intro body cursor value moved h
  simp only [readU16] at h
  split at h
  · cases h
  · obtain ⟨high, -, hlow⟩ := bind_eq_ok_iff.mp h
    obtain ⟨low, -, hmoved⟩ := bind_eq_ok_iff.mp hlow
    cases hmoved
    exact Nat.le_refl _

theorem moves_readField (len : ℕ) : Moves len (readField len) := by
  intro body cursor value moved h
  simp only [readField] at h
  split at h
  · cases h
  · obtain ⟨bytes, -, hmoved⟩ := bind_eq_ok_iff.mp h
    cases hmoved
    exact Nat.le_refl _

theorem moves_readOptions : Moves 1 readOptions := by
  intro body cursor value moved h
  simp only [readOptions] at h
  split at h
  · cases h
  · obtain ⟨options, -, hmoved⟩ := bind_eq_ok_iff.mp h
    cases hmoved
    exact Nat.le_refl _

theorem moves_readArcStr : Moves 2 readArcStr := by
  refine moves_readU16.bind fun len ↦ ?_
  refine ((moves_readField len.toNat).weaken (Nat.zero_le _)).bind fun bytes ↦ ?_
  split
  · exact moves_raise 0 _
  · exact moves_pure _

/-- Every round of the loop takes at least a byte. -/
theorem moves_parseSubscription (version : ProtocolVersion)
    (subscriptions : List TopicSubscription) :
    Moves 1 (parseSubscription version subscriptions) := by
  refine (moves_readArcStr.weaken (Nat.le_succ 1)).bind fun topic ↦ ?_
  refine (moves_readOptions.weaken (Nat.zero_le 1)).bind fun options ↦ ?_
  refine (moves_raise 0 _).ite ?_
  split
  · exact moves_raise 0 _
  · exact moves_pure _

theorem moves_parseTopic (topics : List String) : Moves 1 (parseTopic topics) :=
  (moves_readArcStr.weaken (Nat.le_succ 1)).bind fun _ ↦ moves_pure _

/-! ## Packets -/

/-- What a packet of a version must satisfy besides the lengths of its fields. A CONNECT is read
in its own version. -/
def WellShaped (version : ProtocolVersion) : Packet → Prop
  | .connect conn =>
      Carries conn.version conn.properties ∧
        ∀ will ∈ conn.will, Carries conn.version will.properties
  | .connack ack => Carries version ack.properties
  | .publish p => (p.packetId.isSome ↔ p.qos ≠ .atMostOnce) ∧ Carries version p.properties
  | .subscribe s => s.subscriptions ≠ []
  | .suback s => version = .v311 → s.returnCodes ≠ []
  | .unsubscribe u => u.topics ≠ []
  | .unsuback u => version = .v311 → u.reasonCodes = []
  | _ => True

/-- The packets that the format of a version can represent. -/
structure Representable (version : ProtocolVersion) (packet : Packet) : Prop where
  shape : WellShaped version packet
  fields : ∀ field ∈ packet.prefixedFields, field.length ≤ 65535
  body : ∀ body, encodeBody packet version = .ok body → body.length ≤ maxRemainingLength

/-- Packets of the right shape have a body. -/
theorem WellShaped.exists_body {version : ProtocolVersion} {packet : Packet}
    (h : WellShaped version packet) : ∃ body, encodeBody packet version = .ok body := by
  cases packet with
  | connect conn =>
    obtain ⟨hproperties, hwill⟩ := h
    obtain ⟨block, hblock⟩ := hproperties.exists_block
    obtain ⟨will, hwillFields⟩ : ∃ fields, willFields conn.version conn.will = .ok fields := by
      cases hsome : conn.will with
      | none => exact ⟨[], rfl⟩
      | some will =>
        obtain ⟨willBlock, hwillBlock⟩ := (hwill will hsome).exists_block
        exact ⟨_, bind_eq_ok_iff.mpr ⟨willBlock, hwillBlock, rfl⟩⟩
    exact ⟨_, (encodeConnectBody_eq_ok_iff conn _).mpr ⟨block, will, hblock, hwillFields, rfl⟩⟩
  | connack ack =>
    cases version with
    | v311 => exact ⟨_, rfl⟩
    | v5 =>
      have hproperties : Carries .v5 ack.properties := h
      obtain ⟨block, hblock⟩ := hproperties.exists_block
      exact ⟨_, (writeProperties_eq_ok_iff .v5 _ _ _).mpr ⟨block, hblock, rfl⟩⟩
  | publish p =>
    obtain ⟨block, hblock⟩ := h.2.exists_block
    exact ⟨_, (encodePublishBody_eq_ok_iff p version _).mpr ⟨block, hblock, rfl⟩⟩
  | subscribe s => exact ⟨_, encodeSubscribeBody_eq s version⟩
  | suback s => exact ⟨_, encodeSubackBody_eq s version⟩
  | unsubscribe u => exact ⟨_, encodeUnsubscribeBody_eq u version⟩
  | _ => exact ⟨_, rfl⟩

/-- The first byte of a frame names the type of its packet. -/
theorem tryFrom_firstByte (packet : Packet) :
    PacketType.tryFrom (packet.firstByte >>> 4) = some packet.packetType := by
  cases packet with
  | publish p => exact (publishFlagBits_fields p.dup p.retain p.qos).2.2.2.2
  | _ =>
    simp only [Packet.firstByte, Packet.packetType]
    decide

/-- The parser of the packet's type reads the body back. -/
theorem parsePacket_body {version : ProtocolVersion} {packet : Packet} {body : Bytes}
    (h : Representable version packet) (hbody : encodeBody packet version = .ok body) :
    parsePacket packet.firstByte packet.packetType body.length body version = .ok packet := by
  have hshape := h.shape
  have hfields := h.fields
  cases packet with
  | connect conn =>
    obtain ⟨block, will, hblock, hwill, rfl⟩ := (encodeConnectBody_eq_ok_iff conn body).mp hbody
    exact parseConnect_header (reads_readConnectFields hshape.1 hshape.2 hblock hwill hfields)
  | connack ack => exact parseConnack_body hshape hbody
  | publish p =>
    exact parsePublish_body hshape.1 hshape.2 (hfields _ List.mem_cons_self) hbody
  | puback id =>
    obtain rfl := Except.ok.inj hbody
    exact (parseAckPacket_body id version).1
  | pubrec id =>
    obtain rfl := Except.ok.inj hbody
    exact (parseAckPacket_body id version).2.1
  | pubrel id =>
    obtain rfl := Except.ok.inj hbody
    exact (parseAckPacket_body id version).2.2.1
  | pubcomp id =>
    obtain rfl := Except.ok.inj hbody
    exact (parseAckPacket_body id version).2.2.2
  | subscribe s =>
    exact parseSubscribe_body hshape
      (fun subscription hmem ↦ hfields _ (List.mem_map_of_mem hmem)) hbody
  | suback s => exact parseSuback_body hshape hbody
  | unsubscribe u =>
    exact parseUnsubscribe_body hshape
      (fun topic hmem ↦ hfields _ (List.mem_map_of_mem hmem)) hbody
  | unsuback u => exact parseUnsuback_body hshape hbody
  | pingreq | pingresp =>
    obtain rfl := Except.ok.inj hbody
    rfl
  | disconnect =>
    obtain rfl := Except.ok.inj hbody
    cases version <;> rfl

/-- A frame of a representable packet is decoded to it, whatever follows. -/
theorem decode_frame {version : ProtocolVersion} {packet : Packet} {body : Bytes}
    (h : Representable version packet) (hbody : encodeBody packet version = .ok body)
    (rest : Bytes) :
    decodePacketFromBytes (frame packet.firstByte body ++ rest) version =
      (.ok (some packet), rest) := by
  have hlength := decodeRemainingLength_encode (h.body body hbody)
  rw [frame, List.cons_append, List.append_assoc,
    decodePacketFromBytes_frame version rest (tryFrom_firstByte packet) hlength,
    parsePacket_body h hbody]
  rfl

/-- Decoding undoes encoding over the whole packet format. -/
theorem decode_encodePacket {version : ProtocolVersion} {packet : Packet}
    (h : Representable version packet) (rest : Bytes) :
    ∃ bytes, encodePacket packet version = .ok bytes ∧
      decodePacketFromBytes (bytes ++ rest) version = (.ok (some packet), rest) := by
  obtain ⟨body, hbody⟩ := h.shape.exists_body
  refine ⟨frame packet.firstByte body, ?_, decode_frame h hbody rest⟩
  rw [encodePacket_eq, hbody]
  rfl

/-- A QoS 1 PUBLISH of MQTT 5 with a user property, followed by a stray byte. -/
theorem decode_encodePacket_publish :
    let packet : Packet := .publish
      { properties := { userProperties := [("k", "v")] }, topic := "a/b", payload := [1, 2]
        dup := true, qos := .atLeastOnce, retain := false, packetId := some 7 }
    ∃ bytes, encodePacket packet .v5 = .ok bytes ∧
      decodePacketFromBytes (bytes ++ [0xC0]) .v5 = (.ok (some packet), [0xC0]) := by
  intro packet
  have hshape : WellShaped .v5 packet := And.intro (by decide)
    ⟨[7, 38, 0, 1, 107, 0, 1, 118], by decide⟩
  have hbody : encodeBody packet .v5 =
      .ok [0, 3, 97, 47, 98, 0, 7, 7, 38, 0, 1, 107, 0, 1, 118, 1, 2] := by decide
  refine decode_encodePacket ⟨hshape, by decide, fun body hbody' ↦ ?_⟩ [0xC0]
  obtain rfl := Except.ok.inj (hbody.symm.trans hbody')
  decide

end HotaruMqtt.Codec

import HotaruMqtt.Wire.Layout
import HotaruMqtt.Wire.PropertyEncoder
import Mathlib.Data.List.Forall2

/-!
# Which frames say what the packet says

A frame is well formed for a packet if its remaining length fits four bytes and counts the bytes
behind it, if every two-byte length counts the field behind it, and if a PUBLISH above QoS 0
carries its packet identifier. The property encoder checks the lengths it writes. The packet
encoders cast them, so their frames are well formed exactly for the packets that fit.
-/

namespace HotaruMqtt

open Library

/-- A field behind the two bytes that count it. -/
def IsPrefixed (field encoded : Bytes) : Prop :=
  ∃ high low : UInt8, encoded = high :: low :: field ∧
    high.toNat * 256 + low.toNat = field.length

/-- At most four bytes that decode to a number. -/
def SaysLength (value : ℕ) (encoded : Bytes) : Prop :=
  encoded.length ≤ 4 ∧
    Codec.decodeRemainingLengthFromSlice encoded = .ok (some (value, encoded.length))

def PropertyType.Says : (type : PropertyType) → type.Value → Bytes → Prop
  | .byte, value, encoded => encoded = [value]
  | .twoByte, value, encoded => encoded = toBeBytes16 value
  | .fourByte, value, encoded => encoded = toBeBytes32 value
  | .string, value, encoded => IsPrefixed (asBytes value) encoded
  | .binary, value, encoded => IsPrefixed value encoded
  | .variableByteInteger, value, encoded => SaysLength value.toNat encoded
  | .stringPair, (key, value), encoded =>
      ∃ keyBytes valueBytes, encoded = keyBytes ++ valueBytes ∧
        IsPrefixed (asBytes key) keyBytes ∧ IsPrefixed (asBytes value) valueBytes

def PropertyItem.Says (item : PropertyItem) (encoded : Bytes) : Prop :=
  ∃ value, encoded = item.id.code :: value ∧ item.id.type.Says item.value value

/-- A property block: the count of its bytes and then every property. -/
def SaysProperties (version : ProtocolVersion) (properties : Properties) (block : Bytes) : Prop :=
  match version with
  | .v311 => block = []
  | .v5 => ∃ length items, block = length ++ items.flatten ∧
      SaysLength items.flatten.length length ∧
      List.Forall₂ PropertyItem.Says properties.items items

def SaysOptional (field : Option Bytes) (encoded : Bytes) : Prop :=
  match field with
  | none => encoded = []
  | some field => IsPrefixed field encoded

def SaysWill (version : ProtocolVersion) (will : Option WillPacket) (encoded : Bytes) : Prop :=
  match will with
  | none => encoded = []
  | some will => ∃ block topic payload, encoded = block ++ (topic ++ payload) ∧
      SaysProperties version will.properties block ∧ IsPrefixed (asBytes will.topic) topic ∧
      IsPrefixed will.payload payload

/-- A packet identifier stands in every PUBLISH above QoS 0 and in no other. -/
def SaysPacketId (p : PublishPacket) (encoded : Bytes) : Prop :=
  if p.qos = .atMostOnce then encoded = []
  else ∃ id, p.packetId = some id ∧ encoded = toBeBytes16 id

def SaysSubscription (subscription : TopicSubscription) (encoded : Bytes) : Prop :=
  ∃ topic, encoded = topic ++ [subscription.qos.asU8] ∧
    IsPrefixed (asBytes subscription.topic) topic

/-- The fields of a packet, each in its place and counted correctly. -/
def SaysBody (version : ProtocolVersion) (packet : Packet) (body : Bytes) : Prop :=
  match packet with
  | .connect conn => ∃ block clientId will username password,
      body = Codec.connectHeader conn ++ (block ++ (clientId ++ (will ++ (username ++ password)))) ∧
      SaysProperties conn.version conn.properties block ∧
      IsPrefixed (asBytes conn.clientId) clientId ∧ SaysWill conn.version conn.will will ∧
      SaysOptional (conn.username.map asBytes) username ∧ SaysOptional conn.password password
  | .connack ack => ∃ block,
      body = [if ack.sessionPresent then 0x01 else 0x00,
        if version = .v311 then ack.returnCode.asU8 else ack.returnCode.toV5Reason] ++ block ∧
      SaysProperties version ack.properties block
  | .publish p => ∃ topic id block, body = topic ++ (id ++ (block ++ p.payload)) ∧
      IsPrefixed (asBytes p.topic) topic ∧ SaysPacketId p id ∧
      SaysProperties version p.properties block
  | .puback id | .pubrec id | .pubrel id | .pubcomp id => body = toBeBytes16 id
  | .subscribe s => ∃ entries,
      body = toBeBytes16 s.packetId ++ (Codec.emptyBlock version ++ entries.flatten) ∧
      List.Forall₂ SaysSubscription s.subscriptions entries
  | .suback s =>
      body = toBeBytes16 s.packetId ++
        (Codec.emptyBlock version ++ s.returnCodes.map SubackCode.asU8)
  | .unsubscribe u => ∃ entries,
      body = toBeBytes16 u.packetId ++ (Codec.emptyBlock version ++ entries.flatten) ∧
      List.Forall₂ (fun topic ↦ IsPrefixed (asBytes topic)) u.topics entries
  | .unsuback u =>
      body = toBeBytes16 u.packetId ++
        (Codec.emptyBlock version ++ if version = .v5 then u.reasonCodes else [])
  | .pingreq | .pingresp | .disconnect => body = []

/-- One frame: the first byte, the count of the body, and the body. -/
def WellFormedFrame (version : ProtocolVersion) (packet : Packet) (bytes : Bytes) : Prop :=
  ∃ length body, bytes = packet.firstByte :: (length ++ body) ∧ SaysLength body.length length ∧
    SaysBody version packet body

def fieldSize (field : Bytes) : ℕ := 2 + field.length

def Properties.blockSize (version : ProtocolVersion) (properties : Properties) : ℕ :=
  match version with
  | .v311 => 0
  | .v5 => (Base128.encode properties.encodedSize).length + properties.encodedSize

def WillPacket.size (version : ProtocolVersion) (will : WillPacket) : ℕ :=
  will.properties.blockSize version + (fieldSize (asBytes will.topic) + fieldSize will.payload)

/-- The bytes the fields of a packet take. -/
def Packet.bodySize (version : ProtocolVersion) : Packet → ℕ
  | .connect conn =>
      10 + (conn.properties.blockSize conn.version + (fieldSize (asBytes conn.clientId) +
        (conn.will.elim 0 (WillPacket.size conn.version) +
          ((conn.username.map asBytes).elim 0 fieldSize + conn.password.elim 0 fieldSize))))
  | .connack ack => 2 + ack.properties.blockSize version
  | .publish p =>
      fieldSize (asBytes p.topic) + ((if p.qos ≠ .atMostOnce then 2 else 0) +
        (p.properties.blockSize version + p.payload.length))
  | .puback _ | .pubrec _ | .pubrel _ | .pubcomp _ => 2
  | .subscribe s =>
      2 + (Properties.blockSize version {} +
        (s.subscriptions.map fun subscription ↦ fieldSize (asBytes subscription.topic) + 1).sum)
  | .suback s => 2 + (Properties.blockSize version {} + s.returnCodes.length)
  | .unsubscribe u =>
      2 + (Properties.blockSize version {} +
        (u.topics.map fun topic ↦ fieldSize (asBytes topic)).sum)
  | .unsuback u =>
      2 + (Properties.blockSize version {} + if version = .v5 then u.reasonCodes.length else 0)
  | .pingreq | .pingresp | .disconnect => 0

/-- The packets whose lengths fit their counters and which have the identifier they need. -/
structure Fits (version : ProtocolVersion) (packet : Packet) : Prop where
  fields : ∀ field ∈ packet.prefixedFields, field.length ≤ 65535
  packetId : ∀ p, packet = .publish p → p.qos ≠ .atMostOnce → p.packetId.isSome
  body : packet.bodySize version ≤ Codec.maxRemainingLength

/-- A block has the bytes of its count and of its items. -/
theorem length_propertyBlock {version : ProtocolVersion} {properties : Properties} {block : Bytes}
    (h : Codec.propertyBlock version properties = .ok block) :
    block.length = properties.blockSize version := by
  cases version with
  | v311 =>
    obtain rfl := Except.ok.inj h
    rfl
  | v5 =>
    obtain ⟨-, -, -, rfl⟩ := (Properties.encode_eq_ok_iff properties [] block).mp h
    rw [List.nil_append, List.length_append, Properties.length_blockBody]
    rfl

theorem length_emptyBlock (version : ProtocolVersion) :
    (Codec.emptyBlock version).length = Properties.blockSize version {} :=
  length_propertyBlock (Codec.propertyBlock_default version)

theorem length_optionalField (field : Option Bytes) :
    (Codec.optionalField field).length = field.elim 0 fieldSize := by
  cases field with
  | none => rfl
  | some field => exact length_prefixed field

theorem length_willFields {version : ProtocolVersion} {will : Option WillPacket} {fields : Bytes}
    (h : Codec.willFields version will = .ok fields) :
    fields.length = will.elim 0 (WillPacket.size version) := by
  cases will with
  | none =>
    obtain rfl := Except.ok.inj h
    rfl
  | some will =>
    obtain ⟨block, hblock, hfields⟩ := bind_eq_ok_iff.mp h
    obtain rfl := Except.ok.inj hfields
    rw [List.length_append, List.length_append, length_prefixed, length_prefixed,
      length_propertyBlock hblock]
    rfl

theorem length_packetIdField {p : PublishPacket}
    (h : p.qos ≠ .atMostOnce → p.packetId.isSome) :
    (Codec.packetIdField p).length = if p.qos ≠ .atMostOnce then 2 else 0 := by
  unfold Codec.packetIdField
  by_cases hqos : p.qos ≠ .atMostOnce
  · obtain ⟨id, hid⟩ := Option.isSome_iff_exists.mp (h hqos)
    rw [if_pos hqos, if_pos hqos, hid]
    rfl
  · rw [if_neg hqos, if_neg hqos]
    rfl

/-- The encoders write as many bytes as the fields of the packet take. -/
theorem length_encodeBody {version : ProtocolVersion} {packet : Packet} {body : Bytes}
    (hid : ∀ p, packet = .publish p → p.qos ≠ .atMostOnce → p.packetId.isSome)
    (hbody : Codec.encodeBody packet version = .ok body) :
    body.length = packet.bodySize version := by
  cases packet with
  | connect conn =>
    obtain ⟨block, will, hblock, hwill, rfl⟩ :=
      (Codec.encodeConnectBody_eq_ok_iff conn body).mp hbody
    have hheader : (Codec.connectHeader conn).length = 10 := rfl
    simp only [List.length_append, hheader, length_prefixed, length_optionalField,
      length_propertyBlock hblock, length_willFields hwill]
    rfl
  | connack ack =>
    cases version with
    | v311 =>
      obtain rfl := Except.ok.inj hbody
      rfl
    | v5 =>
      obtain ⟨block, hblock, rfl⟩ := (Codec.writeProperties_eq_ok_iff .v5 _ _ _).mp hbody
      rw [List.length_append, length_propertyBlock hblock]
      rfl
  | publish p =>
    obtain ⟨block, hblock, rfl⟩ := (Codec.encodePublishBody_eq_ok_iff p version body).mp hbody
    rw [List.length_append, List.length_append, List.length_append, length_prefixed,
      length_packetIdField (hid p rfl), length_propertyBlock hblock]
    rfl
  | subscribe s =>
    obtain rfl := Except.ok.inj ((Codec.encodeSubscribeBody_eq s version).symm.trans hbody)
    rw [List.length_append, List.length_append, length_emptyBlock, List.length_flatMap]
    simp only [Codec.subscriptionBytes, List.length_append, length_prefixed]
    rfl
  | suback s =>
    obtain rfl := Except.ok.inj ((Codec.encodeSubackBody_eq s version).symm.trans hbody)
    rw [List.length_append, List.length_append, length_emptyBlock, List.length_map]
    rfl
  | unsubscribe u =>
    obtain rfl := Except.ok.inj ((Codec.encodeUnsubscribeBody_eq u version).symm.trans hbody)
    rw [List.length_append, List.length_append, length_emptyBlock, List.length_flatMap]
    simp only [length_prefixed]
    rfl
  | unsuback u =>
    obtain rfl := Except.ok.inj hbody
    cases version with
    | v311 => rfl
    | v5 =>
      rw [if_neg (by decide), List.append_assoc, List.length_append, List.length_append]
      rfl
  | puback | pubrec | pubrel | pubcomp | pingreq | pingresp | disconnect =>
    obtain rfl := Except.ok.inj hbody
    rfl

theorem IsPrefixed.length_le {field encoded : Bytes} (h : IsPrefixed field encoded) :
    field.length ≤ 65535 := by
  obtain ⟨high, low, -, hlength⟩ := h
  have hhigh := high.toNat_lt
  have hlow := low.toNat_lt
  omega

theorem SaysLength.le_maxRemainingLength {value : ℕ} {encoded : Bytes}
    (h : SaysLength value encoded) : value ≤ Codec.maxRemainingLength :=
  Codec.le_maxRemainingLength_of_decode h.2

/-- A count that needs more than four groups leaves the frame longer than any count allows. -/
theorem length_le_of_frame_eq {first : UInt8} {body length body' : Bytes}
    (hframe : Codec.frame first body = first :: (length ++ body'))
    (hlength : SaysLength body'.length length) : body.length ≤ Codec.maxRemainingLength := by
  by_contra hlong
  have hgroups : 4 < (Base128.encode body.length).length :=
    Base128.lt_length_encode 4 body.length (by unfold Codec.maxRemainingLength at hlong; omega)
  have hcount := congrArg List.length hframe
  rw [Codec.frame, Codec.encodeRemainingLength_eq, List.length_cons, List.length_cons,
    List.length_append, List.length_append] at hcount
  have hshort := hlength.le_maxRemainingLength
  have hfour := hlength.1
  omega

theorem SaysOptional.length_le {field : Option Bytes} {encoded : Bytes}
    (h : SaysOptional field encoded) : ∀ bytes ∈ field, bytes.length ≤ 65535 := by
  rintro bytes hbytes
  obtain rfl : field = some bytes := hbytes
  exact IsPrefixed.length_le h

theorem forall_length_le_of_forall₂ {α : Type} {field : α → Bytes} {Says : α → Bytes → Prop}
    (hsaid : ∀ value encoded, Says value encoded → (field value).length ≤ 65535)
    {values : List α} {entries : List Bytes} (h : List.Forall₂ Says values entries) :
    ∀ bytes ∈ values.map field, bytes.length ≤ 65535 := by
  induction h with
  | nil => simp
  | cons hhead _ ih => simpa using ⟨hsaid _ _ hhead, by simpa using ih⟩

/-- A length of two bytes counts no longer field. -/
theorem SaysBody.fields {version : ProtocolVersion} {packet : Packet} {body : Bytes}
    (h : SaysBody version packet body) :
    ∀ field ∈ packet.prefixedFields, field.length ≤ 65535 := by
  cases packet with
  | connect conn =>
    obtain ⟨_, _, _, _, _, -, -, hclientId, hwill, husername, hpassword⟩ := h
    simp only [Packet.prefixedFields, List.mem_cons, List.mem_append, List.mem_flatMap,
      Option.mem_toList, List.mem_map]
    rintro field (rfl | ⟨will, hsome, rfl | rfl | hnil⟩ | ⟨username, hsome, rfl⟩ | hsome)
    · exact hclientId.length_le
    · obtain ⟨_, _, _, -, -, htopic, -⟩ : SaysWill conn.version (some will) _ := hsome ▸ hwill
      exact htopic.length_le
    · obtain ⟨_, _, _, -, -, -, hpayload⟩ : SaysWill conn.version (some will) _ := hsome ▸ hwill
      exact hpayload.length_le
    · cases hnil
    · exact husername.length_le _ (Option.mem_map_of_mem asBytes hsome)
    · exact hpassword.length_le _ hsome
  | publish p =>
    obtain ⟨_, _, _, -, htopic, -, -⟩ := h
    simpa [Packet.prefixedFields] using htopic.length_le
  | subscribe s =>
    obtain ⟨_, -, hentries⟩ := h
    exact forall_length_le_of_forall₂ (fun _ _ ⟨_, _, htopic⟩ ↦ htopic.length_le) hentries
  | unsubscribe u =>
    obtain ⟨_, -, hentries⟩ := h
    exact forall_length_le_of_forall₂ (fun _ _ htopic ↦ htopic.length_le) hentries
  | _ => simp [Packet.prefixedFields]

/-- A well-formed PUBLISH above QoS 0 has an identifier to say. -/
theorem SaysBody.packetId {version : ProtocolVersion} {p : PublishPacket} {body : Bytes}
    (h : SaysBody version (.publish p) body) (hqos : p.qos ≠ .atMostOnce) :
    p.packetId.isSome := by
  obtain ⟨_, _, _, -, -, hid, -⟩ := h
  rw [SaysPacketId, if_neg hqos] at hid
  obtain ⟨id, hsome, -⟩ := hid
  rw [hsome]
  rfl

/-- A well-formed frame with the layout of the encoders belongs to a packet that fits. -/
theorem WellFormedFrame.fits {version : ProtocolVersion} {packet : Packet} {body : Bytes}
    (hbody : Codec.encodeBody packet version = .ok body)
    (h : WellFormedFrame version packet (Codec.frame packet.firstByte body)) :
    Fits version packet := by
  obtain ⟨length, body', hframe, hlength, hsaid⟩ := h
  have hid : ∀ p, packet = .publish p → p.qos ≠ .atMostOnce → p.packetId.isSome := by
    rintro p rfl hqos
    exact hsaid.packetId hqos
  refine ⟨hsaid.fields, hid, ?_⟩
  rw [← length_encodeBody hid hbody]
  exact length_le_of_frame_eq hframe hlength

/-! ## Packets that fit get well-formed frames -/

theorem isPrefixed_prefixed {field : Bytes} (h : field.length ≤ 65535) :
    IsPrefixed field (prefixed field) := by
  refine ⟨_, _, rfl, ?_⟩
  rw [toNat_asU16_of_le h, toNat_byte (by omega), toNat_byte (by omega)]
  omega

theorem saysLength_encode {value : ℕ} (h : value ≤ Codec.maxRemainingLength) :
    SaysLength value (Base128.encode value) := by
  have hlt : value < 128 ^ (3 + 1) := by
    unfold Codec.maxRemainingLength at h
    omega
  refine ⟨Base128.length_encode_le 3 value hlt, ?_⟩
  rw [← Codec.encodeRemainingLength_eq]
  exact Codec.decodeRemainingLength_encode h

theorem PropertyType.says_wire (type : PropertyType) (value : type.Value)
    (h : type.Writable value) : type.Says value (type.wire value) := by
  cases type with
  | byte | twoByte | fourByte => rfl
  | string => exact isPrefixed_prefixed h.2
  | binary => exact isPrefixed_prefixed h
  | variableByteInteger => exact saysLength_encode h
  | stringPair =>
    exact ⟨_, _, rfl, isPrefixed_prefixed h.1.2, isPrefixed_prefixed h.2.2⟩

theorem forall₂_map_self {α β : Type} {R : α → β → Prop} {f : α → β} {values : List α}
    (h : ∀ value ∈ values, R value (f value)) : List.Forall₂ R values (values.map f) := by
  rw [List.forall₂_map_right_iff, List.forall₂_same]
  exact h

/-- The property encoder checks all lengths it writes. -/
theorem saysProperties_block {version : ProtocolVersion} {properties : Properties} {block : Bytes}
    (h : Codec.propertyBlock version properties = .ok block) :
    SaysProperties version properties block := by
  cases version with
  | v311 => exact (Except.ok.inj h).symm
  | v5 =>
    obtain ⟨-, hitems, hlength, rfl⟩ := (Properties.encode_eq_ok_iff properties [] block).mp h
    exact ⟨_, properties.items.map PropertyItem.wire, rfl, saysLength_encode hlength,
      forall₂_map_self fun item hitem ↦ ⟨_, rfl, PropertyType.says_wire _ _ (hitems item hitem)⟩⟩

theorem saysOptional_optionalField {field : Option Bytes}
    (h : ∀ bytes ∈ field, bytes.length ≤ 65535) :
    SaysOptional field (Codec.optionalField field) := by
  cases field with
  | none => rfl
  | some field => exact isPrefixed_prefixed (h field rfl)

theorem saysWill_willFields {version : ProtocolVersion} {will : Option WillPacket}
    {fields : Bytes} (hfields : Codec.willFields version will = .ok fields)
    (h : ∀ packet ∈ will, (asBytes packet.topic).length ≤ 65535 ∧ packet.payload.length ≤ 65535) :
    SaysWill version will fields := by
  cases will with
  | none => exact (Except.ok.inj hfields).symm
  | some will =>
    obtain ⟨block, hblock, hfields⟩ := bind_eq_ok_iff.mp hfields
    obtain rfl := Except.ok.inj hfields
    obtain ⟨htopic, hpayload⟩ := h will rfl
    exact ⟨block, _, _, rfl, saysProperties_block hblock, isPrefixed_prefixed htopic,
      isPrefixed_prefixed hpayload⟩

theorem saysPacketId_packetIdField {p : PublishPacket}
    (h : p.qos ≠ .atMostOnce → p.packetId.isSome) : SaysPacketId p (Codec.packetIdField p) := by
  unfold SaysPacketId Codec.packetIdField
  by_cases hqos : p.qos = .atMostOnce
  · simp [hqos]
  · obtain ⟨id, hid⟩ := Option.isSome_iff_exists.mp (h hqos)
    simp [hqos, hid]

/-- The encoders say every field of a packet that fits. -/
theorem saysBody_encodeBody {version : ProtocolVersion} {packet : Packet} {body : Bytes}
    (h : Fits version packet) (hbody : Codec.encodeBody packet version = .ok body) :
    SaysBody version packet body := by
  have hfields := h.fields
  cases packet with
  | connect conn =>
    obtain ⟨block, will, hblock, hwill, rfl⟩ :=
      (Codec.encodeConnectBody_eq_ok_iff conn body).mp hbody
    refine ⟨block, _, will, _, _, rfl, saysProperties_block hblock,
      isPrefixed_prefixed (hfields _ (by simp [Packet.prefixedFields])),
      saysWill_willFields hwill fun packet hsome ↦ ⟨hfields _ ?_, hfields _ ?_⟩,
      saysOptional_optionalField fun bytes hsome ↦ hfields _ ?_,
      saysOptional_optionalField fun bytes hsome ↦ hfields _ ?_⟩
    all_goals simp_all [Packet.prefixedFields]
  | connack ack =>
    cases version with
    | v311 =>
      obtain rfl := Except.ok.inj hbody
      exact ⟨[], rfl, rfl⟩
    | v5 =>
      obtain ⟨block, hblock, rfl⟩ := (Codec.writeProperties_eq_ok_iff .v5 _ _ _).mp hbody
      exact ⟨block, rfl, saysProperties_block hblock⟩
  | publish p =>
    obtain ⟨block, hblock, rfl⟩ := (Codec.encodePublishBody_eq_ok_iff p version body).mp hbody
    exact ⟨_, _, block, rfl, isPrefixed_prefixed (hfields _ List.mem_cons_self),
      saysPacketId_packetIdField (h.packetId p rfl), saysProperties_block hblock⟩
  | subscribe s =>
    obtain rfl := Except.ok.inj ((Codec.encodeSubscribeBody_eq s version).symm.trans hbody)
    exact ⟨s.subscriptions.map Codec.subscriptionBytes, rfl,
      forall₂_map_self fun subscription hmem ↦
        ⟨_, rfl, isPrefixed_prefixed (hfields _ (List.mem_map_of_mem hmem))⟩⟩
  | suback s => exact Except.ok.inj (hbody.symm.trans (Codec.encodeSubackBody_eq s version))
  | unsubscribe u =>
    obtain rfl := Except.ok.inj ((Codec.encodeUnsubscribeBody_eq u version).symm.trans hbody)
    exact ⟨u.topics.map fun topic ↦ prefixed (asBytes topic), rfl,
      forall₂_map_self fun topic hmem ↦
        isPrefixed_prefixed (hfields _ (List.mem_map_of_mem hmem))⟩
  | unsuback u =>
    obtain rfl := Except.ok.inj hbody
    cases version <;> simp [SaysBody, Codec.emptyBlock]
  | _ => exact (Except.ok.inj hbody).symm

theorem wellFormedFrame_frame {version : ProtocolVersion} {packet : Packet} {body : Bytes}
    (h : Fits version packet) (hbody : Codec.encodeBody packet version = .ok body) :
    WellFormedFrame version packet (Codec.frame packet.firstByte body) := by
  refine ⟨_, body, rfl, ?_, saysBody_encodeBody h hbody⟩
  rw [Codec.encodeRemainingLength_eq]
  exact saysLength_encode (length_encodeBody h.packetId hbody ▸ h.body)

/-- The packets whose frames are well formed are those that fit. -/
theorem wellFormedFrame_frame_iff {version : ProtocolVersion} {packet : Packet} {body : Bytes}
    (hbody : Codec.encodeBody packet version = .ok body) :
    WellFormedFrame version packet (Codec.frame packet.firstByte body) ↔ Fits version packet :=
  ⟨WellFormedFrame.fits hbody, fun h ↦ wellFormedFrame_frame h hbody⟩

theorem exists_body_of_encodePacket {version : ProtocolVersion} {packet : Packet} {bytes : Bytes}
    (h : Codec.encodePacket packet version = .ok bytes) :
    ∃ body, Codec.encodeBody packet version = .ok body ∧
      bytes = Codec.frame packet.firstByte body := by
  rw [Codec.encodePacket_eq] at h
  cases hbody : Codec.encodeBody packet version with
  | error reason =>
    rw [hbody] at h
    cases h
  | ok body =>
    rw [hbody] at h
    exact ⟨body, rfl, (Except.ok.inj h).symm⟩

/-- The path that does not copy refuses a missing identifier. -/
theorem requirePacketId_eq_ok {p : PublishPacket} {header result : Bytes}
    (h : Codec.requirePacketId p header = .ok result) :
    (p.qos ≠ .atMostOnce → p.packetId.isSome) ∧ result = header ++ Codec.packetIdField p := by
  unfold Codec.requirePacketId at h
  unfold Codec.packetIdField
  by_cases hqos : p.qos ≠ .atMostOnce
  · rw [if_pos hqos] at h ⊢
    cases hid : p.packetId with
    | none =>
      rw [hid] at h
      cases h
    | some id =>
      rw [hid] at h
      exact ⟨fun _ ↦ rfl, (Except.ok.inj h).symm⟩
  · rw [if_neg hqos] at h ⊢
    exact ⟨fun hpos ↦ absurd hpos hqos, by simpa using (Except.ok.inj h).symm⟩

/-- The path that does not copy the payload writes the same frame, and refuses a missing packet
identifier. -/
theorem exists_body_of_writePublishPacket {version : ProtocolVersion} {p : PublishPacket}
    {chunks : List Bytes} (h : Codec.writePublishPacket p version = .ok chunks) :
    (p.qos ≠ .atMostOnce → p.packetId.isSome) ∧
    ∃ body, Codec.encodeBody (.publish p) version = .ok body ∧
      chunks.flatten = Codec.frame (Packet.publish p).firstByte body := by
  obtain ⟨block, hblock, hheader⟩ := bind_eq_ok_iff.mp h
  obtain ⟨header, hid, hchunks⟩ := bind_eq_ok_iff.mp hheader
  obtain rfl := Except.ok.inj hchunks
  obtain ⟨hsome, rfl⟩ := requirePacketId_eq_ok hid
  have hfirst : PacketType.publish.asU8 <<< 4 = 0x30 := by decide
  have hlength := length_packetIdField hsome
  refine ⟨hsome, _, (Codec.encodePublishBody_eq_ok_iff p version _).mpr ⟨block, hblock, rfl⟩, ?_⟩
  rw [Codec.writeArcStr_eq, Codec.frame, hfirst]
  have hcount : (prefixed (asBytes p.topic) ++
      (Codec.packetIdField p ++ (block ++ p.payload))).length =
      (if p.qos ≠ .atMostOnce then 2 + (asBytes p.topic).length + 2
        else 2 + (asBytes p.topic).length) + block.length + p.payload.length := by
    rw [List.length_append, List.length_append, List.length_append, length_prefixed, hlength]
    split <;> omega
  simp [hcount, Packet.firstByte]

/-- What the encoder or the PUBLISH write path emits for a packet is well formed if and only if
the packet fits whenever it is accepted. -/
theorem encodePacket_wellFormed_iff (version : ProtocolVersion) :
    (∀ packet,
      (∀ bytes, Codec.encodePacket packet version = .ok bytes →
        WellFormedFrame version packet bytes) ↔
      ((∃ bytes, Codec.encodePacket packet version = .ok bytes) → Fits version packet)) ∧
    (∀ p,
      (∀ chunks, Codec.writePublishPacket p version = .ok chunks →
        WellFormedFrame version (.publish p) chunks.flatten) ↔
      ((∃ chunks, Codec.writePublishPacket p version = .ok chunks) →
        Fits version (.publish p))) := by
  constructor
  · intro packet
    constructor
    · rintro hall ⟨bytes, hbytes⟩
      obtain ⟨body, hbody, rfl⟩ := exists_body_of_encodePacket hbytes
      exact (wellFormedFrame_frame_iff hbody).mp (hall _ hbytes)
    · intro hfits bytes hbytes
      obtain ⟨body, hbody, rfl⟩ := exists_body_of_encodePacket hbytes
      exact (wellFormedFrame_frame_iff hbody).mpr (hfits ⟨_, hbytes⟩)
  · intro p
    constructor
    · rintro hall ⟨chunks, hchunks⟩
      obtain ⟨-, body, hbody, hflatten⟩ := exists_body_of_writePublishPacket hchunks
      exact (wellFormedFrame_frame_iff hbody).mp (hflatten ▸ hall _ hchunks)
    · intro hfits chunks hchunks
      obtain ⟨-, body, hbody, hflatten⟩ := exists_body_of_writePublishPacket hchunks
      rw [hflatten]
      exact (wellFormedFrame_frame_iff hbody).mpr (hfits ⟨_, hchunks⟩)

/-- A PUBLISH of the topic `a` at a level, with a payload and perhaps an identifier. -/
def publishOf (qos : QoS) (payload : Bytes) (packetId : Option PacketId) : PublishPacket :=
  { topic := "a", payload, dup := false, qos, retain := false, packetId }

def connectWithPassword (password : Bytes) : ConnectPacket :=
  { version := .v311, clientId := "", cleanSession := true, keepAlive := 0, username := none
    password := some password, will := none }

/-- A password whose length does not fit two bytes is encoded with a wrong one. -/
theorem encodeConnect_long_password {password : Bytes} (h : 65535 < password.length) :
    ∃ bytes, Codec.encodePacket (.connect (connectWithPassword password)) .v311 = .ok bytes ∧
      ¬ WellFormedFrame .v311 (.connect (connectWithPassword password)) bytes := by
  obtain ⟨body, hbody⟩ : ∃ body, Codec.encodeBody (.connect (connectWithPassword password)) .v311 =
      .ok body := ⟨_, rfl⟩
  refine ⟨Codec.frame 0x10 body, by rw [Codec.encodePacket_eq, hbody]; rfl, ?_⟩
  intro hframe
  have hfits := (WellFormedFrame.fits hbody hframe).fields password
    (by simp [Packet.prefixedFields, connectWithPassword])
  omega

/-- A payload that no remaining length can count is written as well. -/
theorem writePublishPacket_long_payload {payload : Bytes}
    (h : Codec.maxRemainingLength < payload.length) :
    ∃ chunks, Codec.writePublishPacket (publishOf .atMostOnce payload none) .v311 = .ok chunks ∧
      ¬ WellFormedFrame .v311 (.publish (publishOf .atMostOnce payload none)) chunks.flatten := by
  obtain ⟨chunks, hchunks⟩ : ∃ chunks,
      Codec.writePublishPacket (publishOf .atMostOnce payload none) .v311 = .ok chunks := ⟨_, rfl⟩
  obtain ⟨-, body, hbody, hflatten⟩ := exists_body_of_writePublishPacket hchunks
  refine ⟨chunks, hchunks, fun hframe ↦ ?_⟩
  rw [hflatten] at hframe
  have hfits := (WellFormedFrame.fits hbody hframe).body
  simp only [Packet.bodySize, publishOf] at hfits
  omega

/-- Three frames that do not say what their packet says: a QoS 1 PUBLISH without an identifier, a
CONNECT whose password has 65536 bytes, and a PUBLISH of 268435456 bytes. -/
theorem encodePacket_not_wellFormed :
    (Codec.encodePacket (.publish (publishOf .atLeastOnce [] none)) .v311 =
        .ok [0x32, 0x03, 0x00, 0x01, 0x61] ∧
      ¬ WellFormedFrame .v311 (.publish (publishOf .atLeastOnce [] none))
        [0x32, 0x03, 0x00, 0x01, 0x61]) ∧
    (∃ bytes, Codec.encodePacket
        (.connect (connectWithPassword (List.replicate 65536 0x00))) .v311 = .ok bytes ∧
      ¬ WellFormedFrame .v311
        (.connect (connectWithPassword (List.replicate 65536 0x00))) bytes) ∧
    (∃ chunks, Codec.writePublishPacket
        (publishOf .atMostOnce (List.replicate 268435456 0x00) none) .v311 = .ok chunks ∧
      ¬ WellFormedFrame .v311
        (.publish (publishOf .atMostOnce (List.replicate 268435456 0x00) none))
        chunks.flatten) := by
  refine ⟨⟨by decide, ?_⟩, encodeConnect_long_password ?_, writePublishPacket_long_payload ?_⟩
  · rintro ⟨length, body, -, -, hsaid⟩
    have hid := hsaid.packetId (by decide)
    cases hid
  · rw [List.length_replicate]
    decide
  · rw [List.length_replicate]
    decide

end HotaruMqtt

import HotaruMqtt.Wire.Decoded

/-!
# Decoded packets can be encoded again

The decoder is laxer than the encoder. It takes properties in any order, drops reason codes and some
property blocks, ignores bits and trailing bytes of CONNECT, and accepts lengths with needless zero
groups. What it keeps can always be written again, in no more bytes, and decodes to the same packet.
The one exception is a list of topics that is empty behind a property block. In MQTT 3.1.1 the
bodies of most packets are kept byte for byte.
-/

namespace HotaruMqtt.Codec

open Library Library.Decoder

/-- What the flags byte says about the fields of a CONNECT. -/
structure FlagsSay (flagsByte : UInt8) (conn : ConnectPacket) : Prop where
  cleanSession : conn.cleanSession =
    containsFlag (ConnectFlags.fromBitsTruncate flagsByte) ConnectFlags.cleanSession
  will : conn.will.isSome =
    containsFlag (ConnectFlags.fromBitsTruncate flagsByte) ConnectFlags.willFlag
  username : conn.username.isSome =
    containsFlag (ConnectFlags.fromBitsTruncate flagsByte) ConnectFlags.username
  password : conn.password.isSome =
    containsFlag (ConnectFlags.fromBitsTruncate flagsByte) ConnectFlags.password
  willQos : ∀ will ∈ conn.will,
    QoS.fromU8 ((flagsByte &&& ConnectFlags.willQosMask) >>> 3) = some will.qos
  willRetain : ∀ will ∈ conn.will, will.retain =
    containsFlag (ConnectFlags.fromBitsTruncate flagsByte) ConnectFlags.willRetain

/-- The fields of a CONNECT behind its first ten bytes, as they are written. -/
def connectFields (conn : ConnectPacket) (block will : Bytes) : Bytes :=
  block ++ (prefixed (asBytes conn.clientId) ++ (will ++
    (optionalField (conn.username.map asBytes) ++ optionalField conn.password)))

/-- A CONNECT whose fields can be written again for the bytes that were taken. -/
structure ConnectKept (conn : ConnectPacket) (taken : Bytes) : Prop where
  shape : WellShaped conn.version (.connect conn)
  fields : ∀ field ∈ (Packet.connect conn).prefixedFields, field.length ≤ 65535
  written : ∃ block will, propertyBlock conn.version conn.properties = .ok block ∧
    willFields conn.version conn.will = .ok will ∧
    Rewrites (conn.version = .v311) taken (connectFields conn block will)

/-- A will that is read is written again from its fields. -/
theorem takes_readWill (version : ProtocolVersion) (flagsByte : UInt8) :
    Takes (readWill version flagsByte) fun will encoded ↦
      Carries version will.properties ∧
      ((asBytes will.topic).length ≤ 65535 ∧ will.payload.length ≤ 65535) ∧
      (QoS.fromU8 ((flagsByte &&& ConnectFlags.willQosMask) >>> 3) = some will.qos ∧
        will.retain =
          containsFlag (ConnectFlags.fromBitsTruncate flagsByte) ConnectFlags.willRetain) ∧
      ∃ fields, willFields version (some will) = .ok fields ∧
        Rewrites (version = .v311) encoded fields := by
  refine (takes_readProperties version).bind ?_
  rintro properties _ ⟨hcarries, block, hblock, hrewrites⟩
  refine takes_readArcStr.bind ?_
  rintro topic _ ⟨htopic, rfl⟩
  refine takes_readBytes.bind ?_
  rintro payload _ ⟨hpayload, rfl⟩
  dsimp only
  split
  · exact takes_raise _
  · rename_i qos hqos
    refine takes_pure ⟨hcarries, ⟨htopic, hpayload⟩, ⟨hqos, rfl⟩, _,
      bind_eq_ok_iff.mpr ⟨block, hblock, rfl⟩, ?_⟩
    rw [List.append_nil]
    exact hrewrites.append (.refl _ _)

/-- A field that a flag announces was read from what is written for it. -/
theorem optionalField_of_taken {α : Type} {toBytes : α → Bytes} {field : Option α}
    {encoded : Bytes} (hnone : field = none → encoded = [])
    (hsome : ∀ value ∈ field, (toBytes value).length ≤ 65535 ∧ encoded = prefixed (toBytes value)) :
    encoded = optionalField (field.map toBytes) := by
  cases field with
  | none => exact hnone rfl
  | some value => exact (hsome value rfl).2

/-- The fields behind the CONNECT header are written again. -/
theorem takes_readConnectFields (version : ProtocolVersion) (flagsByte : UInt8)
    (keepAlive : UInt16) :
    Takes (readConnectFields version flagsByte keepAlive) fun conn encoded ↦
      (conn.version = version ∧ conn.keepAlive = keepAlive) ∧ FlagsSay flagsByte conn ∧
      ConnectKept conn encoded := by
  refine (takes_readProperties version).bind ?_
  rintro properties _ ⟨hcarries, block, hblock, hrewrites⟩
  refine takes_readArcStr.bind ?_
  rintro clientId _ ⟨hclient, rfl⟩
  refine (takes_readIf (takes_readWill version flagsByte) _).bind ?_
  rintro will willBytes ⟨hwill, hwillNone, hwillSome⟩
  refine (takes_readIf takes_readArcStr _).bind ?_
  rintro username usernameBytes ⟨husername, husernameNone, husernameSome⟩
  refine (takes_readIf takes_readBytes _).bind ?_
  rintro password passwordBytes ⟨hpassword, hpasswordNone, hpasswordSome⟩
  obtain ⟨fields, hfields, hwillRewrites⟩ : ∃ fields, willFields version will = .ok fields ∧
      Rewrites (version = .v311) willBytes fields := by
    cases will with
    | none => exact ⟨[], rfl, by rw [hwillNone rfl]; exact .refl _ _⟩
    | some will => exact (hwillSome will rfl).2.2.2
  have husernameBytes := optionalField_of_taken husernameNone husernameSome
  have hpasswordBytes : passwordBytes = optionalField (password.map id) :=
    optionalField_of_taken hpasswordNone hpasswordSome
  rw [Option.map_id] at hpasswordBytes
  refine takes_pure ⟨⟨rfl, rfl⟩, ⟨rfl, hwill, husername, hpassword, ?_, ?_⟩, ?_, ?_, block, fields,
    hblock, hfields, ?_⟩
  · exact fun will hmem ↦ (hwillSome will hmem).2.2.1.1
  · exact fun will hmem ↦ (hwillSome will hmem).2.2.1.2
  · exact ⟨hcarries, fun will hmem ↦ (hwillSome will hmem).1⟩
  · intro field hmem
    simp only [Packet.prefixedFields, List.mem_cons, List.mem_append, List.mem_flatMap,
      List.mem_map, Option.mem_toList] at hmem
    rcases hmem with rfl | ⟨packet, hpacket, hfield⟩ | ⟨name, hname, rfl⟩ | hfield
    · exact hclient
    · obtain ⟨-, ⟨htopic, hpayload⟩, -⟩ := hwillSome packet hpacket
      simp only [List.not_mem_nil, or_false] at hfield
      rcases hfield with rfl | rfl
      · exact htopic
      · exact hpayload
    · exact (husernameSome name hname).1
    · exact (hpasswordSome field hfield).1
  · rw [List.append_nil, husernameBytes, hpasswordBytes]
    exact hrewrites.append ((Rewrites.refl _ _).append (hwillRewrites.append (.refl _ _)))

theorem level_of_fromLevel {level : UInt8} {version : ProtocolVersion}
    (h : ProtocolVersion.fromLevel level = some version) : level = version.level := by
  unfold ProtocolVersion.fromLevel at h
  split at h
  · rename_i hlevel
    obtain rfl := Option.some.inj h
    exact hlevel
  · split at h
    · rename_i hlevel
      obtain rfl := Option.some.inj h
      exact hlevel
    · cases h

theorem exists_ten_cons {body : Bytes} (h : ¬ body.length < 10) :
    ∃ b₀ b₁ b₂ b₃ b₄ b₅ b₆ b₇ b₈ b₉ rest,
      body = b₀ :: b₁ :: b₂ :: b₃ :: b₄ :: b₅ :: b₆ :: b₇ :: b₈ :: b₉ :: rest := by
  match body, Nat.le_of_not_lt h with
  | b₀ :: b₁ :: b₂ :: b₃ :: b₄ :: b₅ :: b₆ :: b₇ :: b₈ :: b₉ :: rest, _ =>
    exact ⟨b₀, b₁, b₂, b₃, b₄, b₅, b₆, b₇, b₈, b₉, rest, rfl⟩

/-- The first ten bytes of a CONNECT with a given flags byte. -/
def connectStart (conn : ConnectPacket) (flagsByte : UInt8) : Bytes :=
  [0x00, 0x04] ++ protocolName ++ [conn.version.level] ++ [flagsByte] ++ toBeBytes16 conn.keepAlive

/-- Only the flags of a CONNECT header are packed from other fields. -/
theorem connectHeader_eq (conn : ConnectPacket) :
    connectHeader conn = connectStart conn (packConnectFlags conn) := rfl

/-- A CONNECT that is accepted starts with the ten bytes that are written for it, up to its flags
byte. -/
theorem exists_of_parseConnect {body : Bytes} {packet : Packet}
    (h : parseConnect body = .ok packet) :
    ∃ conn flagsByte moved, packet = .connect conn ∧
      body = connectStart conn flagsByte ++ body.drop 10 ∧
      (readConnectFields conn.version flagsByte conn.keepAlive).run body 10 =
        .ok (conn, moved) := by
  unfold parseConnect at h
  split at h
  · cases h
  rename_i hlength
  obtain ⟨b₀, b₁, b₂, b₃, b₄, b₅, level, flagsByte, b₈, b₉, rest, rfl⟩ := exists_ten_cons hlength
  have hname : slice (b₀ :: b₁ :: b₂ :: b₃ :: b₄ :: b₅ :: level :: flagsByte :: b₈ :: b₉ :: rest)
      2 6 = .ok [b₂, b₃, b₄, b₅] := by
    simp [slice]
  simp only [index, List.getElem?_cons_zero, List.getElem?_cons_succ, hname, bind,
    Except.bind] at h
  split at h
  · cases h
  rename_i hheader
  obtain ⟨hfour, hprotocol⟩ := not_or.mp hheader
  split at h
  · cases h
  rename_i version hversion
  split at h
  · cases h
  rename_i result hrun
  obtain ⟨conn, moved⟩ := result
  cases h
  obtain ⟨_, -, -, ⟨rfl, hkeepAlive⟩, -, -⟩ := takes_readConnectFields _ _ _ _ _ _ _ hrun
  rw [← hkeepAlive] at hrun
  refine ⟨conn, flagsByte, moved, rfl, ?_, hrun⟩
  have hnameLength : fromBeBytes16 b₀ b₁ = 4 := UInt16.toNat_inj.mp (not_not.mp hfour)
  have hcount : [b₀, b₁] = [0x00, 0x04] := by
    rw [← toBeBytes16_fromBeBytes16, hnameLength]
    rfl
  have hname : [b₂, b₃, b₄, b₅] = protocolName := not_not.mp hprotocol
  have hkeep : toBeBytes16 conn.keepAlive = [b₈, b₉] := by
    rw [hkeepAlive, toBeBytes16_fromBeBytes16]
  rw [connectStart, ← hcount, ← hname, hkeep, ← level_of_fromLevel hversion]
  rfl

/-! ## Packets that are kept -/

/-- The list of a SUBSCRIBE or of an UNSUBSCRIBE is not empty. -/
def ListsTopics : Packet → Prop
  | .subscribe s => s.subscriptions ≠ []
  | .unsubscribe u => u.topics ≠ []
  | _ => True

/-- A packet that was parsed from a body and can be written again. -/
structure Kept (exact : Prop) (version : ProtocolVersion) (packet : Packet) (body : Bytes) :
    Prop where
  shape : ListsTopics packet → WellShaped version packet
  fields : ∀ field ∈ packet.prefixedFields, field.length ≤ 65535
  written : ∃ written, encodeBody packet version = .ok written ∧ Rewrites exact body written

theorem fields_le_of_eq_nil {packet : Packet} (h : packet.prefixedFields = []) :
    ∀ field ∈ packet.prefixedFields, field.length ≤ 65535 := by
  rw [h]
  intro field hmem
  cases hmem

/-- A parsed CONNECT is written again in at most as many bytes. -/
theorem kept_of_parseConnect {body : Bytes} {packet : Packet} (h : parseConnect body = .ok packet)
    (version : ProtocolVersion) : Kept False version packet body := by
  obtain ⟨conn, flagsByte, moved, rfl, hbody, hrun⟩ := exists_of_parseConnect h
  obtain ⟨taken, hprefix, -, -, -, hkept⟩ := takes_readConnectFields _ _ _ _ _ _ _ hrun
  obtain ⟨block, will, hblock, hwill, hrewrites⟩ := hkept.written
  refine ⟨fun _ ↦ hkept.shape, hkept.fields, _,
    (encodeConnectBody_eq_ok_iff conn _).mpr ⟨block, will, hblock, hwill, rfl⟩, ?_, False.elim⟩
  have hfields := hrewrites.length_le
  have htaken := hprefix.length_le
  have hstart : (connectStart conn flagsByte).length = 10 := rfl
  have hheader : (connectHeader conn).length = 10 := rfl
  have hlength := congrArg List.length hbody
  rw [List.length_append, hstart] at hlength
  rw [List.length_append, hheader]
  unfold connectFields at hfields
  omega

theorem exists_two_cons {body : Bytes} (h : ¬ body.length < 2) :
    ∃ b₀ b₁ rest, body = b₀ :: b₁ :: rest := by
  match body, Nat.le_of_not_lt h with
  | b₀ :: b₁ :: rest, _ => exact ⟨b₀, b₁, rest, rfl⟩

theorem kept_of_parseConnack {body : Bytes} {version : ProtocolVersion} {packet : Packet}
    (h : parseConnack body version = .ok packet) : Kept False version packet body := by
  unfold parseConnack at h
  split at h
  · cases h
  rename_i hlength
  obtain ⟨acknowledge, code, rest, rfl⟩ := exists_two_cons hlength
  simp only [index, List.getElem?_cons_zero, List.getElem?_cons_succ] at h
  obtain ⟨_, hfirst, h⟩ := bind_eq_ok_iff.mp h
  obtain ⟨_, hsecond, h⟩ := bind_eq_ok_iff.mp h
  split at h
  · cases h
  rename_i returnCode hcode
  obtain ⟨⟨properties, cursor⟩, hproperties, h⟩ := bind_eq_ok_iff.mp h
  obtain ⟨_, hend, h⟩ := bind_eq_ok_iff.mp h
  cases h
  obtain ⟨taken, hprefix, -, hcarries, block, hblock, hrewrites⟩ :=
    takes_readProperties version _ _ _ _ hproperties
  have htaken : taken.length ≤ rest.length := hprefix.length_le
  have hsize := hrewrites.length_le
  refine ⟨fun _ ↦ hcarries, fields_le_of_eq_nil rfl, ?_⟩
  cases version with
  | v311 => exact ⟨_, rfl, by simp, False.elim⟩
  | v5 =>
    refine ⟨_, (writeProperties_eq_ok_iff .v5 _ _ _).mpr ⟨block, hblock, rfl⟩, ?_, False.elim⟩
    simp only [List.length_append, List.length_cons, List.length_nil]
    omega

def ackPacket : PacketType → PacketId → Packet
  | .puback, id => .puback id
  | .pubrec, id => .pubrec id
  | .pubrel, id => .pubrel id
  | _, id => .pubcomp id

/-- An acknowledgement has two bytes, and in MQTT 5.0 perhaps more. -/
theorem exists_of_requireAckLength {body : Bytes} {version : ProtocolVersion}
    (h : requireAckLength body.length version = .ok ()) :
    ∃ high low rest, body = high :: low :: rest ∧ (version = .v311 → rest = []) := by
  unfold requireAckLength at h
  split at h
  · cases h
  rename_i hlength
  obtain ⟨htwo, hexact⟩ := not_or.mp hlength
  obtain ⟨high, low, rest, rfl⟩ := exists_two_cons htwo
  refine ⟨high, low, rest, rfl, fun hversion ↦ ?_⟩
  have hlength := not_not.mp (not_and.mp hexact hversion)
  simpa using hlength

/-- A parsed acknowledgement has its reserved flags and is made from its first two bytes. -/
theorem exists_of_parseAckPacket {first : UInt8} {packetType : PacketType} {body : Bytes}
    {version : ProtocolVersion} {packet : Packet}
    (h : parseAckPacket first packetType body.length body version = .ok packet) :
    ∃ high low rest, body = high :: low :: rest ∧ (version = .v311 → rest = []) ∧
      first &&& 0x0F = (if packetType = .pubrel then 0x02 else 0x00) ∧
      packet = ackPacket packetType (fromBeBytes16 high low) := by
  obtain ⟨_, hlength, h⟩ := bind_eq_ok_iff.mp h
  obtain ⟨high, low, rest, rfl, hrest⟩ := exists_of_requireAckLength hlength
  by_cases hflags : first &&& 0x0F = (if packetType = .pubrel then 0x02 else 0x00)
  · refine ⟨high, low, rest, rfl, hrest, hflags, ?_⟩
    rw [if_neg (not_not.mpr hflags)] at h
    obtain ⟨_, hhigh, h⟩ := bind_eq_ok_iff.mp h
    obtain ⟨_, hlow, h⟩ := bind_eq_ok_iff.mp h
    cases hhigh
    cases hlow
    refine (?_ : Gives (· = ackPacket packetType (fromBeBytes16 high low)) _) packet h
    cases packetType <;>
      exact Gives.ite (.bind fun _ ↦ gives_ok rfl) (.bind fun _ ↦ gives_ok rfl)
  · rw [if_pos hflags] at h
    cases h

/-- The body of an acknowledgement is written again up to its reason code. -/
theorem rewrites_ack {body rest : Bytes} {high low : UInt8} {version : ProtocolVersion}
    (hbody : body = high :: low :: rest) (hrest : version = .v311 → rest = []) :
    Rewrites (version = .v311) body (toBeBytes16 (fromBeBytes16 high low)) := by
  rw [toBeBytes16_fromBeBytes16, hbody]
  refine ⟨by simp, fun hversion ↦ ?_⟩
  rw [hrest hversion]

/-! ## Lists of topics -/

/-- One round of a list loop appends an element that was read from at least one byte. -/
def TakesElement {α : Type} (exact : Prop) (Fits : α → Prop) (elementBytes : α → Bytes)
    (step : List α → Reader (List α)) : Prop :=
  ∀ elements, Takes (step elements) fun elements' encoded ↦
    ∃ element, elements' = elements ++ [element] ∧ Fits element ∧ encoded ≠ [] ∧
      Rewrites exact encoded (elementBytes element)

section Lists

variable {α : Type} {exact : Prop} {Fits : α → Prop} {elementBytes : α → Bytes}
  {step : List α → Reader (List α)}

/-- The list is empty exactly if no byte was left for it. -/
theorem TakesElement.whileMore (h : TakesElement exact Fits elementBytes step)
    (hmoves : ∀ elements, Moves 1 (step elements)) :
    TakesAll (whileMore step []) fun elements encoded ↦
      (elements = [] ↔ encoded = []) ∧ (∀ element ∈ elements, Fits element) ∧
      Rewrites exact encoded (elements.flatMap elementBytes) := by
  refine takesAll_whileMore (.of_moves hmoves) _ ?_ ⟨iff_of_true rfl rfl, nofun, .refl _ _⟩
  rintro elements encoded ⟨-, hfits, hrewrites⟩
  refine (h elements).weaken ?_
  rintro _ encoded' ⟨element, rfl, helement, hnonempty, hrewrites'⟩
  refine ⟨?_, ?_, ?_⟩
  · simp [hnonempty]
  · simpa [or_imp, forall_and, helement] using hfits
  · rw [List.flatMap_append, List.flatMap_singleton]
    exact hrewrites.append hrewrites'

/-- The fields of SUBSCRIBE and UNSUBSCRIBE: a packet identifier, properties that are dropped, and
a list up to the end of the body. -/
def readListFields {β : Type} (version : ProtocolVersion) (step : List α → Reader (List α))
    (make : PacketId → List α → β) : Reader β := do
  let packetId ← readU16
  let _ ← readProperties version
  let elements ← Decoder.whileMore step []
  pure (make packetId elements)

/-- A list of topics is read from an identifier, properties and elements to the end. -/
theorem exists_of_readListFields {β : Type} {version : ProtocolVersion}
    {make : PacketId → List α → β}
    (h : TakesElement (version = .v311) Fits elementBytes step)
    (hmoves : ∀ elements, Moves 1 (step elements)) {body : Bytes} {result : β} {moved : ℕ}
    (hrun : (readListFields version step make).run body 0 = .ok (result, moved)) :
    ∃ packetId properties cursor elements, result = make packetId elements ∧
      (readProperties version).run body 2 = .ok (properties, cursor) ∧
      (elements = [] ↔ cursor = body.length) ∧ (∀ element ∈ elements, Fits element) ∧
      Rewrites (version = .v311) body
        (toBeBytes16 packetId ++ (emptyBlock version ++ elements.flatMap elementBytes)) := by
  obtain ⟨packetId, two, hid, hrun⟩ := exists_of_run_bind hrun
  obtain ⟨properties, cursor, hproperties, hrun⟩ := exists_of_run_bind hrun
  obtain ⟨elements, last, hloop, hresult⟩ := exists_of_run_bind hrun
  obtain ⟨_, hidPrefix, rfl, rfl⟩ := takes_readU16 _ _ _ _ hid
  obtain ⟨block, hblockPrefix, rfl, hblock⟩ :=
    takes_readProperties_discarded version _ _ _ _ hproperties
  obtain ⟨hempty, hfits, hrewrites⟩ := h.whileMore hmoves _ _ _ _ hloop
  have hsplit := drop_eq_append hblockPrefix
  have hwhole := drop_eq_append hidPrefix
  refine ⟨packetId, properties, _, elements, (Prod.mk.inj (Except.ok.inj hresult)).1.symm,
    hproperties, ?_, hfits, ?_⟩
  · have hroom := hblockPrefix.length_le
    have hidRoom := hidPrefix.length_le
    rw [List.length_drop] at hroom hidRoom
    rw [hempty, List.drop_eq_nil_iff, length_toBeBytes16] at *
    omega
  · rw [List.drop_zero] at hwhole
    rw [hwhole, hsplit]
    exact (Rewrites.refl _ _).append (hblock.append hrewrites)

end Lists

/-- In MQTT 3.1.1 the options byte is the service level. -/
theorem asU8_of_options {options : UInt8} {qos : QoS} (h : ¬ options > 2)
    (hqos : QoS.fromU8 (options &&& 0x03) = some qos) : qos.asU8 = options := by
  have hall : ∀ value : Fin 256, ¬ UInt8.ofFin value > 2 →
      ∀ qos ∈ QoS.fromU8 (UInt8.ofFin value &&& 0x03), qos.asU8 = UInt8.ofFin value := by
    decide +kernel
  exact hall options.toFin h qos hqos

theorem takesElement_parseSubscription (version : ProtocolVersion) :
    TakesElement (version = .v311)
      (fun subscription ↦ (asBytes subscription.topic).length ≤ 65535) subscriptionBytes
      (parseSubscription version) := by
  intro subscriptions
  refine takes_readArcStr.bind ?_
  rintro topic _ ⟨htopic, rfl⟩
  refine takes_readOptions.bind ?_
  rintro options _ rfl
  refine Takes.ite (fun _ ↦ takes_raise _) fun hallowed ↦ ?_
  split
  · exact takes_raise _
  · rename_i qos hqos
    refine takes_pure ⟨⟨topic, qos⟩, rfl, htopic, by simp, ?_⟩
    refine (Rewrites.refl _ _).append ⟨Nat.le_refl 1, fun hversion ↦ ?_⟩
    rw [asU8_of_options (fun hoptions ↦ hallowed (.inl ⟨hversion, hoptions⟩)) hqos]
    rfl

theorem takesElement_parseTopic (exact : Prop) :
    TakesElement exact (fun topic ↦ (asBytes topic).length ≤ 65535)
      (fun topic ↦ prefixed (asBytes topic)) parseTopic := by
  intro topics
  refine takes_readArcStr.bind ?_
  rintro topic _ ⟨htopic, rfl⟩
  refine takes_pure ⟨topic, rfl, htopic, ?_, ?_⟩
  · rw [List.append_nil]
    exact List.ne_nil_of_length_pos (by rw [length_prefixed]; omega)
  · rw [List.append_nil]
    exact .refl _ _

/-- A parsed SUBSCRIBE is kept, and has no topics exactly if nothing follows its properties. -/
theorem exists_of_parseSubscribe {body : Bytes} {version : ProtocolVersion} {packet : Packet}
    (h : parseSubscribe body version = .ok packet) :
    ∃ s properties cursor, packet = .subscribe s ∧ 5 ≤ body.length ∧
      (readProperties version).run body 2 = .ok (properties, cursor) ∧
      (s.subscriptions = [] ↔ cursor = body.length) ∧
      Kept (version = .v311) version packet body := by
  unfold parseSubscribe at h
  split at h
  · cases h
  rename_i hlength
  obtain ⟨⟨s, moved⟩, hrun, hresult⟩ := bind_eq_ok_iff.mp h
  cases hresult
  have hrun' : (readListFields version (parseSubscription version) SubscribePacket.mk).run body 0 =
      .ok (s, moved) := hrun
  obtain ⟨packetId, properties, cursor, subscriptions, rfl, hproperties, hempty, hfits,
    hrewrites⟩ := exists_of_readListFields (takesElement_parseSubscription version)
      (moves_parseSubscription version) hrun'
  refine ⟨_, properties, cursor, rfl, Nat.le_of_not_lt hlength, hproperties, hempty, id, ?_, _,
    encodeSubscribeBody_eq _ version, hrewrites⟩
  intro field hmem
  obtain ⟨subscription, hsubscription, rfl⟩ := List.mem_map.mp hmem
  exact hfits subscription hsubscription

/-- A parsed UNSUBSCRIBE is kept, and has no topics exactly if nothing follows its properties. -/
theorem exists_of_parseUnsubscribe {body : Bytes} {version : ProtocolVersion} {packet : Packet}
    (h : parseUnsubscribe body version = .ok packet) :
    ∃ u properties cursor, packet = .unsubscribe u ∧ 4 ≤ body.length ∧
      (readProperties version).run body 2 = .ok (properties, cursor) ∧
      (u.topics = [] ↔ cursor = body.length) ∧
      Kept (version = .v311) version packet body := by
  unfold parseUnsubscribe at h
  split at h
  · cases h
  rename_i hlength
  obtain ⟨⟨u, moved⟩, hrun, hresult⟩ := bind_eq_ok_iff.mp h
  cases hresult
  have hrun' : (readListFields version parseTopic UnsubscribePacket.mk).run body 0 =
      .ok (u, moved) := hrun
  obtain ⟨packetId, properties, cursor, topics, rfl, hproperties, hempty, hfits, hrewrites⟩ :=
    exists_of_readListFields (takesElement_parseTopic _) moves_parseTopic hrun'
  refine ⟨_, properties, cursor, rfl, Nat.le_of_not_lt hlength, hproperties, hempty, id, ?_, _,
    encodeUnsubscribeBody_eq _ version, hrewrites⟩
  intro field hmem
  obtain ⟨topic, htopic, rfl⟩ := List.mem_map.mp hmem
  exact hfits topic htopic

/-- In MQTT 3.1.1 a return code is written as the byte it was. -/
theorem rewrites_decodeSubackCode {version : ProtocolVersion} {byte : UInt8} {code : SubackCode}
    (h : decodeSubackCode version byte = .ok code) :
    Rewrites (version = .v311) [byte] [code.asU8] := by
  refine ⟨Nat.le_refl 1, ?_⟩
  rintro rfl
  have hall : ∀ value : Fin 256, ∀ code ∈ SubackCode.fromU8 (UInt8.ofFin value),
      code.asU8 = UInt8.ofFin value := by
    decide +kernel
  unfold decodeSubackCode at h
  split at h
  · rename_i found hfound
    obtain rfl := Except.ok.inj h
    exact congrArg (fun byte ↦ [byte]) (hall byte.toFin found hfound)
  · rw [if_neg (by simp)] at h
    cases h

theorem rewrites_mapM_decodeSubackCode {version : ProtocolVersion} {bytes : Bytes}
    {codes : List SubackCode} (h : bytes.mapM (decodeSubackCode version) = .ok codes) :
    Rewrites (version = .v311) bytes (codes.map SubackCode.asU8) := by
  induction bytes generalizing codes with
  | nil =>
    obtain rfl := Except.ok.inj h
    exact .refl _ _
  | cons byte bytes ih =>
    rw [List.mapM_cons] at h
    obtain ⟨code, hcode, h⟩ := bind_eq_ok_iff.mp h
    obtain ⟨rest, hrest, h⟩ := bind_eq_ok_iff.mp h
    obtain rfl := Except.ok.inj h
    exact (rewrites_decodeSubackCode hcode).append (ih hrest)

/-- A SUBACK body is written again from its codes. -/
theorem takesAll_readSubackFields (version : ProtocolVersion) :
    TakesAll (readSubackFields version) fun s encoded ↦
      Rewrites (version = .v311) encoded (toBeBytes16 s.packetId ++ (emptyBlock version ++
        s.returnCodes.map SubackCode.asU8)) := by
  refine takes_readU16.bindAll ?_
  rintro packetId _ rfl
  refine (takes_readProperties_discarded version).bindAll ?_
  intro _ block hblock
  refine takesAll_readRest.bind ?_
  rintro _ codes rfl body cursor s moved hrun
  obtain ⟨returnCodes, _, hcodes, hresult⟩ := exists_of_run_bind hrun
  cases hresult
  have hdecoded := eq_ok_of_run_lift hcodes
  exact (Rewrites.refl _ _).append (hblock.append (rewrites_mapM_decodeSubackCode hdecoded))

theorem kept_of_parseSuback {body : Bytes} {version : ProtocolVersion} {packet : Packet}
    (h : parseSuback body version = .ok packet) : Kept (version = .v311) version packet body := by
  unfold parseSuback at h
  split at h
  · cases h
  rename_i hlength
  obtain ⟨⟨s, moved⟩, hrun, hresult⟩ := bind_eq_ok_iff.mp h
  cases hresult
  have hrewrites := takesAll_readSubackFields version _ _ _ _ hrun
  rw [List.drop_zero] at hrewrites
  refine ⟨fun _ ↦ ?_, fields_le_of_eq_nil rfl, _, encodeSubackBody_eq s version, hrewrites⟩
  rintro rfl hnil
  have hbody := congrArg List.length (hrewrites.eq rfl)
  rw [hnil] at hbody
  change 2 = body.length at hbody
  omega

theorem kept_of_parseUnsuback {body : Bytes} {version : ProtocolVersion} {packet : Packet}
    (h : parseUnsuback body.length body version = .ok packet) :
    Kept (version = .v311) version packet body := by
  obtain ⟨_, hlength, h⟩ := bind_eq_ok_iff.mp h
  obtain ⟨high, low, rest, hbody, hrest⟩ := exists_of_requireAckLength hlength
  obtain ⟨_, hhigh, h⟩ := bind_eq_ok_iff.mp h
  obtain ⟨_, hlow, h⟩ := bind_eq_ok_iff.mp h
  have hack := rewrites_ack hbody hrest
  rw [hbody] at hhigh hlow
  cases hhigh
  cases hlow
  cases version with
  | v311 =>
    obtain rfl := Except.ok.inj h
    exact ⟨fun _ _ ↦ rfl, fields_le_of_eq_nil rfl, _, rfl, hack⟩
  | v5 =>
    obtain ⟨⟨properties, cursor⟩, hproperties, h⟩ := bind_eq_ok_iff.mp h
    obtain ⟨reasonCodes, hslice, h⟩ := bind_eq_ok_iff.mp h
    obtain rfl := Except.ok.inj h
    obtain ⟨block, hprefix, rfl, hblock⟩ :=
      takes_readProperties_discarded .v5 _ _ _ _ hproperties
    refine ⟨fun _ ↦ nofun, fields_le_of_eq_nil rfl, _, rfl, ?_, nofun⟩
    have hempty : 1 ≤ block.length := hblock.length_le
    have hcodes : reasonCodes.length = body.length - (2 + block.length) ∧
        2 + block.length ≤ body.length := by
      unfold slice at hslice
      split at hslice
      · rename_i hroom
        cases hslice
        refine ⟨?_, hroom.1⟩
        rw [List.length_take, List.length_drop, Nat.min_self]
      · cases hslice
    simp only [List.length_append, length_toBeBytes16, List.length_singleton, reduceCtorEq,
      if_false]
    omega

/-- The packets whose bodies MQTT 3.1.1 keeps byte for byte. -/
def keepsBody : PacketType → Bool
  | .connect | .connack | .pingreq | .pingresp | .disconnect => false
  | _ => true

theorem Kept.weaken {exact exact' : Prop} {version : ProtocolVersion} {packet : Packet}
    {body : Bytes} (h : Kept exact version packet body) (himp : exact' → exact) :
    Kept exact' version packet body := by
  obtain ⟨written, hwritten, hrewrites⟩ := h.written
  exact ⟨h.shape, h.fields, written, hwritten, hrewrites.weaken himp⟩

theorem kept_of_parsePublish {first : UInt8} {body : Bytes} {version : ProtocolVersion}
    {packet : Packet} (h : parsePublish first body version = .ok packet) :
    Kept (version = .v311) version packet body := by
  obtain ⟨headerFlags, qos, p, moved, rfl, -, -, hrun⟩ := exists_of_parsePublish h
  obtain ⟨-, ⟨htopic, hshape⟩, hwritten⟩ := takesAll_readPublishFields _ _ _ _ _ _ _ hrun
  refine ⟨fun _ ↦ hshape, ?_, hwritten⟩
  intro field hmem
  obtain rfl := List.mem_singleton.mp hmem
  exact htopic

/-- A packet without a body is written again without one. -/
theorem kept_of_body_nil {version : ProtocolVersion} {packet : Packet}
    (hshape : WellShaped version packet) (hfields : packet.prefixedFields = [])
    (hwritten : encodeBody packet version = .ok []) (body : Bytes) :
    Kept False version packet body := by
  exact ⟨fun _ ↦ hshape, fields_le_of_eq_nil hfields, [], hwritten, Nat.zero_le _, False.elim⟩

/-- Whatever the parser accepts can be written again. -/
theorem kept_of_parsePacket {first : UInt8} {packetType : PacketType} {body : Bytes}
    {version : ProtocolVersion} {packet : Packet}
    (h : parsePacket first packetType body.length body version = .ok packet) :
    Kept (version = .v311 ∧ keepsBody packetType = true) version packet body := by
  have htype := gives_parsePacket _ _ _ _ _ _ h
  cases packetType with
  | connect =>
    exact (kept_of_parseConnect h version).weaken fun hexact ↦ Bool.false_ne_true hexact.2
  | connack => exact (kept_of_parseConnack h).weaken fun hexact ↦ Bool.false_ne_true hexact.2
  | publish => exact (kept_of_parsePublish h).weaken And.left
  | puback | pubrec | pubrel | pubcomp =>
    obtain ⟨high, low, rest, hbody, hrest, -, rfl⟩ := exists_of_parseAckPacket h
    refine Kept.weaken ?_ And.left
    exact ⟨fun _ ↦ trivial, fields_le_of_eq_nil rfl, _, rfl, rewrites_ack hbody hrest⟩
  | subscribe =>
    obtain ⟨s, properties, cursor, -, -, -, -, hkept⟩ := exists_of_parseSubscribe h
    exact hkept.weaken And.left
  | suback => exact (kept_of_parseSuback h).weaken And.left
  | unsubscribe =>
    obtain ⟨u, properties, cursor, -, -, -, -, hkept⟩ := exists_of_parseUnsubscribe h
    exact hkept.weaken And.left
  | unsuback => exact (kept_of_parseUnsuback h).weaken And.left
  | pingreq | pingresp | disconnect =>
    refine Kept.weaken ?_ fun hexact ↦ Bool.false_ne_true hexact.2
    cases packet <;> first
      | exact kept_of_body_nil (by exact trivial) rfl rfl body
      | cases htype

/-- In MQTT 3.1.1 the shortest body that is accepted has room for one topic. -/
theorem listsTopics_of_v311 {first : UInt8} {packetType : PacketType} {body : Bytes}
    {packet : Packet} (h : parsePacket first packetType body.length body .v311 = .ok packet) :
    ListsTopics packet := by
  have htype := gives_parsePacket _ _ _ _ _ _ h
  cases packet with
  | subscribe s =>
    obtain rfl : PacketType.subscribe = packetType := htype
    obtain ⟨s, properties, cursor, hpacket, hlength, hproperties, hempty, -⟩ :=
      exists_of_parseSubscribe h
    cases hpacket
    cases hproperties
    intro hnil
    have := hempty.mp hnil
    omega
  | unsubscribe u =>
    obtain rfl : PacketType.unsubscribe = packetType := htype
    obtain ⟨u, properties, cursor, hpacket, hlength, hproperties, hempty, -⟩ :=
      exists_of_parseUnsubscribe h
    cases hpacket
    cases hproperties
    intro hnil
    have := hempty.mp hnil
    omega
  | _ => trivial

/-- A packet that is kept and lists topics is representable. -/
theorem Kept.representable {exact : Prop} {version : ProtocolVersion} {packet : Packet}
    {body : Bytes} (h : Kept exact version packet body) (hlists : ListsTopics packet)
    (hbody : body.length ≤ maxRemainingLength) : Representable version packet := by
  refine ⟨h.shape hlists, h.fields, fun written hwritten ↦ ?_⟩
  obtain ⟨written', hwritten', hrewrites⟩ := h.written
  obtain rfl := Except.ok.inj (hwritten'.symm.trans hwritten)
  exact hrewrites.length_le.trans hbody

/-- A CONNECT is read in its own version. -/
theorem Representable.connect {version : ProtocolVersion} {conn : ConnectPacket}
    (h : Representable version (.connect conn)) (version' : ProtocolVersion) :
    Representable version' (.connect conn) :=
  ⟨h.shape, h.fields, h.body⟩

/-- A frame of the encoder is not longer than a frame with a longer body and any count. -/
theorem length_frame_le {written body lengthBytes : Bytes} (first first' : UInt8)
    (hwritten : written.length ≤ body.length)
    (hlength : decodeRemainingLengthFromSlice lengthBytes =
      .ok (some (body.length, lengthBytes.length))) :
    (frame first written).length ≤ (first' :: (lengthBytes ++ body)).length := by
  have hcount : (encodeRemainingLength written.length).length ≤ lengthBytes.length := by
    rw [encodeRemainingLength_eq]
    exact (Base128.length_encode_mono hwritten).trans
      (denotes_of_decodeRemainingLength hlength).length_encode_le
  simp only [frame, List.length_cons, List.length_append]
  omega

/-- What was decoded can be encoded, decodes to the same packet with nothing left over, and takes no
more bytes than before. The exception is an empty list of topics in MQTT 5. -/
theorem decoded_encodes_again {version : ProtocolVersion} {buf rest : Bytes} {packet : Packet}
    (h : decodePacketFromBytes buf version = (.ok (some packet), rest))
    (hlists : version = .v5 → ListsTopics packet) :
    ∃ bytes consumed, encodePacket packet version = .ok bytes ∧ buf = consumed ++ rest ∧
      bytes.length ≤ consumed.length ∧
      decodePacketFromBytes bytes version = (.ok (some packet), []) ∧
      (packet.packetType = .connect → ∀ version',
        decodePacketFromBytes bytes version' = (.ok (some packet), [])) := by
  obtain ⟨first, packetType, lengthBytes, body, hbuf, -, hlength, hparse⟩ :=
    exists_frame_of_decode h
  have hkept := kept_of_parsePacket hparse
  have hlists : ListsTopics packet := by
    cases version with
    | v311 => exact listsTopics_of_v311 hparse
    | v5 => exact hlists rfl
  have hrepresentable := hkept.representable hlists (le_maxRemainingLength_of_decode hlength)
  obtain ⟨written, hwritten, hrewrites⟩ := hkept.written
  have hdecode := decode_frame hrepresentable hwritten []
  rw [List.append_nil] at hdecode
  refine ⟨frame packet.firstByte written, first :: (lengthBytes ++ body), ?_, ?_,
    length_frame_le _ _ hrewrites.length_le hlength, hdecode, ?_⟩
  · rw [encodePacket_eq, hwritten]
    rfl
  · rw [hbuf, List.cons_append, List.append_assoc]
  · intro hconnect version'
    cases packet with
    | connect conn =>
      have hdecode' := decode_frame (hrepresentable.connect version') hwritten []
      rw [List.append_nil] at hdecode'
      exact hdecode'
    | _ => cases hconnect

/-- A SUBSCRIBE of MQTT 5 with a user property, an option that is dropped and a needless zero group
in its length, in front of another byte. -/
theorem decoded_encodes_again_subscribe :
    let packet : Packet := .subscribe { packetId := 1, subscriptions := [⟨"a", .atLeastOnce⟩] }
    ∃ bytes, encodePacket packet .v5 = .ok bytes ∧ bytes.length ≤ 17 ∧
      decodePacketFromBytes bytes .v5 = (.ok (some packet), []) := by
  intro packet
  have hdecode : decodePacketFromBytes ([0x82, 0x8E, 0x00, 0x00, 0x01, 0x07, 0x26, 0x00, 0x01, 0x6B,
      0x00, 0x01, 0x76, 0x00, 0x01, 0x61, 0x05] ++ [0xC0]) .v5 = (.ok (some packet), [0xC0]) := by
    decide
  have hlists : ListsTopics packet := List.cons_ne_nil _ _
  obtain ⟨bytes, consumed, hencode, hconsumed, hlength, hagain, -⟩ :=
    decoded_encodes_again hdecode fun _ ↦ hlists
  obtain rfl := List.append_cancel_right hconsumed
  exact ⟨bytes, hencode, hlength, hagain⟩

end HotaruMqtt.Codec

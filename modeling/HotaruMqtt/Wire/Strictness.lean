import HotaruMqtt.Wire.NormalForm

/-!
# What the parsers let pass

In MQTT 3.1.1 the parsers of PUBLISH, of the acknowledgements and of the subscription packets keep
every byte of a body. The parser of CONNECT does not: it drops what stands behind the last field,
and it does not look at some bits of the flags. In MQTT 5 the parsers of SUBSCRIBE and UNSUBSCRIBE
accept a property block in the place of the list.
-/

namespace HotaruMqtt.Codec

open Library Library.Decoder

/-- A frame: its first byte, a count of the body, and the body. -/
def IsFrame (first : UInt8) (body bytes : Bytes) : Prop :=
  ∃ lengthBytes, bytes = first :: (lengthBytes ++ body) ∧
    decodeRemainingLengthFromSlice lengthBytes = .ok (some (body.length, lengthBytes.length))

/-- The packets whose first byte is read back from the packet. -/
def keepsFirstByte : PacketType → Bool
  | .publish | .puback | .pubrec | .pubrel | .pubcomp => true
  | _ => false

/-- The body of a frame is parsed as a packet of the type that the first byte names. -/
theorem IsFrame.parsePacket_eq {first : UInt8} {body bytes rest : Bytes}
    {version : ProtocolVersion} {packet : Packet} (hframe : IsFrame first body bytes)
    (h : (decodePacketFromBytes (bytes ++ rest) version).1 = .ok (some packet)) :
    PacketType.tryFrom (first >>> 4) = some packet.packetType ∧
      parsePacket first packet.packetType body.length body version = .ok packet := by
  obtain ⟨lengthBytes, rfl, hlength⟩ := hframe
  obtain ⟨first', packetType, _, _, hbuf, htype, -, -⟩ :=
    exists_frame_of_decode (Prod.ext h (Eq.refl (decodePacketFromBytes _ version).2))
  obtain rfl := (List.cons.inj hbuf).1
  rw [List.cons_append, List.append_assoc,
    decodePacketFromBytes_frame version rest htype hlength] at h
  cases hparse : parsePacket first packetType body.length body version with
  | error fault =>
    rw [hparse] at h
    cases h
  | ok parsed =>
    rw [hparse] at h
    cases h
    obtain rfl := gives_parsePacket _ _ _ _ _ _ hparse
    exact ⟨htype, hparse⟩

/-- The first byte of a parsed PUBLISH is packed again from its fields. -/
theorem firstByte_of_publishFlags {first headerFlags : UInt8} {qos : QoS} {p : PublishPacket}
    (htype : PacketType.tryFrom (first >>> 4) = some .publish)
    (hbits : FixedHeaderFlags.fromBits (first &&& 0x0F) = some headerFlags)
    (hqos : QoS.fromU8 ((headerFlags &&& FixedHeaderFlags.qos) >>> 1) = some qos)
    (hflags : PublishFlags headerFlags qos p) : (Packet.publish p).firstByte = first := by
  have hall : ∀ value : Fin 256, PacketType.tryFrom (UInt8.ofFin value >>> 4) = some .publish →
      ∀ flags ∈ FixedHeaderFlags.fromBits (UInt8.ofFin value &&& 0x0F),
      ∀ qos ∈ QoS.fromU8 ((flags &&& FixedHeaderFlags.qos) >>> 1),
      0x30 ||| publishFlagBits (containsFlag flags FixedHeaderFlags.dup)
        (containsFlag flags FixedHeaderFlags.retain) qos = UInt8.ofFin value := by
    decide +kernel
  have h := hall first.toFin htype headerFlags hbits qos hqos
  rw [← hflags.dup, ← hflags.retain, ← hflags.qos, ← packPublishFlags_eq] at h
  exact h

/-- The first byte of a parsed acknowledgement is fixed by its type. -/
theorem firstByte_of_ackFlags {first : UInt8} {packetType : PacketType}
    (htype : PacketType.tryFrom (first >>> 4) = some packetType)
    (hack : packetType ∈ [PacketType.puback, .pubrec, .pubrel, .pubcomp])
    (hflags : first &&& 0x0F = if packetType = .pubrel then 0x02 else 0x00) (id : PacketId) :
    (ackPacket packetType id).firstByte = first := by
  have hall : ∀ packetType ∈ [PacketType.puback, .pubrec, .pubrel, .pubcomp],
      ∀ value : Fin 256, PacketType.tryFrom (UInt8.ofFin value >>> 4) = some packetType →
      UInt8.ofFin value &&& 0x0F = (if packetType = .pubrel then 0x02 else 0x00) →
      (ackPacket packetType 0).firstByte = UInt8.ofFin value := by
    decide +kernel
  have hid : (ackPacket packetType id).firstByte = (ackPacket packetType 0).firstByte := by
    cases packetType <;> rfl
  exact hid.trans (hall packetType hack first.toFin htype hflags)

/-- A publication and its acknowledgements have the first byte that they were parsed from. -/
theorem firstByte_of_parsePacket {first : UInt8} {packetType : PacketType} {body : Bytes}
    {version : ProtocolVersion} {packet : Packet}
    (htype : PacketType.tryFrom (first >>> 4) = some packetType)
    (h : parsePacket first packetType body.length body version = .ok packet)
    (hkeeps : keepsFirstByte packetType = true) : packet.firstByte = first := by
  cases packetType with
  | publish =>
    obtain ⟨headerFlags, qos, p, moved, rfl, hbits, hqos, hrun⟩ := exists_of_parsePublish h
    have hflags := (takesAll_readPublishFields _ _ _ _ _ _ _ hrun).1
    exact firstByte_of_publishFlags htype hbits hqos hflags
  | puback | pubrec | pubrel | pubcomp =>
    obtain ⟨high, low, rest, -, -, hflags, rfl⟩ := exists_of_parseAckPacket h
    exact firstByte_of_ackFlags htype (by decide) hflags _
  | _ => cases hkeeps

theorem isFrame_frame {first : UInt8} {body : Bytes} (h : body.length ≤ maxRemainingLength) :
    IsFrame first body (frame first body) :=
  ⟨_, rfl, decodeRemainingLength_encode h⟩

/-- In MQTT 3.1.1 a packet is encoded with the body that it was decoded from, and a publication or
an acknowledgement of one with the same first byte. So the packet determines the body. -/
theorem decode_keeps_body {first : UInt8} {body bytes rest : Bytes} {packet : Packet}
    (hframe : IsFrame first body bytes)
    (h : (decodePacketFromBytes (bytes ++ rest) .v311).1 = .ok (some packet))
    (hkeeps : keepsBody packet.packetType = true) :
    (∃ first' encoded, encodePacket packet .v311 = .ok encoded ∧ IsFrame first' body encoded ∧
      (keepsFirstByte packet.packetType = true → first' = first)) ∧
    ∀ first' body' bytes' rest', IsFrame first' body' bytes' →
      (decodePacketFromBytes (bytes' ++ rest') .v311).1 = .ok (some packet) → body' = body := by
  have hwritten {first : UInt8} {body bytes rest : Bytes} (hframe : IsFrame first body bytes)
      (h : (decodePacketFromBytes (bytes ++ rest) .v311).1 = .ok (some packet)) :
      encodeBody packet .v311 = .ok body := by
    obtain ⟨written, hwritten, hrewrites⟩ :=
      (kept_of_parsePacket (hframe.parsePacket_eq h).2).written
    rw [← hrewrites.eq ⟨rfl, hkeeps⟩]
    exact hwritten
  obtain ⟨htype, hparse⟩ := hframe.parsePacket_eq h
  have hbody := hwritten hframe h
  refine ⟨⟨packet.firstByte, frame packet.firstByte body, ?_, ?_,
    firstByte_of_parsePacket htype hparse⟩, ?_⟩
  · rw [encodePacket_eq, hbody]
    rfl
  · obtain ⟨lengthBytes, -, hlength⟩ := hframe
    exact isFrame_frame (le_maxRemainingLength_of_decode hlength)
  · intro first' body' bytes' rest' hframe' h'
    exact Except.ok.inj ((hwritten hframe' h').symm.trans hbody)

/-- A PUBLISH whose length has a needless zero group, in front of another byte. -/
theorem decode_keeps_body_publish :
    let packet : Packet := .publish
      { topic := "a", payload := [0x68, 0x69, 0x21], dup := false, qos := .atLeastOnce,
        retain := true, packetId := some 7 }
    ∃ first encoded, encodePacket packet .v311 = .ok encoded ∧
      IsFrame first [0x00, 0x01, 0x61, 0x00, 0x07, 0x68, 0x69, 0x21] encoded ∧ first = 0x33 := by
  intro packet
  have hframe : IsFrame 0x33 [0x00, 0x01, 0x61, 0x00, 0x07, 0x68, 0x69, 0x21]
      [0x33, 0x88, 0x00, 0x00, 0x01, 0x61, 0x00, 0x07, 0x68, 0x69, 0x21] :=
    ⟨[0x88, 0x00], rfl, by decide⟩
  have hdecode : (decodePacketFromBytes ([0x33, 0x88, 0x00, 0x00, 0x01, 0x61, 0x00, 0x07, 0x68,
      0x69, 0x21] ++ [0xC0]) .v311).1 = .ok (some packet) := by
    decide
  obtain ⟨first, encoded, hencode, hsame, hfirst⟩ := (decode_keeps_body hframe hdecode rfl).1
  exact ⟨first, encoded, hencode, hsame, hfirst rfl⟩

/-! ## CONNECT -/

/-- The reserved bit is clear and, without a will, so are the bits of the will. -/
def StrictFlags (flagsByte : UInt8) : Prop :=
  flagsByte &&& ConnectFlags.reserved = 0 ∧
    (flagsByte &&& ConnectFlags.willFlag = 0 →
      flagsByte &&& (ConnectFlags.willQosMask ||| ConnectFlags.willRetain) = 0)

instance (flagsByte : UInt8) : Decidable (StrictFlags flagsByte) :=
  inferInstanceAs (Decidable (_ ∧ _))

/-- The flags byte that is written for the fields which a flags byte announces. -/
def rewrittenFlags (flagsByte : UInt8) (will : Option (QoS × Bool)) : UInt8 :=
  let flags := ConnectFlags.fromBitsTruncate flagsByte
  connectFlagBits (containsFlag flags ConnectFlags.cleanSession) will
    (containsFlag flags ConnectFlags.username) (containsFlag flags ConnectFlags.password)

theorem rewrittenFlags_without_will {flagsByte : UInt8}
    (h : containsFlag (ConnectFlags.fromBitsTruncate flagsByte) ConnectFlags.willFlag = false) :
    rewrittenFlags flagsByte none = flagsByte ↔ StrictFlags flagsByte := by
  have hall : ∀ value : Fin 256, containsFlag (ConnectFlags.fromBitsTruncate (UInt8.ofFin value))
      ConnectFlags.willFlag = false →
      (rewrittenFlags (UInt8.ofFin value) none = UInt8.ofFin value ↔
        StrictFlags (UInt8.ofFin value)) := by
    decide +kernel
  exact hall flagsByte.toFin h

theorem rewrittenFlags_with_will {flagsByte : UInt8} {qos : QoS}
    (h : containsFlag (ConnectFlags.fromBitsTruncate flagsByte) ConnectFlags.willFlag = true)
    (hqos : QoS.fromU8 ((flagsByte &&& ConnectFlags.willQosMask) >>> 3) = some qos) :
    rewrittenFlags flagsByte (some (qos, containsFlag (ConnectFlags.fromBitsTruncate flagsByte)
      ConnectFlags.willRetain)) = flagsByte ↔ StrictFlags flagsByte := by
  have hall : ∀ value : Fin 256, containsFlag (ConnectFlags.fromBitsTruncate (UInt8.ofFin value))
      ConnectFlags.willFlag = true →
      ∀ qos ∈ QoS.fromU8 ((UInt8.ofFin value &&& ConnectFlags.willQosMask) >>> 3),
      (rewrittenFlags (UInt8.ofFin value) (some (qos, containsFlag
        (ConnectFlags.fromBitsTruncate (UInt8.ofFin value)) ConnectFlags.willRetain)) =
          UInt8.ofFin value ↔ StrictFlags (UInt8.ofFin value)) := by
    decide +kernel
  exact hall flagsByte.toFin h qos hqos

/-- The flags of a parsed CONNECT are packed again exactly if they are strict. -/
theorem FlagsSay.packConnectFlags_eq_iff {flagsByte : UInt8} {conn : ConnectPacket}
    (h : FlagsSay flagsByte conn) : packConnectFlags conn = flagsByte ↔ StrictFlags flagsByte := by
  have hpack : packConnectFlags conn = rewrittenFlags flagsByte
      (conn.will.map fun will ↦ (will.qos, will.retain)) := by
    rw [packConnectFlags_eq, h.cleanSession, h.username, h.password]
    rfl
  have hpresent := h.will
  rw [hpack]
  cases hwill : conn.will with
  | none =>
    rw [hwill] at hpresent
    exact rewrittenFlags_without_will hpresent.symm
  | some will =>
    rw [hwill] at hpresent
    rw [Option.map_some, h.willRetain will hwill]
    exact rewrittenFlags_with_will hpresent.symm (h.willQos will hwill)

/-- Two CONNECT bodies of one packet differ in their flags or behind the header. -/
theorem connectStart_append_inj {conn : ConnectPacket} {flags flags' : UInt8}
    {fields fields' : Bytes} :
    connectStart conn flags ++ fields = connectStart conn flags' ++ fields' ↔
      flags = flags' ∧ fields = fields' := by
  constructor
  · intro h
    obtain ⟨hstart, hfields⟩ := List.append_inj h rfl
    have hflags : some flags = some flags' := congrArg (fun start ↦ start[7]?) hstart
    exact ⟨Option.some.inj hflags, hfields⟩
  · rintro ⟨rfl, rfl⟩
    rfl

/-- The length that two bytes of a body announce. -/
def announcedLength (body : Bytes) (cursor : ℕ) : ℕ :=
  (body.getD cursor 0).toNat * 256 + (body.getD (cursor + 1) 0).toNat

/-- The position behind a number of fields. Each field takes two bytes and what they announce. -/
def behindFields (body : Bytes) : ℕ → ℕ → ℕ
  | 0, cursor => cursor
  | fields + 1, cursor => behindFields body fields (cursor + (2 + announcedLength body cursor))

/-- The fields of a CONNECT: the client identifier, the topic and the payload of a will, the user
name and the password. -/
def announcedFields (flagsByte : UInt8) : ℕ :=
  1 + (if flagsByte &&& ConnectFlags.willFlag = 0 then 0 else 2) +
    (if flagsByte &&& ConnectFlags.username = 0 then 0 else 1) +
    (if flagsByte &&& ConnectFlags.password = 0 then 0 else 1)

theorem behindFields_add (body : Bytes) (fields more cursor : ℕ) :
    behindFields body (fields + more) cursor =
      behindFields body more (behindFields body fields cursor) := by
  induction fields generalizing cursor with
  | zero => rw [Nat.zero_add, behindFields]
  | succ fields ih => rw [Nat.succ_add, behindFields, ih, behindFields]

/-- A reader steps over a number of fields. -/
def Skips {α : Type} (fields : ℕ) (reader : Reader α) : Prop :=
  ∀ body cursor value moved, reader.run body cursor = .ok (value, moved) →
    moved = behindFields body fields cursor

theorem skips_pure {α : Type} (value : α) : Skips 0 (pure value : Reader α) := by
  intro body cursor value moved hrun
  cases hrun
  rfl

/-- Fields are skipped one after another. -/
theorem Skips.bind {α β : Type} {reader : Reader α} {next : α → Reader β} {fields more : ℕ}
    (h : Skips fields reader) (hnext : ∀ value, Skips more (next value)) :
    Skips (fields + more) (reader >>= next) := by
  intro body cursor result last hrun
  obtain ⟨value, moved, hfirst, hrest⟩ := exists_of_run_bind hrun
  rw [hnext value _ _ _ _ hrest, h _ _ _ _ hfirst, behindFields_add]

theorem skips_readIf {α : Type} {reader : Reader α} {fields : ℕ} (h : Skips fields reader)
    (present : Bool) : Skips (if present then fields else 0) (readIf present reader) := by
  cases present with
  | false => exact skips_pure none
  | true => exact h.bind fun value ↦ skips_pure (some value)

theorem skips_readBytes : Skips 1 readBytes := by
  intro body cursor bytes moved hrun
  obtain ⟨len, behind, hlen, hfield⟩ := exists_of_run_bind hrun
  simp only [readU16] at hlen
  split at hlen
  · cases hlen
  rename_i hroom
  have hhigh : cursor < body.length := by omega
  have hlow : cursor + 1 < body.length := by omega
  simp only [index, List.getElem?_eq_getElem hhigh, List.getElem?_eq_getElem hlow, bind,
    Except.bind] at hlen
  cases hlen
  simp only [readField] at hfield
  split at hfield
  · cases hfield
  obtain ⟨_, -, hmoved⟩ := bind_eq_ok_iff.mp hfield
  cases hmoved
  have hannounced : (fromBeBytes16 body[cursor] body[cursor + 1]).toNat =
      announcedLength body cursor := by
    simp only [toNat_fromBeBytes16, announcedLength, List.getD_eq_getElem?_getD,
      List.getElem?_eq_getElem hhigh, List.getElem?_eq_getElem hlow, Option.getD_some]
  rw [hannounced]
  exact Nat.add_assoc _ _ _

theorem skips_readArcStr : Skips 1 readArcStr := by
  intro body cursor value moved hrun
  obtain ⟨len, behind, hlen, hrest⟩ := exists_of_run_bind hrun
  obtain ⟨bytes, last, hfield, hdecode⟩ := exists_of_run_bind hrest
  have hbytes : readBytes.run body cursor = .ok (bytes, last) :=
    (run_bind_ok hlen _).trans hfield
  split at hdecode
  · cases hdecode
  · cases hdecode
    exact skips_readBytes _ _ _ _ hbytes

/-- A will in MQTT 3.1.1 is two fields. -/
theorem skips_readWill (flagsByte : UInt8) : Skips 2 (readWill .v311 flagsByte) := by
  have hwill : Skips (0 + (1 + (1 + 0))) (readWill .v311 flagsByte) := by
    refine (skips_pure ({} : Properties)).bind fun properties ↦ skips_readArcStr.bind fun topic ↦
      skips_readBytes.bind fun payload ↦ ?_
    dsimp only
    split
    · intro body cursor value moved hrun
      cases hrun
    · exact skips_pure _
  exact hwill

/-- The number of fields behind the header, from the flags. -/
theorem announcedFields_eq (flagsByte : UInt8) :
    let flags := ConnectFlags.fromBitsTruncate flagsByte
    0 + (1 + ((if containsFlag flags ConnectFlags.willFlag then 2 else 0) +
      ((if containsFlag flags ConnectFlags.username then 1 else 0) +
        ((if containsFlag flags ConnectFlags.password then 1 else 0) + 0)))) =
      announcedFields flagsByte := by
  have hall : ∀ value : Fin 256,
      let flags := ConnectFlags.fromBitsTruncate (UInt8.ofFin value)
      0 + (1 + ((if containsFlag flags ConnectFlags.willFlag then 2 else 0) +
        ((if containsFlag flags ConnectFlags.username then 1 else 0) +
          ((if containsFlag flags ConnectFlags.password then 1 else 0) + 0)))) =
        announcedFields (UInt8.ofFin value) := by
    decide +kernel
  exact hall flagsByte.toFin

/-- The reader of a CONNECT of MQTT 3.1.1 steps over the fields that its flags announce. -/
theorem skips_readConnectFields (flagsByte : UInt8) (keepAlive : UInt16) :
    Skips (announcedFields flagsByte) (readConnectFields .v311 flagsByte keepAlive) := by
  rw [← announcedFields_eq]
  exact (skips_pure _).bind fun properties ↦ skips_readArcStr.bind fun clientId ↦
    (skips_readIf (skips_readWill flagsByte) _).bind fun will ↦
      (skips_readIf skips_readArcStr _).bind fun username ↦
        (skips_readIf skips_readBytes _).bind fun password ↦ skips_pure _

/-- What was taken from a body is all that stands in it exactly if it reaches the end. -/
theorem eq_drop_iff_of_prefix {body taken : Bytes} {cursor : ℕ} (hcursor : cursor ≤ body.length)
    (h : taken <+: body.drop cursor) :
    taken = body.drop cursor ↔ cursor + taken.length = body.length := by
  constructor
  · rintro rfl
    rw [List.length_drop]
    omega
  · intro hlength
    refine h.eq_of_length ?_
    rw [List.length_drop]
    omega

/-- A CONNECT of MQTT 3.1.1 is written as the body that it was parsed from exactly if no flag that
means nothing is set in it and the fields that the flags announce fill the body. -/
theorem parseConnect_strict_iff {body : Bytes} {conn : ConnectPacket}
    (h : parseConnect body = .ok (.connect conn)) (hlevel : body[6]? = some 4) :
    ∃ written flagsByte, encodeConnectBody conn = .ok written ∧ body[7]? = some flagsByte ∧
      (written = body ↔ StrictFlags flagsByte ∧
        behindFields body (announcedFields flagsByte) 10 = body.length) := by
  obtain ⟨conn, flagsByte, moved, hpacket, hbody, hrun⟩ := exists_of_parseConnect h
  cases hpacket
  obtain ⟨taken, hprefix, rfl, -, hsay, hkept⟩ := takes_readConnectFields _ _ _ _ _ _ _ hrun
  obtain ⟨block, will, hblock, hwill, hrewrites⟩ := hkept.written
  have hversion : conn.version = .v311 := by
    rw [hbody] at hlevel
    have hlevel : conn.version.level = 4 := Option.some.inj hlevel
    cases hversion : conn.version with
    | v311 => rfl
    | v5 =>
      rw [hversion] at hlevel
      exact absurd hlevel (by decide)
  refine ⟨_, flagsByte,
    (encodeConnectBody_eq_ok_iff conn _).mpr ⟨block, will, hblock, hwill, rfl⟩, ?_, ?_⟩
  · rw [hbody]
    rfl
  have hfields : connectFields conn block will = taken := hrewrites.eq hversion
  have hlength : 10 ≤ body.length := by
    rw [hbody, List.length_append]
    exact Nat.le_add_right 10 _
  have hbehind : 10 + taken.length = behindFields body (announcedFields flagsByte) 10 := by
    rw [hversion] at hrun
    exact skips_readConnectFields flagsByte conn.keepAlive _ _ _ _ hrun
  calc connectHeader conn ++ connectFields conn block will = body
      ↔ connectStart conn (packConnectFlags conn) ++ taken =
          connectStart conn flagsByte ++ body.drop 10 := by
        rw [hfields, ← connectHeader_eq, ← hbody]
    _ ↔ StrictFlags flagsByte ∧ 10 + taken.length = body.length := by
        rw [connectStart_append_inj, hsay.packConnectFlags_eq_iff,
          eq_drop_iff_of_prefix hlength hprefix]
    _ ↔ _ := by
        rw [hbehind]

/-- A CONNECT that is accepted with a byte behind its client identifier, with the reserved bit, and
with the bits of a will that it does not have. -/
theorem parseConnect_accepts_stray :
    let conn : ConnectPacket :=
      { version := .v311, clientId := "a", cleanSession := true, keepAlive := 10, username := none,
        password := none, will := none }
    let body (flagsByte : UInt8) (behind : Bytes) : Bytes :=
      [0x00, 0x04, 0x4D, 0x51, 0x54, 0x54, 0x04, flagsByte, 0x00, 0x0A, 0x00, 0x01, 0x61] ++ behind
    encodeConnectBody conn = .ok (body 0x02 []) ∧
      parseConnect (body 0x02 [0xFF]) = .ok (.connect conn) ∧
      parseConnect (body 0x03 []) = .ok (.connect conn) ∧
      parseConnect (body 0x3A []) = .ok (.connect conn) := by
  decide

theorem parseConnect_strict_iff_plain :
    ∃ conn, encodeConnectBody conn =
      .ok [0x00, 0x04, 0x4D, 0x51, 0x54, 0x54, 0x04, 0x02, 0x00, 0x0A, 0x00, 0x01, 0x61] := by
  have hparse : parseConnect
      [0x00, 0x04, 0x4D, 0x51, 0x54, 0x54, 0x04, 0x02, 0x00, 0x0A, 0x00, 0x01, 0x61] =
      .ok (.connect { version := .v311, clientId := "a", cleanSession := true, keepAlive := 10,
                      username := none, password := none, will := none }) := by
    decide
  obtain ⟨written, flagsByte, hwritten, hflags, hstrict⟩ := parseConnect_strict_iff hparse rfl
  obtain rfl : 0x02 = flagsByte := Option.some.inj hflags
  exact ⟨_, hstrict.mpr (by decide) ▸ hwritten⟩

/-- The property block of an MQTT 5 body fills it up to its end. -/
def BlockFills (version : ProtocolVersion) (body : Bytes) : Prop :=
  version = .v5 ∧ ∃ properties, Properties.parse.run body 2 = .ok (properties, body.length)

/-- Nothing follows the properties exactly if their block fills the body. -/
theorem cursor_eq_length_iff_blockFills {version : ProtocolVersion} {body : Bytes}
    {properties : Properties} {cursor : ℕ} (hlength : 2 < body.length)
    (h : (readProperties version).run body 2 = .ok (properties, cursor)) :
    cursor = body.length ↔ BlockFills version body := by
  cases version with
  | v311 =>
    cases h
    refine iff_of_false (Nat.ne_of_lt hlength) ?_
    rintro ⟨hversion, -⟩
    cases hversion
  | v5 =>
    constructor
    · rintro rfl
      exact ⟨rfl, properties, h⟩
    · rintro ⟨-, properties', h'⟩
      exact (Prod.mk.inj (Except.ok.inj (h.symm.trans h'))).2

/-- A subscription request is empty exactly if its property block leaves no byte for the list. -/
theorem parsed_lists_nonempty_iff (version : ProtocolVersion) (body : Bytes) :
    (∀ s, parseSubscribe body version = .ok (.subscribe s) →
      (s.subscriptions ≠ [] ↔ ¬ BlockFills version body)) ∧
    ∀ u, parseUnsubscribe body version = .ok (.unsubscribe u) →
      (u.topics ≠ [] ↔ ¬ BlockFills version body) := by
  constructor
  · intro s h
    obtain ⟨s, properties, cursor, hpacket, hlength, hproperties, hempty, -⟩ :=
      exists_of_parseSubscribe h
    cases hpacket
    rw [Ne, hempty, cursor_eq_length_iff_blockFills (by omega) hproperties]
  · intro u h
    obtain ⟨u, properties, cursor, hpacket, hlength, hproperties, hempty, -⟩ :=
      exists_of_parseUnsubscribe h
    cases hpacket
    rw [Ne, hempty, cursor_eq_length_iff_blockFills (by omega) hproperties]

/-- A subscription identifier in the place of the list. -/
theorem parse_accepts_empty_lists :
    let body : Bytes := [0x00, 0x01, 0x02, 0x0B, 0x01]
    parseSubscribe body .v5 = .ok (.subscribe { packetId := 1, subscriptions := [] }) ∧
      parseUnsubscribe body .v5 = .ok (.unsubscribe { packetId := 1, topics := [] }) := by
  decide

theorem parsed_lists_nonempty_behind_block :
    ∃ s u, parseSubscribe [0x00, 0x01, 0x00, 0x00, 0x01, 0x61, 0x01] .v5 = .ok (.subscribe s) ∧
      parseUnsubscribe [0x00, 0x01, 0x00, 0x00, 0x01, 0x61] .v5 = .ok (.unsubscribe u) ∧
      s.subscriptions ≠ [] ∧ u.topics ≠ [] := by
  have hsubscribe : parseSubscribe [0x00, 0x01, 0x00, 0x00, 0x01, 0x61, 0x01] .v5 =
      .ok (.subscribe { packetId := 1, subscriptions := [⟨"a", .atLeastOnce⟩] }) := by
    decide
  have hunsubscribe : parseUnsubscribe [0x00, 0x01, 0x00, 0x00, 0x01, 0x61] .v5 =
      .ok (.unsubscribe { packetId := 1, topics := ["a"] }) := by
    decide
  refine ⟨_, _, hsubscribe, hunsubscribe,
    ((parsed_lists_nonempty_iff _ _).1 _ hsubscribe).mpr ?_,
    ((parsed_lists_nonempty_iff _ _).2 _ hunsubscribe).mpr ?_⟩
  all_goals
    rintro ⟨-, properties, hparse⟩
    cases hparse

end HotaruMqtt.Codec

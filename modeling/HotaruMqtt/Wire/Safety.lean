import HotaruMqtt.Wire.RoundTrip

/-!
# Decoding arbitrary bytes

A peer that has not been authenticated chooses every byte that is decoded. Whatever it sends, no
access to the body is out of range, no cursor passes the end of the body, and every loop ends.
-/

namespace HotaruMqtt

open Library Library.Decoder

/-- The result is a value or an error that is returned to the caller. -/
def Calm {α : Type} (result : Except Fault α) : Prop := result ≠ .error .panic

theorem calm_ok {α : Type} (value : α) : Calm (.ok value : Except Fault α) := nofun

theorem calm_error {α : Type} (reason : MqttError) :
    Calm (.error (.error reason) : Except Fault α) := nofun

theorem calm_orRaise {α : Type} (result : Except MqttError α) : Calm (orRaise result) := by
  cases result with
  | ok value => exact calm_ok value
  | error reason => exact calm_error reason

/-- A sequence does not panic if both parts do not. -/
theorem Calm.bind {α β : Type} {first : Except Fault α} {next : α → Except Fault β}
    (h : Calm first) (h' : ∀ value, first = .ok value → Calm (next value)) :
    Calm (first >>= next) := by
  cases first with
  | ok value => exact h' value rfl
  | error fault =>
    intro hpanic
    exact h (congrArg Except.error (Except.error.inj hpanic))

theorem Calm.map {α β : Type} {result : Except Fault α} (h : Calm result) (f : α → β) :
    Calm (f <$> result) := by
  cases result with
  | ok value => exact calm_ok _
  | error fault =>
    intro hpanic
    exact h (congrArg Except.error (Except.error.inj hpanic))

theorem Calm.ite {α : Type} {condition : Prop} [Decidable condition] {first second : Except Fault α}
    (h : condition → Calm first) (h' : ¬ condition → Calm second) :
    Calm (if condition then first else second) := by
  split
  · rename_i hcondition
    exact h hcondition
  · rename_i hcondition
    exact h' hcondition

/-- From a cursor inside the body the reader ends inside the body, and it does not panic. -/
def InBounds {α : Type} (reader : Decoder Fault UInt8 α) : Prop :=
  Within (fun fault ↦ fault ≠ .panic) reader

/-- A reader that stays in the body does not panic inside it. -/
theorem InBounds.calm {α : Type} {reader : Decoder Fault UInt8 α} (h : InBounds reader)
    {body : Bytes} {cursor : ℕ} (hcursor : cursor ≤ body.length) :
    Calm (reader.run body cursor) := by
  have hlands := h body cursor hcursor
  intro hpanic
  rw [hpanic] at hlands
  exact hlands rfl

/-- Nor does it leave the cursor behind the end. -/
theorem InBounds.le_length {α : Type} {reader : Decoder Fault UInt8 α} (h : InBounds reader)
    {body : Bytes} {cursor moved : ℕ} {value : α} (hcursor : cursor ≤ body.length)
    (hrun : reader.run body cursor = .ok (value, moved)) : moved ≤ body.length := by
  have hlands := h body cursor hcursor
  rw [hrun] at hlands
  exact hlands

theorem inBounds_raise {α : Type} (reason : MqttError) :
    InBounds (.raise (.error reason) : Decoder Fault UInt8 α) :=
  within_raise (Fault.error_ne_panic _)

theorem inBounds_lift {α : Type} {result : Except Fault α} (h : Calm result) :
    InBounds (.lift result) := by
  apply within_lift
  rintro fault rfl rfl
  exact h rfl

namespace Properties

theorem inBounds_readU8 : InBounds readU8 := by
  intro body cursor hcursor
  simp only [readU8]
  split
  · rename_i hbyte
    obtain ⟨hlt, -⟩ := List.getElem?_eq_some_iff.mp hbyte
    exact hlt
  · exact Fault.error_ne_panic _

theorem inBounds_readArray (count : ℕ) : InBounds (readArray count) := by
  intro body cursor hcursor
  simp only [readArray]
  split
  · rename_i hle
    exact hle
  · exact Fault.error_ne_panic _

theorem yields_readArray (count : ℕ) :
    Yields (fun bytes ↦ bytes.length = count) (readArray count) := by
  intro body cursor bytes moved hrun
  simp only [readArray] at hrun
  split at hrun
  · cases hrun
    rw [List.length_take, List.length_drop]
    omega
  · cases hrun

theorem inBounds_readU16 : InBounds readU16 := by
  refine (inBounds_readArray 2).bindYields (yields_readArray 2) fun bytes hlength ↦ ?_
  match bytes, hlength with
  | [_, _], _ => exact within_pure _

theorem inBounds_readU32 : InBounds readU32 := by
  refine (inBounds_readArray 4).bindYields (yields_readArray 4) fun bytes hlength ↦ ?_
  match bytes, hlength with
  | [_, _, _, _], _ => exact within_pure _

theorem inBounds_readVbiFrom (fuel byteIndex value multiplier : ℕ) :
    InBounds (readVbiFrom fuel byteIndex value multiplier) := by
  induction fuel generalizing byteIndex value multiplier with
  | zero => exact inBounds_raise _
  | succ fuel ih =>
    refine inBounds_readU8.bind fun byte ↦ ?_
    exact ((inBounds_raise _).ite (within_pure _)).ite (ih _ _ _)

theorem inBounds_readVbi : InBounds readVbi := inBounds_readVbiFrom 4 0 0 1

theorem inBounds_readPrefixedBytes : InBounds readPrefixedBytes :=
  inBounds_readU16.bind fun length ↦ inBounds_readArray length.toNat

theorem inBounds_readString : InBounds readString := by
  refine inBounds_readPrefixedBytes.bind fun bytes ↦ ?_
  split
  · exact inBounds_raise _
  · exact (inBounds_lift (calm_orRaise _)).bind fun _ ↦ within_pure _

theorem inBounds_readValue (type : PropertyType) : InBounds (readValue type) := by
  cases type with
  | byte => exact inBounds_readU8
  | twoByte => exact inBounds_readU16
  | fourByte => exact inBounds_readU32
  | string => exact inBounds_readString
  | binary => exact inBounds_readPrefixedBytes
  | variableByteInteger => exact inBounds_readVbi.bind fun _ ↦ within_pure _
  | stringPair =>
    exact inBounds_readString.bind fun _ ↦ inBounds_readString.bind fun _ ↦ within_pure _

theorem calm_markSeen (propertyId : UInt8) (seen : BitVec 64) :
    Calm (markSeen propertyId seen) := by
  unfold markSeen
  split
  · exact calm_ok _
  · split
    · exact calm_error _
    · split
      · exact calm_error _
      · exact calm_ok _

/-- No round of the item loop leaves the block. -/
theorem inBounds_parseItem (state : Properties × BitVec 64) : InBounds (parseItem state) := by
  refine inBounds_readU8.bind fun propertyId ↦ ?_
  refine (inBounds_lift (calm_markSeen propertyId state.2)).bind fun seen ↦ ?_
  split
  · exact inBounds_raise _
  · exact (inBounds_readValue _).bind fun _ ↦ within_pure _

theorem calm_parseBlock (propertyBody : Bytes) : Calm (parseBlock propertyBody) := by
  have hloop : InBounds (whileMore parseItem ({}, 0#64)) := .whileMore inBounds_parseItem _
  refine (hloop.calm (Nat.zero_le _)).bind fun parsed _ ↦ ?_
  exact (calm_orRaise _).bind fun _ _ ↦ calm_ok _

theorem inBounds_parse : InBounds parse :=
  inBounds_readVbi.bind fun propertyLength ↦
    (inBounds_readArray propertyLength).bind fun propertyBody ↦
      inBounds_lift (calm_parseBlock propertyBody)

/-- `parse` with its slice of the body spelled out. -/
def parseSliced : Decoder Fault UInt8 Properties := do
  let propertyLength ← readVbi
  ⟨fun body cursor ↦
    let stop := cursor + propertyLength
    if stop > body.length then .error (.codec .unexpectedEof)
    else do
      let propertyBody ← Codec.slice body cursor stop
      let properties ← parseBlock propertyBody
      .ok (properties, stop)⟩

/-- Cutting the block out of the buffer first changes nothing. -/
theorem parseSliced_eq : parseSliced = parse := by
  unfold parseSliced parse
  congr 1
  funext propertyLength
  apply congrArg Decoder.mk
  funext body cursor
  by_cases hstop : cursor + propertyLength ≤ body.length
  · have hslice : Codec.slice body cursor (cursor + propertyLength) =
        .ok ((body.drop cursor).take propertyLength) := by
      simp [Codec.slice, hstop]
    have harray : (readArray propertyLength).run body cursor =
        .ok ((body.drop cursor).take propertyLength, cursor + propertyLength) := by
      simp [readArray, hstop]
    simp only [Nat.not_lt.mpr hstop, if_false, hslice, harray, lift, bind, Except.bind]
    cases parseBlock ((body.drop cursor).take propertyLength) <;> rfl
  · have harray : (readArray propertyLength).run body cursor =
        .error (.codec .unexpectedEof) := by
      simp [readArray, hstop]
    simp only [Nat.lt_of_not_le hstop, if_true, harray]

end Properties

/-! ## Packets -/

namespace Codec

/-- An index inside the body does not panic. -/
theorem calm_index {body : Bytes} {i : ℕ} (h : i < body.length) : Calm (index body i) := by
  rw [index, List.getElem?_eq_getElem h]
  exact calm_ok _

/-- A slice inside the body does not panic. -/
theorem calm_slice {body : Bytes} {start stop : ℕ} (h : start ≤ stop) (h' : stop ≤ body.length) :
    Calm (slice body start stop) := by
  rw [slice, if_pos ⟨h, h'⟩]
  exact calm_ok _

theorem inBounds_readU16 : InBounds readU16 := by
  intro body cursor hcursor
  simp only [readU16]
  split
  · exact Fault.error_ne_panic _
  · rename_i hroom
    have hhigh : cursor < body.length := by omega
    have hlow : cursor + 1 < body.length := by omega
    simp only [index, List.getElem?_eq_getElem hhigh, List.getElem?_eq_getElem hlow]
    exact Nat.not_lt.mp hroom

theorem inBounds_readField (len : ℕ) : InBounds (readField len) := by
  intro body cursor hcursor
  simp only [readField]
  split
  · exact Fault.error_ne_panic _
  · rename_i hroom
    have hstop := Nat.not_lt.mp hroom
    simp only [slice, if_pos (And.intro (Nat.le_add_right cursor len) hstop)]
    exact hstop

theorem inBounds_readArcStr : InBounds readArcStr := by
  refine inBounds_readU16.bind fun len ↦ (inBounds_readField len.toNat).bind fun bytes ↦ ?_
  split
  · exact inBounds_raise _
  · exact within_pure _

theorem inBounds_readBytes : InBounds readBytes :=
  inBounds_readU16.bind fun len ↦ inBounds_readField len.toNat

theorem inBounds_readRest : InBounds readRest := by
  intro body cursor hcursor
  simp only [readRest, slice, if_pos (And.intro hcursor (Nat.le_refl _))]
  exact Nat.le_refl _

theorem inBounds_readOptions : InBounds readOptions := by
  intro body cursor hcursor
  simp only [readOptions]
  split
  · exact Fault.error_ne_panic _
  · rename_i hroom
    have hlt := Nat.not_le.mp hroom
    simp only [index, List.getElem?_eq_getElem hlt]
    exact hlt

theorem inBounds_requireEnd : InBounds requireEnd := by
  intro body cursor hcursor
  simp only [requireEnd]
  split
  · exact hcursor
  · split
    · exact Fault.error_ne_panic _
    · omega

theorem inBounds_readProperties (version : ProtocolVersion) : InBounds (readProperties version) :=
  Properties.inBounds_parse.ite (within_pure _)

theorem inBounds_readIf {α : Type} (present : Bool) {reader : Reader α} (h : InBounds reader) :
    InBounds (readIf present reader) :=
  (h.bind fun _ ↦ within_pure _).ite (within_pure _)

theorem inBounds_readWill (version : ProtocolVersion) (flagsByte : UInt8) :
    InBounds (readWill version flagsByte) := by
  refine (inBounds_readProperties version).bind fun properties ↦ ?_
  refine inBounds_readArcStr.bind fun topic ↦ inBounds_readBytes.bind fun payload ↦ ?_
  dsimp only
  split
  · exact inBounds_raise _
  · exact within_pure _

/-- The flags of a CONNECT decide which fields are read, and all reads are checked. -/
theorem inBounds_readConnectFields (version : ProtocolVersion) (flagsByte : UInt8)
    (keepAlive : UInt16) : InBounds (readConnectFields version flagsByte keepAlive) := by
  refine (inBounds_readProperties version).bind fun properties ↦ ?_
  refine inBounds_readArcStr.bind fun clientId ↦ ?_
  refine (inBounds_readIf _ (inBounds_readWill version flagsByte)).bind fun will ↦ ?_
  refine (inBounds_readIf _ inBounds_readArcStr).bind fun username ↦ ?_
  exact (inBounds_readIf _ inBounds_readBytes).bind fun password ↦ within_pure _

theorem inBounds_readPublishFields (headerFlags : UInt8) (qos : QoS) (version : ProtocolVersion) :
    InBounds (readPublishFields headerFlags qos version) := by
  refine inBounds_readArcStr.bind fun topic ↦ ?_
  refine (inBounds_readIf _ inBounds_readU16).bind fun packetId ↦ ?_
  refine (inBounds_readProperties version).bind fun properties ↦ ?_
  exact inBounds_readRest.bind fun payload ↦ within_pure _

theorem inBounds_parseSubscription (version : ProtocolVersion)
    (subscriptions : List TopicSubscription) :
    InBounds (parseSubscription version subscriptions) := by
  refine inBounds_readArcStr.bind fun topic ↦ inBounds_readOptions.bind fun options ↦ ?_
  refine (inBounds_raise _).ite ?_
  split
  · exact inBounds_raise _
  · exact within_pure _

theorem inBounds_readSubscribeFields (version : ProtocolVersion) :
    InBounds (readSubscribeFields version) := by
  refine inBounds_readU16.bind fun packetId ↦ (inBounds_readProperties version).bind fun _ ↦ ?_
  exact (Within.whileMore (inBounds_parseSubscription version) []).bind fun _ ↦ within_pure _

theorem inBounds_parseTopic (topics : List String) : InBounds (parseTopic topics) :=
  inBounds_readArcStr.bind fun _ ↦ within_pure _

theorem inBounds_readUnsubscribeFields (version : ProtocolVersion) :
    InBounds (readUnsubscribeFields version) := by
  refine inBounds_readU16.bind fun packetId ↦ (inBounds_readProperties version).bind fun _ ↦ ?_
  exact (Within.whileMore inBounds_parseTopic []).bind fun _ ↦ within_pure _

theorem calm_decodeSubackCode (version : ProtocolVersion) (byte : UInt8) :
    Calm (decodeSubackCode version byte) := by
  unfold decodeSubackCode
  split
  · exact calm_ok _
  · split
    · exact calm_ok _
    · exact calm_error _

theorem calm_mapM_decodeSubackCode (version : ProtocolVersion) (codes : Bytes) :
    Calm (codes.mapM (decodeSubackCode version)) := by
  induction codes with
  | nil => exact calm_ok _
  | cons byte codes ih =>
    rw [List.mapM_cons]
    exact (calm_decodeSubackCode version byte).bind fun _ _ ↦ ih.bind fun _ _ ↦ calm_ok _

theorem inBounds_readSubackFields (version : ProtocolVersion) :
    InBounds (readSubackFields version) := by
  refine inBounds_readU16.bind fun packetId ↦ (inBounds_readProperties version).bind fun _ ↦ ?_
  refine inBounds_readRest.bind fun codes ↦ ?_
  exact (inBounds_lift (calm_mapM_decodeSubackCode version codes)).bind fun _ ↦ within_pure _

theorem calm_parseConnect (body : Bytes) : Calm (parseConnect body) := by
  unfold parseConnect
  split
  · exact calm_error _
  · rename_i hlength
    have hten : 10 ≤ body.length := Nat.not_lt.mp hlength
    refine (calm_index (by omega)).bind fun high _ ↦ (calm_index (by omega)).bind fun low _ ↦ ?_
    refine (calm_slice (by omega) (by omega)).bind fun name _ ↦ ?_
    split
    · exact calm_error _
    · refine (calm_index (by omega)).bind fun level _ ↦ ?_
      split
      · exact calm_error _
      · refine (calm_index (by omega)).bind fun flagsByte _ ↦ ?_
        refine (calm_index (by omega)).bind fun keepAliveHigh _ ↦ ?_
        refine (calm_index (by omega)).bind fun keepAliveLow _ ↦ ?_
        exact ((inBounds_readConnectFields _ _ _).calm hten).bind fun _ _ ↦ calm_ok _

theorem calm_parseConnack (body : Bytes) (version : ProtocolVersion) :
    Calm (parseConnack body version) := by
  unfold parseConnack
  split
  · exact calm_error _
  · rename_i hlength
    have htwo : 2 ≤ body.length := Nat.not_lt.mp hlength
    refine (calm_index (by omega)).bind fun acknowledge _ ↦ ?_
    refine (calm_index (by omega)).bind fun code _ ↦ ?_
    dsimp only
    split
    · exact calm_error _
    · have hproperties := inBounds_readProperties version
      refine (hproperties.calm htwo).bind fun parsed hrun ↦ ?_
      have hcursor := hproperties.le_length htwo hrun
      exact (inBounds_requireEnd.calm hcursor).bind fun _ _ ↦ calm_ok _

theorem calm_parsePublish (first : UInt8) (body : Bytes) (version : ProtocolVersion) :
    Calm (parsePublish first body version) := by
  unfold parsePublish
  split
  · exact calm_error _
  · split
    · exact calm_error _
    · dsimp only
      split
      · exact calm_error _
      · exact ((inBounds_readPublishFields _ _ _).calm (Nat.zero_le _)).bind fun _ _ ↦ calm_ok _

theorem calm_requireAckLength (remaining : ℕ) (version : ProtocolVersion) :
    Calm (requireAckLength remaining version) := by
  unfold requireAckLength
  split
  · exact calm_error _
  · exact calm_ok _

/-- The length check comes before the identifier is read. -/
theorem two_le_of_requireAckLength {remaining : ℕ} {version : ProtocolVersion}
    (h : requireAckLength remaining version = .ok ()) : 2 ≤ remaining := by
  unfold requireAckLength at h
  split at h
  · cases h
  · omega

theorem calm_skipReason (more : Bool) {body : Bytes} {cursor : ℕ} (h : cursor ≤ body.length) :
    Calm (skipReason more body cursor) := by
  have hend {cursor : ℕ} (hcursor : cursor ≤ body.length) :
      Calm (requireEnd.run body cursor >>= fun _ ↦ .ok ()) :=
    (inBounds_requireEnd.calm hcursor).bind fun _ _ ↦ calm_ok _
  cases more with
  | true =>
    refine (Properties.inBounds_parse.calm h).bind fun parsed hrun ↦ ?_
    exact hend (Properties.inBounds_parse.le_length h hrun)
  | false => exact hend h

/-- Every acknowledgement parser reads behind its length check. -/
theorem calm_parseAckPacket (first : UInt8) (packetType : PacketType) (body : Bytes)
    (version : ProtocolVersion) :
    Calm (parseAckPacket first packetType body.length body version) := by
  refine (calm_requireAckLength _ _).bind fun _ hlength ↦ ?_
  have htwo := two_le_of_requireAckLength hlength
  refine Calm.ite (fun _ ↦ calm_error _) fun _ ↦ ?_
  refine (calm_index (by omega)).bind fun high _ ↦ (calm_index (by omega)).bind fun low _ ↦ ?_
  refine Calm.ite (fun hmore ↦ ?_) fun _ ↦ (calm_ok ()).bind fun _ _ ↦ ?_
  · refine (calm_skipReason _ (Nat.succ_le_of_lt hmore.2)).bind fun _ _ ↦ ?_
    split <;> exact calm_ok _
  · split <;> exact calm_ok _

theorem calm_parseSubscribe (body : Bytes) (version : ProtocolVersion) :
    Calm (parseSubscribe body version) := by
  unfold parseSubscribe
  split
  · exact calm_error _
  · exact ((inBounds_readSubscribeFields version).calm (Nat.zero_le _)).bind fun _ _ ↦ calm_ok _

theorem calm_parseSuback (body : Bytes) (version : ProtocolVersion) :
    Calm (parseSuback body version) := by
  unfold parseSuback
  split
  · exact calm_error _
  · exact ((inBounds_readSubackFields version).calm (Nat.zero_le _)).bind fun _ _ ↦ calm_ok _

theorem calm_parseUnsubscribe (body : Bytes) (version : ProtocolVersion) :
    Calm (parseUnsubscribe body version) := by
  unfold parseUnsubscribe
  split
  · exact calm_error _
  · exact ((inBounds_readUnsubscribeFields version).calm (Nat.zero_le _)).bind fun _ _ ↦ calm_ok _

theorem calm_parseUnsuback (body : Bytes) (version : ProtocolVersion) :
    Calm (parseUnsuback body.length body version) := by
  refine (calm_requireAckLength _ _).bind fun _ hlength ↦ ?_
  have htwo := two_le_of_requireAckLength hlength
  refine (calm_index (by omega)).bind fun high _ ↦ (calm_index (by omega)).bind fun low _ ↦ ?_
  dsimp only
  split
  · refine (Properties.inBounds_parse.calm htwo).bind fun parsed hrun ↦ ?_
    have hcursor := Properties.inBounds_parse.le_length htwo hrun
    exact (calm_slice hcursor (Nat.le_refl _)).bind fun _ _ ↦ calm_ok _
  · exact calm_ok _

theorem calm_requireEmptyBody (remaining : ℕ) : Calm (requireEmptyBody remaining) := by
  unfold requireEmptyBody
  split
  · exact calm_error _
  · exact calm_ok _

/-- No parser panics on a body of any bytes. -/
theorem calm_parsePacket (first : UInt8) (packetType : PacketType) (body : Bytes)
    (version : ProtocolVersion) :
    Calm (parsePacket first packetType body.length body version) := by
  cases packetType with
  | connect => exact calm_parseConnect body
  | connack => exact calm_parseConnack body version
  | publish => exact calm_parsePublish first body version
  | puback | pubrec | pubrel | pubcomp => exact calm_parseAckPacket first _ body version
  | subscribe => exact calm_parseSubscribe body version
  | suback => exact calm_parseSuback body version
  | unsubscribe => exact calm_parseUnsubscribe body version
  | unsuback => exact calm_parseUnsuback body version
  | pingreq | pingresp => exact (calm_requireEmptyBody _).bind fun _ _ ↦ calm_ok _
  | disconnect =>
    refine Calm.ite (fun _ ↦ (calm_requireEmptyBody _).bind fun _ _ ↦ calm_ok _) fun _ ↦ ?_
    refine Calm.ite (fun hbody ↦ ?_) fun _ ↦ (calm_ok ()).bind fun _ _ ↦ calm_ok _
    exact (calm_skipReason _ (List.length_pos_of_ne_nil hbody)).bind fun _ _ ↦ calm_ok _

/-- `decode_packet_from_bytes` with its accesses to the buffer spelled out. -/
def decodePacketSliced (buf : Bytes) (version : ProtocolVersion) :
    Except Fault (Option Packet) :=
  if buf.length < 2 then .ok none
  else do
    let first ← index buf 0
    match PacketType.tryFrom (first >>> 4) with
    | none => .error (.codec (.invalidPacketType (first >>> 4)))
    | some packetType =>
        let data ← slice buf 1 buf.length
        let announced ← decodeRemainingLengthFromSlice data
        match announced with
        | none => .ok none
        | some (remaining, rlBytes) =>
            let headerLen := 1 + rlBytes
            let total := headerLen + remaining
            if buf.length < total then .ok none
            else do
              let packetBytes ← slice buf 0 total
              let body ← slice packetBytes headerLen packetBytes.length
              some <$> parsePacket first packetType remaining body version

/-- Indexing the buffer directly gives the same results. -/
theorem decodePacketSliced_eq (buf : Bytes) (version : ProtocolVersion) :
    decodePacketSliced buf version = (decodePacketFromBytes buf version).1 := by
  obtain _ | ⟨first, _ | ⟨second, data⟩⟩ := buf
  · rfl
  · rfl
  · have hlength : ¬ (first :: second :: data).length < 2 := by simp
    have htail : slice (first :: second :: data) 1 (first :: second :: data).length =
        .ok (second :: data) := by
      simp [slice]
    cases htype : PacketType.tryFrom (first >>> 4) with
    | none =>
      rw [decodePacketFromBytes_of_no_type version first second data htype]
      simp [decodePacketSliced, index, htype, bind, Except.bind]
    | some packetType =>
      rw [decodePacketFromBytes_of_type version first second data htype, decodePacketSliced,
        if_neg hlength]
      simp only [index, List.getElem?_cons_zero, htype, htail, bind, Except.bind]
      cases decodeRemainingLengthFromSlice (second :: data) with
      | error fault => rfl
      | ok announced =>
        cases announced with
        | none => rfl
        | some length =>
          obtain ⟨remaining, rlBytes⟩ := length
          dsimp only
          split
          · rfl
          · rename_i htotal
            have htotal := Nat.not_lt.mp htotal
            have hheader : 1 + rlBytes ≤
                ((first :: second :: data).take (1 + rlBytes + remaining)).length := by
              rw [List.length_take]
              omega
            simp only [slice, Nat.zero_le, htotal, and_self, if_true, List.drop_zero, Nat.sub_zero,
              hheader, Nat.le_refl]
            rw [List.take_of_length_le (Nat.le_of_eq List.length_drop)]

/-- No buffer makes the decoder panic. -/
theorem calm_decodePacketFromBytes (buf : Bytes) (version : ProtocolVersion) :
    Calm (decodePacketFromBytes buf version).1 := by
  have hframed := framed_decodePacketFromBytes version buf
  generalize decodePacketFromBytes buf version = result at hframed
  cases hframed with
  | waits => exact calm_ok _
  | refusesType => exact calm_error _
  | refusesLength => exact calm_error _
  | consumes first packetType lengthBytes body rest =>
    exact (calm_parsePacket first packetType body version).map some

end Codec

open Codec in
/-- No input makes the decoder panic or loop. Parsing a packet and decoding a buffer never panic,
their slices included; every reader that starts inside the body ends inside the body; and each of
the three loops ends, whatever the bytes. -/
theorem decoding_safe :
    (∀ first packetType body version,
      Calm (parsePacket first packetType body.length body version)) ∧
    (∀ buf version, Calm (decodePacketFromBytes buf version).1 ∧
      decodePacketSliced buf version = (decodePacketFromBytes buf version).1) ∧
    (InBounds readU16 ∧ InBounds readArcStr ∧ InBounds readBytes ∧
      InBounds Properties.readVbi ∧ InBounds Properties.parse ∧
      Properties.parseSliced = Properties.parse) ∧
    (∀ version flagsByte keepAlive,
      InBounds (readConnectFields version flagsByte keepAlive)) ∧
    (∀ headerFlags qos version, InBounds (readPublishFields headerFlags qos version)) ∧
    (∀ version, InBounds (readSubscribeFields version) ∧ InBounds (readSubackFields version) ∧
      InBounds (readUnsubscribeFields version)) ∧
    (∀ body state cursor, WhileEnds Properties.parseItem body state cursor
      ((whileMore Properties.parseItem state).run body cursor)) ∧
    (∀ version body state cursor, WhileEnds (parseSubscription version) body state cursor
      ((whileMore (parseSubscription version) state).run body cursor)) ∧
    (∀ body state cursor, WhileEnds parseTopic body state cursor
      ((whileMore parseTopic state).run body cursor)) := by
  refine ⟨calm_parsePacket, ?_, ?_, inBounds_readConnectFields, inBounds_readPublishFields, ?_, ?_⟩
  · intro buf version
    exact ⟨calm_decodePacketFromBytes buf version, decodePacketSliced_eq buf version⟩
  · exact ⟨inBounds_readU16, inBounds_readArcStr, inBounds_readBytes, Properties.inBounds_readVbi,
      Properties.inBounds_parse, Properties.parseSliced_eq⟩
  · intro version
    exact ⟨inBounds_readSubscribeFields version, inBounds_readSubackFields version,
      inBounds_readUnsubscribeFields version⟩
  · refine ⟨?_, ?_, ?_⟩
    · exact whileEnds_whileMore (.of_moves Properties.moves_parseItem)
    · intro version
      exact whileEnds_whileMore (.of_moves (moves_parseSubscription version))
    · exact whileEnds_whileMore (.of_moves moves_parseTopic)

end HotaruMqtt

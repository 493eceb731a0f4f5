import HotaruMqtt.Wire.Grammar
import HotaruMqtt.Wire.RoundTrip

/-!
# What a decoded packet looks like

The parser of a packet type returns packets of that type only. Every field that was read can be
written again, in no more bytes than it was read from. A PUBLISH that was decoded has an identifier
exactly above QoS 0, a topic that fits behind a two-byte length, and properties that can be written
again.
-/

namespace HotaruMqtt.Codec

open Library Library.Decoder

theorem takes_readU16 : Takes readU16 fun value encoded ↦ encoded = toBeBytes16 value := by
  intro body cursor value moved hrun
  simp only [readU16] at hrun
  split at hrun
  · cases hrun
  · rename_i hroom
    have hlow : cursor + 1 < body.length := by omega
    have hhigh : cursor < body.length := by omega
    simp only [index, List.getElem?_eq_getElem hhigh, List.getElem?_eq_getElem hlow, bind,
      Except.bind] at hrun
    cases hrun
    refine ⟨_, ?_, rfl, rfl⟩
    rw [toBeBytes16_fromBeBytes16, List.drop_eq_getElem_cons hhigh, List.drop_eq_getElem_cons hlow]
    exact List.prefix_append [_, _] _

theorem takes_readField (len : ℕ) :
    Takes (readField len) fun bytes encoded ↦ encoded = bytes ∧ bytes.length = len := by
  intro body cursor value moved hrun
  simp only [readField] at hrun
  split at hrun
  · cases hrun
  · rename_i hroom
    have hslice : slice body cursor (cursor + len) = .ok ((body.drop cursor).take len) := by
      rw [slice, if_pos ⟨by omega, by omega⟩, Nat.add_sub_cancel_left]
    have hlength : ((body.drop cursor).take len).length = len := by
      rw [List.length_take, List.length_drop]
      omega
    rw [hslice] at hrun
    cases hrun
    exact ⟨_, List.take_prefix _ _, by rw [hlength], rfl, hlength⟩

/-- A string that is read stands behind its length. -/
theorem takes_readArcStr : Takes readArcStr fun value encoded ↦
    (asBytes value).length ≤ 65535 ∧ encoded = prefixed (asBytes value) := by
  refine takes_readU16.bind ?_
  rintro len _ rfl
  refine (takes_readField len.toNat).bind ?_
  rintro bytes _ ⟨rfl, hlength⟩
  split
  · exact takes_raise _
  · rename_i value hutf8
    obtain rfl := asBytes_of_fromUtf8 hutf8
    have hlt : len.toNat < 65536 := len.toNat_lt
    refine takes_pure ⟨by omega, ?_⟩
    rw [prefixed, hlength, asU16, UInt16.ofNat_toNat, List.append_nil]

theorem takes_readBytes : Takes readBytes fun bytes encoded ↦
    bytes.length ≤ 65535 ∧ encoded = prefixed bytes := by
  refine takes_readU16.bind ?_
  rintro len _ rfl
  refine (takes_readField len.toNat).weaken ?_
  rintro bytes _ ⟨rfl, hlength⟩
  have hlt : len.toNat < 65536 := len.toNat_lt
  refine ⟨by omega, ?_⟩
  rw [prefixed, hlength, asU16, UInt16.ofNat_toNat]

theorem takes_readOptions : Takes readOptions fun options encoded ↦ encoded = [options] := by
  intro body cursor value moved hrun
  simp only [readOptions] at hrun
  split at hrun
  · cases hrun
  · rename_i hroom
    have hlt : cursor < body.length := Nat.not_le.mp hroom
    simp only [index, List.getElem?_eq_getElem hlt, bind, Except.bind] at hrun
    cases hrun
    refine ⟨_, ?_, rfl, rfl⟩
    rw [List.drop_eq_getElem_cons hlt]
    exact List.prefix_append [_] _

theorem takesAll_readRest : TakesAll readRest fun rest encoded ↦ encoded = rest := by
  intro body cursor value moved hrun
  obtain ⟨rest, hslice, hmoved⟩ := bind_eq_ok_iff.mp hrun
  cases hmoved
  unfold slice at hslice
  split at hslice
  · cases hslice
    rw [List.take_of_length_le (Nat.le_of_eq List.length_drop)]
  · cases hslice

/-- A field that is read under a flag is there exactly if the flag is set. -/
theorem takes_readIf {α : Type} {reader : Reader α} {Layout : α → Bytes → Prop}
    (h : Takes reader Layout) (present : Bool) :
    Takes (readIf present reader) fun field encoded ↦ field.isSome = present ∧
      (field = none → encoded = []) ∧ ∀ value ∈ field, Layout value encoded := by
  unfold readIf
  refine Takes.ite (fun hpresent ↦ ?_) fun habsent ↦ ?_
  · refine h.bind fun value encoded hlayout ↦ takes_pure ⟨hpresent.symm, nofun, ?_⟩
    intro value' hvalue'
    obtain rfl := Option.some.inj hvalue'
    rw [List.append_nil]
    exact hlayout
  · exact takes_pure ⟨(Bool.eq_false_of_not_eq_true habsent).symm, fun _ ↦ rfl, nofun⟩

/-- What is written again for bytes that were taken: no more of them, and the same ones where
nothing is lost. -/
structure Rewrites (exact : Prop) (taken written : Bytes) : Prop where
  length_le : written.length ≤ taken.length
  eq : exact → written = taken

theorem Rewrites.refl (exact : Prop) (bytes : Bytes) : Rewrites exact bytes bytes :=
  ⟨Nat.le_refl _, fun _ ↦ rfl⟩

/-- Parts that are written again make the whole that is. -/
theorem Rewrites.append {exact : Prop} {taken written taken' written' : Bytes}
    (h : Rewrites exact taken written) (h' : Rewrites exact taken' written') :
    Rewrites exact (taken ++ taken') (written ++ written') := by
  refine ⟨?_, fun hexact ↦ by rw [h.eq hexact, h'.eq hexact]⟩
  rw [List.length_append, List.length_append]
  exact Nat.add_le_add h.length_le h'.length_le

theorem Rewrites.weaken {exact exact' : Prop} {taken written : Bytes}
    (h : Rewrites exact taken written) (himp : exact' → exact) : Rewrites exact' taken written :=
  ⟨h.length_le, fun hexact ↦ h.eq (himp hexact)⟩

/-- The properties of a packet are written again in a block of the same length. -/
theorem takes_readProperties (version : ProtocolVersion) :
    Takes (readProperties version) fun properties encoded ↦ Carries version properties ∧
      ∃ block, propertyBlock version properties = .ok block ∧
        Rewrites (version = .v311) encoded block := by
  cases version with
  | v311 => exact takes_pure ⟨rfl, [], rfl, .refl _ _⟩
  | v5 =>
    refine Properties.takes_parse.weaken ?_
    rintro properties _ ⟨items, haccepted, rfl, hlength, rfl⟩
    obtain ⟨block, hblock, hsize⟩ := haccepted.encode_ofItems hlength
    exact ⟨⟨block, hblock⟩, block, hblock, Nat.le_of_eq hsize, nofun⟩

/-- Properties that a packet does not keep are written again as an empty block. -/
theorem takes_readProperties_discarded (version : ProtocolVersion) :
    Takes (readProperties version) fun _ encoded ↦
      Rewrites (version = .v311) encoded (emptyBlock version) := by
  cases version with
  | v311 => exact takes_pure (.refl _ _)
  | v5 =>
    refine Properties.takes_parse.weaken ?_
    rintro properties _ ⟨items, -, -, -, rfl⟩
    refine ⟨?_, nofun⟩
    have hcount := List.length_pos_iff.mpr
      (Base128.encode_ne_nil (items.flatMap PropertyItem.wire).length)
    rw [List.length_append]
    change 1 ≤ _
    omega

/-- What the encoder asks of a PUBLISH, besides the length of its body. -/
def PublishShape (version : ProtocolVersion) (p : PublishPacket) : Prop :=
  (asBytes p.topic).length ≤ 65535 ∧ WellShaped version (.publish p)

/-- The flags of the first byte, as they were read into a PUBLISH. -/
structure PublishFlags (headerFlags : UInt8) (qos : QoS) (p : PublishPacket) : Prop where
  qos : p.qos = qos
  dup : p.dup = containsFlag headerFlags FixedHeaderFlags.dup
  retain : p.retain = containsFlag headerFlags FixedHeaderFlags.retain

/-- A PUBLISH body that is read is written again from its fields. -/
theorem takesAll_readPublishFields (headerFlags : UInt8) (qos : QoS) (version : ProtocolVersion) :
    TakesAll (readPublishFields headerFlags qos version) fun p encoded ↦
      PublishFlags headerFlags qos p ∧ PublishShape version p ∧
      ∃ written, encodePublishBody p version = .ok written ∧
        Rewrites (version = .v311) encoded written := by
  refine takes_readArcStr.bindAll ?_
  rintro topic _ ⟨htopic, rfl⟩
  refine (takes_readIf takes_readU16 _).bindAll ?_
  rintro packetId idBytes ⟨hid, hnone, hsome⟩
  refine (takes_readProperties version).bindAll ?_
  rintro properties _ ⟨hcarries, block, hblock, hrewrites⟩
  refine takesAll_readRest.bind ?_
  rintro payload _ rfl body cursor p moved hp
  cases hp
  have hfield : idBytes = if qos ≠ .atMostOnce then packetId.elim [] toBeBytes16 else [] := by
    cases packetId with
    | none =>
      rw [hnone rfl]
      split <;> rfl
    | some id =>
      rw [if_pos (of_decide_eq_true hid.symm)]
      exact hsome id rfl
  refine ⟨⟨rfl, rfl, rfl⟩, ⟨htopic, by rw [hid, decide_eq_true_iff], hcarries⟩, _,
    (encodePublishBody_eq_ok_iff _ version _).mpr ⟨block, hblock, rfl⟩, ?_⟩
  rw [hfield]
  exact (Rewrites.refl _ _).append ((Rewrites.refl _ _).append (hrewrites.append (.refl _ _)))

/-- A parsed PUBLISH has valid header flags, a valid QoS and a body that is read. -/
theorem exists_of_parsePublish {first : UInt8} {body : Bytes} {version : ProtocolVersion}
    {packet : Packet} (h : parsePublish first body version = .ok packet) :
    ∃ headerFlags qos p moved, packet = .publish p ∧
      FixedHeaderFlags.fromBits (first &&& 0x0F) = some headerFlags ∧
      QoS.fromU8 ((headerFlags &&& FixedHeaderFlags.qos) >>> 1) = some qos ∧
      (readPublishFields headerFlags qos version).run body 0 = .ok (p, moved) := by
  unfold parsePublish at h
  split at h
  · cases h
  split at h
  · cases h
  rename_i headerFlags hflags
  dsimp only at h
  split at h
  · cases h
  rename_i qos hqos
  obtain ⟨⟨p, moved⟩, hrun, hresult⟩ := bind_eq_ok_iff.mp h
  cases hresult
  exact ⟨headerFlags, qos, p, moved, rfl, hflags, hqos, hrun⟩

/-- A parsed PUBLISH is one the encoder accepts. -/
theorem publishShape_of_parsePublish {first : UInt8} {body : Bytes} {version : ProtocolVersion}
    {p : PublishPacket} (h : parsePublish first body version = .ok (.publish p)) :
    PublishShape version p := by
  obtain ⟨_, _, _, _, hpacket, -, -, hrun⟩ := exists_of_parsePublish h
  obtain rfl := Packet.publish.inj hpacket
  exact (takesAll_readPublishFields _ _ _ _ _ _ _ hrun).2.1

def Gives {α : Type} (Property : α → Prop) (result : Except Fault α) : Prop :=
  ∀ value, result = .ok value → Property value

section Gives

variable {α β : Type} {Property : β → Prop}

theorem gives_ok {value : β} (h : Property value) : Gives Property (.ok value) := by
  intro value' heq
  cases heq
  exact h

theorem gives_error (fault : Fault) : Gives Property (.error fault) := by
  intro value heq
  cases heq

theorem Gives.bind {first : Except Fault α} {next : α → Except Fault β}
    (h : ∀ value, Gives Property (next value)) : Gives Property (first >>= next) := by
  intro result heq
  obtain ⟨value, -, hnext⟩ := bind_eq_ok_iff.mp heq
  exact h value result hnext

theorem Gives.ite {condition : Prop} [Decidable condition] {result result' : Except Fault β}
    (h : Gives Property result) (h' : Gives Property result') :
    Gives Property (if condition then result else result') := by
  split
  · exact h
  · exact h'

end Gives

theorem gives_parseConnect (body : Bytes) :
    Gives (fun packet ↦ packet.packetType = .connect) (parseConnect body) := by
  refine (gives_error _).ite (.bind fun _ ↦ .bind fun _ ↦ .bind fun _ ↦ (gives_error _).ite ?_)
  refine .bind fun level ↦ ?_
  split
  · exact gives_error _
  · exact .bind fun _ ↦ .bind fun _ ↦ .bind fun _ ↦ .bind fun _ ↦ gives_ok rfl

theorem gives_parseConnack (body : Bytes) (version : ProtocolVersion) :
    Gives (fun packet ↦ packet.packetType = .connack) (parseConnack body version) := by
  refine (gives_error _).ite (.bind fun _ ↦ .bind fun code ↦ ?_)
  cases version with
  | v311 | v5 =>
    dsimp only
    split
    · exact gives_error _
    · exact .bind fun _ ↦ .bind fun _ ↦ gives_ok rfl

theorem gives_parsePublish (first : UInt8) (body : Bytes) (version : ProtocolVersion) :
    Gives (fun packet ↦ packet.packetType = .publish) (parsePublish first body version) := by
  refine (gives_error _).ite ?_
  split
  · exact gives_error _
  dsimp only
  split
  · exact gives_error _
  · exact .bind fun _ ↦ gives_ok rfl

theorem gives_parseUnsuback (remaining : ℕ) (body : Bytes) (version : ProtocolVersion) :
    Gives (fun packet ↦ packet.packetType = .unsuback) (parseUnsuback remaining body version) := by
  refine .bind fun _ ↦ .bind fun _ ↦ .bind fun _ ↦ Gives.ite ?_ (gives_ok rfl)
  exact .bind fun _ ↦ .bind fun _ ↦ gives_ok rfl

/-- The parser gives a packet of the type it is called for. -/
theorem gives_parsePacket (first : UInt8) (packetType : PacketType) (remaining : ℕ) (body : Bytes)
    (version : ProtocolVersion) :
    Gives (fun packet ↦ packet.packetType = packetType)
      (parsePacket first packetType remaining body version) := by
  cases packetType with
  | connect => exact gives_parseConnect body
  | connack => exact gives_parseConnack body version
  | publish => exact gives_parsePublish first body version
  | puback | pubrec | pubrel | pubcomp =>
    refine .bind fun _ ↦ (gives_error _).ite (.bind fun _ ↦ .bind fun _ ↦ ?_)
    exact Gives.ite (.bind fun _ ↦ gives_ok rfl) (.bind fun _ ↦ gives_ok rfl)
  | subscribe | suback | unsubscribe => exact (gives_error _).ite (.bind fun _ ↦ gives_ok rfl)
  | unsuback => exact gives_parseUnsuback remaining body version
  | pingreq | pingresp => exact .bind fun _ ↦ gives_ok rfl
  | disconnect =>
    refine Gives.ite (.bind fun _ ↦ gives_ok rfl) ?_
    exact Gives.ite (.bind fun _ ↦ gives_ok rfl) (.bind fun _ ↦ gives_ok rfl)

/-- The same for a PUBLISH that is decoded from a buffer. -/
theorem publishShape_of_decode {buf rest : Bytes} {version : ProtocolVersion} {p : PublishPacket}
    (h : decodePacketFromBytes buf version = (.ok (some (.publish p)), rest)) :
    PublishShape version p := by
  obtain ⟨first, packetType, lengthBytes, body, -, -, -, hparse⟩ := exists_frame_of_decode h
  obtain rfl : PacketType.publish = packetType := gives_parsePacket _ _ _ _ _ _ hparse
  exact publishShape_of_parsePublish hparse

end HotaruMqtt.Codec

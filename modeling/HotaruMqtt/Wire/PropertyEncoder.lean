import HotaruMqtt.Wire.PropertyBlock

/-!
# What the property encoder accepts

`encode` writes to a buffer that its caller keeps when it fails. `encodeInto` is the encoder with
that buffer as its state. The conditions under which it succeeds are listed here field by field:
they come from the value checks, from the writers of strings and binary data, and from the two
uses of `write_vbi`.
-/

namespace HotaruMqtt

open Library

def PropertyType.size : (type : PropertyType) → type.Value → ℕ
  | .byte, _ => 1
  | .twoByte, _ => 2
  | .fourByte, _ => 4
  | .string, value => 2 + (asBytes value).length
  | .binary, value => 2 + value.length
  | .variableByteInteger, value => (Base128.encode value.toNat).length
  | .stringPair, (key, value) => 2 + (asBytes key).length + (2 + (asBytes value).length)

/-- The size of a value is the length of its layout. -/
theorem PropertyType.length_wire (type : PropertyType) (value : type.Value) :
    (type.wire value).length = type.size value := by
  cases type with
  | fourByte => rfl
  | _ => simp [wire, size]

namespace Properties

/-- `write_vbi` on the buffer of its caller. -/
def writeVbiInto (output : Bytes) (value : ℕ) : Bytes × Except MqttError Unit :=
  if value > maxVariableByteInteger then
    (output, .error (.codec (.variableByteIntegerOutOfRange value)))
  else (output ++ writeVbiGroups (value + 1) value, .ok ())

/-- `encode` on the buffer of its caller. The items are collected in a buffer of their own. -/
def encodeInto (properties : Properties) (output : Bytes) : Bytes × Except MqttError Unit :=
  match properties.validateValues with
  | .error reason => (output, .error reason)
  | .ok () =>
      match properties.encodeValues [] with
      | .error reason => (output, .error reason)
      | .ok body =>
          match writeVbiInto output body.length with
          | (output, .error reason) => (output, .error reason)
          | (output, .ok ()) => (output ++ body, .ok ())

/-- The buffer holds the result of `encode`, or what it held before. -/
theorem encodeInto_eq (properties : Properties) (output : Bytes) :
    properties.encodeInto output =
      match properties.encode output with
      | .ok result => (result, .ok ())
      | .error reason => (output, .error reason) := by
  simp only [encodeInto, encode, bind, Except.bind]
  cases properties.validateValues with
  | error reason => rfl
  | ok _ =>
    cases properties.encodeValues [] with
    | error reason => rfl
    | ok body =>
      by_cases hlength : body.length > maxVariableByteInteger
      · simp only [writeVbiInto, writeVbi, if_pos hlength]
      · simp only [writeVbiInto, writeVbi, if_neg hlength]

/-- The fields that hold a byte. -/
def flags (properties : Properties) : List (Option UInt8) :=
  [properties.payloadFormatIndicator, properties.requestProblemInformation,
    properties.requestResponseInformation, properties.maximumQos, properties.retainAvailable,
    properties.wildcardSubscriptionAvailable, properties.subscriptionIdentifierAvailable,
    properties.sharedSubscriptionAvailable]

/-- All strings, with the keys and values of the user properties. -/
def strings (properties : Properties) : List String :=
  [properties.contentType, properties.responseTopic, properties.assignedClientIdentifier,
    properties.authenticationMethod, properties.responseInformation, properties.serverReference,
    properties.reasonString].flatMap Option.toList ++
      properties.userProperties.flatMap fun (key, value) ↦ [key, value]

def binaries (properties : Properties) : List Bytes :=
  [properties.correlationData, properties.authenticationData].flatMap Option.toList

/-- The bytes of all items: an identifier and a value each. -/
def encodedSize (properties : Properties) : ℕ :=
  (properties.items.map fun item ↦ 1 + item.id.type.size item.value).sum

structure Encodable (properties : Properties) : Prop where
  flags : ∀ flag ∈ properties.flags, ∀ value ∈ flag, value ≤ 1
  receiveMaximum : properties.receiveMaximum ≠ some 0
  topicAlias : properties.topicAlias ≠ some 0
  maximumPacketSize : properties.maximumPacketSize ≠ some 0
  subscriptionIdentifiers : ∀ value ∈ properties.subscriptionIdentifiers,
    1 ≤ value.toNat ∧ value.toNat ≤ 268435455
  authentication : properties.authenticationData.isSome → properties.authenticationMethod.isSome
  responseTopic : ∀ topic ∈ properties.responseTopic, Topic.validatePublishTopic topic = .ok ()
  strings : ∀ value ∈ properties.strings,
    '\x00' ∉ value.toList ∧ (asBytes value).length ≤ 65535
  binaries : ∀ value ∈ properties.binaries, value.length ≤ 65535
  size : properties.encodedSize ≤ 268435455

theorem check_bind_eq_ok_iff {check : Except MqttError Unit} {next : Except MqttError Unit} :
    (check >>= fun _ ↦ next) = .ok () ↔ check = .ok () ∧ next = .ok () := by
  rw [bind_eq_ok_iff]
  constructor
  · rintro ⟨_, hcheck, hnext⟩
    exact ⟨hcheck, hnext⟩
  · rintro ⟨hcheck, hnext⟩
    exact ⟨(), hcheck, hnext⟩

theorem checkFlag_eq_ok_iff (id : PropertyId) (flag : Option UInt8) :
    checkFlag id flag = .ok () ↔ ∀ value ∈ flag, value ≤ 1 := by
  unfold checkFlag
  cases flag with
  | none => simp
  | some value => simp

theorem malformedIf_eq_ok_iff (malformed : Bool) (id : PropertyId) :
    malformedIf malformed id = .ok () ↔ malformed = false := by
  cases malformed <;> simp [malformedIf]

/-- The value checks, field by field. -/
theorem validateValues_eq_ok_iff (properties : Properties) :
    properties.validateValues = .ok () ↔
      (∀ flag ∈ properties.flags, ∀ value ∈ flag, value ≤ 1) ∧
      properties.receiveMaximum ≠ some 0 ∧ properties.topicAlias ≠ some 0 ∧
      properties.maximumPacketSize ≠ some 0 ∧
      (∀ value ∈ properties.subscriptionIdentifiers,
        1 ≤ value.toNat ∧ value.toNat ≤ 268435455) ∧
      (properties.authenticationData.isSome → properties.authenticationMethod.isSome) ∧
      ∀ topic ∈ properties.responseTopic, Topic.validatePublishTopic topic = .ok () := by
  have hidentifiers : (properties.subscriptionIdentifiers.any fun value ↦
      value = 0 || value.toNat > maxVariableByteInteger) = false ↔
        ∀ value ∈ properties.subscriptionIdentifiers,
          1 ≤ value.toNat ∧ value.toNat ≤ 268435455 := by
    rw [List.any_eq_false]
    apply forall₂_congr
    intro value _
    have hzero : value = 0 ↔ value.toNat = 0 := UInt32.toNat_inj.symm
    simp only [hzero, Bool.or_eq_true, decide_eq_true_eq]
    unfold maxVariableByteInteger
    omega
  have hauthentication :
      (properties.authenticationData.isSome && properties.authenticationMethod.isNone) = false ↔
        (properties.authenticationData.isSome → properties.authenticationMethod.isSome) := by
    cases properties.authenticationData <;> cases properties.authenticationMethod <;> simp
  simp only [validateValues, check_bind_eq_ok_iff, checkFlag_eq_ok_iff, malformedIf_eq_ok_iff,
    hidentifiers, hauthentication, flags, List.forall_mem_cons, and_assoc,
    decide_eq_false_iff_not]
  cases properties.responseTopic with
  | none => simp
  | some topic => simp

/-- The items are writable if the strings, the binary data and the subscription identifiers are. -/
theorem writable_items_iff (properties : Properties) :
    (∀ item ∈ properties.items, item.Writable) ↔
      (∀ value ∈ properties.strings, PropertyType.WritableString value) ∧
      (∀ value ∈ properties.binaries, value.length ≤ 65535) ∧
      ∀ value ∈ properties.subscriptionIdentifiers, value.toNat ≤ maxVariableByteInteger := by
  have hitems : (∀ item ∈ properties.items, item.Writable) ↔
      ∀ id, ∀ value ∈ properties.values id, id.type.Writable value := by
    simp only [items, List.mem_flatMap, List.mem_map, PropertyItem.Writable]
    constructor
    · intro h id value hvalue
      exact h ⟨id, value⟩ ⟨id, mem_all id, value, hvalue, rfl⟩
    · rintro h _ ⟨id, -, value, hvalue, rfl⟩
      exact h id value hvalue
  have hpairs : (∀ value ∈ properties.userProperties.flatMap fun (key, value) ↦ [key, value],
      PropertyType.WritableString value) ↔
        ∀ value ∈ properties.userProperties, PropertyType.Writable .stringPair value := by
    simp only [List.mem_flatMap, List.mem_cons, List.not_mem_nil, or_false]
    constructor
    · rintro h ⟨key, value⟩ hmem
      exact ⟨h key ⟨_, hmem, .inl rfl⟩, h value ⟨_, hmem, .inr rfl⟩⟩
    · rintro h _ ⟨pair, hmem, rfl | rfl⟩
      · exact (h pair hmem).1
      · exact (h pair hmem).2
  rw [hitems, strings, binaries]
  simp only [List.forall_mem_append, List.flatMap_cons, List.flatMap_nil, List.append_nil, hpairs,
    and_assoc]
  constructor
  · intro h
    exact ⟨h .contentType, h .responseTopic, h .assignedClientIdentifier, h .authenticationMethod,
      h .responseInformation, h .serverReference, h .reasonString, h .userProperty,
      h .correlationData, h .authenticationData, h .subscriptionIdentifier⟩
  · rintro ⟨hcontent, hresponse, hclient, hmethod, hinformation, hserver, hreason, huser,
      hcorrelation, hdata, hsubscription⟩ id
    cases id with
    | contentType => exact hcontent
    | responseTopic => exact hresponse
    | assignedClientIdentifier => exact hclient
    | authenticationMethod => exact hmethod
    | responseInformation => exact hinformation
    | serverReference => exact hserver
    | reasonString => exact hreason
    | userProperty => exact huser
    | correlationData => exact hcorrelation
    | authenticationData => exact hdata
    | subscriptionIdentifier => exact hsubscription
    | _ => exact fun _ _ ↦ trivial

theorem length_blockBody (properties : Properties) :
    properties.blockBody.length = properties.encodedSize := by
  simp only [blockBody, encodedSize, List.length_flatMap, PropertyItem.wire, List.length_cons,
    PropertyType.length_wire, Nat.add_comm]

/-- The listed conditions are those under which the encoder succeeds. -/
theorem encode_eq_ok_iff_encodable (properties : Properties) (output : Bytes) :
    (∃ result, properties.encode output = .ok result) ↔ properties.Encodable := by
  simp only [encode_eq_ok_iff, exists_and_left, exists_eq, and_true, validateValues_eq_ok_iff,
    writable_items_iff, length_blockBody]
  constructor
  · rintro ⟨⟨hflags, hreceive, halias, hpacket, hidentifiers, hauthentication, htopic⟩,
      ⟨hstrings, hbinaries, -⟩, hsize⟩
    exact ⟨hflags, hreceive, halias, hpacket, hidentifiers, hauthentication, htopic, hstrings,
      hbinaries, hsize⟩
  · intro h
    exact ⟨⟨h.flags, h.receiveMaximum, h.topicAlias, h.maximumPacketSize,
      h.subscriptionIdentifiers, h.authentication, h.responseTopic⟩,
      ⟨h.strings, h.binaries, fun value hvalue ↦ (h.subscriptionIdentifiers value hvalue).2⟩,
      h.size⟩

/-- What is appended does not depend on the buffer, and begins with the length of the items. -/
theorem exists_block_of_encode {properties : Properties} {output result : Bytes}
    (h : properties.encode output = .ok result) :
    ∃ block, block ≠ [] ∧ properties.encode [] = .ok block ∧ result = output ++ block := by
  obtain ⟨hvalid, hitems, hlength, rfl⟩ := (encode_eq_ok_iff _ _ _).mp h
  refine ⟨_, ?_, (encode_eq_ok_iff _ _ _).mpr ⟨hvalid, hitems, hlength, rfl⟩, rfl⟩
  exact List.append_ne_nil_of_left_ne_nil (Base128.encode_ne_nil _) _

/-- The encoder succeeds exactly on the properties that meet the conditions. It leaves the buffer
as it was when it fails. When it succeeds, it appends the block that it writes to an empty
buffer. -/
theorem encodeInto_spec (properties : Properties) (output : Bytes) :
    ((properties.encodeInto output).2 = .ok () ↔ properties.Encodable) ∧
    (∀ reason, (properties.encodeInto output).2 = .error reason →
      (properties.encodeInto output).1 = output) ∧
    ((properties.encodeInto output).2 = .ok () →
      ∃ block, block ≠ [] ∧ properties.encode [] = .ok block ∧
        (properties.encodeInto output).1 = output ++ block) := by
  rw [encodeInto_eq, ← encode_eq_ok_iff_encodable properties output]
  cases hencode : properties.encode output with
  | error reason => simp
  | ok result =>
    obtain ⟨block, hblock, hempty, rfl⟩ := exists_block_of_encode hencode
    refine ⟨?_, ?_, fun _ ↦ ⟨block, hblock, hempty, rfl⟩⟩
    · simp
    · intro reason hreason
      cases hreason

end Properties

end HotaruMqtt

import HotaruMqtt.Library.Base128
import HotaruMqtt.Library.Cursor
import HotaruMqtt.Wire.Topic

/-!
# MQTT 5 property blocks

The identifier table of the source is the enumeration `PropertyId` with its codes, the type of
each value and the field that holds it. One item of a block is an identifier with a value of its
type. `Properties.parse` reads a variable byte integer and then items until the declared block is
used up; `Properties.encode` checks the values and writes the items in table order, which is the
order of `encode_values`.

Offsets are natural numbers. The checked additions of the source cannot overflow here: a cursor
is at most the length of a body and a property length is below `2 ^ 28`.
-/

namespace HotaruMqtt

open Library

def maxVariableByteInteger : ℕ := 268435455

inductive PropertyId where
  | payloadFormatIndicator
  | messageExpiryInterval
  | contentType
  | responseTopic
  | correlationData
  | subscriptionIdentifier
  | sessionExpiryInterval
  | assignedClientIdentifier
  | serverKeepAlive
  | authenticationMethod
  | authenticationData
  | requestProblemInformation
  | willDelayInterval
  | requestResponseInformation
  | responseInformation
  | serverReference
  | reasonString
  | receiveMaximum
  | topicAliasMaximum
  | topicAlias
  | maximumQos
  | retainAvailable
  | userProperty
  | maximumPacketSize
  | wildcardSubscriptionAvailable
  | subscriptionIdentifierAvailable
  | sharedSubscriptionAvailable
  deriving DecidableEq

inductive PropertyType where
  | byte
  | twoByte
  | fourByte
  | string
  | binary
  | variableByteInteger
  | stringPair
  deriving DecidableEq

@[reducible]
def PropertyType.Value : PropertyType → Type
  | .byte => UInt8
  | .twoByte => UInt16
  | .fourByte => UInt32
  | .string => String
  | .binary => Bytes
  | .variableByteInteger => UInt32
  | .stringPair => String × String

namespace PropertyId

def code : PropertyId → UInt8
  | payloadFormatIndicator => 0x01
  | messageExpiryInterval => 0x02
  | contentType => 0x03
  | responseTopic => 0x08
  | correlationData => 0x09
  | subscriptionIdentifier => 0x0B
  | sessionExpiryInterval => 0x11
  | assignedClientIdentifier => 0x12
  | serverKeepAlive => 0x13
  | authenticationMethod => 0x15
  | authenticationData => 0x16
  | requestProblemInformation => 0x17
  | willDelayInterval => 0x18
  | requestResponseInformation => 0x19
  | responseInformation => 0x1A
  | serverReference => 0x1C
  | reasonString => 0x1F
  | receiveMaximum => 0x21
  | topicAliasMaximum => 0x22
  | topicAlias => 0x23
  | maximumQos => 0x24
  | retainAvailable => 0x25
  | userProperty => 0x26
  | maximumPacketSize => 0x27
  | wildcardSubscriptionAvailable => 0x28
  | subscriptionIdentifierAvailable => 0x29
  | sharedSubscriptionAvailable => 0x2A

@[reducible]
def type : PropertyId → PropertyType
  | payloadFormatIndicator => .byte
  | messageExpiryInterval => .fourByte
  | contentType => .string
  | responseTopic => .string
  | correlationData => .binary
  | subscriptionIdentifier => .variableByteInteger
  | sessionExpiryInterval => .fourByte
  | assignedClientIdentifier => .string
  | serverKeepAlive => .twoByte
  | authenticationMethod => .string
  | authenticationData => .binary
  | requestProblemInformation => .byte
  | willDelayInterval => .fourByte
  | requestResponseInformation => .byte
  | responseInformation => .string
  | serverReference => .string
  | reasonString => .string
  | receiveMaximum => .twoByte
  | topicAliasMaximum => .twoByte
  | topicAlias => .twoByte
  | maximumQos => .byte
  | retainAvailable => .byte
  | userProperty => .stringPair
  | maximumPacketSize => .fourByte
  | wildcardSubscriptionAvailable => .byte
  | subscriptionIdentifierAvailable => .byte
  | sharedSubscriptionAvailable => .byte

/-- The name under which the encoder reports a field that is too long. Only fields with a
two-byte length prefix can be. -/
def fieldName : PropertyId → String
  | contentType => "content_type"
  | responseTopic => "response_topic"
  | correlationData => "correlation_data"
  | assignedClientIdentifier => "assigned_client_identifier"
  | authenticationMethod => "authentication_method"
  | authenticationData => "authentication_data"
  | responseInformation => "response_information"
  | serverReference => "server_reference"
  | reasonString => "reason_string"
  | userProperty => "user_property"
  | _ => ""

/-- All identifiers, in the order in which `encode_values` writes them. -/
def all : List PropertyId :=
  [payloadFormatIndicator, messageExpiryInterval, contentType, responseTopic, correlationData,
    subscriptionIdentifier, sessionExpiryInterval, assignedClientIdentifier, serverKeepAlive,
    authenticationMethod, authenticationData, requestProblemInformation, willDelayInterval,
    requestResponseInformation, responseInformation, serverReference, reasonString,
    receiveMaximum, topicAliasMaximum, topicAlias, maximumQos, retainAvailable, userProperty,
    maximumPacketSize, wildcardSubscriptionAvailable, subscriptionIdentifierAvailable,
    sharedSubscriptionAvailable]

/-- The identifier with a given code, if the table has one. -/
def ofCode? (raw : UInt8) : Option PropertyId := all.find? fun id ↦ id.code = raw

/-- Only these two identifiers may occur more than once. -/
def repeatable (id : PropertyId) : Bool := id = userProperty || id = subscriptionIdentifier

abbrev Value (id : PropertyId) : Type := id.type.Value

end PropertyId

/-- The typed representation of a property block. -/
@[ext]
structure Properties where
  payloadFormatIndicator : Option UInt8 := none
  messageExpiryInterval : Option UInt32 := none
  contentType : Option String := none
  responseTopic : Option String := none
  correlationData : Option Bytes := none
  subscriptionIdentifiers : List UInt32 := []
  sessionExpiryInterval : Option UInt32 := none
  assignedClientIdentifier : Option String := none
  serverKeepAlive : Option UInt16 := none
  authenticationMethod : Option String := none
  authenticationData : Option Bytes := none
  requestProblemInformation : Option UInt8 := none
  willDelayInterval : Option UInt32 := none
  requestResponseInformation : Option UInt8 := none
  responseInformation : Option String := none
  serverReference : Option String := none
  reasonString : Option String := none
  receiveMaximum : Option UInt16 := none
  topicAliasMaximum : Option UInt16 := none
  topicAlias : Option UInt16 := none
  maximumQos : Option UInt8 := none
  retainAvailable : Option UInt8 := none
  userProperties : List (String × String) := []
  maximumPacketSize : Option UInt32 := none
  wildcardSubscriptionAvailable : Option UInt8 := none
  subscriptionIdentifierAvailable : Option UInt8 := none
  sharedSubscriptionAvailable : Option UInt8 := none
  deriving DecidableEq

instance : Inhabited Properties := ⟨{}⟩

structure PropertyItem where
  id : PropertyId
  value : id.Value

namespace Properties

/-- The field of an identifier, as the list of values it holds. -/
def values (properties : Properties) : (id : PropertyId) → List id.Value
  | .payloadFormatIndicator => properties.payloadFormatIndicator.toList
  | .messageExpiryInterval => properties.messageExpiryInterval.toList
  | .contentType => properties.contentType.toList
  | .responseTopic => properties.responseTopic.toList
  | .correlationData => properties.correlationData.toList
  | .subscriptionIdentifier => properties.subscriptionIdentifiers
  | .sessionExpiryInterval => properties.sessionExpiryInterval.toList
  | .assignedClientIdentifier => properties.assignedClientIdentifier.toList
  | .serverKeepAlive => properties.serverKeepAlive.toList
  | .authenticationMethod => properties.authenticationMethod.toList
  | .authenticationData => properties.authenticationData.toList
  | .requestProblemInformation => properties.requestProblemInformation.toList
  | .willDelayInterval => properties.willDelayInterval.toList
  | .requestResponseInformation => properties.requestResponseInformation.toList
  | .responseInformation => properties.responseInformation.toList
  | .serverReference => properties.serverReference.toList
  | .reasonString => properties.reasonString.toList
  | .receiveMaximum => properties.receiveMaximum.toList
  | .topicAliasMaximum => properties.topicAliasMaximum.toList
  | .topicAlias => properties.topicAlias.toList
  | .maximumQos => properties.maximumQos.toList
  | .retainAvailable => properties.retainAvailable.toList
  | .userProperty => properties.userProperties
  | .maximumPacketSize => properties.maximumPacketSize.toList
  | .wildcardSubscriptionAvailable => properties.wildcardSubscriptionAvailable.toList
  | .subscriptionIdentifierAvailable => properties.subscriptionIdentifierAvailable.toList
  | .sharedSubscriptionAvailable => properties.sharedSubscriptionAvailable.toList

/-- The arm of `parse` for one identifier: set its field, or push to it if it may repeat. -/
def store (properties : Properties) : (id : PropertyId) → id.Value → Properties
  | .payloadFormatIndicator, value => { properties with payloadFormatIndicator := some value }
  | .messageExpiryInterval, value => { properties with messageExpiryInterval := some value }
  | .contentType, value => { properties with contentType := some value }
  | .responseTopic, value => { properties with responseTopic := some value }
  | .correlationData, value => { properties with correlationData := some value }
  | .subscriptionIdentifier, value =>
      { properties with subscriptionIdentifiers := properties.subscriptionIdentifiers ++ [value] }
  | .sessionExpiryInterval, value => { properties with sessionExpiryInterval := some value }
  | .assignedClientIdentifier, value => { properties with assignedClientIdentifier := some value }
  | .serverKeepAlive, value => { properties with serverKeepAlive := some value }
  | .authenticationMethod, value => { properties with authenticationMethod := some value }
  | .authenticationData, value => { properties with authenticationData := some value }
  | .requestProblemInformation, value => { properties with requestProblemInformation := some value }
  | .willDelayInterval, value => { properties with willDelayInterval := some value }
  | .requestResponseInformation, value =>
      { properties with requestResponseInformation := some value }
  | .responseInformation, value => { properties with responseInformation := some value }
  | .serverReference, value => { properties with serverReference := some value }
  | .reasonString, value => { properties with reasonString := some value }
  | .receiveMaximum, value => { properties with receiveMaximum := some value }
  | .topicAliasMaximum, value => { properties with topicAliasMaximum := some value }
  | .topicAlias, value => { properties with topicAlias := some value }
  | .maximumQos, value => { properties with maximumQos := some value }
  | .retainAvailable, value => { properties with retainAvailable := some value }
  | .userProperty, value =>
      { properties with userProperties := properties.userProperties ++ [value] }
  | .maximumPacketSize, value => { properties with maximumPacketSize := some value }
  | .wildcardSubscriptionAvailable, value =>
      { properties with wildcardSubscriptionAvailable := some value }
  | .subscriptionIdentifierAvailable, value =>
      { properties with subscriptionIdentifierAvailable := some value }
  | .sharedSubscriptionAvailable, value =>
      { properties with sharedSubscriptionAvailable := some value }

/-- The items of a block in the encoder's order. -/
def items (properties : Properties) : List PropertyItem :=
  PropertyId.all.flatMap fun id ↦ (properties.values id).map (PropertyItem.mk id)

abbrev Reader (α : Type) := Decoder Fault UInt8 α

def readU8 : Reader UInt8 :=
  ⟨fun input cursor ↦ match input[cursor]? with
    | some value => .ok (value, cursor + 1)
    | none => .error (.codec .unexpectedEof)⟩

/-- `input.get(cursor..cursor + count)`, moving the cursor behind it. -/
def readArray (count : ℕ) : Reader Bytes :=
  ⟨fun input cursor ↦
    if cursor + count ≤ input.length then .ok ((input.drop cursor).take count, cursor + count)
    else .error (.codec .unexpectedEof)⟩

def readU16 : Reader UInt16 := do
  match ← readArray 2 with
  | [high, low] => pure (fromBeBytes16 high low)
  | _ => .raise .panic

def readU32 : Reader UInt32 := do
  match ← readArray 4 with
  | [b₀, b₁, b₂, b₃] => pure (fromBeBytes32 b₀ b₁ b₂ b₃)
  | _ => .raise .panic

/-- The four rounds of `read_vbi`; `byteIndex` counts up while the fuel counts down. -/
def readVbiFrom : ℕ → ℕ → ℕ → ℕ → Reader ℕ
  | 0, _, _, _ => .raise (.codec .malformedLength)
  | fuel + 1, byteIndex, value, multiplier => do
      let byte ← readU8
      let value := value + (byte &&& 0x7F).toNat * multiplier
      if byte &&& 0x80 = 0 then
        let minimum := if byteIndex = 0 then 0 else 1 <<< (7 * byteIndex)
        if value < minimum then .raise (.codec .malformedLength) else pure value
      else readVbiFrom fuel (byteIndex + 1) value (multiplier * 128)

def readVbi : Reader ℕ := readVbiFrom 4 0 0 1

def readPrefixedBytes : Reader Bytes := do
  let length ← readU16
  readArray length.toNat

def validateString (value : String) : Except MqttError Unit :=
  if '\x00' ∈ value.toList then .error (.protocol .utf8NullCharacter) else .ok ()

def readString : Reader String := do
  let bytes ← readPrefixedBytes
  match fromUtf8 bytes with
  | none => .raise (.codec .invalidUtf8)
  | some value =>
      .lift (orRaise (validateString value))
      pure value

def readBinary : Reader Bytes := readPrefixedBytes

/-- The value reader of each wire type. -/
def readValue : (type : PropertyType) → Reader type.Value
  | .byte => readU8
  | .twoByte => readU16
  | .fourByte => readU32
  | .string => readString
  | .binary => readBinary
  | .variableByteInteger => do
      let value ← readVbi
      pure (UInt32.ofNat value)
  | .stringPair => do
      let key ← readString
      let value ← readString
      pure (key, value)

/-- A flag value other than 0 and 1 is malformed. -/
def checkFlag (id : PropertyId) (value : Option UInt8) : Except MqttError Unit :=
  if value.any (· > 1) then .error (.protocol (.malformedProperty id.code)) else .ok ()

def malformedIf (malformed : Bool) (id : PropertyId) : Except MqttError Unit :=
  if malformed then .error (.protocol (.malformedProperty id.code)) else .ok ()

def validateValues (properties : Properties) : Except MqttError Unit := do
  checkFlag .payloadFormatIndicator properties.payloadFormatIndicator
  checkFlag .requestProblemInformation properties.requestProblemInformation
  checkFlag .requestResponseInformation properties.requestResponseInformation
  checkFlag .maximumQos properties.maximumQos
  checkFlag .retainAvailable properties.retainAvailable
  checkFlag .wildcardSubscriptionAvailable properties.wildcardSubscriptionAvailable
  checkFlag .subscriptionIdentifierAvailable properties.subscriptionIdentifierAvailable
  checkFlag .sharedSubscriptionAvailable properties.sharedSubscriptionAvailable
  malformedIf (properties.receiveMaximum = some 0) .receiveMaximum
  malformedIf (properties.topicAlias = some 0) .topicAlias
  malformedIf (properties.maximumPacketSize = some 0) .maximumPacketSize
  malformedIf (properties.subscriptionIdentifiers.any fun value ↦
    value = 0 || value.toNat > maxVariableByteInteger) .subscriptionIdentifier
  malformedIf (properties.authenticationData.isSome && properties.authenticationMethod.isNone)
    .authenticationData
  match properties.responseTopic with
  | some responseTopic => Topic.validatePublishTopic responseTopic
  | none => .ok ()

/-! ## Decoding a block -/

/-- The bit mask of identifiers met so far; an identifier beyond its width is unknown. -/
def markSeen (propertyId : UInt8) (seen : BitVec 64) : Except Fault (BitVec 64) :=
  if propertyId = PropertyId.userProperty.code ∨
      propertyId = PropertyId.subscriptionIdentifier.code then .ok seen
  else if 64 ≤ propertyId.toNat then .error (.protocol (.unknownProperty propertyId))
  else if seen &&& (1#64 <<< propertyId.toNat) ≠ 0 then
    .error (.protocol (.duplicateProperty propertyId))
  else .ok (seen ||| (1#64 <<< propertyId.toNat))

/-- One round of the item loop. -/
def parseItem (state : Properties × BitVec 64) : Reader (Properties × BitVec 64) := do
  let propertyId ← readU8
  let seen ← .lift (markSeen propertyId state.2)
  match PropertyId.ofCode? propertyId with
  | none => .raise (.protocol (.unknownProperty propertyId))
  | some id =>
      let value ← readValue id.type
      pure (state.1.store id value, seen)

/-- The item loop and the value checks, on the bytes of one declared block. -/
def parseBlock (propertyBody : Bytes) : Except Fault Properties := do
  let ((properties, _), _) ← (Decoder.whileMore parseItem ({}, 0#64)).run propertyBody 0
  orRaise properties.validateValues
  .ok properties

/-- The declared block must lie inside the body; the cursor ends behind it. -/
def parse : Reader Properties := do
  let propertyLength ← readVbi
  let propertyBody ← readArray propertyLength
  .lift (parseBlock propertyBody)

/-- The loop of `write_vbi`. -/
def writeVbiGroups : ℕ → ℕ → Bytes
  | 0, _ => []
  | fuel + 1, value =>
      let byte := UInt8.ofNat (value % 128)
      let value := value / 128
      if value ≠ 0 then (byte ||| 0x80) :: writeVbiGroups fuel value else [byte]

def writeVbi (output : Bytes) (value : ℕ) : Except MqttError Bytes :=
  if value > maxVariableByteInteger then .error (.codec (.variableByteIntegerOutOfRange value))
  else .ok (output ++ writeVbiGroups (value + 1) value)

def writePrefixedBytes (output value : Bytes) (kind : String) : Except MqttError Bytes :=
  if value.length > 65535 then .error (.codec (.fieldTooLong kind value.length))
  else .ok (output ++ toBeBytes16 (asU16 value.length) ++ value)

def writeString (output : Bytes) (value : String) (kind : String) : Except MqttError Bytes := do
  validateString value
  writePrefixedBytes output (asBytes value) kind

def writeBinary (output value : Bytes) (kind : String) : Except MqttError Bytes :=
  writePrefixedBytes output value kind

/-- Write the value of an item; `name` is the field name used in an error. -/
def writeValue (body : Bytes) (name : String) : (type : PropertyType) → type.Value →
    Except MqttError Bytes
  | .byte, value => .ok (body ++ [value])
  | .twoByte, value => .ok (body ++ toBeBytes16 value)
  | .fourByte, value => .ok (body ++ toBeBytes32 value)
  | .string, value => writeString body value ("property." ++ name)
  | .binary, value => writeBinary body value ("property." ++ name)
  | .variableByteInteger, value => writeVbi body value.toNat
  | .stringPair, (key, value) => do
      let body ← writeString body key ("property." ++ name ++ ".key")
      writeString body value ("property." ++ name ++ ".value")

def writeItem (body : Bytes) (item : PropertyItem) : Except MqttError Bytes :=
  writeValue (body ++ [item.id.code]) item.id.fieldName item.id.type item.value

def encodeValues (properties : Properties) (body : Bytes) : Except MqttError Bytes :=
  properties.items.foldlM writeItem body

def encode (properties : Properties) (output : Bytes) : Except MqttError Bytes := do
  properties.validateValues
  let body ← properties.encodeValues []
  let output ← writeVbi output body.length
  .ok (output ++ body)

end Properties

end HotaruMqtt

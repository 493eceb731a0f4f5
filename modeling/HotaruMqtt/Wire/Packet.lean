import HotaruMqtt.Wire.Properties

/-!
# Packets, codes and flag bits

The data definitions of the packet and request modules, with the conversions between the
enumerations and their wire codes.
-/

namespace HotaruMqtt

abbrev PacketId := UInt16

inductive QoS where
  | atMostOnce
  | atLeastOnce
  | exactlyOnce
  deriving DecidableEq

namespace QoS

def asU8 : QoS → UInt8
  | atMostOnce => 0
  | atLeastOnce => 1
  | exactlyOnce => 2

def fromU8 (value : UInt8) : Option QoS :=
  if value = 0 then some atMostOnce
  else if value = 1 then some atLeastOnce
  else if value = 2 then some exactlyOnce
  else none

/-- `Ord::min`, for the order of the levels. -/
def min (left right : QoS) : QoS := if left.asU8 ≤ right.asU8 then left else right

end QoS

inductive SubackCode where
  | granted (qos : QoS)
  | failure
  deriving DecidableEq

namespace SubackCode

def asU8 : SubackCode → UInt8
  | granted qos => qos.asU8
  | failure => 0x80

def fromU8 (value : UInt8) : Option SubackCode :=
  if value = 0 then some (granted .atMostOnce)
  else if value = 1 then some (granted .atLeastOnce)
  else if value = 2 then some (granted .exactlyOnce)
  else if value = 0x80 then some failure
  else none

@[simp]
theorem fromU8_asU8 (code : SubackCode) : fromU8 code.asU8 = some code := by
  rcases code with qos | _
  · cases qos <;> decide
  · decide

end SubackCode

inductive ProtocolVersion where
  | v311
  | v5
  deriving DecidableEq

namespace ProtocolVersion

instance : Inhabited ProtocolVersion := ⟨v311⟩

def level : ProtocolVersion → UInt8
  | v311 => 4
  | v5 => 5

def fromLevel (level : UInt8) : Option ProtocolVersion :=
  if level = 4 then some v311 else if level = 5 then some v5 else none

@[simp]
theorem fromLevel_level (version : ProtocolVersion) : fromLevel version.level = some version := by
  cases version <;> decide

end ProtocolVersion

inductive PacketType where
  | connect
  | connack
  | publish
  | puback
  | pubrec
  | pubrel
  | pubcomp
  | subscribe
  | suback
  | unsubscribe
  | unsuback
  | pingreq
  | pingresp
  | disconnect
  deriving DecidableEq

namespace PacketType

def asU8 : PacketType → UInt8
  | connect => 1
  | connack => 2
  | publish => 3
  | puback => 4
  | pubrec => 5
  | pubrel => 6
  | pubcomp => 7
  | subscribe => 8
  | suback => 9
  | unsubscribe => 10
  | unsuback => 11
  | pingreq => 12
  | pingresp => 13
  | disconnect => 14

def all : List PacketType :=
  [connect, connack, publish, puback, pubrec, pubrel, pubcomp, subscribe, suback, unsubscribe,
    unsuback, pingreq, pingresp, disconnect]

def tryFrom (value : UInt8) : Option PacketType := all.find? fun type ↦ type.asU8 = value

end PacketType

namespace ConnackReturnCode

def asU8 : ConnackReturnCode → UInt8
  | accepted => 0
  | unacceptableProtocolVersion => 1
  | identifierRejected => 2
  | serverUnavailable => 3
  | badUsernameOrPassword => 4
  | notAuthorized => 5

def toV5Reason : ConnackReturnCode → UInt8
  | accepted => 0x00
  | unacceptableProtocolVersion => 0x84
  | identifierRejected => 0x85
  | serverUnavailable => 0x88
  | badUsernameOrPassword => 0x86
  | notAuthorized => 0x87

def all : List ConnackReturnCode :=
  [accepted, unacceptableProtocolVersion, identifierRejected, serverUnavailable,
    badUsernameOrPassword, notAuthorized]

def fromV5Reason (value : UInt8) : Option ConnackReturnCode :=
  all.find? fun code ↦ code.toV5Reason = value

def tryFrom (value : UInt8) : Option ConnackReturnCode := all.find? fun code ↦ code.asU8 = value

@[simp]
theorem tryFrom_asU8 (code : ConnackReturnCode) : tryFrom code.asU8 = some code := by
  cases code <;> decide

@[simp]
theorem fromV5Reason_toV5Reason (code : ConnackReturnCode) :
    fromV5Reason code.toV5Reason = some code := by
  cases code <;> decide

end ConnackReturnCode

/-- `contains` of the generated flag types. -/
def containsFlag (bits flag : UInt8) : Bool := bits &&& flag = flag

namespace FixedHeaderFlags

def retain : UInt8 := 0b0000_0001
def qos : UInt8 := 0b0000_0110
def dup : UInt8 := 0b0000_1000

/-- `from_bits`: bits outside the defined flags are refused. -/
def fromBits (bits : UInt8) : Option UInt8 :=
  if bits &&& (retain ||| qos ||| dup) = bits then some bits else none

end FixedHeaderFlags

namespace ConnectFlags

def username : UInt8 := 0b1000_0000
def password : UInt8 := 0b0100_0000
def willRetain : UInt8 := 0b0010_0000
def willQosMask : UInt8 := 0b0001_1000
def willFlag : UInt8 := 0b0000_0100
def cleanSession : UInt8 := 0b0000_0010
def reserved : UInt8 := 0b0000_0001

/-- `from_bits_truncate`: bits outside the defined flags are dropped. -/
def fromBitsTruncate (bits : UInt8) : UInt8 :=
  bits &&& (username ||| password ||| willRetain ||| willQosMask ||| willFlag ||| cleanSession |||
    reserved)

end ConnectFlags

/-! ## Packets -/

structure PublishPacket where
  properties : Properties := {}
  topic : String
  payload : Bytes
  dup : Bool
  qos : QoS
  retain : Bool
  packetId : Option PacketId
  deriving DecidableEq

structure WillPacket where
  properties : Properties := {}
  topic : String
  payload : Bytes
  qos : QoS
  retain : Bool
  deriving DecidableEq

structure ConnectPacket where
  version : ProtocolVersion
  properties : Properties := {}
  clientId : String
  cleanSession : Bool
  keepAlive : UInt16
  username : Option String
  password : Option Bytes
  will : Option WillPacket
  deriving DecidableEq

structure ConnackPacket where
  properties : Properties := {}
  sessionPresent : Bool
  returnCode : ConnackReturnCode
  deriving DecidableEq

structure TopicSubscription where
  topic : String
  qos : QoS
  deriving DecidableEq

structure SubscribePacket where
  packetId : PacketId
  subscriptions : List TopicSubscription
  deriving DecidableEq

structure SubackPacket where
  packetId : PacketId
  returnCodes : List SubackCode
  deriving DecidableEq

structure UnsubscribePacket where
  packetId : PacketId
  topics : List String
  deriving DecidableEq

structure UnsubackPacket where
  packetId : PacketId
  reasonCodes : Bytes
  deriving DecidableEq

inductive Packet where
  | connect (packet : ConnectPacket)
  | connack (packet : ConnackPacket)
  | publish (packet : PublishPacket)
  | puback (id : PacketId)
  | pubrec (id : PacketId)
  | pubrel (id : PacketId)
  | pubcomp (id : PacketId)
  | subscribe (packet : SubscribePacket)
  | suback (packet : SubackPacket)
  | unsubscribe (packet : UnsubscribePacket)
  | unsuback (packet : UnsubackPacket)
  | pingreq
  | pingresp
  | disconnect
  deriving DecidableEq

end HotaruMqtt

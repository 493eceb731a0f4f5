import HotaruMqtt.Library.Table
import HotaruMqtt.Wire.Packet

/-!
# Session state

The tables of a session are finite maps keyed by packet identifier. A slot of `pending_acks`
holds the sending half of a one-shot channel. It is represented by the operation that awaits the
receiving half.
-/

namespace HotaruMqtt

open Library

/-- What the user receives from an inbound PUBLISH. -/
structure IncomingPublish where
  properties : Properties
  topic : String
  payload : Bytes
  qos : QoS
  retain : Bool
  dup : Bool
  packetId : Option PacketId
  deriving DecidableEq

def incomingFromPacket (p : PublishPacket) : IncomingPublish :=
  { properties := p.properties, topic := p.topic, payload := p.payload, qos := p.qos
    retain := p.retain, dup := p.dup, packetId := p.packetId }

/-- The operation that awaits an acknowledgement. -/
abbrev Waiter := ℕ

inductive AckSlot where
  | puback (waiter : Waiter)
  | pubrec (waiter : Waiter)
  | pubcomp (waiter : Waiter)
  | suback (waiter : Waiter)
  | unsuback (waiter : Waiter)
  deriving DecidableEq

namespace AckSlot

def waiter : AckSlot → Waiter
  | puback waiter | pubrec waiter | pubcomp waiter | suback waiter | unsuback waiter => waiter

end AckSlot

/-- The acknowledgements that `fire_ack` delivers. -/
inductive AckKind where
  | puback
  | pubrec
  | pubcomp
  deriving DecidableEq

structure MqttSession where
  pktCounter : UInt16
  qos2Recv : Table PacketId IncomingPublish
  pendingAcks : Table PacketId AckSlot
  outboundInflight : Table PacketId PublishPacket

namespace MqttSession

def new : MqttSession :=
  { pktCounter := 0, qos2Recv := ∅, pendingAcks := ∅, outboundInflight := ∅ }

/-- The identifier is taken from the incremented counter, and the counter itself is not moved
past zero. -/
def allocatePacketId (session : MqttSession) : PacketId × MqttSession :=
  let id := session.pktCounter + 1
  (if id = 0 then 1 else id, { session with pktCounter := session.pktCounter + 1 })

/-- Remove the slot of an identifier; the operation behind it is answered if the slot is of the
expected kind, and otherwise loses its sender. -/
def takeSlot (expected : AckSlot → Bool) (session : MqttSession) (id : PacketId) :
    Option Waiter × MqttSession :=
  let answered := match session.pendingAcks.lookup id with
    | some slot => if expected slot then some slot.waiter else none
    | none => none
  (answered, { session with pendingAcks := session.pendingAcks.erase id })

/-- A slot of the expected kind is taken with its waiter. -/
theorem takeSlot_of_expected {expected : AckSlot → Bool} {session : MqttSession} {id : PacketId}
    {slot : AckSlot} (hslot : session.pendingAcks.lookup id = some slot)
    (hexpected : expected slot = true) :
    (session.takeSlot expected id).1 = some slot.waiter := by
  simp [takeSlot, hslot, hexpected]

theorem takeSlot_of_empty {expected : AckSlot → Bool} {session : MqttSession} {id : PacketId}
    (hslot : session.pendingAcks.lookup id = none) : (session.takeSlot expected id).1 = none := by
  simp [takeSlot, hslot]

def fireAck (session : MqttSession) (id : PacketId) (kind : AckKind) :
    Option Waiter × MqttSession :=
  session.takeSlot
    (fun slot ↦ match slot, kind with
      | .puback _, .puback | .pubrec _, .pubrec | .pubcomp _, .pubcomp => true
      | _, _ => false) id

def fireSuback (session : MqttSession) (id : PacketId) : Option Waiter × MqttSession :=
  session.takeSlot (fun slot ↦ match slot with | .suback _ => true | _ => false) id

def fireUnsuback (session : MqttSession) (id : PacketId) : Option Waiter × MqttSession :=
  session.takeSlot (fun slot ↦ match slot with | .unsuback _ => true | _ => false) id

def abandon (session : MqttSession) : MqttSession :=
  { session with pendingAcks := ∅, qos2Recv := ∅, outboundInflight := ∅ }

end MqttSession

end HotaruMqtt

import HotaruMqtt.Session.State
import HotaruMqtt.Wire.Codec

/-!
# Channels

A channel is shared by everyone who holds a clone of it. Commands wait in its queue until the
writer actor takes them. Sending fails once the actor has dropped the receiving half of the
queue, which is the last thing it does.
-/

namespace HotaruMqtt

open Library

inductive WriteCmd where
  | packet (packet : Packet)
  | publish (packet : PublishPacket)
  | flush
  | shutdown
  deriving DecidableEq

structure MqttChannel where
  session : MqttSession
  version : ProtocolVersion
  isOpen : Bool
  commands : List WriteCmd
  /-- The writer actor still holds the receiving half of the queue. -/
  receiving : Bool

namespace MqttChannel

def new : MqttChannel :=
  { session := .new, version := default, isOpen := true, commands := [], receiving := true }

def send (channel : MqttChannel) (cmd : WriteCmd) : Except MqttError MqttChannel :=
  if channel.receiving then .ok { channel with commands := channel.commands ++ [cmd] }
  else .error .channelClosed

def sendPacket (channel : MqttChannel) (packet : Packet) : Except MqttError MqttChannel :=
  channel.send (.packet packet)

def sendPublish (channel : MqttChannel) (packet : PublishPacket) : Except MqttError MqttChannel :=
  channel.send (.publish packet)

/-- A send that succeeds enqueues its command, and the receiving half of the queue is held. -/
theorem of_send_eq_ok {channel sent : MqttChannel} {cmd : WriteCmd}
    (h : channel.send cmd = .ok sent) :
    channel.receiving = true ∧ sent = { channel with commands := channel.commands ++ [cmd] } := by
  unfold send at h
  split at h
  · exact ⟨‹_›, (Except.ok.inj h).symm⟩
  · cases h

/-- A send only fails when the writer no longer receives. -/
theorem of_send_eq_error {channel : MqttChannel} {cmd : WriteCmd} {reason : MqttError}
    (h : channel.send cmd = .error reason) :
    channel.receiving = false ∧ reason = .channelClosed := by
  unfold send at h
  split at h
  · cases h
  · rename_i hreceiving
    exact ⟨Bool.eq_false_of_not_eq_true hreceiving, (Except.error.inj h).symm⟩

theorem session_of_send {channel sent : MqttChannel} {cmd : WriteCmd}
    (h : channel.send cmd = .ok sent) : sent.session = channel.session := by
  rw [(of_send_eq_ok h).2]

theorem version_of_send {channel sent : MqttChannel} {cmd : WriteCmd}
    (h : channel.send cmd = .ok sent) : sent.version = channel.version := by
  rw [(of_send_eq_ok h).2]

def setSession (channel : MqttChannel) (session : MqttSession) : MqttChannel :=
  { channel with session }

def insertSlot (channel : MqttChannel) (id : PacketId) (slot : AckSlot) : MqttChannel :=
  channel.setSession
    { channel.session with pendingAcks := channel.session.pendingAcks.insert id slot }

def eraseSlot (channel : MqttChannel) (id : PacketId) : MqttChannel :=
  channel.setSession { channel.session with pendingAcks := channel.session.pendingAcks.erase id }

theorem lookup_insertSlot (channel : MqttChannel) (id : PacketId) (slot : AckSlot)
    (id' : PacketId) : (channel.insertSlot id slot).session.pendingAcks.lookup id' =
      if id' = id then some slot else channel.session.pendingAcks.lookup id' :=
  Table.lookup_insert_eq ..

theorem lookup_eraseSlot (channel : MqttChannel) (id id' : PacketId) :
    (channel.eraseSlot id).session.pendingAcks.lookup id' =
      if id' = id then none else channel.session.pendingAcks.lookup id' :=
  Table.lookup_erase_eq ..

/-- Whether the sender of a signal is still in the table. -/
def holdsSlot (channel : MqttChannel) (id : PacketId) (slot : AckSlot) : Bool :=
  channel.session.pendingAcks.lookup id = some slot

end MqttChannel

/-- Where the writer actor stands: in its loop, behind it, behind the store to `open`, or gone
with the receiving half of the queue. -/
inductive WriterPhase where
  | looping
  | left
  | marked
  | gone
  deriving DecidableEq

/-- Whether the writer actor leaves its loop after a command. A write fails if the packet cannot
be encoded or if the wire fails. -/
def WriteCmd.endsLoop (version : ProtocolVersion) (wireFails : Bool) : WriteCmd → Bool
  | packet p => wireFails || (Codec.encodePacket p version).toOption.isNone
  | publish p => wireFails || (Codec.writePublishPacket p version).toOption.isNone
  | flush => false
  | shutdown => true

end HotaruMqtt

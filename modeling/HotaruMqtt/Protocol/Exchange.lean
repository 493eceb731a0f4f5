import HotaruMqtt.Protocol.Handover
import HotaruMqtt.Session.PacketId

/-!
# What a dispatch enqueues, stores and hands on

Each dispatch of a party is described by what it adds to the queue of the connection, what it
stores and what it hands on. Nothing is said about the rest of the session. A party whose writer is
dead enqueues nothing, but it goes on storing and handing on until it notices. The server enqueues
two kinds of packets: messages of the fan-out, which it numbers, and answers to what it reads.
-/

namespace HotaruMqtt.Link

open Library Handover

/-- The packets of the commands that carry no message of the fan-out. -/
def control : WriteCmd → Option Packet
  | .packet packet => some packet
  | _ => none

/-- The channel has enqueued something, unless its writer is dead. -/
structure Extends (channel next : MqttChannel) (added : List WriteCmd) : Prop where
  receiving : next.receiving = channel.receiving
  version : next.version = channel.version
  commands : next.commands = channel.commands ++ ifLive channel.receiving added

namespace Extends

variable {channel next last : MqttChannel} {added more : List WriteCmd}

theorem of_eq (hreceiving : next.receiving = channel.receiving)
    (hversion : next.version = channel.version) (hcommands : next.commands = channel.commands) :
    Extends channel next [] where
  receiving := hreceiving
  version := hversion
  commands := by
    rw [hcommands, ifLive, ite_self, List.append_nil]

theorem trans (h : Extends channel next added) (h' : Extends next last more) :
    Extends channel last (added ++ more) where
  receiving := h'.receiving.trans h.receiving
  version := h'.version.trans h.version
  commands := by
    rw [h'.commands, h.commands, h.receiving, List.append_assoc]
    unfold ifLive
    split <;> simp

theorem send {cmd : WriteCmd} (h : channel.send cmd = .ok next) :
    Extends channel next [cmd] := by
  obtain ⟨hreceiving, rfl⟩ := MqttChannel.of_send_eq_ok h
  exact ⟨rfl, rfl, by rw [ifLive, if_pos hreceiving]⟩

theorem reply (channel : MqttChannel) (packet : Packet) :
    Extends channel (channel.reply packet).1 [.packet packet] where
  receiving := channel.receiving_reply packet
  version := channel.version_reply packet
  commands := channel.commands_reply packet

theorem deliver (packet : PublishPacket) (subQos : QoS) (channel : MqttChannel) :
    Extends channel (Broker.deliver packet subQos channel).2
      [.publish (Broker.deliver packet subQos channel).1] where
  receiving := deliver_receiving packet subQos channel
  version := by
    simp only [Broker.deliver, Broker.trackOutbound, MqttChannel.sendPublish, MqttChannel.send]
    split <;> split <;> rfl
  commands := deliver_commands packet subQos channel

end Extends

/-- The identifiers of the messages that are enqueued by the fan-out. -/
def numbered (cmds : List WriteCmd) : List PacketId :=
  cmds.filterMap fun cmd ↦ match cmd with
    | .publish p => p.packetId
    | .packet _ | .flush | .shutdown => none

theorem numbered_append (cmds more : List WriteCmd) :
    numbered (cmds ++ more) = numbered cmds ++ numbered more :=
  List.filterMap_append

/-- The messages of the fan-out are numbered from one on, as far as the numbers last. -/
def Counted (channel : MqttChannel) : Prop :=
  (numbered channel.commands).length ≤ 65535 →
    (numbered channel.commands).map UInt16.toNat =
        List.range' 1 (numbered channel.commands).length ∧
      (channel.receiving = true →
        channel.session.pktCounter.toNat = (numbered channel.commands).length)

/-- Identifiers differ until the counter comes round. -/
theorem Counted.nodup {channel : MqttChannel} (h : Counted channel)
    (hlength : (numbered channel.commands).length ≤ 65535) :
    (numbered channel.commands).Nodup := by
  apply List.Nodup.of_map UInt16.toNat
  rw [(h hlength).1]
  exact List.nodup_range'

/-- What the server does to the channel of a connection. -/
structure Grows (channel next : MqttChannel) (added : List WriteCmd) : Prop
    extends Extends channel next added where
  counted : Counted channel → Counted next

namespace Grows

variable {channel next last : MqttChannel} {added more : List WriteCmd}

theorem trans (h : Grows channel next added) (h' : Grows next last more) :
    Grows channel last (added ++ more) where
  toExtends := h.toExtends.trans h'.toExtends
  counted := h'.counted ∘ h.counted

/-- What is enqueued apart from the fan-out carries no number. -/
theorem of_extends (h : Extends channel next added) (hadded : numbered added = [])
    (hcounter : next.session.pktCounter = channel.session.pktCounter) :
    Grows channel next added where
  toExtends := h
  counted := by
    have hsame : numbered next.commands = numbered channel.commands := by
      rw [h.commands, numbered_append, ifLive]
      split
      · rw [hadded, List.append_nil]
      · exact List.append_nil _
    unfold Counted
    rw [hsame, hcounter, h.receiving]
    exact id

theorem reply (channel : MqttChannel) (packet : Packet) :
    Grows channel (channel.reply packet).1 [.packet packet] :=
  of_extends (.reply channel packet) rfl (by rw [MqttChannel.session_reply])

theorem refl (channel : MqttChannel) : Grows channel channel [] :=
  of_extends (.of_eq rfl rfl rfl) rfl rfl

theorem deliver (packet : PublishPacket) (subQos : QoS) (channel : MqttChannel) :
    Grows channel (Broker.deliver packet subQos channel).2
      [.publish (Broker.deliver packet subQos channel).1] := by
  have hextends := Extends.deliver packet subQos channel
  by_cases hqos : packet.qos.min subQos = .atMostOnce
  · apply of_extends hextends
    · simp [numbered, Broker.deliver, Broker.trackOutbound, hqos]
    · simp only [Broker.deliver, Broker.trackOutbound, if_pos hqos, MqttChannel.sendPublish,
        MqttChannel.send]
      split <;> rfl
  refine ⟨hextends, fun hcounted ↦ ?_⟩
  have hid : (Broker.deliver packet subQos channel).1.packetId =
      some channel.session.allocatePacketId.1 := by
    simp [Broker.deliver, Broker.trackOutbound, hqos]
  have hcounter : (Broker.deliver packet subQos channel).2.session.pktCounter =
      channel.session.allocatePacketId.2.pktCounter := by
    simp only [Broker.deliver, Broker.trackOutbound, if_neg hqos, MqttChannel.sendPublish,
      MqttChannel.send]
    split <;> rfl
  unfold Counted
  rw [hextends.commands, hextends.receiving, numbered_append, hcounter]
  cases hreceiving : channel.receiving with
  | false =>
    rw [ifLive, if_neg Bool.false_ne_true]
    simp only [numbered, List.filterMap_nil, List.append_nil]
    intro hlength
    exact ⟨(hcounted hlength).1, fun h ↦ by cases h⟩
  | true =>
    rw [ifLive, if_pos rfl]
    have hsingle : numbered [.publish (Broker.deliver packet subQos channel).1] =
        [channel.session.allocatePacketId.1] :=
      List.filterMap_cons_some hid
    rw [hsingle, List.length_append, List.length_singleton]
    intro hlength
    obtain ⟨hids, hcount⟩ := hcounted (Nat.le_of_succ_le hlength)
    have hcount := hcount hreceiving
    obtain ⟨hnew, hnext⟩ := MqttSession.toNat_allocate (by rw [hcount]; exact hlength)
    rw [hcount] at hnew hnext
    refine ⟨?_, fun _ ↦ hnext⟩
    rw [List.map_append, hids, List.map_singleton, hnew, List.range'_concat]
    simp [Nat.add_comm]

/-- The fan-out enqueues messages and nothing else. -/
theorem publish (broker : Broker) (source : ClientId) (packet : PublishPacket)
    (order : List (ClientId × QoS)) (channels : Channels) (connection : ConnectionId) :
    ∃ messages : List PublishPacket, Grows (channels connection)
      ((broker.publish source packet order channels).2 connection) (messages.map .publish) := by
  induction order generalizing channels with
  | nil => exact ⟨[], refl _⟩
  | cons subscription order ih =>
    unfold Broker.publish
    split
    · exact ih channels
    · rename_i entry _
      dsimp only
      obtain ⟨messages, hgrows⟩ := ih (Function.update channels entry.channel
        (Broker.deliver packet subscription.2 (channels entry.channel)).2)
      by_cases hconnection : connection = entry.channel
      · subst hconnection
        rw [Function.update_self] at hgrows
        exact ⟨_ :: messages, (deliver packet subscription.2 _).trans hgrows⟩
      · rw [Function.update_of_ne hconnection] at hgrows
        exact ⟨messages, hgrows⟩

theorem publishOption {broker : Broker} {source : ClientId} {order : List (ClientId × QoS)}
    {channels : Channels} {packet : Option PublishPacket} {published : List Delivery × Channels}
    (h : broker.publishOption source order channels packet = some published)
    (connection : ConnectionId) :
    ∃ messages : List PublishPacket,
      Grows (channels connection) (published.2 connection) (messages.map .publish) := by
  cases packet with
  | none =>
    rw [Broker.publishOption, Option.ite_none_right_eq_some] at h
    obtain ⟨-, h⟩ := h
    obtain rfl := Option.some.inj h
    exact ⟨[], refl _⟩
  | some packet =>
    rw [Broker.publishOption, Option.ite_none_right_eq_some] at h
    obtain ⟨-, h⟩ := h
    obtain rfl := Option.some.inj h
    exact publish broker source packet order channels connection

/-- Handing a message on only adds messages to a channel. -/
theorem handOn {store next : Store} {client : ClientId} {surroundings : Surroundings}
    {message : PublishPacket} (h : store.handOn client surroundings message = some next)
    (connection : ConnectionId) :
    ∃ messages : List PublishPacket,
      Grows (store.channels connection) (next.channels connection) (messages.map .publish) := by
  obtain ⟨published, hpublished, rfl⟩ := Option.map_eq_some_iff.mp h
  exact publishOption hpublished connection

theorem ackOutbound (broker : Broker) (client : ClientId) (id : PacketId) (channels : Channels)
    (connection : ConnectionId) :
    Grows (channels connection) ((broker.ackOutbound client id channels).2 connection) [] := by
  unfold Broker.ackOutbound
  split
  · exact refl _
  · rename_i entry _
    dsimp only
    by_cases hconnection : connection = entry.channel
    · subst hconnection
      rw [Function.update_self]
      exact of_extends (.of_eq rfl rfl rfl) rfl rfl
    · rw [Function.update_of_ne hconnection]
      exact refl _

/-- Serving another client enqueues messages of the fan-out on a connection and nothing else. -/
theorem step {store next : Store} {operation : Operation} (h : store.step operation = some next)
    (connection : ConnectionId) :
    ∃ messages : List PublishPacket,
      Grows (store.channels connection) (next.channels connection) (messages.map .publish) := by
  cases operation with
  | register | subscribe | unsubscribe =>
    obtain rfl := Option.some.inj h
    exact ⟨[], refl _⟩
  | unregister client graceful order =>
    obtain ⟨result, hresult, rfl⟩ := Option.map_eq_some_iff.mp h
    obtain ⟨published, hpublished, rfl⟩ := Option.map_eq_some_iff.mp hresult
    exact publishOption hpublished connection
  | publish source packet order =>
    obtain ⟨published, hpublished, rfl⟩ := Option.map_eq_some_iff.mp h
    exact publishOption hpublished connection
  | ackOutbound client id =>
    obtain rfl := Option.some.inj h
    exact ⟨[], ackOutbound store.broker client id store.channels connection⟩

theorem answer (store : Store) (connection : ConnectionId) (packet : Packet)
    (handed : List PublishPacket) :
    Grows (store.channels connection)
      ((store.answer connection packet handed).store.channels connection) [.packet packet] := by
  simp only [Store.answer, Store.setChannel, Function.update_self]
  exact reply _ packet

end Grows

theorem stored_publishOption {broker : Broker} {source : ClientId} {order : List (ClientId × QoS)}
    {channels : Channels} {packet : Option PublishPacket} {published : List Delivery × Channels}
    (h : broker.publishOption source order channels packet = some published)
    (connection : ConnectionId) :
    (published.2 connection).session.qos2Recv = (channels connection).session.qos2Recv := by
  cases packet with
  | none =>
    rw [Broker.publishOption, Option.ite_none_right_eq_some] at h
    obtain ⟨-, h⟩ := h
    obtain rfl := Option.some.inj h
    rfl
  | some packet =>
    rw [Broker.publishOption, Option.ite_none_right_eq_some] at h
    obtain ⟨-, h⟩ := h
    obtain rfl := Option.some.inj h
    exact (publish_frame broker source packet order channels connection).2

/-- Serving another client touches no message that is stored for its PUBREL. -/
theorem stored_step {store next : Store} {operation : Operation}
    (h : store.step operation = some next) (connection : ConnectionId) :
    (next.channels connection).session.qos2Recv =
      (store.channels connection).session.qos2Recv := by
  cases operation with
  | register | subscribe | unsubscribe =>
    obtain rfl := Option.some.inj h
    rfl
  | unregister client graceful order =>
    obtain ⟨result, hresult, rfl⟩ := Option.map_eq_some_iff.mp h
    obtain ⟨published, hpublished, rfl⟩ := Option.map_eq_some_iff.mp hresult
    exact stored_publishOption hpublished connection
  | publish source packet order =>
    obtain ⟨published, hpublished, rfl⟩ := Option.map_eq_some_iff.mp h
    exact stored_publishOption hpublished connection
  | ackOutbound client id =>
    obtain rfl := Option.some.inj h
    exact (store.broker.ackOutbound_frame client id store.channels connection).2.2

/-! ## Dispatches -/

def publishReply (p : PublishPacket) : Option Packet :=
  match p.qos, p.packetId with
  | .atLeastOnce, some id => some (.puback id)
  | .exactlyOnce, some id => some (.pubrec id)
  | _, _ => none

/-- What both parties answer to a packet of a handshake. -/
def handshakeAnswer : Packet → Option Packet
  | .publish p => publishReply p
  | .pubrec id => some (.pubrel id)
  | .pubrel id => some (.pubcomp id)
  | _ => none

def serverAnswer (broker : Broker) (client : ClientId) : Packet → Option Packet
  | .subscribe s =>
      let filters := s.subscriptions.map fun ts ↦ { filter := ts.topic, qos := ts.qos }
      some (.suback
        { packetId := s.packetId, returnCodes := (broker.subscribe client filters).1 })
  | .unsubscribe u =>
      some (.unsuback
        { packetId := u.packetId, reasonCodes := List.replicate u.topics.length 0 })
  | .pingreq => some .pingresp
  | packet => handshakeAnswer packet

/-- An inbound PUBLISH is answered by one packet or none. -/
theorem grows_ackInboundPublish (channel : MqttChannel) (p : PublishPacket) :
    Grows channel (channel.ackInboundPublishPreChain p).1
      ((publishReply p).toList.map .packet) := by
  cases hqos : p.qos with
  | atMostOnce =>
    simp only [MqttChannel.ackInboundPublishPreChain, publishReply, hqos]
    exact .refl channel
  | atLeastOnce =>
    cases hid : p.packetId with
    | none =>
      simp only [MqttChannel.ackInboundPublishPreChain, publishReply, hqos, hid]
      exact .refl channel
    | some id =>
      simp only [MqttChannel.ackInboundPublishPreChain, publishReply, hqos, hid]
      exact .reply channel _
  | exactlyOnce =>
    cases hid : p.packetId with
    | none =>
      simp only [MqttChannel.ackInboundPublishPreChain, publishReply, hqos, hid]
      exact .refl channel
    | some id =>
      simp only [MqttChannel.ackInboundPublishPreChain, publishReply, hqos, hid]
      let qos2Recv := channel.session.qos2Recv.insert id (incomingFromPacket p)
      have hstored : Grows channel
          { channel with session := { channel.session with qos2Recv } } [] :=
        .of_extends (.of_eq rfl rfl rfl) rfl rfl
      exact hstored.trans (.reply _ _)

/-- Acknowledging a PUBLISH stores what a receiver of the handshakes stores. -/
theorem stored_ackInboundPublish {channel : MqttChannel} {receiver : Inbound.Receiver}
    (hstored : ∀ id, channel.session.qos2Recv.lookup id = receiver.stored id) (p : PublishPacket)
    (id : PacketId) :
    (channel.ackInboundPublishPreChain p).1.session.qos2Recv.lookup id =
      (receiver.accept (.publish p)).stored id := by
  cases hqos : p.qos with
  | atMostOnce =>
    simp only [MqttChannel.ackInboundPublishPreChain, Inbound.Receiver.accept, hqos]
    exact hstored id
  | atLeastOnce =>
    cases hid : p.packetId with
    | none =>
      simp only [MqttChannel.ackInboundPublishPreChain, Inbound.Receiver.accept, hqos, hid]
      exact hstored id
    | some acked =>
      simp only [MqttChannel.ackInboundPublishPreChain, Inbound.Receiver.accept, hqos, hid,
        MqttChannel.session_reply]
      exact hstored id
  | exactlyOnce =>
    cases hid : p.packetId with
    | none =>
      simp only [MqttChannel.ackInboundPublishPreChain, Inbound.Receiver.accept, hqos, hid]
      exact hstored id
    | some opened =>
      simp only [MqttChannel.ackInboundPublishPreChain, Inbound.Receiver.accept, hqos, hid,
        MqttChannel.session_reply, Table.lookup_insert_eq, hstored]
      exact (Function.update_apply ..).symm

/-- A party whose writer is alive acknowledges a PUBLISH. -/
theorem acked_of_receiving {channel : MqttChannel} {p : PublishPacket}
    (h : channel.receiving = true) : (channel.ackInboundPublishPreChain p).2 = .ok () := by
  unfold MqttChannel.ackInboundPublishPreChain
  split
  · rw [MqttChannel.reply_of_receiving h]
  · rw [MqttChannel.reply_of_receiving (by exact h)]
  · rfl

section ServerDispatch

variable {store : Store} {connection : ConnectionId} {client : ClientId}
  {surroundings : Surroundings} {packet : Packet} {dispatched : ServerDispatch}

/-- A dispatch on the server enqueues an answer and messages of the fan-out. -/
theorem grows_dispatchServer
    (h : store.dispatchServerInbound connection client surroundings packet = some dispatched) :
    ∃ added, Grows (store.channels connection) (dispatched.store.channels connection) added ∧
      added.filterMap control = (serverAnswer store.broker client packet).toList := by
  have hmessages (messages : List PublishPacket) :
      (messages.map WriteCmd.publish).filterMap control = [] := by
    simp [List.filterMap_map, Function.comp_def, control]
  cases packet with
  | publish p =>
    have hacked := grows_ackInboundPublish (store.channels connection) p
    have hanswer : ((publishReply p).toList.map WriteCmd.packet).filterMap control =
        (publishReply p).toList := by
      cases publishReply p <;> rfl
    simp only [Store.dispatchServerInbound] at h
    split at h
    · obtain rfl := Option.some.inj h
      simp only [Store.setChannel, Function.update_self]
      exact ⟨_, hacked, hanswer⟩
    · split at h
      · obtain rfl := Option.some.inj h
        simp only [Store.setChannel, Function.update_self]
        exact ⟨_, hacked, hanswer⟩
      · obtain ⟨next, hnext, rfl⟩ := Option.map_eq_some_iff.mp h
        obtain ⟨messages, hfanned⟩ := Grows.handOn hnext connection
        simp only [Store.setChannel, Function.update_self] at hfanned
        refine ⟨_, hacked.trans hfanned, ?_⟩
        rw [List.filterMap_append, hanswer, hmessages, List.append_nil]
        rfl
  | pubrel id =>
    simp only [Store.dispatchServerInbound] at h
    split at h
    · obtain rfl := Option.some.inj h
      exact ⟨_, .answer store connection _ _, rfl⟩
    · obtain ⟨next, hnext, rfl⟩ := Option.map_eq_some_iff.mp h
      obtain ⟨messages, hfanned⟩ := Grows.handOn hnext connection
      simp only [Store.setChannel, Function.update_self] at hfanned
      have htaken : Grows (store.channels connection)
          ((store.channels connection).takeStored id) [] :=
        .of_extends (.of_eq rfl rfl rfl) rfl rfl
      refine ⟨_, (htaken.trans hfanned).trans (.answer next connection _ _), ?_⟩
      rw [List.filterMap_append, List.nil_append, hmessages]
      rfl
  | puback id | pubcomp id =>
    obtain rfl := Option.some.inj h
    exact ⟨[], .ackOutbound store.broker client id store.channels connection, rfl⟩
  | subscribe s =>
    let filters : List TopicFilter :=
      s.subscriptions.map fun ts ↦ { filter := ts.topic, qos := ts.qos }
    let broker := (store.broker.subscribe client filters).2
    obtain rfl := Option.some.inj h
    exact ⟨_, .answer { store with broker } connection _ [], rfl⟩
  | unsubscribe u =>
    let broker := store.broker.unsubscribe client u.topics
    obtain rfl := Option.some.inj h
    exact ⟨_, .answer { store with broker } connection _ [], rfl⟩
  | pingreq | pubrec id =>
    obtain rfl := Option.some.inj h
    exact ⟨_, .answer store connection _ _, rfl⟩
  | connect | connack | suback | unsuback | pingresp | disconnect =>
    obtain rfl := Option.some.inj h
    exact ⟨[], .refl _, rfl⟩

/-- The server stores and hands on what a receiver of the handshakes does, whether or not it can
answer. -/
theorem stored_dispatchServer {receiver : Inbound.Receiver}
    (hstored : ∀ id, (store.channels connection).session.qos2Recv.lookup id = receiver.stored id)
    (hsound : Inbound.Sound receiver)
    (h : store.dispatchServerInbound connection client surroundings packet = some dispatched) :
    (∀ id, (dispatched.store.channels connection).session.qos2Recv.lookup id =
        (receiver.accept packet).stored id) ∧
      dispatched.handed.filter (fun m ↦ m.qos = .exactlyOnce) =
        (receiver.releases packet).map Inbound.asPublish := by
  have hhandOn {store next : Store} {message : PublishPacket}
      (h : store.handOn client surroundings message = some next) :
      (next.channels connection).session.qos2Recv =
        (store.channels connection).session.qos2Recv := by
    obtain rfl | ⟨packet, rfl⟩ := Store.exists_of_handOn h
    · rfl
    · exact (publish_frame ..).2
  have hanswer (store : Store) (packet : Packet) (handed : List PublishPacket) :
      ((store.answer connection packet handed).store.channels connection).session =
        (store.channels connection).session := by
    simp only [Store.answer, Store.setChannel, Function.update_self, MqttChannel.session_reply]
  cases packet with
  | publish p =>
    have hacked := stored_ackInboundPublish hstored p
    simp only [Store.dispatchServerInbound] at h
    split at h
    · obtain rfl := Option.some.inj h
      simp only [Store.setChannel, Function.update_self]
      exact ⟨hacked, rfl⟩
    · split at h
      · obtain rfl := Option.some.inj h
        simp only [Store.setChannel, Function.update_self]
        exact ⟨hacked, rfl⟩
      · rename_i hqos
        obtain ⟨next, hnext, rfl⟩ := Option.map_eq_some_iff.mp h
        constructor
        · rw [hhandOn hnext]
          simp only [Store.setChannel, Function.update_self]
          exact hacked
        · simp [hqos, Inbound.Receiver.releases]
  | pubrel id =>
    simp only [Store.dispatchServerInbound] at h
    have herased (id' : PacketId) :
        ((store.channels connection).session.qos2Recv.erase id).lookup id' =
          (receiver.release id).stored id' := by
      rw [Table.lookup_erase_eq, hstored]
      exact (Function.update_apply ..).symm
    simp only [Inbound.Receiver.releases, ← hstored]
    cases hlookup : (store.channels connection).session.qos2Recv.lookup id with
    | none =>
      rw [hlookup] at h
      obtain rfl := Option.some.inj h
      rw [hanswer]
      refine ⟨fun id' ↦ ?_, rfl⟩
      rw [Inbound.Receiver.accept, ← herased, Table.lookup_erase_eq]
      split
      · rename_i hid
        rw [hid, hlookup]
      · rfl
    | some stored =>
      rw [hlookup] at h
      obtain ⟨next, hnext, rfl⟩ := Option.map_eq_some_iff.mp h
      constructor
      · rw [hanswer, hhandOn hnext]
        simp only [Store.setChannel, Function.update_self]
        exact herased
      · rw [hstored] at hlookup
        obtain ⟨hqos, hid⟩ := hsound id stored hlookup
        simp [Store.answer, Store.rebuildPublish, Inbound.asPublish, hqos, hid]
  | puback id | pubcomp id =>
    obtain rfl := Option.some.inj h
    have hframe := store.broker.ackOutbound_frame client id store.channels connection
    refine ⟨fun id' ↦ ?_, rfl⟩
    exact (congrArg (Finmap.lookup id') hframe.2.2).trans (hstored id')
  | subscribe | unsubscribe | pingreq | pubrec =>
    obtain rfl := Option.some.inj h
    rw [hanswer]
    exact ⟨hstored, rfl⟩
  | connect | connack | suback | unsuback | pingresp | disconnect =>
    obtain rfl := Option.some.inj h
    exact ⟨hstored, rfl⟩

/-- The message of a PUBLISH that is handed on at once. -/
def direct : Packet → Option PublishPacket
  | .publish p => if p.qos = .exactlyOnce then none else some p
  | _ => none

/-- The server hands a message on at once unless it fails to acknowledge it. -/
theorem direct_dispatchServer
    (hstored : ∀ id message, (store.channels connection).session.qos2Recv.lookup id = some message →
      message.qos = .exactlyOnce)
    (h : store.dispatchServerInbound connection client surroundings packet = some dispatched) :
    let handed := dispatched.handed.filter (fun m ↦ m.qos ≠ .exactlyOnce)
    handed = (direct packet).toList ∨
      handed = [] ∧ dispatched.result.isOk = false ∧
        (store.channels connection).receiving = false := by
  intro handed
  cases packet with
  | publish p =>
    simp only [Store.dispatchServerInbound] at h
    split at h
    · rename_i hfailed
      obtain rfl := Option.some.inj h
      refine .inr ⟨rfl, rfl, Bool.eq_false_of_not_eq_true fun hreceiving ↦ ?_⟩
      rw [acked_of_receiving hreceiving] at hfailed
      cases hfailed
    · split at h
      · rename_i hqos
        obtain rfl := Option.some.inj h
        exact .inl (by simp [handed, direct, hqos])
      · rename_i hqos
        obtain ⟨next, hnext, rfl⟩ := Option.map_eq_some_iff.mp h
        exact .inl (by simp [handed, direct, hqos])
  | pubrel id =>
    have hnone : handed = [] := by
      simp only [Store.dispatchServerInbound] at h
      split at h
      · obtain rfl := Option.some.inj h
        rfl
      · rename_i stored hlookup
        obtain ⟨next, hnext, rfl⟩ := Option.map_eq_some_iff.mp h
        simp [handed, Store.answer, Store.rebuildPublish, hstored id stored hlookup]
    exact .inl hnone
  | _ =>
    obtain rfl := Option.some.inj h
    exact .inl rfl

end ServerDispatch

section ClientDispatch

variable {channel : MqttChannel} {packet : Packet}

/-- A dispatch on the client enqueues an answer. -/
theorem extends_dispatchClient (channel : MqttChannel) (packet : Packet) :
    Extends channel (channel.dispatchClientInbound packet).channel
      ((handshakeAnswer packet).toList.map .packet) := by
  cases packet with
  | publish p =>
    have hacked := (grows_ackInboundPublish channel p).toExtends
    simp only [MqttChannel.dispatchClientInbound]
    split
    · exact hacked
    · split <;> exact hacked
  | pubrec id =>
    have hfired : Extends channel
        { channel with session := (channel.session.fireAck id .pubrec).2 } [] :=
      .of_eq rfl rfl rfl
    exact hfired.trans (.reply _ _)
  | pubrel id =>
    simp only [MqttChannel.dispatchClientInbound]
    split
    · exact .reply channel _
    · have htaken : Extends channel (channel.takeStored id) [] := .of_eq rfl rfl rfl
      exact htaken.trans (.reply _ _)
  | _ => exact .of_eq rfl rfl rfl

/-- The client stores and hands on what a receiver of the handshakes does. -/
theorem stored_dispatchClient {receiver : Inbound.Receiver}
    (hstored : ∀ id, channel.session.qos2Recv.lookup id = receiver.stored id)
    (hsound : Inbound.Sound receiver) (packet : Packet) :
    (∀ id, (channel.dispatchClientInbound packet).channel.session.qos2Recv.lookup id =
        (receiver.accept packet).stored id) ∧
      (channel.dispatchClientInbound packet).handed.filter (fun m ↦ m.qos = .exactlyOnce) =
        receiver.releases packet := by
  cases packet with
  | publish p =>
    have hacked := stored_ackInboundPublish hstored p
    simp only [MqttChannel.dispatchClientInbound]
    split
    · exact ⟨hacked, rfl⟩
    · split
      · exact ⟨hacked, rfl⟩
      · rename_i hqos
        refine ⟨hacked, ?_⟩
        simp [incomingFromPacket, hqos, Inbound.Receiver.releases]
  | pubrec id =>
    simp only [MqttChannel.dispatchClientInbound, MqttChannel.session_answer]
    exact ⟨hstored, rfl⟩
  | pubrel id =>
    have herased (id' : PacketId) : (channel.session.qos2Recv.erase id).lookup id' =
        (receiver.release id).stored id' := by
      rw [Table.lookup_erase_eq, hstored]
      exact (Function.update_apply ..).symm
    simp only [MqttChannel.dispatchClientInbound, Inbound.Receiver.releases, ← hstored]
    cases hlookup : channel.session.qos2Recv.lookup id with
    | none =>
      rw [MqttChannel.session_answer]
      refine ⟨fun id' ↦ ?_, rfl⟩
      rw [Inbound.Receiver.accept, ← herased, Table.lookup_erase_eq]
      split
      · rename_i hid
        rw [hid, hlookup]
      · rfl
    | some stored =>
      rw [MqttChannel.session_answer]
      refine ⟨herased, ?_⟩
      rw [hstored] at hlookup
      simp [MqttChannel.answer, (hsound id stored hlookup).1]
  | _ => exact ⟨hstored, rfl⟩

/-- The client hands a message on at once unless it fails to acknowledge it. -/
theorem direct_dispatchClient
    (hstored : ∀ id message, channel.session.qos2Recv.lookup id = some message →
      message.qos = .exactlyOnce) (packet : Packet) :
    let dispatched := channel.dispatchClientInbound packet
    let handed := dispatched.handed.filter (fun m ↦ m.qos ≠ .exactlyOnce)
    handed = (direct packet).toList.map incomingFromPacket ∨
      handed = [] ∧ dispatched.result.isOk = false := by
  intro dispatched handed
  cases packet with
  | publish p =>
    simp only [handed, dispatched, MqttChannel.dispatchClientInbound]
    split
    · exact .inr ⟨rfl, rfl⟩
    · split
      · rename_i hqos
        exact .inl (by simp [direct, hqos])
      · rename_i hqos
        exact .inl (by simp [direct, hqos, incomingFromPacket])
  | pubrel id =>
    have hnone : handed = [] := by
      simp only [handed, dispatched, MqttChannel.dispatchClientInbound]
      split
      · rfl
      · rename_i stored hlookup
        simp [MqttChannel.answer, hstored id stored hlookup]
    exact .inl hnone
  | _ => exact .inl rfl

end ClientDispatch

end HotaruMqtt.Link

import HotaruMqtt.Broker.Reference

/-!
# Inbound dispatch

What the server and the client do with one packet that was read from the wire. The endpoints that
match a topic are found by the framework and run user code: each dispatch takes the list of those
it meets, in order, and an endpoint is a function on the message it is given. A packet that cannot
be answered stops the dispatch with an error, and what was done before stays done.
-/

namespace HotaruMqtt

open Library

namespace MqttChannel

/-- `send_packet` under `?`. -/
def reply (channel : MqttChannel) (packet : Packet) : MqttChannel × Except MqttError Unit :=
  match channel.sendPacket packet with
  | .ok channel => (channel, .ok ())
  | .error reason => (channel, .error reason)

/-- A reply changes nothing but the queue, and fails where it cannot be enqueued. -/
theorem reply_eq (channel : MqttChannel) (packet : Packet) :
    channel.reply packet =
      ({ channel with
          commands := channel.commands ++ if channel.receiving then [.packet packet] else [] },
        if channel.receiving then .ok () else .error .channelClosed) := by
  unfold reply
  split
  · rename_i sent hsend
    obtain ⟨hreceiving, rfl⟩ := of_send_eq_ok hsend
    rw [if_pos hreceiving, if_pos hreceiving]
  · rename_i reason hsend
    obtain ⟨hreceiving, rfl⟩ := of_send_eq_error hsend
    have hnot : ¬ channel.receiving = true := by
      rw [hreceiving]
      exact Bool.false_ne_true
    rw [if_neg hnot, if_neg hnot, List.append_nil]

/-- Acknowledge a PUBLISH before its message is handed on. A message of QoS 2 is stored until its
PUBREL arrives. -/
def ackInboundPublishPreChain (channel : MqttChannel) (publish : PublishPacket) :
    MqttChannel × Except MqttError Unit :=
  match publish.qos, publish.packetId with
  | .atLeastOnce, some id => channel.reply (.puback id)
  | .exactlyOnce, some id =>
      let qos2Recv := channel.session.qos2Recv.insert id (incomingFromPacket publish)
      { channel with session := { channel.session with qos2Recv } }.reply (.pubrec id)
  | _, _ => (channel, .ok ())

def takeStored (channel : MqttChannel) (id : PacketId) : MqttChannel :=
  { channel with
    session := { channel.session with qos2Recv := channel.session.qos2Recv.erase id } }

end MqttChannel

/-- What an endpoint leaves in its context. -/
structure ChainOutcome where
  shouldFanout : Bool
  incoming : Option IncomingPublish

/-- An endpoint fails or leaves a context. -/
abbrev Endpoint := IncomingPublish → Option ChainOutcome

/-- The fields that the chain may change. -/
def propagate (current : PublishPacket) (incoming : IncomingPublish) : PublishPacket :=
  { current with
    properties := incoming.properties
    topic := incoming.topic
    payload := incoming.payload
    qos := incoming.qos
    retain := incoming.retain }

/-- The loop of `run_server_chain_then_decide_fanout`. -/
def runChain : List Endpoint → Bool → PublishPacket → Option PublishPacket
  | [], fanout, current => if fanout then some current else none
  | endpoint :: endpoints, fanout, current =>
      match endpoint (incomingFromPacket current) with
      | some outcome =>
          runChain endpoints (fanout && outcome.shouldFanout)
            (outcome.incoming.elim current (propagate current))
      | none => runChain endpoints false current

def runServerChainThenDecideFanout (endpoints : List Endpoint) (publish : PublishPacket) :
    Option PublishPacket :=
  runChain endpoints true publish

/-- What the surroundings contribute to a dispatch: the endpoints that match, and the order in
which a fan-out meets the subscriptions. -/
structure Surroundings where
  endpoints : List Endpoint
  order : List (ClientId × QoS)

/-- The effect of a dispatch on the server, with the messages handed to the chain. -/
structure ServerDispatch where
  store : Store
  handed : List PublishPacket
  result : Except MqttError Unit

namespace Store

def setChannel (store : Store) (connection : ConnectionId) (channel : MqttChannel) : Store :=
  { store with channels := Function.update store.channels connection channel }

/-- Answer the peer at the end of a dispatch. -/
def answer (store : Store) (connection : ConnectionId) (packet : Packet)
    (handed : List PublishPacket) : ServerDispatch :=
  let (channel, result) := (store.channels connection).reply packet
  { store := store.setChannel connection channel, handed, result }

/-- Run the chain on a message and publish what it lets through. -/
def handOn (store : Store) (client : ClientId) (surroundings : Surroundings)
    (publish : PublishPacket) : Option Store :=
  (store.broker.publishOption client surroundings.order store.channels
    (runServerChainThenDecideFanout surroundings.endpoints publish)).map
      fun (_, channels) ↦ { store with channels }

/-- Handing a message on changes no more than a fan-out does. -/
theorem exists_of_handOn {store next : Store} {client : ClientId} {surroundings : Surroundings}
    {publish : PublishPacket} (h : store.handOn client surroundings publish = some next) :
    next = store ∨ ∃ packet, next = { store with
      channels := (store.broker.publish client packet surroundings.order store.channels).2 } := by
  obtain ⟨published, hpublished, rfl⟩ := Option.map_eq_some_iff.mp h
  unfold Broker.publishOption at hpublished
  split at hpublished
  · split at hpublished
    · obtain rfl := Option.some.inj hpublished
      exact .inl rfl
    · cases hpublished
  · rename_i packet _
    split at hpublished
    · obtain rfl := Option.some.inj hpublished
      exact .inr ⟨packet, rfl⟩
    · cases hpublished

/-- The packet that is handed on when the PUBREL of a stored message arrives. -/
def rebuildPublish (stored : IncomingPublish) (id : PacketId) : PublishPacket :=
  { properties := stored.properties, topic := stored.topic, payload := stored.payload, dup := false
    qos := stored.qos, retain := stored.retain, packetId := some id }

/-- `dispatch_server_inbound`. It is not defined for an order in which a fan-out cannot meet the
subscriptions. -/
def dispatchServerInbound (store : Store) (connection : ConnectionId) (client : ClientId)
    (surroundings : Surroundings) : Packet → Option ServerDispatch
  | .publish publish =>
      let (channel, acked) := (store.channels connection).ackInboundPublishPreChain publish
      let store := store.setChannel connection channel
      match acked with
      | .error reason => some { store, handed := [], result := .error reason }
      | .ok () =>
          if publish.qos = .exactlyOnce then some { store, handed := [], result := .ok () }
          else (store.handOn client surroundings publish).map fun store ↦
            { store, handed := [publish], result := .ok () }
  | .subscribe s =>
      let filters := s.subscriptions.map fun ts ↦ { filter := ts.topic, qos := ts.qos }
      let (codes, broker) := store.broker.subscribe client filters
      let store := { store with broker }
      some (store.answer connection
        (.suback { packetId := s.packetId, returnCodes := codes }) [])
  | .unsubscribe u =>
      let store := { store with broker := store.broker.unsubscribe client u.topics }
      some (store.answer connection
        (.unsuback { packetId := u.packetId, reasonCodes := List.replicate u.topics.length 0 }) [])
  | .pingreq => some (store.answer connection .pingresp [])
  | .puback id | .pubcomp id =>
      let (_, channels) := store.broker.ackOutbound client id store.channels
      some { store := { store with channels }, handed := [], result := .ok () }
  | .pubrec id => some (store.answer connection (.pubrel id) [])
  | .pubrel id =>
      let channel := store.channels connection
      match channel.session.qos2Recv.lookup id with
      | none => some (store.answer connection (.pubcomp id) [])
      | some stored =>
          let store := store.setChannel connection (channel.takeStored id)
          let publish := rebuildPublish stored id
          (store.handOn client surroundings publish).map fun store ↦
            store.answer connection (.pubcomp id) [publish]
  | .connect _ =>
      some { store, handed := [], result := .error (.protocol .sessionAlreadyBound) }
  | .connack _ | .suback _ | .unsuback _ | .pingresp | .disconnect =>
      some { store, handed := [], result := .ok () }

end Store

/-- The effect of a dispatch on the client: the messages handed to the endpoints, the operation
that was answered, and whether the loop ends. -/
structure ClientDispatch where
  channel : MqttChannel
  handed : List IncomingPublish
  answered : Option Waiter
  result : Except MqttError Bool

namespace MqttChannel

/-- Answer the peer at the end of a dispatch, and go on. -/
def answer (channel : MqttChannel) (packet : Packet) (handed : List IncomingPublish)
    (answered : Option Waiter) : ClientDispatch :=
  let (channel, result) := channel.reply packet
  { channel, handed, answered, result := result.map fun _ ↦ false }

/-- Deliver an acknowledgement that also ends the flight of a packet. -/
def settle (channel : MqttChannel) (id : PacketId) (kind : AckKind) : ClientDispatch :=
  let (answered, session) := channel.session.fireAck id kind
  let session := { session with outboundInflight := session.outboundInflight.erase id }
  { channel := { channel with session }, handed := [], answered, result := .ok false }

def dispatchClientInbound (channel : MqttChannel) : Packet → ClientDispatch
  | .publish publish =>
      let (channel, acked) := channel.ackInboundPublishPreChain publish
      match acked with
      | .error reason => { channel, handed := [], answered := none, result := .error reason }
      | .ok () =>
          if publish.qos = .exactlyOnce then
            { channel, handed := [], answered := none, result := .ok false }
          else
            { channel, handed := [incomingFromPacket publish], answered := none
              result := .ok false }
  | .puback id => channel.settle id .puback
  | .pubrec id =>
      let (answered, session) := channel.session.fireAck id .pubrec
      { channel with session }.answer (.pubrel id) [] answered
  | .pubcomp id => channel.settle id .pubcomp
  | .pubrel id =>
      match channel.session.qos2Recv.lookup id with
      | none => channel.answer (.pubcomp id) [] none
      | some stored => (channel.takeStored id).answer (.pubcomp id) [stored] none
  | .suback s =>
      let (answered, session) := channel.session.fireSuback s.packetId
      { channel := { channel with session }, handed := [], answered, result := .ok false }
  | .unsuback u =>
      let (answered, session) := channel.session.fireUnsuback u.packetId
      { channel := { channel with session }, handed := [], answered, result := .ok false }
  | .disconnect => { channel, handed := [], answered := none, result := .ok true }
  | .pingresp | .connect _ | .connack _ | .subscribe _ | .unsubscribe _ | .pingreq =>
      { channel, handed := [], answered := none, result := .ok false }

end MqttChannel

/-! ## Pending acknowledgements -/

/-- The packet acknowledges what the slot under the identifier waits for. -/
inductive Acknowledges : Packet → PacketId → AckSlot → Prop where
  | puback (id : PacketId) (op : Waiter) : Acknowledges (.puback id) id (.puback op)
  | pubrec (id : PacketId) (op : Waiter) : Acknowledges (.pubrec id) id (.pubrec op)
  | pubcomp (id : PacketId) (op : Waiter) : Acknowledges (.pubcomp id) id (.pubcomp op)
  | suback (s : SubackPacket) (op : Waiter) : Acknowledges (.suback s) s.packetId (.suback op)
  | unsuback (u : UnsubackPacket) (op : Waiter) :
      Acknowledges (.unsuback u) u.packetId (.unsuback op)

theorem Acknowledges.id_unique {packet : Packet} {id id' : PacketId} {slot slot' : AckSlot}
    (h : Acknowledges packet id slot) (h' : Acknowledges packet id' slot') : id = id' := by
  cases h <;> cases h' <;> rfl

/-- What a dispatch may do to the pending acknowledgements: it takes slots out, and answers the
operation behind a slot which the packet acknowledges. -/
structure DispatchesAcks (session : MqttSession) (packet : Packet) (next : MqttSession)
    (answered : Option Waiter) : Prop where
  counter : next.pktCounter = session.pktCounter
  kept : ∀ id slot, next.pendingAcks.lookup id = some slot →
    session.pendingAcks.lookup id = some slot
  acknowledged : ∀ op, answered = some op → ∃ id slot,
    session.pendingAcks.lookup id = some slot ∧ slot.waiter = op ∧ Acknowledges packet id slot

namespace MqttSession

/-- A waiter is taken from a slot of the expected kind. -/
theorem exists_of_takeSlot {expected : AckSlot → Bool} {session : MqttSession} {id : PacketId}
    {op : Waiter} (h : (session.takeSlot expected id).1 = some op) :
    ∃ slot, session.pendingAcks.lookup id = some slot ∧ slot.waiter = op ∧
      expected slot = true := by
  simp only [takeSlot] at h
  split at h
  · rename_i slot hslot
    split at h
    · exact ⟨slot, hslot, Option.some.inj h, ‹_›⟩
    · cases h
  · cases h

/-- Taking a slot answers its waiter and touches no other slot. -/
theorem dispatchesAcks_takeSlot {expected : AckSlot → Bool} (session : MqttSession)
    {packet : Packet} {id : PacketId}
    (h : ∀ slot, expected slot = true → Acknowledges packet id slot) :
    DispatchesAcks session packet (session.takeSlot expected id).2
      (session.takeSlot expected id).1 where
  counter := rfl
  kept id' slot hslot := by
    simp only [takeSlot, Table.lookup_erase_eq] at hslot
    split at hslot
    · cases hslot
    · exact hslot
  acknowledged op hop := by
    obtain ⟨slot, hslot, hwaiter, hexpected⟩ := exists_of_takeSlot hop
    exact ⟨id, slot, hslot, hwaiter, h slot hexpected⟩

/-- The packet of each kind of acknowledgement. -/
def ackPacket (id : PacketId) : AckKind → Packet
  | .puback => .puback id
  | .pubrec => .pubrec id
  | .pubcomp => .pubcomp id

theorem dispatchesAcks_fireAck (session : MqttSession) (id : PacketId) (kind : AckKind) :
    DispatchesAcks session (ackPacket id kind) (session.fireAck id kind).2
      (session.fireAck id kind).1 := by
  apply dispatchesAcks_takeSlot
  intro slot hexpected
  split at hexpected
  · exact .puback id _
  · exact .pubrec id _
  · exact .pubcomp id _
  · cases hexpected

theorem dispatchesAcks_fireSuback (session : MqttSession) (s : SubackPacket) :
    DispatchesAcks session (.suback s) (session.fireSuback s.packetId).2
      (session.fireSuback s.packetId).1 := by
  apply dispatchesAcks_takeSlot
  intro slot hexpected
  split at hexpected
  · exact .suback s _
  · cases hexpected

theorem dispatchesAcks_fireUnsuback (session : MqttSession) (u : UnsubackPacket) :
    DispatchesAcks session (.unsuback u) (session.fireUnsuback u.packetId).2
      (session.fireUnsuback u.packetId).1 := by
  apply dispatchesAcks_takeSlot
  intro slot hexpected
  split at hexpected
  · exact .unsuback u _
  · cases hexpected

end MqttSession

theorem DispatchesAcks.of_untouched {session next : MqttSession} (packet : Packet)
    (hcounter : next.pktCounter = session.pktCounter)
    (hacks : next.pendingAcks = session.pendingAcks) : DispatchesAcks session packet next none where
  counter := hcounter
  kept id slot hslot := hacks ▸ hslot
  acknowledged op hop := by cases hop

namespace MqttChannel

@[simp]
theorem session_reply (channel : MqttChannel) (packet : Packet) :
    (channel.reply packet).1.session = channel.session := by
  rw [reply_eq]

/-- A reply is enqueued while the writer receives. -/
theorem commands_reply (channel : MqttChannel) (packet : Packet) :
    (channel.reply packet).1.commands =
      channel.commands ++ if channel.receiving then [.packet packet] else [] := by
  rw [reply_eq]

theorem receiving_reply (channel : MqttChannel) (packet : Packet) :
    (channel.reply packet).1.receiving = channel.receiving := by
  rw [reply_eq]

theorem version_reply (channel : MqttChannel) (packet : Packet) :
    (channel.reply packet).1.version = channel.version := by
  rw [reply_eq]

theorem reply_of_receiving {channel : MqttChannel} (h : channel.receiving = true)
    (packet : Packet) :
    channel.reply packet =
      ({ channel with commands := channel.commands ++ [.packet packet] }, .ok ()) := by
  rw [reply_eq, if_pos h, if_pos h]

/-- A reply fails exactly if the writer is gone. -/
theorem reply_ok_iff (channel : MqttChannel) (packet : Packet) :
    (channel.reply packet).2 = .ok () ↔ channel.receiving = true := by
  rw [reply_eq]
  cases channel.receiving <;> simp

@[simp]
theorem session_answer (channel : MqttChannel) (packet : Packet) (handed : List IncomingPublish)
    (answered : Option Waiter) :
    (channel.answer packet handed answered).channel.session = channel.session :=
  session_reply channel packet

/-- Acknowledging a PUBLISH leaves the own operations alone. -/
theorem ackInboundPublishPreChain_frame (channel : MqttChannel) (publish : PublishPacket) :
    (channel.ackInboundPublishPreChain publish).1.session.pktCounter =
        channel.session.pktCounter ∧
      (channel.ackInboundPublishPreChain publish).1.session.pendingAcks =
        channel.session.pendingAcks ∧
      (channel.ackInboundPublishPreChain publish).1.session.outboundInflight =
        channel.session.outboundInflight := by
  unfold ackInboundPublishPreChain
  split <;> simp

/-- Acknowledging a PUBLISH enqueues at most an acknowledgement. -/
theorem commands_ackInboundPublishPreChain (channel : MqttChannel) (publish : PublishPacket) :
    ∃ added, (channel.ackInboundPublishPreChain publish).1.commands = channel.commands ++ added ∧
      ∀ cmd ∈ added, ∃ id, cmd = .packet (.puback id) ∨ cmd = .packet (.pubrec id) := by
  unfold ackInboundPublishPreChain
  split
  · rename_i id _ _
    refine ⟨_, commands_reply .., ?_⟩
    intro cmd hmem
    split at hmem
    · exact ⟨id, .inl (List.mem_singleton.mp hmem)⟩
    · cases hmem
  · rename_i id _ _
    refine ⟨_, commands_reply .., ?_⟩
    intro cmd hmem
    split at hmem
    · exact ⟨id, .inr (List.mem_singleton.mp hmem)⟩
    · cases hmem
  · refine ⟨[], (List.append_nil _).symm, ?_⟩
    intro cmd hmem
    cases hmem

/-- The dispatcher of the client answers at most the waiter that is acknowledged. -/
theorem dispatchesAcks_dispatchClientInbound (channel : MqttChannel) (packet : Packet) :
    DispatchesAcks channel.session packet (channel.dispatchClientInbound packet).channel.session
      (channel.dispatchClientInbound packet).answered := by
  cases packet with
  | publish publish =>
    obtain ⟨hcounter, hacks, _⟩ := ackInboundPublishPreChain_frame channel publish
    simp only [dispatchClientInbound]
    split
    · exact .of_untouched _ hcounter hacks
    · split
      · exact .of_untouched _ hcounter hacks
      · exact .of_untouched _ hcounter hacks
  | puback id =>
    have hfire := channel.session.dispatchesAcks_fireAck id .puback
    exact ⟨hfire.counter, hfire.kept, hfire.acknowledged⟩
  | pubcomp id =>
    have hfire := channel.session.dispatchesAcks_fireAck id .pubcomp
    exact ⟨hfire.counter, hfire.kept, hfire.acknowledged⟩
  | pubrec id =>
    simp only [dispatchClientInbound, session_answer]
    exact channel.session.dispatchesAcks_fireAck id .pubrec
  | pubrel id =>
    simp only [dispatchClientInbound]
    split
    · rw [session_answer]
      exact .of_untouched _ rfl rfl
    · rw [session_answer]
      exact .of_untouched _ rfl rfl
  | suback s => exact channel.session.dispatchesAcks_fireSuback s
  | unsuback u => exact channel.session.dispatchesAcks_fireUnsuback u
  | pingresp | connect | connack | subscribe | unsubscribe | pingreq | disconnect =>
    exact .of_untouched _ rfl rfl

end MqttChannel

def published : WriteCmd → Option PublishPacket
  | .publish packet | .packet (.publish packet) => some packet
  | _ => none

namespace MqttChannel

theorem published_reply (channel : MqttChannel) {packet : Packet}
    (hpacket : published (.packet packet) = none) :
    (channel.reply packet).1.commands.filterMap published =
      channel.commands.filterMap published := by
  rw [commands_reply, List.filterMap_append]
  split
  · rw [List.filterMap_cons_none hpacket, List.filterMap_nil, List.append_nil]
  · exact List.append_nil _

theorem receiving_ackInboundPublishPreChain (channel : MqttChannel) (publish : PublishPacket) :
    (channel.ackInboundPublishPreChain publish).1.receiving = channel.receiving := by
  unfold ackInboundPublishPreChain
  split
  · exact receiving_reply ..
  · exact receiving_reply ..
  · rfl

theorem published_ackInboundPublishPreChain (channel : MqttChannel) (publish : PublishPacket) :
    (channel.ackInboundPublishPreChain publish).1.commands.filterMap published =
      channel.commands.filterMap published := by
  unfold ackInboundPublishPreChain
  split
  · exact published_reply channel rfl
  · exact published_reply _ rfl
  · rfl

end MqttChannel

namespace Store

/-- What the fan-out of a message, if there is one, adds to the queue of a connection. -/
def fannedOut (store : Store) (source : ClientId) (order : List (ClientId × QoS))
    (connection : ConnectionId) : Option PublishPacket → List PublishPacket
  | none => []
  | some packet =>
      if (store.channels connection).receiving then
        ((store.broker.publish source packet order store.channels).1.filter
          fun delivery ↦ delivery.connection = connection).map Delivery.packet
      else []

/-- What is handed on goes through the chain. What the chain lets through is published to the
subscriptions that match it, and no queue receives any other message. -/
structure HandsOn (store : Store) (client : ClientId) (surroundings : Surroundings)
    (handed : Option PublishPacket) (next : Store) : Prop where
  order : ∀ packet ∈ handed.bind (runServerChainThenDecideFanout surroundings.endpoints),
    store.broker.IsOrder packet surroundings.order
  queues : ∀ connection, (next.channels connection).commands.filterMap published =
    (store.channels connection).commands.filterMap published ++
      store.fannedOut client surroundings.order connection
        (handed.bind (runServerChainThenDecideFanout surroundings.endpoints))

/-- The queues hold the same messages, and a fan-out does the same on both stores. -/
structure Quiet (store next : Store) : Prop where
  published : ∀ connection, (next.channels connection).commands.filterMap published =
    (store.channels connection).commands.filterMap published
  receiving : ∀ connection,
    (next.channels connection).receiving = (store.channels connection).receiving
  counter : ∀ connection, (next.channels connection).session.pktCounter =
    (store.channels connection).session.pktCounter

section Quiet

variable {store next last : Store} {client : ClientId} {connection : ConnectionId}
  {surroundings : Surroundings} {handed : Option PublishPacket}

/-- A channel that publishes nothing more is a quiet change. -/
theorem quiet_setChannel {channel : MqttChannel}
    (hpublished : channel.commands.filterMap HotaruMqtt.published =
      (store.channels connection).commands.filterMap HotaruMqtt.published)
    (hreceiving : channel.receiving = (store.channels connection).receiving)
    (hcounter : channel.session.pktCounter = (store.channels connection).session.pktCounter) :
    Quiet store (store.setChannel connection channel) := by
  have hall (other : ConnectionId) : (store.setChannel connection channel).channels other =
      if other = connection then channel else store.channels other := Function.update_apply ..
  constructor <;>
  · intro other
    rw [hall]
    split
    · rename_i heq
      subst heq
      assumption
    · rfl

theorem quiet_answer {packet : Packet} (hpacket : HotaruMqtt.published (.packet packet) = none)
    (handed : List PublishPacket) : Quiet store (store.answer connection packet handed).store :=
  quiet_setChannel (MqttChannel.published_reply _ hpacket) (MqttChannel.receiving_reply ..)
    (congrArg MqttSession.pktCounter (MqttChannel.session_reply ..))

theorem Quiet.of_channels {other : Store} (h : Quiet other next)
    (hchannels : other.channels = store.channels) : Quiet store next := by
  constructor
  · rw [← hchannels]
    exact h.published
  · rw [← hchannels]
    exact h.receiving
  · rw [← hchannels]
    exact h.counter

/-- A quiet step hands nothing on. -/
theorem Quiet.handsOn (h : Quiet store next) : HandsOn store client surroundings none next := by
  constructor
  · intro packet hpacket
    cases hpacket
  · intro connection
    exact (h.published connection).trans (List.append_nil _).symm

/-- What follows quietly changes nothing of what was handed on. -/
theorem HandsOn.quiet (h : HandsOn store client surroundings handed next)
    (hquiet : Quiet next last) : HandsOn store client surroundings handed last where
  order := h.order
  queues connection := (hquiet.published connection).trans (h.queues connection)

/-- A message is handed on after the handshake was attended to. -/
theorem Quiet.handOn (h : Quiet store next) (hbroker : next.broker = store.broker)
    {message : PublishPacket} (hlast : next.handOn client surroundings message = some last) :
    HandsOn store client surroundings (some message) last := by
  obtain ⟨⟨deliveries, channels⟩, hpublished, rfl⟩ := Option.map_eq_some_iff.mp hlast
  cases hchain : runServerChainThenDecideFanout surroundings.endpoints message with
  | none =>
    rw [hchain, Broker.publishOption, Option.ite_none_right_eq_some] at hpublished
    obtain ⟨-, hpublished⟩ := hpublished
    obtain rfl : next.channels = channels := congrArg Prod.snd (Option.some.inj hpublished)
    constructor
    · intro packet hpacket
      rw [Option.bind_some, hchain] at hpacket
      cases hpacket
    · intro connection
      rw [Option.bind_some, hchain]
      exact (h.published connection).trans (List.append_nil _).symm
  | some packet =>
    rw [hchain, Broker.publishOption, Option.ite_none_right_eq_some, hbroker] at hpublished
    obtain ⟨horder, hpublished⟩ := hpublished
    obtain rfl : _ = channels := congrArg Prod.snd (Option.some.inj hpublished)
    constructor
    · intro packet' hpacket
      rw [Option.bind_some, hchain] at hpacket
      obtain rfl := Option.some.inj hpacket
      exact horder
    · intro connection
      rw [Option.bind_some, hchain]
      dsimp only
      rw [publish_commands, List.filterMap_append, h.published, h.receiving,
        publish_congr _ _ _ _ h.counter, fannedOut]
      split
      · rw [List.filterMap_map]
        exact congrArg _ (congrFun List.filterMap_eq_map _)
      · rfl

end Quiet

/-- A dispatch hands at most one message on. -/
theorem handsOn_dispatch {store : Store} {connection : ConnectionId} {client : ClientId}
    {surroundings : Surroundings} {packet : Packet} {dispatched : ServerDispatch}
    (h : store.dispatchServerInbound connection client surroundings packet = some dispatched) :
    ∃ handed : Option PublishPacket, dispatched.handed = handed.toList ∧
      HandsOn store client surroundings handed dispatched.store := by
  cases packet with
  | publish publish =>
    have hacked : Quiet store (store.setChannel connection
        ((store.channels connection).ackInboundPublishPreChain publish).1) :=
      quiet_setChannel (MqttChannel.published_ackInboundPublishPreChain ..)
        (MqttChannel.receiving_ackInboundPublishPreChain ..)
        (MqttChannel.ackInboundPublishPreChain_frame ..).1
    simp only [dispatchServerInbound] at h
    split at h
    · obtain rfl := Option.some.inj h
      exact ⟨none, rfl, hacked.handsOn⟩
    · split at h
      · obtain rfl := Option.some.inj h
        exact ⟨none, rfl, hacked.handsOn⟩
      · obtain ⟨next, hnext, rfl⟩ := Option.map_eq_some_iff.mp h
        exact ⟨some publish, rfl, hacked.handOn rfl hnext⟩
  | pubrel id =>
    simp only [dispatchServerInbound] at h
    split at h
    · obtain rfl := Option.some.inj h
      exact ⟨none, rfl, (quiet_answer rfl []).handsOn⟩
    · obtain ⟨next, hnext, rfl⟩ := Option.map_eq_some_iff.mp h
      have htaken : Quiet store (store.setChannel connection
          ((store.channels connection).takeStored id)) := quiet_setChannel rfl rfl rfl
      exact ⟨some _, rfl, (htaken.handOn rfl hnext).quiet (quiet_answer rfl _)⟩
  | subscribe | unsubscribe | pingreq | pubrec =>
    obtain rfl := Option.some.inj h
    refine ⟨none, rfl, Quiet.handsOn (.of_channels (quiet_answer rfl []) ?_)⟩
    rfl
  | puback id | pubcomp id =>
    obtain rfl := Option.some.inj h
    refine ⟨none, rfl, ?_, ?_⟩
    · intro packet hpacket
      cases hpacket
    · intro other
      have hcommands := (store.broker.ackOutbound_frame client id store.channels other).1
      exact (congrArg (List.filterMap published) hcommands).trans (List.append_nil _).symm
  | connect | connack | suback | unsuback | pingresp | disconnect =>
    obtain rfl := Option.some.inj h
    exact ⟨none, rfl, Quiet.handsOn ⟨fun _ ↦ rfl, fun _ ↦ rfl, fun _ ↦ rfl⟩⟩

end Store

end HotaruMqtt

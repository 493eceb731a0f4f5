import HotaruMqtt.Session.Channel
import HotaruMqtt.Wire.Topic

/-!
# The broker

The broker keeps a table of sessions by client identifier and, apart from it, a tree of
subscriptions by filter. Channels are shared with the connections that own them, so an entry names
its channel and the channels themselves live outside the broker. The maps are iterated in an order
that the code does not fix: `publish` takes the order in which it meets the matching
subscriptions.
-/

namespace HotaruMqtt

open Library

abbrev ClientId := String

/-- Names a connection and the channel it owns. -/
abbrev ConnectionId := ℕ

abbrev Channels := ConnectionId → MqttChannel

structure TopicFilter where
  filter : String
  qos : QoS
  deriving DecidableEq

structure WillMessage where
  topic : String
  payload : Bytes
  qos : QoS
  retain : Bool
  deriving DecidableEq

/-- The filters stored in an entry are written and never read. -/
structure SubscriberEntry where
  channel : ConnectionId
  filters : Table String QoS
  will : Option WillMessage
  cleanSession : Bool

/-- For every filter the clients that subscribed to it, with their QoS. -/
abbrev SubscriptionTree := Index String ClientId QoS

namespace SubscriptionTree

def subscribe (tree : SubscriptionTree) (client : ClientId) (filter : String) (qos : QoS) :
    SubscriptionTree :=
  Index.put tree filter client qos

def unsubscribe (tree : SubscriptionTree) (client : ClientId) (filter : String) :
    SubscriptionTree :=
  Index.remove tree filter client

def removeClient (tree : SubscriptionTree) (client : ClientId) : SubscriptionTree :=
  Index.removeAll tree client

/-- The subscriptions that match a topic, in no particular order. -/
def matching (tree : SubscriptionTree) (topic : String) : Multiset (ClientId × QoS) :=
  Index.select tree fun filter ↦ Topic.filterMatches filter (Topic.segments topic)

end SubscriptionTree

/-- A packet that the fan-out sent to a client over a connection. -/
structure Delivery where
  client : ClientId
  connection : ConnectionId
  packet : PublishPacket
  deriving DecidableEq

structure Broker where
  sessions : Table ClientId SubscriberEntry
  subscriptions : SubscriptionTree

namespace Broker

def new : Broker := { sessions := ∅, subscriptions := ∅ }

def registerSession (broker : Broker) (client : ClientId) (channel : ConnectionId)
    (will : Option WillMessage) (cleanSession : Bool) : Bool × Broker :=
  let existing := broker.sessions.lookup client
  let sessions := broker.sessions.erase client
  let sessionPresent := !cleanSession && existing.isSome
  let subscriptions :=
    if cleanSession then broker.subscriptions.removeClient client else broker.subscriptions
  let entry : SubscriberEntry := { channel, filters := ∅, will, cleanSession }
  (sessionPresent, { sessions := sessions.insert client entry, subscriptions })

def willPacket (will : WillMessage) : PublishPacket :=
  { topic := will.topic, payload := will.payload, dup := false, qos := will.qos
    retain := will.retain, packetId := none }

/-- The part of `unregister_session` before the publication: what is left of the broker, and the
will that is to be published. -/
def removeSession (broker : Broker) (client : ClientId) (graceful : Bool) :
    Option PublishPacket × Broker :=
  match broker.sessions.lookup client with
  | none => (none, broker)
  | some entry =>
      let broker : Broker :=
        { sessions := broker.sessions.erase client
          subscriptions := broker.subscriptions.removeClient client }
      (if graceful then none else entry.will.map willPacket, broker)

/-- The loop of `subscribe` over the filters of a request. -/
def subscribeFilters (client : ClientId) : List TopicFilter →
    Table String QoS × SubscriptionTree → List SubackCode × Table String QoS × SubscriptionTree
  | [], (filters, tree) => ([], filters, tree)
  | tf :: rest, (filters, tree) =>
      match Topic.validateSubscribeFilter tf.filter with
      | .ok () =>
          let stored := (filters.insert tf.filter tf.qos, tree.subscribe client tf.filter tf.qos)
          let (codes, stored) := subscribeFilters client rest stored
          (.granted tf.qos :: codes, stored)
      | .error _ =>
          let (codes, stored) := subscribeFilters client rest (filters, tree)
          (.failure :: codes, stored)

def subscribe (broker : Broker) (client : ClientId) (filters : List TopicFilter) :
    List SubackCode × Broker :=
  match broker.sessions.lookup client with
  | none => (filters.map fun _ ↦ .failure, broker)
  | some entry =>
      let (codes, stored, tree) :=
        subscribeFilters client filters (entry.filters, broker.subscriptions)
      (codes,
        { sessions := broker.sessions.insert client { entry with filters := stored }
          subscriptions := tree })

/-- The loop of `unsubscribe` over the topics of a request. -/
def unsubscribeTopics (client : ClientId) : List String →
    Table String QoS × SubscriptionTree → Table String QoS × SubscriptionTree
  | [], stored => stored
  | topic :: rest, (filters, tree) =>
      unsubscribeTopics client rest (filters.erase topic, tree.unsubscribe client topic)

def unsubscribe (broker : Broker) (client : ClientId) (topics : List String) : Broker :=
  match broker.sessions.lookup client with
  | none => broker
  | some entry =>
      let (stored, tree) := unsubscribeTopics client topics (entry.filters, broker.subscriptions)
      { sessions := broker.sessions.insert client { entry with filters := stored }
        subscriptions := tree }

/-- An identifier for a packet of QoS 1 or 2, which is then stored as in flight. -/
def trackOutbound (channel : MqttChannel) (packet : PublishPacket) (effectiveQos : QoS) :
    Option PacketId × MqttChannel :=
  if effectiveQos = .atMostOnce then (none, channel)
  else
    let (id, session) := channel.session.allocatePacketId
    let outboundInflight := session.outboundInflight.insert id packet
    (some id, { channel with session := { session with outboundInflight } })

/-- One turn of the fan-out loop on the channel of a subscriber. A failure to send is ignored. -/
def deliver (packet : PublishPacket) (subQos : QoS) (channel : MqttChannel) :
    PublishPacket × MqttChannel :=
  let effectiveQos := packet.qos.min subQos
  let (packetId, channel) := trackOutbound channel packet effectiveQos
  let adjusted := { packet with dup := false, qos := effectiveQos, retain := false, packetId }
  (adjusted, (channel.sendPublish adjusted).toOption.getD channel)

/-- The subscriber that a turn of the fan-out loop serves. The source is skipped, and so is a
client without a session. -/
def recipient (broker : Broker) (source client : ClientId) : Option SubscriberEntry :=
  if client = source then none else broker.sessions.lookup client

/-- `publish`, over the matching subscriptions in the given order. -/
def publish (broker : Broker) (source : ClientId) (packet : PublishPacket) :
    List (ClientId × QoS) → Channels → List Delivery × Channels
  | [], channels => ([], channels)
  | (client, subQos) :: rest, channels =>
      match broker.recipient source client with
      | none => broker.publish source packet rest channels
      | some entry =>
          let (adjusted, channel) := deliver packet subQos (channels entry.channel)
          let channels := Function.update channels entry.channel channel
          let (deliveries, channels) := broker.publish source packet rest channels
          (⟨client, entry.channel, adjusted⟩ :: deliveries, channels)

/-- The order is one in which the matching subscriptions can be met. -/
def IsOrder (broker : Broker) (packet : PublishPacket) (order : List (ClientId × QoS)) : Prop :=
  (order : Multiset (ClientId × QoS)) = broker.subscriptions.matching packet.topic

instance (broker : Broker) (packet : PublishPacket) (order : List (ClientId × QoS)) :
    Decidable (broker.IsOrder packet order) :=
  inferInstanceAs (Decidable (_ = _))

def publishOption (broker : Broker) (source : ClientId) (order : List (ClientId × QoS))
    (channels : Channels) : Option PublishPacket → Option (List Delivery × Channels)
  | none => if order = [] then some ([], channels) else none
  | some packet =>
      if broker.IsOrder packet order then some (broker.publish source packet order channels)
      else none

/-- A will is published with the empty string in place of its source. What is handed to `publish`
comes first. -/
def unregisterSession (broker : Broker) (client : ClientId) (graceful : Bool)
    (order : List (ClientId × QoS)) (channels : Channels) :
    Option (Option PublishPacket × Broker × List Delivery × Channels) :=
  let (will, broker) := broker.removeSession client graceful
  (broker.publishOption "" order channels will).map fun published ↦ (will, broker, published)

/-- The operation that awaited the acknowledgement, if any, is answered. -/
def ackOutbound (broker : Broker) (client : ClientId) (id : PacketId) (channels : Channels) :
    Option Waiter × Channels :=
  match broker.sessions.lookup client with
  | none => (none, channels)
  | some entry =>
      let channel := channels entry.channel
      let outboundInflight := channel.session.outboundInflight.erase id
      let (answered, session) :=
        ({ channel.session with outboundInflight } : MqttSession).fireAck id .puback
      (answered, Function.update channels entry.channel { channel with session })

end Broker

/-- A call of a broker operation. Operations that publish take the order in which they meet the
matching subscriptions. -/
inductive Operation where
  | register (client : ClientId) (channel : ConnectionId) (will : Option WillMessage)
      (cleanSession : Bool)
  | unregister (client : ClientId) (graceful : Bool) (order : List (ClientId × QoS))
  | subscribe (client : ClientId) (filters : List TopicFilter)
  | unsubscribe (client : ClientId) (topics : List String)
  | publish (source : ClientId) (packet : PublishPacket) (order : List (ClientId × QoS))
  | ackOutbound (client : ClientId) (id : PacketId)

/-- The client whose session or subscriptions an operation changes. -/
def Operation.changes : Operation → Option ClientId
  | register client _ _ _ | unregister client _ _ | subscribe client _ | unsubscribe client _ =>
      some client
  | publish .. | ackOutbound .. => none

/-- The broker and the channels of all connections. -/
structure Store where
  broker : Broker
  channels : Channels

namespace Store

/-- The effect of an operation. It is not defined for an order in which the code cannot meet the
matching subscriptions. -/
def step (store : Store) : Operation → Option Store
  | .register client channel will cleanSession =>
      let (_, broker) := store.broker.registerSession client channel will cleanSession
      some { store with broker }
  | .unregister client graceful order =>
      (store.broker.unregisterSession client graceful order store.channels).map
        fun (_, broker, _, channels) ↦ { broker, channels }
  | .subscribe client filters =>
      let (_, broker) := store.broker.subscribe client filters
      some { store with broker }
  | .unsubscribe client topics =>
      some { store with broker := store.broker.unsubscribe client topics }
  | .publish source packet order =>
      (store.broker.publishOption source order store.channels (some packet)).map
        fun (_, channels) ↦ { store with channels }
  | .ackOutbound client id =>
      let (_, channels) := store.broker.ackOutbound client id store.channels
      some { store with channels }

end Store

/-! ## Frames -/

namespace Broker

variable (broker : Broker) (client : ClientId)

/-- The connection and the will of a session. -/
def ownerOf : Option (ConnectionId × Option WillMessage) :=
  (broker.sessions.lookup client).map fun entry ↦ (entry.channel, entry.will)

def subscriptionsOf (filter : String) : Option QoS :=
  Index.get broker.subscriptions filter client

/-- The connection that registers owns the session. -/
theorem ownerOf_registerSession (channel : ConnectionId) (will : Option WillMessage)
    (cleanSession : Bool) :
    (broker.registerSession client channel will cleanSession).2.ownerOf =
      Function.update broker.ownerOf client (some (channel, will)) := by
  funext client'
  simp only [ownerOf, registerSession, Table.lookup_insert_eq, Table.lookup_erase_eq]
  by_cases hclient : client' = client
  · subst hclient
    simp
  · simp [hclient, ownerOf]

/-- A removed session has no owner. -/
theorem ownerOf_removeSession (graceful : Bool) :
    (broker.removeSession client graceful).2.ownerOf =
      Function.update broker.ownerOf client none := by
  funext client'
  unfold removeSession
  split
  · rename_i hnone
    by_cases hclient : client' = client
    · subst hclient
      simp [ownerOf, hnone]
    · simp [hclient]
  · simp only [ownerOf, Table.lookup_erase_eq]
    by_cases hclient : client' = client
    · subst hclient
      simp
    · simp [hclient, ownerOf]

theorem ownerOf_erase :
    ownerOf { broker with sessions := broker.sessions.erase client } =
      Function.update broker.ownerOf client none := by
  funext other
  rw [Function.update_apply, ownerOf, Table.lookup_erase_eq]
  split <;> rfl

theorem ownerOf_of_ownerOf_erase {other : ClientId} {owner : ConnectionId × Option WillMessage}
    (h : ownerOf { broker with sessions := broker.sessions.erase other } client = some owner) :
    broker.ownerOf client = some owner := by
  obtain ⟨entry, hentry, howner⟩ := Option.map_eq_some_iff.mp h
  exact Option.map_eq_some_iff.mpr ⟨entry, Table.lookup_of_lookup_erase hentry, howner⟩

theorem ownerOf_insert_eq (other : ClientId) (entry : SubscriberEntry) :
    ownerOf { broker with sessions := broker.sessions.insert other entry } client =
      if client = other then some (entry.channel, entry.will) else broker.ownerOf client := by
  rw [ownerOf, Table.lookup_insert_eq]
  split <;> rfl

/-- An acknowledgement touches neither the queues nor the stored messages. -/
theorem ackOutbound_frame (id : PacketId) (channels : Channels) (connection : ConnectionId) :
    ((broker.ackOutbound client id channels).2 connection).commands =
        (channels connection).commands ∧
      ((broker.ackOutbound client id channels).2 connection).receiving =
        (channels connection).receiving ∧
      ((broker.ackOutbound client id channels).2 connection).session.qos2Recv =
        (channels connection).session.qos2Recv := by
  unfold ackOutbound
  split
  · exact ⟨rfl, rfl, rfl⟩
  · rename_i entry _
    dsimp only
    by_cases hconnection : connection = entry.channel
    · subst hconnection
      rw [Function.update_self]
      exact ⟨rfl, rfl, rfl⟩
    · rw [Function.update_of_ne hconnection]
      exact ⟨rfl, rfl, rfl⟩

/-- Changing the filters of a session does not change its owner. -/
theorem ownerOf_insert {entry : SubscriberEntry}
    (hentry : broker.sessions.lookup client = some entry) (filters : Table String QoS)
    (tree : SubscriptionTree) :
    ownerOf
      { sessions := broker.sessions.insert client { entry with filters }
        subscriptions := tree } = broker.ownerOf := by
  funext client'
  simp only [ownerOf, Table.lookup_insert_eq]
  split
  · rename_i hclient
    rw [hclient, hentry]
    rfl
  · rfl

/-- Subscriptions leave the owners alone. -/
theorem ownerOf_subscribe (filters : List TopicFilter) :
    (broker.subscribe client filters).2.ownerOf = broker.ownerOf := by
  unfold subscribe
  split
  · rfl
  · rename_i entry hentry
    exact broker.ownerOf_insert client hentry _ _

theorem ownerOf_unsubscribe (topics : List String) :
    (broker.unsubscribe client topics).ownerOf = broker.ownerOf := by
  unfold unsubscribe
  split
  · rfl
  · rename_i entry hentry
    exact broker.ownerOf_insert client hentry _ _

/-- A removed session leaves no subscriptions behind. -/
theorem subscriptionsOf_removeSession_self (graceful : Bool)
    (h : (broker.sessions.lookup client).isSome) (filter : String) :
    (broker.removeSession client graceful).2.subscriptionsOf client filter = none := by
  unfold removeSession
  split
  · rename_i hnone
    rw [hnone] at h
    cases h
  · exact (Index.get_removeAll ..).trans (if_pos rfl)

/-- Unsubscribing adds no subscription. -/
theorem get_unsubscribeTopics_eq_none {other : ClientId} (topics : List String)
    {stored : Table String QoS} {tree : SubscriptionTree} {filter : String}
    (h : Index.get tree filter client = none) :
    Index.get (unsubscribeTopics other topics (stored, tree)).2 filter client = none := by
  induction topics generalizing stored tree with
  | nil => exact h
  | cons topic topics ih =>
    rw [unsubscribeTopics]
    apply ih
    rw [SubscriptionTree.unsubscribe, Index.get_remove]
    split
    · rfl
    · exact h

/-- No filter appears by an UNSUBSCRIBE. -/
theorem subscriptionsOf_unsubscribe_eq_none {other : ClientId} (topics : List String)
    {filter : String} (h : broker.subscriptionsOf client filter = none) :
    (broker.unsubscribe other topics).subscriptionsOf client filter = none := by
  unfold unsubscribe
  split
  · exact h
  · exact get_unsubscribeTopics_eq_none client topics h

variable {client} {other : ClientId} (hother : client ≠ other)
include hother

/-- A registration only touches the subscriptions of its client. -/
theorem subscriptionsOf_registerSession_of_ne (channel : ConnectionId)
    (will : Option WillMessage) (cleanSession : Bool) :
    (broker.registerSession other channel will cleanSession).2.subscriptionsOf client =
      broker.subscriptionsOf client := by
  funext filter
  cases cleanSession with
  | true => exact (Index.get_removeAll ..).trans (if_neg hother)
  | false => rfl

theorem subscriptionsOf_removeSession_of_ne (graceful : Bool) :
    (broker.removeSession other graceful).2.subscriptionsOf client =
      broker.subscriptionsOf client := by
  funext filter
  unfold removeSession
  split
  · rfl
  · exact (Index.get_removeAll ..).trans (if_neg hother)

theorem get_subscribeFilters_of_ne (requested : List TopicFilter) (stored : Table String QoS)
    (tree : SubscriptionTree) (filter : String) :
    Index.get (subscribeFilters other requested (stored, tree)).2.2 filter client =
      Index.get tree filter client := by
  induction requested generalizing stored tree with
  | nil => rfl
  | cons tf requested ih =>
    unfold subscribeFilters
    split
    · dsimp only
      rw [ih, SubscriptionTree.subscribe, Index.get_put, if_neg (fun h ↦ hother h.2)]
    · exact ih _ _

/-- A SUBSCRIBE only touches the subscriptions of its client. -/
theorem subscriptionsOf_subscribe_of_ne (filters : List TopicFilter) :
    (broker.subscribe other filters).2.subscriptionsOf client = broker.subscriptionsOf client := by
  funext filter
  unfold subscribe
  split
  · rfl
  · exact get_subscribeFilters_of_ne hother filters _ _ filter

theorem get_unsubscribeTopics_of_ne (topics : List String) (stored : Table String QoS)
    (tree : SubscriptionTree) (filter : String) :
    Index.get (unsubscribeTopics other topics (stored, tree)).2 filter client =
      Index.get tree filter client := by
  induction topics generalizing stored tree with
  | nil => rfl
  | cons topic topics ih =>
    rw [unsubscribeTopics, ih, SubscriptionTree.unsubscribe, Index.get_remove,
      if_neg (fun h ↦ hother h.2)]

/-- An UNSUBSCRIBE only touches the subscriptions of its client. -/
theorem subscriptionsOf_unsubscribe_of_ne (topics : List String) :
    (broker.unsubscribe other topics).subscriptionsOf client = broker.subscriptionsOf client := by
  funext filter
  unfold unsubscribe
  split
  · rfl
  · exact get_unsubscribeTopics_of_ne hother topics _ _ filter

end Broker

namespace Store

variable {store next : Store}

/-- The fan-out of the will changes channels only. -/
theorem broker_of_unregister {client : ClientId} {graceful : Bool}
    {order : List (ClientId × QoS)}
    (h : store.step (.unregister client graceful order) = some next) :
    next.broker = (store.broker.removeSession client graceful).2 := by
  simp only [step, Broker.unregisterSession, Option.map_map, Option.map_eq_some_iff] at h
  obtain ⟨published, _, rfl⟩ := h
  rfl

/-- A fan-out changes channels only. -/
theorem broker_of_publish {source : ClientId} {packet : PublishPacket}
    {order : List (ClientId × QoS)} (h : store.step (.publish source packet order) = some next) :
    next.broker = store.broker := by
  simp only [step, Option.map_eq_some_iff] at h
  obtain ⟨published, _, rfl⟩ := h
  rfl

theorem ownerOf_register {client : ClientId} {channel : ConnectionId} {will : Option WillMessage}
    {cleanSession : Bool}
    (h : store.step (.register client channel will cleanSession) = some next) :
    next.broker.ownerOf = Function.update store.broker.ownerOf client (some (channel, will)) := by
  obtain rfl := Option.some.inj h
  exact store.broker.ownerOf_registerSession client channel will cleanSession

theorem ownerOf_unregister {client : ClientId} {graceful : Bool} {order : List (ClientId × QoS)}
    (h : store.step (.unregister client graceful order) = some next) :
    next.broker.ownerOf = Function.update store.broker.ownerOf client none := by
  rw [broker_of_unregister h]
  exact store.broker.ownerOf_removeSession client graceful

/-- An operation leaves the sessions and the subscriptions of all other clients alone. -/
theorem step_frame {operation : Operation} {client : ClientId}
    (hclient : operation.changes ≠ some client) (h : store.step operation = some next) :
    next.broker.ownerOf client = store.broker.ownerOf client ∧
      next.broker.subscriptionsOf client = store.broker.subscriptionsOf client := by
  cases operation with
  | register other channel will cleanSession =>
    have hne : client ≠ other := fun heq ↦ hclient (congrArg some heq.symm)
    rw [ownerOf_register h, Function.update_of_ne hne]
    obtain rfl := Option.some.inj h
    exact ⟨rfl, store.broker.subscriptionsOf_registerSession_of_ne hne channel will cleanSession⟩
  | unregister other graceful order =>
    have hne : client ≠ other := fun heq ↦ hclient (congrArg some heq.symm)
    rw [ownerOf_unregister h, Function.update_of_ne hne, broker_of_unregister h]
    exact ⟨rfl, store.broker.subscriptionsOf_removeSession_of_ne hne graceful⟩
  | subscribe other filters =>
    have hne : client ≠ other := fun heq ↦ hclient (congrArg some heq.symm)
    obtain rfl := Option.some.inj h
    exact ⟨congrFun (store.broker.ownerOf_subscribe other filters) client,
      store.broker.subscriptionsOf_subscribe_of_ne hne filters⟩
  | unsubscribe other topics =>
    have hne : client ≠ other := fun heq ↦ hclient (congrArg some heq.symm)
    obtain rfl := Option.some.inj h
    exact ⟨congrFun (store.broker.ownerOf_unsubscribe other topics) client,
      store.broker.subscriptionsOf_unsubscribe_of_ne hne topics⟩
  | publish source packet order =>
    rw [broker_of_publish h]
    exact ⟨rfl, rfl⟩
  | ackOutbound other id =>
    obtain rfl := Option.some.inj h
    exact ⟨rfl, rfl⟩

end Store

end HotaruMqtt

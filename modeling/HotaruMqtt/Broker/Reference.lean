import HotaruMqtt.Broker.Store
import HotaruMqtt.Library.Runs

/-!
# The broker as a map of subscriptions

The reference is a plain map from client identifiers to an optional table of filters. The broker
keeps the same information in two places: whether a client is known stands in the table of
sessions, and the subscriptions stand in the tree. They agree with the reference after every
sequence of operations, because no operation leaves a subscription in the tree whose client has
no session.
-/

namespace HotaruMqtt

open Library

/-- The filters of every client that is registered. -/
abbrev Reference := ClientId → Option (Table String QoS)

namespace Reference

def accepts (filter : String) : Bool := (Topic.validateSubscribeFilter filter).isOk

def insertAccepted (filters : Table String QoS) (tf : TopicFilter) : Table String QoS :=
  if accepts tf.filter then filters.insert tf.filter tf.qos else filters

def subackCode (tf : TopicFilter) : SubackCode :=
  if accepts tf.filter then .granted tf.qos else .failure

/-- Change the filters of a client that is registered. -/
def modify (reference : Reference) (client : ClientId)
    (change : Table String QoS → Table String QoS) : Reference :=
  Function.update reference client ((reference client).map change)

def apply (reference : Reference) : Operation → Reference
  | .register client _ _ cleanSession =>
      Function.update reference client
        (some (if cleanSession then ∅ else (reference client).getD ∅))
  | .unregister client _ _ => Function.update reference client none
  | .subscribe client filters =>
      reference.modify client fun stored ↦ filters.foldl insertAccepted stored
  | .unsubscribe client topics =>
      reference.modify client fun stored ↦
        topics.foldl (fun stored topic ↦ stored.erase topic) stored
  | .publish .. | .ackOutbound .. => reference

def after (operations : List Operation) : Reference := operations.foldl apply fun _ ↦ none

def subackCodes (reference : Reference) (client : ClientId) (filters : List TopicFilter) :
    List SubackCode :=
  if (reference client).isSome then filters.map subackCode else filters.map fun _ ↦ .failure

end Reference

def noteChannel (latest : ClientId → Option ConnectionId) :
    Operation → ClientId → Option ConnectionId
  | .register client channel _ _ => Function.update latest client (some channel)
  | _ => latest

def latestChannel (operations : List Operation) : ClientId → Option ConnectionId :=
  operations.foldl noteChannel fun _ ↦ none

/-- What a subscriber receives for a matching subscription, up to the packet identifier. -/
def expectedPacket (packet : PublishPacket) (subQos : QoS) : PublishPacket :=
  { packet with dup := false, qos := packet.qos.min subQos, retain := false, packetId := none }

/-- What a client is owed when a packet is published: one packet on its latest channel for every
filter that matches. -/
def expectedDeliveries (operations : List Operation) (source : ClientId) (packet : PublishPacket)
    (client : ClientId) : Multiset (ConnectionId × PublishPacket) :=
  match Reference.after operations client, latestChannel operations client with
  | some filters, some channel =>
      if client = source then 0
      else (filters.pairs.filter fun entry ↦
          Topic.filterMatches entry.1 (Topic.segments packet.topic)).map
        fun entry ↦ (channel, expectedPacket packet entry.2)
  | _, _ => 0

/-- The tree holds the subscriptions of a reference and no others. -/
def Indexes (tree : SubscriptionTree) (reference : Reference) : Prop :=
  ∀ filter client, Index.get tree filter client =
    (reference client).bind fun filters ↦ filters.lookup filter

section Indexes

variable {tree : SubscriptionTree} {reference : Reference} {client : ClientId}
  {filters : Table String QoS}

/-- One more filter in the tree is one more in the reference. -/
theorem indexes_subscribe (h : Indexes tree (Function.update reference client (some filters)))
    (filter : String) (qos : QoS) :
    Indexes (tree.subscribe client filter qos)
      (Function.update reference client (some (filters.insert filter qos))) := by
  intro filter' client'
  rw [SubscriptionTree.subscribe, Index.get_put, h]
  by_cases hclient : client' = client
  · subst hclient
    simp [Table.lookup_insert_eq]
  · simp [hclient]

/-- One less in the tree is one less in the reference. -/
theorem indexes_unsubscribe (h : Indexes tree (Function.update reference client (some filters)))
    (filter : String) :
    Indexes (tree.unsubscribe client filter)
      (Function.update reference client (some (filters.erase filter))) := by
  intro filter' client'
  rw [SubscriptionTree.unsubscribe, Index.get_remove, h]
  by_cases hclient : client' = client
  · subst hclient
    simp [Table.lookup_erase_eq]
  · simp [hclient]

/-- A client whose subscriptions are removed may as well have no filters as be unknown. -/
theorem indexes_removeClient (h : Indexes tree reference) {row : Option (Table String QoS)}
    (hrow : row.getD ∅ = ∅) :
    Indexes (tree.removeClient client) (Function.update reference client row) := by
  intro filter client'
  rw [SubscriptionTree.removeClient, Index.get_removeAll, h]
  by_cases hclient : client' = client
  · subst hclient
    cases row with
    | none => simp
    | some row =>
      obtain rfl : row = ∅ := hrow
      simp
  · simp [hclient]

theorem indexes_subscribeFilters (requested : List TopicFilter) (stored : Table String QoS)
    (h : Indexes tree (Function.update reference client (some filters))) :
    Indexes (Broker.subscribeFilters client requested (stored, tree)).2.2
      (Function.update reference client
        (some (requested.foldl Reference.insertAccepted filters))) := by
  induction requested generalizing stored tree filters with
  | nil => exact h
  | cons tf requested ih =>
    rw [List.foldl_cons]
    cases hvalid : Topic.validateSubscribeFilter tf.filter with
    | ok accepted =>
      have hinsert : Reference.insertAccepted filters tf = filters.insert tf.filter tf.qos := by
        simp [Reference.insertAccepted, Reference.accepts, hvalid, Except.isOk, Except.toBool]
      simp only [Broker.subscribeFilters, hvalid, hinsert]
      exact ih _ (indexes_subscribe h tf.filter tf.qos)
    | error rejected =>
      have hinsert : Reference.insertAccepted filters tf = filters := by
        simp [Reference.insertAccepted, Reference.accepts, hvalid, Except.isOk, Except.toBool]
      simp only [Broker.subscribeFilters, hvalid, hinsert]
      exact ih _ h

theorem indexes_unsubscribeTopics (topics : List String) (stored : Table String QoS)
    (h : Indexes tree (Function.update reference client (some filters))) :
    Indexes (Broker.unsubscribeTopics client topics (stored, tree)).2
      (Function.update reference client
        (some (topics.foldl (fun filters topic ↦ filters.erase topic) filters))) := by
  induction topics generalizing stored tree filters with
  | nil => exact h
  | cons topic topics ih => exact ih _ (indexes_unsubscribe h topic)

end Indexes

/-- The return codes depend on the requested filters only. -/
theorem subscribeFilters_codes (client : ClientId) (requested : List TopicFilter)
    (stored : Table String QoS × SubscriptionTree) :
    (Broker.subscribeFilters client requested stored).1 = requested.map Reference.subackCode := by
  induction requested generalizing stored with
  | nil => rfl
  | cons tf requested ih =>
    cases hvalid : Topic.validateSubscribeFilter tf.filter <;>
      simp [Broker.subscribeFilters, hvalid, ih, Reference.subackCode, Reference.accepts,
        Except.isOk, Except.toBool]

/-! ## Agreement -/

/-- The broker knows what the reference knows, and every session uses the latest channel. -/
structure Agrees (broker : Broker) (reference : Reference)
    (latest : ClientId → Option ConnectionId) : Prop where
  registered : ∀ client, (broker.sessions.lookup client).isSome = (reference client).isSome
  indexes : Indexes broker.subscriptions reference
  channel : ∀ client entry, broker.sessions.lookup client = some entry →
    latest client = some entry.channel

namespace Agrees

variable {broker : Broker} {reference : Reference} {latest : ClientId → Option ConnectionId}
  {client : ClientId}

theorem new : Agrees .new (fun _ ↦ none) (fun _ ↦ none) := by
  constructor
  · intro client
    rfl
  · intro filter client
    rfl
  · intro client entry h
    cases h

theorem eq_none_of_lookup_eq_none (h : Agrees broker reference latest)
    (hnone : broker.sessions.lookup client = none) : reference client = none := by
  rw [← Option.not_isSome_iff_eq_none, ← h.registered, hnone]
  exact Bool.false_ne_true

theorem eq_some_of_lookup_eq_some (h : Agrees broker reference latest) {entry : SubscriberEntry}
    (hsome : broker.sessions.lookup client = some entry) :
    ∃ filters, reference client = some filters := by
  rw [← Option.isSome_iff_exists, ← h.registered, hsome]
  rfl

/-- Changing the filters of a session together with its reference. -/
theorem update_filters (h : Agrees broker reference latest) {entry : SubscriberEntry}
    (hsome : broker.sessions.lookup client = some entry) (stored filters : Table String QoS)
    {tree : SubscriptionTree}
    (htree : Indexes tree (Function.update reference client (some filters))) :
    Agrees
      { sessions := broker.sessions.insert client { entry with filters := stored }
        subscriptions := tree }
      (Function.update reference client (some filters)) latest := by
  constructor
  · intro client'
    rw [Table.lookup_insert_eq]
    by_cases hclient : client' = client
    · simp [hclient]
    · simp [hclient, h.registered]
  · exact htree
  · intro client' entry' hentry
    rw [Table.lookup_insert_eq] at hentry
    split at hentry
    · rename_i hclient
      obtain rfl := Option.some.inj hentry
      rw [hclient]
      exact h.channel client entry hsome
    · exact h.channel client' entry' hentry

/-- A clean registration starts with no filters, another one with those that are stored. -/
theorem registerSession (h : Agrees broker reference latest) (channel : ConnectionId)
    (will : Option WillMessage) (cleanSession : Bool) :
    Agrees (broker.registerSession client channel will cleanSession).2
      (Function.update reference client
        (some (if cleanSession then ∅ else (reference client).getD ∅)))
      (Function.update latest client (some channel)) := by
  constructor
  · intro client'
    simp only [Broker.registerSession, Table.lookup_insert_eq, Table.lookup_erase_eq]
    by_cases hclient : client' = client
    · simp [hclient]
    · simp [hclient, h.registered]
  · cases cleanSession with
    | true => exact indexes_removeClient h.indexes rfl
    | false =>
      intro filter client'
      change Index.get broker.subscriptions filter client' = _
      rw [h.indexes]
      by_cases hclient : client' = client
      · subst hclient
        cases reference client' <;> simp
      · simp [hclient]
  · intro client' entry hentry
    simp only [Broker.registerSession, Table.lookup_insert_eq, Table.lookup_erase_eq] at hentry
    by_cases hclient : client' = client
    · rw [if_pos hclient] at hentry
      rw [← Option.some.inj hentry, hclient, Function.update_self]
    · rw [if_neg hclient, if_neg hclient] at hentry
      rw [Function.update_of_ne hclient]
      exact h.channel client' entry hentry

/-- A removal forgets the filters of the client. -/
theorem removeSession (h : Agrees broker reference latest) (graceful : Bool) :
    Agrees (broker.removeSession client graceful).2 (Function.update reference client none)
      latest := by
  unfold Broker.removeSession
  split
  · rename_i hnone
    rw [← h.eq_none_of_lookup_eq_none hnone, Function.update_eq_self]
    exact h
  · constructor
    · intro client'
      rw [Table.lookup_erase_eq]
      by_cases hclient : client' = client
      · simp [hclient]
      · simp [hclient, h.registered]
    · exact indexes_removeClient h.indexes rfl
    · intro client' entry hentry
      exact h.channel client' entry (Table.lookup_of_lookup_erase hentry)

/-- Without a session there is nothing to change. -/
theorem modify_of_lookup_eq_none (h : Agrees broker reference latest)
    (hnone : broker.sessions.lookup client = none) (change : Table String QoS → Table String QoS) :
    reference.modify client change = reference := by
  have hreference := h.eq_none_of_lookup_eq_none hnone
  rw [Reference.modify, hreference, Option.map_none, ← hreference, Function.update_eq_self]

/-- The accepted filters are added in the order of the request. -/
theorem subscribe (h : Agrees broker reference latest) (filters : List TopicFilter) :
    Agrees (broker.subscribe client filters).2
      (reference.modify client fun stored ↦ filters.foldl Reference.insertAccepted stored)
      latest := by
  unfold Broker.subscribe
  split
  · rename_i hnone
    rw [h.modify_of_lookup_eq_none hnone]
    exact h
  · rename_i entry hsome
    obtain ⟨stored, hstored⟩ := h.eq_some_of_lookup_eq_some hsome
    rw [Reference.modify, hstored, Option.map_some]
    apply h.update_filters hsome
    apply indexes_subscribeFilters
    rw [← hstored, Function.update_eq_self]
    exact h.indexes

/-- The filters are taken out in the order of the request. -/
theorem unsubscribe (h : Agrees broker reference latest) (topics : List String) :
    Agrees (broker.unsubscribe client topics)
      (reference.modify client fun stored ↦
        topics.foldl (fun stored topic ↦ stored.erase topic) stored) latest := by
  unfold Broker.unsubscribe
  split
  · rename_i hnone
    rw [h.modify_of_lookup_eq_none hnone]
    exact h
  · rename_i entry hsome
    obtain ⟨stored, hstored⟩ := h.eq_some_of_lookup_eq_some hsome
    rw [Reference.modify, hstored, Option.map_some]
    apply h.update_filters hsome
    apply indexes_unsubscribeTopics
    rw [← hstored, Function.update_eq_self]
    exact h.indexes

/-- Every operation keeps the broker and the reference in agreement. -/
theorem step {store next : Store} {operation : Operation}
    (h : Agrees store.broker reference latest) (hstep : store.step operation = some next) :
    Agrees next.broker (reference.apply operation) (noteChannel latest operation) := by
  cases operation with
  | register client channel will cleanSession =>
    obtain rfl := Option.some.inj hstep
    exact h.registerSession channel will cleanSession
  | unregister client graceful order =>
    rw [Store.broker_of_unregister hstep]
    exact h.removeSession graceful
  | subscribe client filters =>
    obtain rfl := Option.some.inj hstep
    exact h.subscribe filters
  | unsubscribe client topics =>
    obtain rfl := Option.some.inj hstep
    exact h.unsubscribe topics
  | publish source packet order =>
    rw [Store.broker_of_publish hstep]
    exact h
  | ackOutbound client id =>
    obtain rfl := Option.some.inj hstep
    exact h

/-- The broker agrees with the reference after every sequence of operations. -/
theorem of_run {channels : Channels} {operations : List Operation} {store : Store}
    (run : Run Store.step Unrestricted { broker := .new, channels } operations store) :
    Agrees store.broker (.after operations) (latestChannel operations) := by
  induction run with
  | refl => exact new
  | tail _ _ hstep ih =>
    rw [Reference.after, latestChannel, List.foldl_append, List.foldl_append]
    exact ih.step hstep

end Agrees

def withoutId (packet : PublishPacket) : PublishPacket := { packet with packetId := none }

section Deliver

variable (packet : PublishPacket) (subQos : QoS) (channel : MqttChannel)

/-- Up to its identifier, what is delivered is what the reference expects. -/
theorem withoutId_deliver :
    withoutId (Broker.deliver packet subQos channel).1 = expectedPacket packet subQos := rfl

/-- A delivery has a packet identifier if its QoS needs one. -/
theorem deliver_packetId :
    (Broker.deliver packet subQos channel).1.packetId.isSome =
      decide ((Broker.deliver packet subQos channel).1.qos ≠ .atMostOnce) := by
  simp only [Broker.deliver, Broker.trackOutbound]
  split <;> simp [*]

theorem trackOutbound_frame (effectiveQos : QoS) :
    (Broker.trackOutbound channel packet effectiveQos).2.commands = channel.commands ∧
      (Broker.trackOutbound channel packet effectiveQos).2.receiving = channel.receiving ∧
      (Broker.trackOutbound channel packet effectiveQos).2.session.qos2Recv =
        channel.session.qos2Recv := by
  unfold Broker.trackOutbound
  split <;> exact ⟨rfl, rfl, rfl⟩

theorem deliver_receiving :
    (Broker.deliver packet subQos channel).2.receiving = channel.receiving := by
  have hframe := trackOutbound_frame packet channel (packet.qos.min subQos)
  simp only [Broker.deliver, MqttChannel.sendPublish, MqttChannel.send, hframe.2.1]
  split <;> simp [Except.toOption, hframe.2.1]

theorem deliver_qos2Recv :
    (Broker.deliver packet subQos channel).2.session.qos2Recv = channel.session.qos2Recv := by
  have hframe := (trackOutbound_frame packet channel (packet.qos.min subQos)).2
  simp only [Broker.deliver, MqttChannel.sendPublish, MqttChannel.send]
  split <;> simp [Except.toOption, hframe.2]

/-- A delivery is enqueued if the writer still receives. -/
theorem deliver_commands :
    (Broker.deliver packet subQos channel).2.commands = channel.commands ++
      if channel.receiving then [.publish (Broker.deliver packet subQos channel).1] else [] := by
  have hframe := trackOutbound_frame packet channel (packet.qos.min subQos)
  simp only [Broker.deliver, MqttChannel.sendPublish, MqttChannel.send, hframe.2.1]
  split <;> simp [Except.toOption, hframe.1]

/-- An identifier is allocated above QoS 0. -/
theorem deliver_pktCounter :
    (Broker.deliver packet subQos channel).2.session.pktCounter =
      if packet.qos.min subQos = .atMostOnce then channel.session.pktCounter
      else channel.session.pktCounter + 1 := by
  simp only [Broker.deliver, Broker.trackOutbound, MqttChannel.sendPublish, MqttChannel.send]
  split <;> split <;> rfl

/-- What is delivered depends on the counter of the channel only. -/
theorem deliver_congr {channel channel' : MqttChannel}
    (h : channel'.session.pktCounter = channel.session.pktCounter) :
    (Broker.deliver packet subQos channel').1 = (Broker.deliver packet subQos channel).1 ∧
      (Broker.deliver packet subQos channel').2.session.pktCounter =
        (Broker.deliver packet subQos channel).2.session.pktCounter := by
  constructor
  · simp only [Broker.deliver, Broker.trackOutbound, MqttSession.allocatePacketId, h]
    split <;> rfl
  · rw [deliver_pktCounter, deliver_pktCounter, h]

end Deliver

section Publish

variable (broker : Broker) (source : ClientId) (packet : PublishPacket)

/-- A delivery has an identifier exactly above QoS 0. -/
theorem publish_packetId (order : List (ClientId × QoS)) (channels : Channels) :
    ∀ delivery ∈ (broker.publish source packet order channels).1,
      delivery.packet.packetId.isSome = decide (delivery.packet.qos ≠ .atMostOnce) := by
  induction order generalizing channels with
  | nil =>
    intro delivery hmem
    cases hmem
  | cons subscription order ih =>
    unfold Broker.publish
    split
    · exact ih channels
    · intro delivery hmem
      rcases List.mem_cons.mp hmem with rfl | hmem
      · exact deliver_packetId _ _ _
      · exact ih _ delivery hmem

/-- The fan-out neither closes a queue nor touches a stored message. -/
theorem publish_frame (order : List (ClientId × QoS)) (channels : Channels)
    (connection : ConnectionId) :
    ((broker.publish source packet order channels).2 connection).receiving =
        (channels connection).receiving ∧
      ((broker.publish source packet order channels).2 connection).session.qos2Recv =
        (channels connection).session.qos2Recv := by
  induction order generalizing channels with
  | nil => exact ⟨rfl, rfl⟩
  | cons subscription order ih =>
    unfold Broker.publish
    split
    · exact ih channels
    · rename_i entry _
      dsimp only
      rw [(ih _).1, (ih _).2]
      by_cases hconnection : connection = entry.channel
      · subst hconnection
        rw [Function.update_self, deliver_receiving, deliver_qos2Recv]
        exact ⟨rfl, rfl⟩
      · rw [Function.update_of_ne hconnection]
        exact ⟨rfl, rfl⟩

/-- The fan-out appends to the queue of every connection what it delivers over it. -/
theorem publish_commands (order : List (ClientId × QoS)) (channels : Channels)
    (connection : ConnectionId) :
    ((broker.publish source packet order channels).2 connection).commands =
      (channels connection).commands ++
        if (channels connection).receiving then
          ((broker.publish source packet order channels).1.filter
            fun delivery ↦ delivery.connection = connection).map
              fun delivery ↦ .publish delivery.packet
        else [] := by
  induction order generalizing channels with
  | nil => simp [Broker.publish]
  | cons subscription order ih =>
    unfold Broker.publish
    split
    · exact ih channels
    · rename_i entry _
      dsimp only
      rw [ih]
      by_cases hconnection : entry.channel = connection
      · subst hconnection
        rw [Function.update_self, deliver_commands, deliver_receiving]
        split <;> simp
      · rw [Function.update_of_ne (Ne.symm hconnection)]
        simp [hconnection]

/-- Of the channels, the fan-out reads the counters of identifiers and nothing else. -/
theorem publish_congr (order : List (ClientId × QoS)) {channels channels' : Channels}
    (h : ∀ connection, (channels' connection).session.pktCounter =
      (channels connection).session.pktCounter) :
    (broker.publish source packet order channels').1 =
      (broker.publish source packet order channels).1 := by
  induction order generalizing channels channels' with
  | nil => rfl
  | cons subscription order ih =>
    unfold Broker.publish
    split
    · exact ih h
    · rename_i entry _
      obtain ⟨hsame, hcounter⟩ := deliver_congr packet subscription.2 (h entry.channel)
      dsimp only
      rw [hsame, ih]
      intro connection
      by_cases hconnection : connection = entry.channel
      · subst hconnection
        rw [Function.update_self, Function.update_self]
        exact hcounter
      · rw [Function.update_of_ne hconnection, Function.update_of_ne hconnection]
        exact h connection

/-- What the fan-out delivers to one client: a packet for each of its subscriptions in the
order. -/
theorem publish_deliveries (order : List (ClientId × QoS)) (channels : Channels)
    (client : ClientId) :
    ((broker.publish source packet order channels).1.filter
        fun delivery ↦ delivery.client = client).map
          (fun delivery ↦ (delivery.connection, withoutId delivery.packet)) =
      (broker.recipient source client).elim [] fun entry ↦
        (order.filter fun subscription ↦ subscription.1 = client).map
          fun subscription ↦ (entry.channel, expectedPacket packet subscription.2) := by
  induction order generalizing channels with
  | nil => cases broker.recipient source client <;> rfl
  | cons subscription order ih =>
    by_cases hclient : subscription.1 = client
    · unfold Broker.publish
      rw [List.filter_cons_of_pos (by simpa using hclient)]
      subst hclient
      cases hentry : broker.recipient source subscription.1 with
      | none =>
        dsimp only
        rw [ih, hentry]
        rfl
      | some entry =>
        dsimp only
        rw [List.filter_cons_of_pos (by simp), List.map_cons, ih, hentry, withoutId_deliver]
        rfl
    · unfold Broker.publish
      rw [List.filter_cons_of_neg (by simpa using hclient), ← ih channels]
      split
      · rfl
      · rw [List.filter_cons_of_neg (by simpa using hclient), ih, ih]

end Publish

/-- For one client, the matching subscriptions of the tree are the matching filters of the
reference. -/
theorem filter_matching {tree : SubscriptionTree} {reference : Reference}
    (h : Indexes tree reference) {client : ClientId} {filters : Table String QoS}
    (hfilters : reference client = some filters) (topic : String) :
    (tree.matching topic).filter (fun subscription ↦ subscription.1 = client) =
      (filters.pairs.filter fun entry ↦
        Topic.filterMatches entry.1 (Topic.segments topic)).map fun entry ↦ (client, entry.2) := by
  apply Index.filter_select_eq
  intro filter
  rw [h, hfilters, Option.bind_some]

/-- A client is sent the deliveries that the reference expects for it. -/
theorem deliveries_eq_expected {operations : List Operation} {broker : Broker}
    (h : Agrees broker (.after operations) (latestChannel operations)) (source client : ClientId)
    {packet : PublishPacket} {order : List (ClientId × QoS)} (horder : broker.IsOrder packet order)
    (channels : Channels) :
    (((broker.publish source packet order channels).1.filter
        fun delivery ↦ delivery.client = client).map
          fun delivery ↦ (delivery.connection, withoutId delivery.packet) : Multiset _) =
      expectedDeliveries operations source packet client := by
  rw [publish_deliveries, expectedDeliveries, Broker.recipient]
  cases hentry : broker.sessions.lookup client with
  | none =>
    rw [h.eq_none_of_lookup_eq_none hentry]
    split <;> rfl
  | some entry =>
    obtain ⟨filters, hfilters⟩ := h.eq_some_of_lookup_eq_some hentry
    rw [hfilters, h.channel client entry hentry]
    by_cases hsource : client = source
    · simp [hsource]
    · simp only [hsource, if_false, Option.elim_some]
      calc
        _ = ((order : Multiset (ClientId × QoS)).filter
              fun subscription ↦ subscription.1 = client).map
                fun subscription ↦ (entry.channel, expectedPacket packet subscription.2) := by
          rw [Multiset.filter_coe, Multiset.map_coe]
        _ = _ := by
          rw [horder, filter_matching h.indexes hfilters, Multiset.map_map]
          rfl

/-- After every sequence of operations the broker answers as the reference says, and delivers to
every client what the reference says it is owed. -/
theorem broker_refines_reference {channels : Channels} {operations : List Operation}
    {store : Store}
    (run : Run Store.step Unrestricted { broker := .new, channels } operations store) :
    (∀ client channel will cleanSession,
      (store.broker.registerSession client channel will cleanSession).1 =
        (!cleanSession && (Reference.after operations client).isSome)) ∧
    (∀ client filters, (store.broker.subscribe client filters).1 =
      (Reference.after operations).subackCodes client filters) ∧
    (∀ source packet order, store.broker.IsOrder packet order →
      ∃ deliveries channels', store.broker.publish source packet order store.channels =
          (deliveries, channels') ∧
        (∀ client, ((deliveries.filter fun delivery ↦ delivery.client = client).map
            fun delivery ↦ (delivery.connection, withoutId delivery.packet) : Multiset _) =
          expectedDeliveries operations source packet client) ∧
        (∀ delivery ∈ deliveries, delivery.packet.packetId.isSome =
          decide (delivery.packet.qos ≠ .atMostOnce)) ∧
        ∀ connection, (channels' connection).commands = (store.channels connection).commands ++
          if (store.channels connection).receiving then
            (deliveries.filter fun delivery ↦ delivery.connection = connection).map
              fun delivery ↦ .publish delivery.packet
          else []) := by
  have h := Agrees.of_run run
  refine ⟨fun client channel will cleanSession ↦ ?_, fun client filters ↦ ?_,
    fun source packet order horder ↦ ⟨_, _, rfl, fun client ↦ ?_, ?_, ?_⟩⟩
  · rw [← h.registered]
    rfl
  · rw [Reference.subackCodes, ← h.registered, Broker.subscribe]
    cases store.broker.sessions.lookup client with
    | none => rfl
    | some entry => exact subscribeFilters_codes client filters _
  · exact deliveries_eq_expected h source client horder store.channels
  · exact publish_packetId store.broker source packet order store.channels
  · exact publish_commands store.broker source packet order store.channels

def fanOutOperations : List Operation :=
  [.register "a" 0 none true, .subscribe "a" [⟨"t/+", .atLeastOnce⟩], .register "b" 1 none true]

def fanOutPacket : PublishPacket :=
  { topic := "t/x", payload := [], dup := false, qos := .exactlyOnce, retain := true
    packetId := some 7 }

theorem broker_refines_reference_fanOut :
    ∃ store, Run Store.step Unrestricted { broker := .new, channels := fun _ ↦ .new }
        fanOutOperations store ∧
      store.broker.IsOrder fanOutPacket [("a", .atLeastOnce)] ∧
      ∃ deliveries channels', store.broker.publish "b" fanOutPacket [("a", .atLeastOnce)]
          store.channels = (deliveries, channels') ∧
        ((deliveries.filter fun delivery ↦ delivery.client = "a").map
            fun delivery ↦ (delivery.connection, withoutId delivery.packet) : Multiset _) =
          {(0, expectedPacket fanOutPacket .atLeastOnce)} := by
  obtain ⟨store, hrun, horder⟩ : ∃ store,
      Run Store.step Unrestricted { broker := .new, channels := fun _ ↦ .new } fanOutOperations
        store ∧ store.broker.IsOrder fanOutPacket [("a", .atLeastOnce)] :=
    ⟨_, Run.of_foldlM rfl, by decide⟩
  obtain ⟨deliveries, channels', hpublish, hdeliveries, _⟩ :=
    (broker_refines_reference hrun).2.2 "b" fanOutPacket _ horder
  refine ⟨store, hrun, horder, deliveries, channels', hpublish, ?_⟩
  rw [hdeliveries]
  decide

end HotaruMqtt

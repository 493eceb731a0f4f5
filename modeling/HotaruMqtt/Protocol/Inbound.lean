import HotaruMqtt.Broker.Reference
import HotaruMqtt.Protocol.Dispatch

/-!
# Inbound QoS 2 handshakes

A message of QoS 2 is stored when its PUBLISH arrives and handed on when its PUBREL arrives. The
receiver is the part of a dispatcher that does this, without its surroundings. It is compared on
one side with the history of packets, and on the other side with the dispatchers of the server and
of the client, which also do everything else.
-/

namespace HotaruMqtt.Inbound

open Library

/-- The packets that belong to the handshakes of an identifier. -/
def concerns (id : PacketId) : Packet → Bool
  | .publish p => p.qos = .exactlyOnce && p.packetId = some id
  | .pubrel id' => id' = id
  | _ => false

/-- The latest QoS 2 PUBLISH with an identifier since the latest PUBREL with it. -/
def latestPublish (history : List Packet) (id : PacketId) : Option PublishPacket :=
  match history.reverse.find? (concerns id) with
  | some (.publish p) => some p
  | _ => none

/-- The message that a packet releases after a history. -/
def releasedBy (history : List Packet) : Packet → Option PublishPacket
  | .pubrel id => latestPublish history id
  | _ => none

/-- The messages released by the PUBRELs of a history, in order. -/
def handshakes (history : List Packet) : List PublishPacket :=
  (List.range history.length).filterMap fun i ↦
    history[i]?.bind (releasedBy (history.take i))

/-- The reply that a packet of a QoS 2 handshake calls for. -/
def replyTo : Packet → Option Packet
  | .publish p => if p.qos = .exactlyOnce then p.packetId.map .pubrec else none
  | .pubrel id => some (.pubcomp id)
  | _ => none

theorem latestPublish_append (history : List Packet) (packet : Packet) (id : PacketId) :
    latestPublish (history ++ [packet]) id =
      if concerns id packet then (match packet with | .publish p => some p | _ => none)
      else latestPublish history id := by
  unfold latestPublish
  rw [List.reverse_append, List.reverse_singleton, List.singleton_append, List.find?_cons]
  cases concerns id packet with
  | true => cases packet <;> rfl
  | false => rfl

theorem handshakes_append (history : List Packet) (packet : Packet) :
    handshakes (history ++ [packet]) =
      handshakes history ++ (releasedBy history packet).toList := by
  unfold handshakes
  rw [List.length_append, List.length_singleton, List.range_succ, List.filterMap_append]
  congr 1
  · apply List.filterMap_congr
    intro i hi
    have hlt : i < history.length := List.mem_range.mp hi
    rw [List.getElem?_append_left hlt, List.take_append_of_le_length hlt.le]
  · have hlast : (history ++ [packet])[history.length]? = some packet := List.getElem?_concat_length
    rw [List.filterMap_cons, hlast, List.take_left, Option.bind_some]
    cases releasedBy history packet <;> rfl

/-- A message that waits for its PUBREL was published with QoS 2 under its identifier. -/
theorem latestPublish_spec {history : List Packet} {id : PacketId} {p : PublishPacket}
    (h : latestPublish history id = some p) : p.qos = .exactlyOnce ∧ p.packetId = some id := by
  unfold latestPublish at h
  split at h
  · rename_i p' hfind
    obtain rfl := Option.some.inj h
    have hconcerns := List.find?_some hfind
    simpa [concerns] using hconcerns
  · cases h

/-- The messages that are stored, those that were handed on, and the replies that were sent. -/
structure Receiver where
  stored : PacketId → Option IncomingPublish
  released : List IncomingPublish
  replies : List Packet

namespace Receiver

def init : Receiver := { stored := fun _ ↦ none, released := [], replies := [] }

def store (receiver : Receiver) (id : PacketId) (message : IncomingPublish) : Receiver :=
  { receiver with
    stored := Function.update receiver.stored id (some message)
    replies := receiver.replies ++ [.pubrec id] }

def take (receiver : Receiver) (id : PacketId) : Receiver :=
  { receiver with stored := Function.update receiver.stored id none }

def release (receiver : Receiver) (id : PacketId) : Receiver :=
  { stored := Function.update receiver.stored id none
    released := receiver.released ++ (receiver.stored id).toList
    replies := receiver.replies ++ [.pubcomp id] }

def accept (receiver : Receiver) : Packet → Receiver
  | .publish p =>
      match p.qos, p.packetId with
      | .exactlyOnce, some id => receiver.store id (incomingFromPacket p)
      | _, _ => receiver
  | .pubrel id => receiver.release id
  | _ => receiver

/-- The message that a packet makes the receiver hand on. -/
def releases (receiver : Receiver) : Packet → List IncomingPublish
  | .pubrel id => (receiver.stored id).toList
  | _ => []

def after (history : List Packet) : Receiver := history.foldl accept init

theorem after_append (history : List Packet) (packet : Packet) :
    after (history ++ [packet]) = (after history).accept packet :=
  List.foldl_append

/-- The receiver has handed on, stored and answered what the history calls for. -/
structure Meets (receiver : Receiver) (history : List Packet) : Prop where
  stored : ∀ id, receiver.stored id = (latestPublish history id).map incomingFromPacket
  released : receiver.released = (handshakes history).map incomingFromPacket
  replies : receiver.replies = history.filterMap replyTo

theorem released_accept (receiver : Receiver) (packet : Packet) :
    (receiver.accept packet).released = receiver.released ++ receiver.releases packet := by
  cases packet with
  | publish p =>
    simp only [accept]
    split <;> exact (List.append_nil _).symm
  | pubrel id => rfl
  | _ => exact (List.append_nil _).symm

theorem take_of_stored_eq_none {receiver : Receiver} {id : PacketId}
    (h : receiver.stored id = none) : receiver.take id = receiver := by
  rw [take, ← h, Function.update_eq_self]

theorem meets_init : Meets init [] := ⟨fun _ ↦ rfl, rfl, rfl⟩

/-- A packet of no handshake changes nothing. -/
theorem Meets.ignore {receiver : Receiver} {history : List Packet} (h : Meets receiver history)
    {packet : Packet} (hconcerns : ∀ id, concerns id packet = false)
    (hreply : replyTo packet = none) : Meets receiver (history ++ [packet]) := by
  have hreleased : releasedBy history packet = none := by
    cases packet with
    | pubrel id => simp [concerns] at hconcerns
    | _ => rfl
  constructor
  · intro id
    rw [latestPublish_append, hconcerns, h.stored]
    rfl
  · rw [handshakes_append, hreleased, h.released, Option.toList_none, List.append_nil]
  · rw [List.filterMap_append, h.replies, List.filterMap_cons, hreply]
    exact (List.append_nil _).symm

theorem Meets.store {receiver : Receiver} {history : List Packet} (h : Meets receiver history)
    {p : PublishPacket} {id : PacketId} (hqos : p.qos = .exactlyOnce) (hid : p.packetId = some id) :
    Meets (receiver.store id (incomingFromPacket p)) (history ++ [.publish p]) := by
  constructor
  · intro id'
    rw [latestPublish_append, Receiver.store]
    by_cases heq : id' = id
    · subst heq
      simp [concerns, hqos, hid]
    · simp [concerns, hqos, hid, heq, Ne.symm heq, h.stored]
  · rw [handshakes_append]
    simp [Receiver.store, releasedBy, h.released]
  · rw [List.filterMap_append]
    simp [Receiver.store, replyTo, hqos, hid, h.replies]

theorem Meets.release {receiver : Receiver} {history : List Packet} (h : Meets receiver history)
    (id : PacketId) : Meets (receiver.release id) (history ++ [.pubrel id]) := by
  constructor
  · intro id'
    rw [latestPublish_append, Receiver.release]
    by_cases heq : id' = id
    · subst heq
      simp [concerns]
    · simp [concerns, heq, Ne.symm heq, h.stored]
  · rw [handshakes_append, Receiver.release, releasedBy, h.released, h.stored, List.map_append]
    cases latestPublish history id <;> rfl
  · rw [List.filterMap_append]
    simp [Receiver.release, replyTo, h.replies]

theorem Meets.accept {receiver : Receiver} {history : List Packet} (h : Meets receiver history)
    (packet : Packet) : Meets (receiver.accept packet) (history ++ [packet]) := by
  cases packet with
  | publish p =>
    cases hqos : p.qos with
    | exactlyOnce =>
      cases hid : p.packetId with
      | some id =>
        simp only [Receiver.accept, hqos, hid]
        exact h.store hqos hid
      | none =>
        simp only [Receiver.accept, hqos, hid]
        exact h.ignore (by simp [concerns, hid]) (by simp [replyTo, hid])
    | atMostOnce | atLeastOnce =>
      simp only [Receiver.accept, hqos]
      exact h.ignore (by simp [concerns, hqos]) (by simp [replyTo, hqos])
  | pubrel id => exact h.release id
  | _ => exact h.ignore (fun _ ↦ rfl) rfl

theorem meets_after (history : List Packet) : Meets (after history) history := by
  induction history using List.reverseRecOn with
  | nil => exact meets_init
  | append_singleton history packet ih =>
    rw [after_append]
    exact ih.accept packet

end Receiver

theorem Receiver.Meets.stored_spec {receiver : Receiver} {history : List Packet}
    (h : receiver.Meets history) {id : PacketId} {message : IncomingPublish}
    (hstored : receiver.stored id = some message) :
    message.qos = .exactlyOnce ∧ message.packetId = some id := by
  rw [h.stored, Option.map_eq_some_iff] at hstored
  obtain ⟨p, hlatest, rfl⟩ := hstored
  exact latestPublish_spec hlatest

/-! ## Channels that play the receiver -/

def handshakeReply : WriteCmd → Option Packet
  | .packet (.pubrec id) => some (.pubrec id)
  | .packet (.pubcomp id) => some (.pubcomp id)
  | _ => none

/-- The replies of QoS 2 handshakes among the commands of a queue. -/
def handshakeReplies (commands : List WriteCmd) : List Packet := commands.filterMap handshakeReply

/-- The channel stores what the receiver stores, and has enqueued its replies after `earlier`. -/
structure Plays (earlier : List Packet) (channel : MqttChannel) (receiver : Receiver) : Prop where
  receiving : channel.receiving = true
  stored : ∀ id, channel.session.qos2Recv.lookup id = receiver.stored id
  replies : handshakeReplies channel.commands = earlier ++ receiver.replies

namespace Plays

variable {earlier : List Packet} {channel : MqttChannel} {receiver : Receiver}

/-- What else happens to a channel does not matter. -/
theorem congr {channel' : MqttChannel} (h : Plays earlier channel receiver)
    (hreceiving : channel'.receiving = channel.receiving)
    (hstored : channel'.session.qos2Recv = channel.session.qos2Recv)
    (hreplies : handshakeReplies channel'.commands = handshakeReplies channel.commands) :
    Plays earlier channel' receiver := by
  constructor
  · rw [hreceiving, h.receiving]
  · rw [hstored]
    exact h.stored
  · rw [hreplies, h.replies]

/-- A reply that belongs to no handshake. -/
theorem reply (h : Plays earlier channel receiver) {packet : Packet}
    (hpacket : handshakeReply (.packet packet) = none) :
    (channel.reply packet).2 = .ok () ∧ Plays earlier (channel.reply packet).1 receiver := by
  rw [MqttChannel.reply_of_receiving h.receiving]
  refine ⟨rfl, h.congr rfl rfl ?_⟩
  rw [handshakeReplies, List.filterMap_append, List.filterMap_cons, hpacket]
  exact List.append_nil _

theorem ackInboundPublishPreChain (h : Plays earlier channel receiver) (p : PublishPacket) :
    (channel.ackInboundPublishPreChain p).2 = .ok () ∧
      Plays earlier (channel.ackInboundPublishPreChain p).1 (receiver.accept (.publish p)) := by
  cases hqos : p.qos with
  | atMostOnce =>
    simp only [MqttChannel.ackInboundPublishPreChain, Receiver.accept, hqos]
    exact ⟨trivial, h⟩
  | atLeastOnce =>
    cases hid : p.packetId with
    | none =>
      simp only [MqttChannel.ackInboundPublishPreChain, Receiver.accept, hqos, hid]
      exact ⟨trivial, h⟩
    | some id =>
      simp only [MqttChannel.ackInboundPublishPreChain, Receiver.accept, hqos, hid]
      exact h.reply rfl
  | exactlyOnce =>
    cases hid : p.packetId with
    | none =>
      simp only [MqttChannel.ackInboundPublishPreChain, Receiver.accept, hqos, hid]
      exact ⟨trivial, h⟩
    | some id =>
      simp only [MqttChannel.ackInboundPublishPreChain, Receiver.accept, hqos, hid]
      rw [MqttChannel.reply_of_receiving (by exact h.receiving)]
      refine ⟨rfl, h.receiving, fun id' ↦ ?_, ?_⟩
      · rw [Table.lookup_insert_eq, h.stored]
        exact (Function.update_apply ..).symm
      · rw [handshakeReplies, List.filterMap_append, ← handshakeReplies, h.replies,
          List.append_assoc]
        rfl

theorem take (h : Plays earlier channel receiver) (id : PacketId) :
    Plays earlier (channel.takeStored id) (receiver.take id) := by
  constructor
  · exact h.receiving
  · intro id'
    rw [MqttChannel.takeStored, Table.lookup_erase_eq, h.stored]
    exact (Function.update_apply ..).symm
  · exact h.replies

/-- The PUBCOMP that ends a handshake, after its message was taken. -/
theorem pubcomp {id : PacketId} (h : Plays earlier channel (receiver.take id)) :
    Plays earlier (channel.reply (.pubcomp id)).1 (receiver.accept (.pubrel id)) := by
  rw [MqttChannel.reply_of_receiving h.receiving]
  refine ⟨h.receiving, h.stored, ?_⟩
  rw [handshakeReplies, List.filterMap_append, ← handshakeReplies, h.replies, List.append_assoc]
  rfl

/-- The fan-out does not touch the handshakes of any connection. -/
theorem publish {channels : Channels} {connection : ConnectionId}
    (h : Plays earlier (channels connection) receiver) (broker : Broker) (source : ClientId)
    (packet : PublishPacket) (order : List (ClientId × QoS)) :
    Plays earlier ((broker.publish source packet order channels).2 connection) receiver := by
  have hframe := publish_frame broker source packet order channels connection
  apply h.congr hframe.1 hframe.2
  rw [publish_commands, handshakeReplies, List.filterMap_append]
  split
  · have hnone : List.filterMap handshakeReply
        (((broker.publish source packet order channels).1.filter fun delivery ↦
          delivery.connection = connection).map fun delivery ↦ .publish delivery.packet) = [] := by
      simp [List.filterMap_map, Function.comp_def, handshakeReply]
    rw [hnone]
    exact List.append_nil _
  · exact List.append_nil _

theorem handOn {store next : Store} {connection : ConnectionId}
    (h : Plays earlier (store.channels connection) receiver) {client : ClientId}
    {surroundings : Surroundings} {message : PublishPacket}
    (hnext : store.handOn client surroundings message = some next) :
    Plays earlier (next.channels connection) receiver := by
  obtain rfl | ⟨packet, rfl⟩ := Store.exists_of_handOn hnext
  · exact h
  · exact h.publish ..

theorem ackOutbound {channels : Channels} {connection : ConnectionId}
    (h : Plays earlier (channels connection) receiver) (broker : Broker) (client : ClientId)
    (id : PacketId) :
    Plays earlier ((broker.ackOutbound client id channels).2 connection) receiver := by
  obtain ⟨hcommands, hreceiving, hstored⟩ :=
    broker.ackOutbound_frame client id channels connection
  exact h.congr hreceiving hstored (congrArg handshakeReplies hcommands)

theorem answer {store : Store} {connection : ConnectionId}
    (h : Plays earlier (store.channels connection) receiver) {packet : Packet}
    (hpacket : handshakeReply (.packet packet) = none) (handed : List PublishPacket) :
    Plays earlier ((store.answer connection packet handed).store.channels connection) receiver := by
  simp only [Store.answer, Store.setChannel, Function.update_self]
  exact (h.reply hpacket).2

end Plays

/-- Every stored message has QoS 2 and the identifier it is stored under. -/
def Sound (receiver : Receiver) : Prop :=
  ∀ id message, receiver.stored id = some message →
    message.qos = .exactlyOnce ∧ message.packetId = some id

theorem sound_after (history : List Packet) : Sound (.after history) := by
  intro id message hstored
  exact (Receiver.meets_after history).stored_spec hstored

def asPublish (message : IncomingPublish) : PublishPacket :=
  { properties := message.properties, topic := message.topic, payload := message.payload
    dup := false, qos := message.qos, retain := message.retain, packetId := message.packetId }

section Dispatch

variable {earlier : List Packet} {receiver : Receiver}

theorem dispatchClientInbound_plays {channel : MqttChannel} (h : Plays earlier channel receiver)
    (hsound : Sound receiver) (packet : Packet) :
    Plays earlier (channel.dispatchClientInbound packet).channel (receiver.accept packet) ∧
      (channel.dispatchClientInbound packet).handed.filter (fun m ↦ m.qos = .exactlyOnce) =
        receiver.releases packet := by
  cases packet with
  | publish p =>
    obtain ⟨hacked, hplays⟩ := h.ackInboundPublishPreChain p
    simp only [MqttChannel.dispatchClientInbound, hacked]
    split
    · exact ⟨hplays, rfl⟩
    · rename_i hqos
      refine ⟨hplays, ?_⟩
      simp [incomingFromPacket, hqos, Receiver.releases]
  | pubrec id =>
    have hfired : Plays earlier { channel with session := (channel.session.fireAck id .pubrec).2 }
        receiver := h.congr rfl rfl rfl
    exact ⟨(hfired.reply rfl).2, rfl⟩
  | pubrel id =>
    simp only [MqttChannel.dispatchClientInbound, Receiver.releases, ← h.stored]
    cases hlookup : channel.session.qos2Recv.lookup id with
    | none =>
      rw [h.stored] at hlookup
      rw [← Receiver.take_of_stored_eq_none hlookup] at h
      exact ⟨h.pubcomp, rfl⟩
    | some stored =>
      refine ⟨(h.take id).pubcomp, ?_⟩
      rw [h.stored] at hlookup
      simp [MqttChannel.answer, (hsound id stored hlookup).1]
  | puback | pubcomp | suback | unsuback => exact ⟨h.congr rfl rfl rfl, rfl⟩
  | disconnect | pingresp | connect | connack | subscribe | unsubscribe | pingreq => exact ⟨h, rfl⟩

theorem dispatchServerInbound_plays {store : Store} {connection : ConnectionId}
    {client : ClientId} {surroundings : Surroundings} {packet : Packet}
    {dispatched : ServerDispatch} (h : Plays earlier (store.channels connection) receiver)
    (hsound : Sound receiver)
    (hdispatch : store.dispatchServerInbound connection client surroundings packet =
      some dispatched) :
    Plays earlier (dispatched.store.channels connection) (receiver.accept packet) ∧
      dispatched.handed.filter (fun m ↦ m.qos = .exactlyOnce) =
        (receiver.releases packet).map asPublish := by
  cases packet with
  | publish p =>
    obtain ⟨hacked, hplays⟩ := h.ackInboundPublishPreChain p
    simp only [Store.dispatchServerInbound, hacked] at hdispatch
    split at hdispatch
    · obtain rfl := Option.some.inj hdispatch
      simp only [Store.setChannel, Function.update_self]
      exact ⟨hplays, rfl⟩
    · rename_i hqos
      obtain ⟨next, hnext, rfl⟩ := Option.map_eq_some_iff.mp hdispatch
      constructor
      · apply Plays.handOn _ hnext
        simp only [Store.setChannel, Function.update_self]
        exact hplays
      · simp [hqos, Receiver.releases]
  | pubrel id =>
    simp only [Store.dispatchServerInbound] at hdispatch
    simp only [Receiver.releases, ← h.stored]
    cases hlookup : (store.channels connection).session.qos2Recv.lookup id with
    | none =>
      rw [hlookup] at hdispatch
      obtain rfl := Option.some.inj hdispatch
      rw [h.stored] at hlookup
      rw [← Receiver.take_of_stored_eq_none hlookup] at h
      simp only [Store.answer, Store.setChannel, Function.update_self]
      exact ⟨h.pubcomp, rfl⟩
    | some stored =>
      rw [hlookup] at hdispatch
      obtain ⟨next, hnext, rfl⟩ := Option.map_eq_some_iff.mp hdispatch
      have htaken : Plays earlier (next.channels connection) (receiver.take id) := by
        apply Plays.handOn _ hnext
        simp only [Store.setChannel, Function.update_self]
        exact h.take id
      rw [h.stored] at hlookup
      simp only [Store.answer, Store.setChannel, Function.update_self]
      refine ⟨htaken.pubcomp, ?_⟩
      obtain ⟨hqos, hid⟩ := hsound id stored hlookup
      simp [Store.rebuildPublish, asPublish, hqos, hid]
  | puback id | pubcomp id =>
    obtain rfl := Option.some.inj hdispatch
    exact ⟨h.ackOutbound store.broker client id, rfl⟩
  | subscribe | unsubscribe | pingreq | pubrec =>
    obtain rfl := Option.some.inj hdispatch
    exact ⟨h.answer rfl [], rfl⟩
  | connect | connack | suback | unsuback | pingresp | disconnect =>
    obtain rfl := Option.some.inj hdispatch
    exact ⟨h, rfl⟩

end Dispatch

/-- A connection of the server after some packets, with the messages handed on so far. After an
error no further packet is dispatched. -/
structure ServerRun where
  store : Store
  handed : List PublishPacket
  stopped : Bool

def serverStep (connection : ConnectionId) (client : ClientId) (state : ServerRun)
    (input : Surroundings × Packet) : Option ServerRun :=
  if state.stopped then none
  else (state.store.dispatchServerInbound connection client input.1 input.2).map fun dispatched ↦
    { store := dispatched.store
      handed := state.handed ++ dispatched.handed
      stopped := !dispatched.result.isOk }

/-- A client after some packets, with the messages handed on so far. After an error or a DISCONNECT
no further packet is dispatched. -/
structure ClientRun where
  channel : MqttChannel
  handed : List IncomingPublish
  stopped : Bool

def clientStep (state : ClientRun) (packet : Packet) : Option ClientRun :=
  if state.stopped then none
  else
    let dispatched := state.channel.dispatchClientInbound packet
    some
      { channel := dispatched.channel
        handed := state.handed ++ dispatched.handed
        stopped := match dispatched.result with | .ok false => false | _ => true }

section Runs

/-- The messages of QoS 2 that the server has handed on. -/
def ServerRun.qos2Handed (state : ServerRun) : List PublishPacket :=
  state.handed.filter fun message ↦ message.qos = .exactlyOnce

/-- The messages of QoS 2 that the client has handed on. -/
def ClientRun.qos2Handed (state : ClientRun) : List IncomingPublish :=
  state.handed.filter fun message ↦ message.qos = .exactlyOnce

theorem plays_init {channel : MqttChannel} (hreceiving : channel.receiving = true)
    (hstored : channel.session.qos2Recv = ∅) :
    Plays (handshakeReplies channel.commands) channel .init := by
  constructor
  · exact hreceiving
  · intro id
    rw [hstored]
    rfl
  · exact (List.append_nil _).symm

theorem server_plays {connection : ConnectionId} {client : ClientId} {start : Store}
    (hreceiving : (start.channels connection).receiving = true)
    (hstored : (start.channels connection).session.qos2Recv = ∅)
    {inputs : List (Surroundings × Packet)} {last : ServerRun}
    (run : Run (serverStep connection client) Unrestricted
      { store := start, handed := [], stopped := false } inputs last) :
    Plays (handshakeReplies (start.channels connection).commands) (last.store.channels connection)
        (.after (inputs.map Prod.snd)) ∧
      last.qos2Handed = (Receiver.after (inputs.map Prod.snd)).released.map asPublish := by
  induction run with
  | refl => exact ⟨plays_init hreceiving hstored, rfl⟩
  | @tail inputs state last input _ _ enabled ih =>
    unfold serverStep at enabled
    split at enabled
    · cases enabled
    · obtain ⟨dispatched, hdispatched, rfl⟩ := Option.map_eq_some_iff.mp enabled
      obtain ⟨hplays, hhanded⟩ :=
        dispatchServerInbound_plays ih.1 (sound_after _) hdispatched
      rw [List.map_append, List.map_singleton, Receiver.after_append]
      refine ⟨hplays, ?_⟩
      calc
        _ = state.qos2Handed ++
            dispatched.handed.filter fun message ↦ message.qos = .exactlyOnce :=
          List.filter_append ..
        _ = _ := by rw [ih.2, hhanded, Receiver.released_accept, List.map_append]

theorem client_plays {start : MqttChannel} (hreceiving : start.receiving = true)
    (hstored : start.session.qos2Recv = ∅) {packets : List Packet} {last : ClientRun}
    (run : Run clientStep Unrestricted { channel := start, handed := [], stopped := false }
      packets last) :
    Plays (handshakeReplies start.commands) last.channel (.after packets) ∧
      last.qos2Handed = (Receiver.after packets).released := by
  induction run with
  | refl => exact ⟨plays_init hreceiving hstored, rfl⟩
  | @tail packets state last packet _ _ enabled ih =>
    unfold clientStep at enabled
    split at enabled
    · cases enabled
    · obtain rfl := Option.some.inj enabled
      obtain ⟨hplays, hhanded⟩ := dispatchClientInbound_plays ih.1 (sound_after _) packet
      rw [Receiver.after_append]
      refine ⟨hplays, ?_⟩
      calc
        _ = state.qos2Handed ++
            (state.channel.dispatchClientInbound packet).handed.filter fun message ↦
              message.qos = .exactlyOnce :=
          List.filter_append ..
        _ = _ := by rw [ih.2, hhanded, Receiver.released_accept]

end Runs

/-- What a step of the server hands on runs through the chain and the fan-out. -/
theorem handsOn_serverStep {connection : ConnectionId} {client : ClientId}
    {state next : ServerRun} {input : Surroundings × Packet}
    (h : serverStep connection client state input = some next) :
    ∃ handed : Option PublishPacket, next.handed = state.handed ++ handed.toList ∧
      state.store.HandsOn client input.1 handed next.store := by
  unfold serverStep at h
  split at h
  · cases h
  · obtain ⟨dispatched, hdispatched, rfl⟩ := Option.map_eq_some_iff.mp h
    obtain ⟨handed, hhanded, hhandsOn⟩ := Store.handsOn_dispatch hdispatched
    exact ⟨handed, congrArg (state.handed ++ ·) hhanded, hhandsOn⟩

/-- After every sequence of packets on a fresh connection whose sends succeed, the messages of
QoS 2 that were handed on are those that the PUBRELs of the sequence release, in order, and the
replies are one PUBREC for every PUBLISH of QoS 2 and one PUBCOMP for every PUBREL, in order. On the
server, what a packet hands on is what goes through the chain and the fan-out. -/
theorem qos2_handed_once :
    (∀ connection client start inputs last,
      (start.channels connection).receiving = true →
      (start.channels connection).session.qos2Recv = ∅ →
      Run (serverStep connection client) Unrestricted
        { store := start, handed := [], stopped := false } inputs last →
      last.qos2Handed =
          (handshakes (inputs.map Prod.snd)).map (fun p ↦ { p with dup := false }) ∧
        handshakeReplies (last.store.channels connection).commands =
          handshakeReplies (start.channels connection).commands ++
            (inputs.map Prod.snd).filterMap replyTo ∧
        ∀ input next, serverStep connection client last input = some next →
          ∃ handed : Option PublishPacket, next.handed = last.handed ++ handed.toList ∧
            last.store.HandsOn client input.1 handed next.store) ∧
    (∀ start packets last, start.receiving = true → start.session.qos2Recv = ∅ →
      Run clientStep Unrestricted { channel := start, handed := [], stopped := false }
        packets last →
      last.qos2Handed = (handshakes packets).map incomingFromPacket ∧
        handshakeReplies last.channel.commands =
          handshakeReplies start.commands ++ packets.filterMap replyTo) := by
  constructor
  · intro connection client start inputs last hreceiving hstored run
    obtain ⟨hplays, hhanded⟩ := server_plays hreceiving hstored run
    have hmeets := Receiver.meets_after (inputs.map Prod.snd)
    rw [hhanded, hmeets.released, List.map_map, hplays.replies, hmeets.replies]
    exact ⟨rfl, rfl, fun input next ↦ handsOn_serverStep⟩
  · intro start packets last hreceiving hstored run
    obtain ⟨hplays, hhanded⟩ := client_plays hreceiving hstored run
    have hmeets := Receiver.meets_after packets
    rw [hhanded, hmeets.released, hplays.replies, hmeets.replies]
    exact ⟨rfl, rfl⟩

def publishTwo (payload : Bytes) (dup : Bool) : PublishPacket :=
  { topic := "t", payload, dup, qos := .exactlyOnce, retain := false, packetId := some 1 }

/-- A subscriber to the topic of the messages. -/
def attentiveStore : Store :=
  let (_, broker) := Broker.new.registerSession "s" 1 none true
  let (_, broker) := broker.subscribe "s" [{ filter := "t", qos := .atMostOnce }]
  { broker, channels := fun _ ↦ .new }

/-- A message sent twice before its PUBREL, which is sent twice as well, is handed on once. On the
server it reaches the subscriber with the PUBREL. -/
theorem qos2_handed_once_retransmitted :
    (∃ last, Run clientStep Unrestricted { channel := .new, handed := [], stopped := false }
        [.publish (publishTwo [1] false), .publish (publishTwo [1] true), .pubrel 1, .pubrel 1]
        last ∧
      last.qos2Handed = [incomingFromPacket (publishTwo [1] true)] ∧
      handshakeReplies last.channel.commands =
        [.pubrec 1, .pubrec 1, .pubcomp 1, .pubcomp 1]) ∧
    ∃ last next, Run (serverStep 0 "p") Unrestricted
        { store := attentiveStore, handed := [], stopped := false }
        [(⟨[], []⟩, .publish (publishTwo [1] false)), (⟨[], []⟩, .publish (publishTwo [1] true))]
        last ∧
      serverStep 0 "p" last (⟨[], [("s", .atMostOnce)]⟩, .pubrel 1) = some next ∧
      next.qos2Handed = [publishTwo [1] false] ∧
      handshakeReplies (next.store.channels 0).commands = [.pubrec 1, .pubrec 1, .pubcomp 1] ∧
      (next.store.channels 1).commands.filterMap published =
        [{ publishTwo [1] false with qos := .atMostOnce, packetId := none }] := by
  constructor
  · obtain ⟨last, hrun⟩ : ∃ last, Run clientStep Unrestricted
        { channel := .new, handed := [], stopped := false }
        [.publish (publishTwo [1] false), .publish (publishTwo [1] true), .pubrel 1, .pubrel 1]
        last :=
      ⟨_, Run.of_foldlM rfl⟩
    have h := qos2_handed_once.2 _ _ _ rfl rfl hrun
    exact ⟨last, hrun, h.1.trans (by decide), h.2.trans (by decide)⟩
  · obtain ⟨last, next, hrun, hstep, hbefore, hbehind, hqueue, hfanned⟩ : ∃ last next,
        Run (serverStep 0 "p") Unrestricted
          { store := attentiveStore, handed := [], stopped := false }
          [(⟨[], []⟩, .publish (publishTwo [1] false)),
            (⟨[], []⟩, .publish (publishTwo [1] true))] last ∧
        serverStep 0 "p" last (⟨[], [("s", .atMostOnce)]⟩, .pubrel 1) = some next ∧
        last.handed = [] ∧ next.handed = [publishTwo [1] false] ∧
        (last.store.channels 1).commands.filterMap published = [] ∧
        last.store.fannedOut "p" [("s", .atMostOnce)] 1 (some (publishTwo [1] false)) =
          [{ publishTwo [1] false with qos := .atMostOnce, packetId := none }] :=
      ⟨_, _, Run.of_foldlM rfl, rfl, rfl, rfl, rfl, rfl⟩
    obtain ⟨hhanded, hreplies, -⟩ :=
      qos2_handed_once.1 _ _ _ _ _ rfl rfl (hrun.tail trivial hstep)
    obtain ⟨-, -, heffect⟩ := qos2_handed_once.1 _ _ _ _ _ rfl rfl hrun
    obtain ⟨handed, hadded, hhandsOn⟩ := heffect _ _ hstep
    rw [hbefore, hbehind, List.nil_append] at hadded
    refine ⟨last, next, hrun, hstep, hhanded.trans (by decide), hreplies.trans (by decide), ?_⟩
    cases handed with
    | none => cases hadded
    | some message =>
      obtain rfl := List.head_eq_of_cons_eq hadded
      rw [hhandsOn.queues 1, hqueue]
      exact hfanned

end HotaruMqtt.Inbound

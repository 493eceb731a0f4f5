import HotaruMqtt.Broker.Reference
import HotaruMqtt.Protocol.Dispatch

/-!
# The server handler

`handle_server` serves one connection, from its CONNECT to its end. It leaves its loop either by
`break`, after which it unregisters the session, or by returning an error from within. The handler
is taken step by step, and between its steps anything may happen to the channels, and the broker
may serve other clients. Time is not represented: a timeout may strike whenever the handler waits.
-/

namespace HotaruMqtt.Server

open Library

structure AuthResult where
  accepted : Bool
  returnCode : ConnackReturnCode

inductive Phase where
  /-- Waiting for the CONNECT. -/
  | connecting
  /-- The session is registered and the CONNACK is not yet sent. -/
  | registered (client : ClientId) (sessionPresent : Bool)
  | looping (client : ClientId)
  /-- Behind the loop. -/
  | leaving (client : ClientId) (graceful : Bool)
  | returned (result : Except Fault Unit)

structure World where
  store : Store
  /-- The bytes of the peer that were not read yet. -/
  wire : Bytes
  phase : Phase
  /-- The client and the will with which the handler registered. -/
  registration : Option (ClientId × Option WillMessage)
  /-- A DISCONNECT was received. -/
  disconnected : Bool
  /-- The wills that were handed to the fan-out. -/
  wills : List PublishPacket

def init (store : Store) (wire : Bytes) : World :=
  { store, wire, phase := .connecting, registration := none, disconnected := false, wills := [] }

inductive Event where
  | read (surroundings : Surroundings)
  | wireFails
  | timeout
  | shutdown

inductive Action where
  /-- The wait for the CONNECT ends with a packet, or with the end of the stream. -/
  | connect (auth : AuthResult)
  | connectFails
  | connectTimeout
  | sendConnack
  /-- One turn of the loop. -/
  | turn (event : Event)
  | unregister (order : List (ClientId × QoS))
  /-- The broker serves another client. No other connection uses the identifier. -/
  | other (operation : Operation)
  /-- Something else happens to the channels. -/
  | disturb (channels : Channels)

/-- The identifier that is made up for a connection. -/
def madeUpId (connection : ConnectionId) : ClientId := "hotaru-auto-" ++ toString connection

def assignedClientId (connection : ConnectionId) (connect : ConnectPacket) : ClientId :=
  if connect.clientId = "" then madeUpId connection else connect.clientId

def connectWill (connect : ConnectPacket) : Option WillMessage :=
  connect.will.map fun w ↦
    { topic := w.topic, payload := w.payload, qos := w.qos, retain := w.retain }

def World.returning (world : World) (result : Except Fault Unit) : World :=
  { world with phase := .returned result }

/-- The CONNECT was read. -/
def World.accept (world : World) (connection : ConnectionId) (auth : AuthResult)
    (connect : ConnectPacket) : World :=
  let channel := { world.store.channels connection with version := connect.version }
  if auth.accepted then
    let client := assignedClientId connection connect
    let will := connectWill connect
    let store := world.store.setChannel connection channel
    let (sessionPresent, broker) :=
      store.broker.registerSession client connection will connect.cleanSession
    { world with
      store := { store with broker }
      phase := .registered client sessionPresent
      registration := some (client, will) }
  else
    let refused : ConnackPacket := { sessionPresent := false, returnCode := auth.returnCode }
    let (channel, _) := channel.reply (.connack refused)
    { world with store := world.store.setChannel connection channel }.returning
      (.error (.protocol (.connectionRefused auth.returnCode)))

/-- Behind the read of a packet in the loop. -/
def World.serve (world : World) (connection : ConnectionId) (client : ClientId)
    (surroundings : Surroundings) (packet : Packet) : Option World :=
  if packet = .disconnect then
    some { world with phase := .leaving client true, disconnected := true }
  else
    (world.store.dispatchServerInbound connection client surroundings packet).map fun dispatched ↦
      match dispatched.result with
      | .ok () => { world with store := dispatched.store }
      | .error reason => { world with store := dispatched.store }.returning (.error (.error reason))

/-- A turn of the loop on a channel that was found open. -/
def World.wait (world : World) (connection : ConnectionId) (client : ClientId) :
    Event → Option World
  | .wireFails | .timeout | .shutdown => some { world with phase := .leaving client false }
  | .read surroundings =>
      match Codec.readPacket world.wire (world.store.channels connection).version with
      | .error (.error .io) => some { world with phase := .leaving client false }
      | .error fault => some (world.returning (.error fault))
      | .ok (packet, wire) => { world with wire }.serve connection client surroundings packet

def step (connection : ConnectionId) (world : World) : Action → Option World
  | .connect auth =>
      match world.phase with
      | .connecting =>
          match Codec.readPacket world.wire default with
          | .error fault => some (world.returning (.error fault))
          | .ok (.connect connect, wire) =>
              some ({ world with wire }.accept connection auth connect)
          | .ok (_, wire) =>
              some ({ world with wire }.returning (.error (.protocol .expectedConnect)))
      | _ => none
  | .connectFails =>
      match world.phase with
      | .connecting => some (world.returning (.error (.error .io)))
      | _ => none
  | .connectTimeout =>
      match world.phase with
      | .connecting => some (world.returning (.error (.error (.timeout .connectReceive))))
      | _ => none
  | .sendConnack =>
      match world.phase with
      | .registered client sessionPresent =>
          let (channel, result) := (world.store.channels connection).reply
            (.connack { sessionPresent, returnCode := .accepted })
          let world := { world with store := world.store.setChannel connection channel }
          match result with
          | .ok () => some { world with phase := .looping client }
          | .error reason => some (world.returning (.error (.error reason)))
      | _ => none
  | .turn event =>
      match world.phase with
      | .looping client =>
          if (world.store.channels connection).isOpen then world.wait connection client event
          else some { world with phase := .leaving client false }
      | _ => none
  | .unregister order =>
      match world.phase with
      | .leaving client graceful =>
          (world.store.broker.unregisterSession client graceful order world.store.channels).map
            fun (handed, broker, _, channels) ↦
              { world with
                store := { broker, channels }
                wills := world.wills ++ handed.toList
              }.returning (.ok ())
      | _ => none
  | .other operation =>
      if world.registration.all fun registered ↦ operation.changes ≠ some registered.1 then
        (world.store.step operation).map fun store ↦ { world with store }
      else none
  | .disturb channels => some { world with store := { world.store with channels } }

/-- The packets that are answered. -/
def needsReply : Packet → Bool
  | .publish p => p.qos ≠ .atMostOnce && p.packetId.isSome
  | .subscribe _ | .unsubscribe _ | .pingreq | .pubrec _ | .pubrel _ => true
  | _ => false

/-- What the peer sends next is not malformed, is not a second CONNECT, and can be answered if it
needs an answer. -/
def Acceptable (channel : MqttChannel) (wire : Bytes) : Prop :=
  match Codec.readPacket wire channel.version with
  | .error fault => fault = .error .io
  | .ok (packet, _) => (∀ connect, packet ≠ .connect connect) ∧
      (needsReply packet = true → channel.receiving = true)

/-- The writer accepts the CONNACK, and every turn of the loop finds the channel closed or something
acceptable on the wire. -/
def Smooth (connection : ConnectionId) (world : World) : Action → Prop
  | .sendConnack => (world.store.channels connection).receiving = true
  | .turn (.read _) => (world.store.channels connection).isOpen = true →
      Acceptable (world.store.channels connection) world.wire
  | _ => True

theorem ackInboundPublishPreChain_ok_iff (channel : MqttChannel) (p : PublishPacket) :
    (channel.ackInboundPublishPreChain p).2 = .ok () ↔
      (needsReply (.publish p) = true → channel.receiving = true) := by
  unfold MqttChannel.ackInboundPublishPreChain
  split
  · rename_i hqos hid
    rw [MqttChannel.reply_ok_iff]
    simp [needsReply, hqos, hid]
  · rename_i hqos hid
    rw [MqttChannel.reply_ok_iff]
    simp [needsReply, hqos, hid]
  · rename_i hone htwo
    cases hqos : p.qos <;> cases hid : p.packetId <;> simp_all [needsReply]

theorem handOn_frame {store next : Store} {client : ClientId} {surroundings : Surroundings}
    {message : PublishPacket} (h : store.handOn client surroundings message = some next)
    (connection : ConnectionId) :
    next.broker = store.broker ∧
      (next.channels connection).receiving = (store.channels connection).receiving := by
  obtain rfl | ⟨packet, rfl⟩ := Store.exists_of_handOn h
  · exact ⟨rfl, rfl⟩
  · exact ⟨rfl, (publish_frame ..).1⟩

/-- The broker behind the dispatch of a packet. -/
def brokerBehind (broker : Broker) (client : ClientId) : Packet → Broker
  | .subscribe s =>
      (broker.subscribe client
        (s.subscriptions.map fun ts ↦ { filter := ts.topic, qos := ts.qos })).2
  | .unsubscribe u => broker.unsubscribe client u.topics
  | _ => broker

section Dispatch

variable {store : Store} {connection : ConnectionId} {client : ClientId}
  {surroundings : Surroundings} {packet : Packet} {dispatched : ServerDispatch}

/-- A dispatch changes the broker for a SUBSCRIBE or an UNSUBSCRIBE only. -/
theorem broker_dispatch
    (h : store.dispatchServerInbound connection client surroundings packet = some dispatched) :
    dispatched.store.broker = brokerBehind store.broker client packet := by
  cases packet with
  | publish p =>
    simp only [Store.dispatchServerInbound] at h
    split at h
    · obtain rfl := Option.some.inj h
      rfl
    · split at h
      · obtain rfl := Option.some.inj h
        rfl
      · obtain ⟨next, hnext, rfl⟩ := Option.map_eq_some_iff.mp h
        exact (handOn_frame hnext connection).1
  | pubrel id =>
    simp only [Store.dispatchServerInbound] at h
    split at h
    · obtain rfl := Option.some.inj h
      rfl
    · obtain ⟨next, hnext, rfl⟩ := Option.map_eq_some_iff.mp h
      exact (handOn_frame hnext connection).1
  | _ =>
    obtain rfl := Option.some.inj h
    rfl

/-- A dispatch does not change who owns a session. -/
theorem ownerOf_dispatch
    (h : store.dispatchServerInbound connection client surroundings packet = some dispatched) :
    dispatched.store.broker.ownerOf = store.broker.ownerOf := by
  rw [broker_dispatch h]
  cases packet with
  | subscribe s => exact store.broker.ownerOf_subscribe client _
  | unsubscribe u => exact store.broker.ownerOf_unsubscribe client u.topics
  | _ => rfl

theorem answer_ok_iff (reply : Packet) (handed : List PublishPacket) :
    (store.answer connection reply handed).result = .ok () ↔
      (store.channels connection).receiving = true :=
  MqttChannel.reply_ok_iff (store.channels connection) reply

/-- A dispatch fails on a second CONNECT, and where the peer cannot be answered. -/
theorem dispatch_ok_iff
    (h : store.dispatchServerInbound connection client surroundings packet = some dispatched) :
    dispatched.result = .ok () ↔ (∀ connect, packet ≠ .connect connect) ∧
      (needsReply packet = true → (store.channels connection).receiving = true) := by
  cases packet with
  | publish p =>
    have hacked := ackInboundPublishPreChain_ok_iff (store.channels connection) p
    simp only [Store.dispatchServerInbound] at h
    split at h
    · rename_i reason hreason
      obtain rfl := Option.some.inj h
      rw [hreason] at hacked
      simpa using hacked
    · rename_i hok
      rw [hok] at hacked
      have hreceiving := hacked.mp rfl
      split at h
      · obtain rfl := Option.some.inj h
        simpa using hreceiving
      · obtain ⟨next, hnext, rfl⟩ := Option.map_eq_some_iff.mp h
        simpa using hreceiving
  | pubrel id =>
    simp only [Store.dispatchServerInbound] at h
    split at h
    · obtain rfl := Option.some.inj h
      rw [answer_ok_iff]
      simp [needsReply]
    · obtain ⟨next, hnext, rfl⟩ := Option.map_eq_some_iff.mp h
      rw [answer_ok_iff, (handOn_frame hnext connection).2]
      simp [needsReply, Store.setChannel, MqttChannel.takeStored]
  | subscribe | unsubscribe | pingreq | pubrec =>
    obtain rfl := Option.some.inj h
    rw [answer_ok_iff]
    simp [needsReply]
  | connect packet =>
    obtain rfl := Option.some.inj h
    simp
  | puback | pubcomp | connack | suback | unsuback | pingresp | disconnect =>
    obtain rfl := Option.some.inj h
    simp [needsReply]

end Dispatch

/-! ## Invariant -/

/-- The session of the handler is registered and its will is not published. -/
def Serving (connection : ConnectionId) (world : World) (client : ClientId) : Prop :=
  ∃ will, world.registration = some (client, will) ∧
    world.store.broker.ownerOf client = some (connection, will) ∧ world.wills = []

/-- What `CleansUp` asks for, for one registration. -/
structure Cleaned (world : World) (client : ClientId) (will : Option WillMessage) : Prop where
  session : world.store.broker.ownerOf client = none
  subscriptions : ∀ filter, world.store.broker.subscriptionsOf client filter = none
  wills : world.wills = if world.disconnected then [] else (will.map Broker.willPacket).toList

inductive Inv (connection : ConnectionId) (world : World) : Prop where
  | connecting (phase : world.phase = .connecting) (registration : world.registration = none)
      (disconnected : world.disconnected = false) (wills : world.wills = [])
  | registered {client : ClientId} {sessionPresent : Bool}
      (phase : world.phase = .registered client sessionPresent)
      (disconnected : world.disconnected = false) (serving : Serving connection world client)
  | looping {client : ClientId} (phase : world.phase = .looping client)
      (disconnected : world.disconnected = false) (serving : Serving connection world client)
  | leaving {client : ClientId} {graceful : Bool} (phase : world.phase = .leaving client graceful)
      (disconnected : world.disconnected = graceful) (serving : Serving connection world client)
  | refused {result : Except Fault Unit} (phase : world.phase = .returned result)
      (registration : world.registration = none)
  | cleaned {result : Except Fault Unit} {client : ClientId} {will : Option WillMessage}
      (phase : world.phase = .returned result)
      (registration : world.registration = some (client, will))
      (cleaned : Cleaned world client will)

section Steps

variable {connection : ConnectionId} {world next : World} {client : ClientId}

theorem inv_connect (registration : world.registration = none)
    (disconnected : world.disconnected = false) (wills : world.wills = []) (auth : AuthResult)
    (connect : ConnectPacket) : Inv connection (world.accept connection auth connect) := by
  unfold World.accept
  split
  · refine .registered rfl disconnected ⟨_, rfl, ?_, wills⟩
    dsimp only
    rw [Broker.ownerOf_registerSession, Function.update_self]
  · exact .refused rfl registration

/-- Sending changes neither the broker nor what the handler keeps. -/
theorem Serving.of_ownerOf {world' : World} (h : Serving connection world client)
    (howner : world'.store.broker.ownerOf client = world.store.broker.ownerOf client)
    (hregistration : world'.registration = world.registration)
    (hwills : world'.wills = world.wills) : Serving connection world' client := by
  obtain ⟨will, registration, owner, wills⟩ := h
  exact ⟨will, hregistration.trans registration, howner.trans owner, hwills.trans wills⟩

/-- What happens outside of the handler does not break its invariant. -/
theorem Inv.congr {world' : World} (h : Inv connection world) (hphase : world'.phase = world.phase)
    (hregistration : world'.registration = world.registration)
    (hdisconnected : world'.disconnected = world.disconnected)
    (hwills : world'.wills = world.wills)
    (hframe : ∀ client will, world.registration = some (client, will) →
      world'.store.broker.ownerOf client = world.store.broker.ownerOf client ∧
        world'.store.broker.subscriptionsOf client = world.store.broker.subscriptionsOf client) :
    Inv connection world' := by
  have hserving (client : ClientId) (h : Serving connection world client) :
      Serving connection world' client := by
    obtain ⟨will, registration, _, _⟩ := id h
    exact h.of_ownerOf (hframe client will registration).1 hregistration hwills
  cases h with
  | connecting phase registration disconnected wills =>
    exact .connecting (hphase.trans phase) (hregistration.trans registration)
      (hdisconnected.trans disconnected) (hwills.trans wills)
  | registered phase disconnected serving =>
    exact .registered (hphase.trans phase) (hdisconnected.trans disconnected) (hserving _ serving)
  | looping phase disconnected serving =>
    exact .looping (hphase.trans phase) (hdisconnected.trans disconnected) (hserving _ serving)
  | leaving phase disconnected serving =>
    exact .leaving (hphase.trans phase) (hdisconnected.trans disconnected) (hserving _ serving)
  | refused phase registration =>
    exact .refused (hphase.trans phase) (hregistration.trans registration)
  | cleaned phase registration cleaned =>
    obtain ⟨howner, hsubscriptions⟩ := hframe _ _ registration
    refine .cleaned (hphase.trans phase) (hregistration.trans registration) ⟨?_, ?_, ?_⟩
    · rw [howner, cleaned.session]
    · rw [hsubscriptions]
      exact cleaned.subscriptions
    · rw [hwills, hdisconnected, cleaned.wills]

/-- What the end of a handler does: the session is removed, and the will that this yields is
published over the subscriptions that are left. -/
theorem exists_of_unregister {graceful : Bool} {order : List (ClientId × QoS)}
    (phase : world.phase = .leaving client graceful)
    (hstep : step connection world (.unregister order) = some next) :
    ∃ handed broker deliveries channels,
      world.store.broker.removeSession client graceful = (handed, broker) ∧
      broker.publishOption "" order world.store.channels handed = some (deliveries, channels) ∧
      next = { world with
        store := { broker, channels }
        wills := world.wills ++ handed.toList }.returning (.ok ()) := by
  simp only [step, phase, Broker.unregisterSession, Option.map_map, Option.map_eq_some_iff]
    at hstep
  obtain ⟨⟨deliveries, channels⟩, hpublished, rfl⟩ := hstep
  exact ⟨_, _, deliveries, channels, rfl, hpublished, rfl⟩

/-- For the store, the end of a handler is an operation of the broker. -/
theorem store_of_unregister {graceful : Bool} {order : List (ClientId × QoS)}
    (phase : world.phase = .leaving client graceful)
    (hstep : step connection world (.unregister order) = some next) :
    world.store.step (.unregister client graceful order) = some next.store := by
  simp only [step, phase, Option.map_eq_some_iff] at hstep
  obtain ⟨⟨handed, broker, deliveries, channels⟩, hunregistered, rfl⟩ := hstep
  rw [Store.step, hunregistered]
  rfl

/-- A session that was registered is found when the handler unregisters. -/
theorem Serving.unregister (h : Serving connection world client) {graceful : Bool}
    {handed : Option PublishPacket} {broker : Broker} (channels : Channels)
    (hdisconnected : world.disconnected = graceful)
    (hremoved : world.store.broker.removeSession client graceful = (handed, broker)) :
    Inv connection ({ world with
      store := { broker, channels }
      wills := world.wills ++ handed.toList }.returning (.ok ())) := by
  obtain ⟨will, registration, howner, hwills⟩ := h
  obtain ⟨entry, hentry, howned⟩ := Option.map_eq_some_iff.mp howner
  obtain rfl : (world.store.broker.removeSession client graceful).1 = handed :=
    congrArg Prod.fst hremoved
  obtain rfl : (world.store.broker.removeSession client graceful).2 = broker :=
    congrArg Prod.snd hremoved
  refine .cleaned rfl registration ⟨?_, fun filter ↦ ?_, ?_⟩
  · exact (congrFun (Broker.ownerOf_removeSession _ client graceful) client).trans
      (Function.update_self ..)
  · apply Broker.subscriptionsOf_removeSession_self
    rw [hentry]
    rfl
  · have hwill : entry.will = will := congrArg Prod.snd howned
    simp only [World.returning, hwills, Broker.removeSession, hentry, hwill, List.nil_append,
      hdisconnected]
    cases graceful <;> rfl

theorem inv_sendConnack {sessionPresent : Bool}
    (phase : world.phase = .registered client sessionPresent)
    (disconnected : world.disconnected = false) (serving : Serving connection world client)
    (hsmooth : Smooth connection world .sendConnack)
    (hstep : step connection world .sendConnack = some next) : Inv connection next := by
  simp only [step, phase] at hstep
  rw [(MqttChannel.reply_ok_iff _ _).mpr hsmooth] at hstep
  obtain rfl := Option.some.inj hstep
  exact .looping rfl disconnected (serving.of_ownerOf rfl rfl rfl)

/-- An acceptable packet keeps the handler in its loop, or lets it leave by a DISCONNECT. -/
theorem inv_serve {surroundings : Surroundings} {packet : Packet}
    (hserve : world.serve connection client surroundings packet = some next)
    (phase : world.phase = .looping client) (disconnected : world.disconnected = false)
    (serving : Serving connection world client)
    (hpacket : (∀ connect, packet ≠ .connect connect) ∧
      (needsReply packet = true → (world.store.channels connection).receiving = true)) :
    Inv connection next := by
  unfold World.serve at hserve
  split at hserve
  · obtain rfl := Option.some.inj hserve
    exact .leaving rfl rfl (serving.of_ownerOf rfl rfl rfl)
  · obtain ⟨dispatched, hdispatched, rfl⟩ := Option.map_eq_some_iff.mp hserve
    have hresult := (dispatch_ok_iff hdispatched).mpr hpacket
    have howner := congrFun (ownerOf_dispatch hdispatched) client
    rw [hresult]
    exact .looping phase disconnected (serving.of_ownerOf howner rfl rfl)

theorem inv_turn (phase : world.phase = .looping client)
    (disconnected : world.disconnected = false) (serving : Serving connection world client)
    {event : Event} (hsmooth : Smooth connection world (.turn event))
    (hstep : step connection world (.turn event) = some next) : Inv connection next := by
  have hleaving : Inv connection { world with phase := .leaving client false } :=
    .leaving rfl disconnected (serving.of_ownerOf rfl rfl rfl)
  simp only [step, phase] at hstep
  split at hstep
  · rename_i hopen
    cases event with
    | read surroundings =>
      have hacceptable := hsmooth hopen
      simp only [World.wait, Acceptable] at hstep hacceptable
      split at hstep
      · obtain rfl := Option.some.inj hstep
        exact hleaving
      · rename_i fault hio hread
        rw [hread] at hacceptable
        exact absurd hacceptable hio
      · rename_i packet wire hread
        rw [hread] at hacceptable
        exact inv_serve hstep phase disconnected (serving.of_ownerOf rfl rfl rfl) hacceptable
    | wireFails | timeout | shutdown =>
      obtain rfl := Option.some.inj hstep
      exact hleaving
  · obtain rfl := Option.some.inj hstep
    exact hleaving

theorem inv_step (h : Inv connection world) {action : Action}
    (hsmooth : Smooth connection world action)
    (hstep : step connection world action = some next) : Inv connection next := by
  cases action with
  | other operation =>
    simp only [step] at hstep
    split at hstep
    · rename_i hother
      obtain ⟨store, hstore, rfl⟩ := Option.map_eq_some_iff.mp hstep
      refine h.congr rfl rfl rfl rfl fun client will hregistration ↦ ?_
      rw [hregistration, Option.all_some, decide_eq_true_eq] at hother
      exact Store.step_frame hother hstore
    · cases hstep
  | disturb channels =>
    obtain rfl := Option.some.inj hstep
    exact h.congr rfl rfl rfl rfl fun _ _ _ ↦ ⟨rfl, rfl⟩
  | connect auth =>
    cases h with
    | connecting phase registration disconnected wills =>
      simp only [step, phase] at hstep
      split at hstep
      · obtain rfl := Option.some.inj hstep
        exact .refused rfl registration
      · obtain rfl := Option.some.inj hstep
        apply inv_connect
        · exact registration
        · exact disconnected
        · exact wills
      · obtain rfl := Option.some.inj hstep
        exact .refused rfl registration
    | registered phase | looping phase | leaving phase | refused phase | cleaned phase =>
      simp [step, phase] at hstep
  | connectFails | connectTimeout =>
    cases h with
    | connecting phase registration =>
      simp only [step, phase] at hstep
      obtain rfl := Option.some.inj hstep
      exact .refused rfl registration
    | registered phase | looping phase | leaving phase | refused phase | cleaned phase =>
      simp [step, phase] at hstep
  | sendConnack =>
    cases h with
    | registered phase disconnected serving =>
      exact inv_sendConnack phase disconnected serving hsmooth hstep
    | connecting phase | looping phase | leaving phase | refused phase | cleaned phase =>
      simp [step, phase] at hstep
  | turn event =>
    cases h with
    | looping phase disconnected serving => exact inv_turn phase disconnected serving hsmooth hstep
    | connecting phase | registered phase | leaving phase | refused phase | cleaned phase =>
      simp [step, phase] at hstep
  | unregister order =>
    cases h with
    | leaving phase disconnected serving =>
      obtain ⟨handed, broker, deliveries, channels, hremoved, -, rfl⟩ :=
        exists_of_unregister phase hstep
      exact serving.unregister channels disconnected hremoved
    | connecting phase | registered phase | looping phase | refused phase | cleaned phase =>
      simp [step, phase] at hstep

end Steps

/-- A CONNECT of the client `a` with a will on the topic `w`. -/
def connectBytes : Bytes :=
  [0x10, 19, 0, 4, 0x4D, 0x51, 0x54, 0x54, 4, 0x06, 0, 60, 0, 1, 0x61, 0, 1, 0x77, 0, 1, 1]

def emptyStore : Store := { broker := .new, channels := fun _ ↦ .new }

def acceptAll : AuthResult := { accepted := true, returnCode := .accepted }

end HotaruMqtt.Server

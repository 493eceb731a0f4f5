import HotaruMqtt.Library.Runs
import HotaruMqtt.Protocol.Server

/-!
# Many connections on one broker

Each connection has a handler of its own, and all handlers share the sessions and the subscriptions
of the broker. `register_session` and `unregister_session` take several turns, one for each access
to a shared table, and so does `publish`, which collects the matching subscriptions one by one and
then serves one of them in each turn. Turns of different parties come in any order. A handler does
not wait for its fan-out here, and a fan-out may overlook subscriptions, so that there are more runs
than the server has.

The writers take nothing out of the queues: a queue shows everything that was ever enqueued. The
history records what was fanned out, what was acknowledged and which channels were closed.
-/

namespace HotaruMqtt.Connections

open Library

structure Registration where
  client : ClientId
  will : Option WillMessage
  cleanSession : Bool

inductive Phase where
  | connecting
  /-- In `register_session`, before the old session is removed. -/
  | removing (registration : Registration)
  /-- Before the subscriptions are wiped. -/
  | wiping (registration : Registration) (sessionPresent : Bool)
  | inserting (registration : Registration) (sessionPresent : Bool)
  /-- The session is registered and the CONNACK is not yet sent. -/
  | registered (client : ClientId) (sessionPresent : Bool)
  | looping (client : ClientId)
  /-- A stored message was handed on and its PUBREL is not yet answered. -/
  | completing (client : ClientId) (id : PacketId)
  | leaving (client : ClientId) (graceful : Bool)
  /-- In `unregister_session`, before the subscriptions are wiped. -/
  | unregistering (client : ClientId) (will : Option WillMessage)
  | returned

/-- A call of `publish`. -/
structure Fanout where
  source : ClientId
  packet : PublishPacket
  /-- The subscriptions are being collected, and none is served yet. -/
  collecting : Bool
  /-- The entries of the tree that were met. -/
  visited : List (String × ClientId)
  matched : List (ClientId × QoS)

def Fanout.fresh (source : ClientId) (packet : PublishPacket) : Fanout :=
  { source, packet, collecting := true, visited := [], matched := [] }

inductive Event where
  | fannedOut (connection : ConnectionId) (packet : PublishPacket)
  /-- A PUBACK or a PUBCOMP came in. -/
  | acknowledged (connection : ConnectionId) (id : PacketId)
  | closed (connection : ConnectionId)
  deriving DecidableEq

structure World where
  store : Store
  phase : ConnectionId → Phase
  fanouts : List Fanout
  history : List Event

def init : World :=
  { store := { broker := .new, channels := fun _ ↦ .new }, phase := fun _ ↦ .connecting
    fanouts := [], history := [] }

namespace World

def channel (world : World) (connection : ConnectionId) : MqttChannel :=
  world.store.channels connection

def broker (world : World) : Broker := world.store.broker

def setChannel (world : World) (connection : ConnectionId) (channel : MqttChannel) : World :=
  { world with store := world.store.setChannel connection channel }

def setBroker (world : World) (broker : Broker) : World :=
  { world with store := { world.store with broker } }

def setPhase (world : World) (connection : ConnectionId) (phase : Phase) : World :=
  { world with phase := Function.update world.phase connection phase }

def setFanout (world : World) (number : ℕ) (fanout : Fanout) : World :=
  { world with fanouts := world.fanouts.set number fanout }

def record (world : World) (event : Event) : World :=
  { world with history := world.history ++ [event] }

/-- `send_packet` under `?`, followed by the given phase. -/
def reply (world : World) (connection : ConnectionId) (packet : Packet) (phase : Phase) : World :=
  let (channel, result) := (world.channel connection).reply packet
  let world := world.setChannel connection channel
  match result with
  | .ok () => world.setPhase connection phase
  | .error _ => world.setPhase connection .returned

def startFanout (world : World) (source : ClientId) (packet : PublishPacket) : World :=
  { world with
    fanouts := world.fanouts ++
      [{ source, packet, collecting := true, visited := [], matched := [] }] }

/-- Run the chain on a message and start to publish what it lets through. -/
def handOn (world : World) (client : ClientId) (endpoints : List Endpoint)
    (publish : PublishPacket) : World :=
  match runServerChainThenDecideFanout endpoints publish with
  | some packet => world.startFanout client packet
  | none => world

/-- `dispatch_server_inbound`, up to the start of a fan-out. -/
def dispatch (world : World) (connection : ConnectionId) (client : ClientId)
    (endpoints : List Endpoint) : Packet → World
  | .publish publish =>
      let (channel, acked) := (world.channel connection).ackInboundPublishPreChain publish
      let world := world.setChannel connection channel
      match acked with
      | .error _ => world.setPhase connection .returned
      | .ok () =>
          if publish.qos = .exactlyOnce then world else world.handOn client endpoints publish
  | .subscribe s =>
      let filters := s.subscriptions.map fun ts ↦ { filter := ts.topic, qos := ts.qos }
      let (codes, broker) := world.broker.subscribe client filters
      (world.setBroker broker).reply connection
        (.suback { packetId := s.packetId, returnCodes := codes }) (.looping client)
  | .unsubscribe u =>
      (world.setBroker (world.broker.unsubscribe client u.topics)).reply connection
        (.unsuback { packetId := u.packetId, reasonCodes := List.replicate u.topics.length 0 })
        (.looping client)
  | .pingreq => world.reply connection .pingresp (.looping client)
  | .puback id | .pubcomp id =>
      let (_, channels) := world.broker.ackOutbound client id world.store.channels
      { world with store := { world.store with channels } }.record (.acknowledged connection id)
  | .pubrec id => world.reply connection (.pubrel id) (.looping client)
  | .pubrel id =>
      match (world.channel connection).session.qos2Recv.lookup id with
      | none => world.reply connection (.pubcomp id) (.looping client)
      | some stored =>
          ((world.setChannel connection ((world.channel connection).takeStored id)).handOn client
            endpoints (Store.rebuildPublish stored id)).setPhase connection (.completing client id)
  | .connect _ => world.setPhase connection .returned
  | .connack _ | .suback _ | .unsuback _ | .pingresp | .disconnect => world

/-- Behind the read of a packet in the loop. -/
def serve (world : World) (connection : ConnectionId) (client : ClientId)
    (endpoints : List Endpoint) (packet : Packet) : World :=
  if packet = .disconnect then world.setPhase connection (.leaving client true)
  else world.dispatch connection client endpoints packet

/-- The CONNECT was read. -/
def accept (world : World) (connection : ConnectionId) (auth : Server.AuthResult)
    (connect : ConnectPacket) : World :=
  let world := world.setChannel connection
    { world.channel connection with version := connect.version }
  if auth.accepted then
    world.setPhase connection (.removing
      { client := Server.assignedClientId connection connect
        will := Server.connectWill connect
        cleanSession := connect.cleanSession })
  else
    let refused : ConnackPacket := { sessionPresent := false, returnCode := auth.returnCode }
    world.reply connection (.connack refused) .returned

/-- What a handler does next where it does not wait for a packet. -/
def advance (world : World) (connection : ConnectionId) : Option World :=
  match world.phase connection with
  | .removing registration =>
      let existing := world.broker.sessions.lookup registration.client
      let sessions := world.broker.sessions.erase registration.client
      some ((world.setBroker { world.broker with sessions }).setPhase connection
        (.wiping registration (!registration.cleanSession && existing.isSome)))
  | .wiping registration sessionPresent =>
      let subscriptions :=
        if registration.cleanSession then
          world.broker.subscriptions.removeClient registration.client
        else world.broker.subscriptions
      some ((world.setBroker { world.broker with subscriptions }).setPhase connection
        (.inserting registration sessionPresent))
  | .inserting registration sessionPresent =>
      let entry : SubscriberEntry :=
        { channel := connection, filters := ∅, will := registration.will
          cleanSession := registration.cleanSession }
      let sessions := world.broker.sessions.insert registration.client entry
      some ((world.setBroker { world.broker with sessions }).setPhase connection
        (.registered registration.client sessionPresent))
  | .registered client sessionPresent =>
      let accepted : ConnackPacket := { sessionPresent, returnCode := .accepted }
      some (world.reply connection (.connack accepted) (.looping client))
  | .completing client id => some (world.reply connection (.pubcomp id) (.looping client))
  | .leaving client graceful =>
      match world.broker.sessions.lookup client with
      | none => some (world.setPhase connection .returned)
      | some entry =>
          let sessions := world.broker.sessions.erase client
          some ((world.setBroker { world.broker with sessions }).setPhase connection
            (.unregistering client (if graceful then none else entry.will)))
  | .unregistering client will =>
      let subscriptions := world.broker.subscriptions.removeClient client
      let world := (world.setBroker { world.broker with subscriptions }).setPhase connection
        .returned
      some (will.elim world fun will ↦ world.startFanout "" (Broker.willPacket will))
  | .connecting | .looping _ | .returned => none

end World

inductive Action where
  | connect (connection : ConnectionId) (auth : Server.AuthResult) (connect : ConnectPacket)
  | advance (connection : ConnectionId)
  /-- A packet is read in the loop. -/
  | serve (connection : ConnectionId) (endpoints : List Endpoint) (packet : Packet)
  /-- The loop ends by a timeout, by the end of the wire or by the shutdown signal. -/
  | leave (connection : ConnectionId)
  /-- The handler returns an error while it waits for a packet. -/
  | fail (connection : ConnectionId)
  | collect (number : ℕ) (filter : String) (client : ClientId)
  | collected (number : ℕ)
  | deliver (number : ℕ)
  | close (connection : ConnectionId)
  | writerMarks (connection : ConnectionId)
  | writerDrops (connection : ConnectionId)

/-- An entry of the tree is met while the matching subscriptions are collected. -/
def stepCollect (world : World) (number : ℕ) (filter : String) (client : ClientId) :
    Option World :=
  match world.fanouts[number]?, world.broker.subscriptionsOf client filter with
  | some fanout, some qos =>
      if fanout.collecting && Topic.filterMatches filter (Topic.segments fanout.packet.topic) &&
          !fanout.visited.contains (filter, client) then
        some (world.setFanout number
          { fanout with
            visited := (filter, client) :: fanout.visited
            matched := fanout.matched ++ [(client, qos)] })
      else none
  | _, _ => none

/-- One turn of the fan-out loop. -/
def World.turn (world : World) (number : ℕ) (fanout : Fanout) (client : ClientId) (subQos : QoS)
    (matched : List (ClientId × QoS)) : World :=
  let served := world.setFanout number { fanout with matched }
  match world.broker.recipient fanout.source client with
  | none => served
  | some entry =>
      let (adjusted, channel) := Broker.deliver fanout.packet subQos (world.channel entry.channel)
      (served.setChannel entry.channel channel).record (.fannedOut entry.channel adjusted)

def stepDeliver (world : World) (number : ℕ) : Option World :=
  match world.fanouts[number]? with
  | some fanout =>
      match fanout.collecting, fanout.matched with
      | false, (client, subQos) :: matched =>
          some (world.turn number fanout client subQos matched)
      | _, _ => none
  | none => none

/-- The session is abandoned if the channel was found open. -/
def stepClose (world : World) (connection : ConnectionId) : World :=
  let channel := world.channel connection
  let session := if channel.isOpen then channel.session.abandon else channel.session
  (world.setChannel connection { channel with isOpen := false, session }).record
    (.closed connection)

def step (world : World) : Action → Option World
  | .connect connection auth connect =>
      match world.phase connection with
      | .connecting => some (world.accept connection auth connect)
      | _ => none
  | .advance connection => world.advance connection
  | .serve connection endpoints packet =>
      match world.phase connection with
      | .looping client => some (world.serve connection client endpoints packet)
      | _ => none
  | .leave connection =>
      match world.phase connection with
      | .looping client => some (world.setPhase connection (.leaving client false))
      | _ => none
  | .fail connection =>
      match world.phase connection with
      | .connecting | .looping _ => some (world.setPhase connection .returned)
      | _ => none
  | .collect number filter client => stepCollect world number filter client
  | .collected number =>
      world.fanouts[number]?.map fun fanout ↦
        world.setFanout number { fanout with collecting := false }
  | .deliver number => stepDeliver world number
  | .close connection => some (stepClose world connection)
  | .writerMarks connection =>
      some (world.setChannel connection { world.channel connection with isOpen := false })
  | .writerDrops connection =>
      some (world.setChannel connection { world.channel connection with receiving := false })

/-- A handler accepts a CONNECT and registers the session. -/
def register (connection : ConnectionId) (connect : ConnectPacket) : List Action :=
  [.connect connection { accepted := true, returnCode := .accepted } connect, .advance connection,
    .advance connection, .advance connection]

/-- A handler comes to its loop. -/
def welcome (connection : ConnectionId) (connect : ConnectPacket) : List Action :=
  register connection connect ++ [.advance connection]

def connectAs (clientId : ClientId) (cleanSession : Bool) (will : Option WillPacket) :
    ConnectPacket :=
  { version := default, clientId, cleanSession, keepAlive := 60, username := none
    password := none, will }

def subscribeTo (topic : String) (qos : QoS) : Packet :=
  .subscribe { packetId := 1, subscriptions := [{ topic, qos }] }

/-- A fan-out collects one subscription and serves it. -/
def reach (number : ℕ) (filter : String) (client : ClientId) : List Action :=
  [.collect number filter client, .collected number, .deliver number]

/-! ## Frames -/

namespace World

variable (world : World) (connection : ConnectionId)

theorem channel_setChannel (channel : MqttChannel) (other : ConnectionId) :
    (world.setChannel connection channel).channel other =
      if other = connection then channel else world.channel other :=
  Function.update_apply ..

theorem phase_setPhase (phase : Phase) (other : ConnectionId) :
    (world.setPhase connection phase).phase other =
      if other = connection then phase else world.phase other :=
  Function.update_apply ..

/-- A reply goes to the queue, or ends the handler when the writer is gone. -/
theorem reply_eq (packet : Packet) (phase : Phase) :
    world.reply connection packet phase =
      (world.setChannel connection ((world.channel connection).reply packet).1).setPhase connection
        (if (world.channel connection).receiving then phase else .returned) := by
  unfold reply
  rw [MqttChannel.reply_eq]
  cases (world.channel connection).receiving <;> rfl

/-- A PUBLISH is dropped by the endpoints or starts a fan-out. -/
theorem handOn_cases (client : ClientId) (endpoints : List Endpoint) (publish : PublishPacket) :
    world.handOn client endpoints publish = world ∨
      ∃ packet, runServerChainThenDecideFanout endpoints publish = some packet ∧
        world.handOn client endpoints publish = world.startFanout client packet := by
  unfold handOn
  cases runServerChainThenDecideFanout endpoints publish with
  | none => exact .inl rfl
  | some packet => exact .inr ⟨packet, rfl, rfl⟩

theorem handOn_frame (client : ClientId) (endpoints : List Endpoint) (publish : PublishPacket) :
    (world.handOn client endpoints publish).store = world.store ∧
      (world.handOn client endpoints publish).phase = world.phase ∧
      (world.handOn client endpoints publish).history = world.history := by
  unfold handOn
  split <;> exact ⟨rfl, rfl, rfl⟩

end World

section Taken

variable {world next : World} {connection : ConnectionId} {number : ℕ}

theorem of_step_connect {auth : Server.AuthResult} {connect : ConnectPacket}
    (h : step world (.connect connection auth connect) = some next) :
    world.phase connection = .connecting ∧ next = world.accept connection auth connect := by
  simp only [step] at h
  split at h
  · rename_i hphase
    exact ⟨hphase, (Option.some.inj h).symm⟩
  · cases h

theorem exists_of_step_serve {endpoints : List Endpoint} {packet : Packet}
    (h : step world (.serve connection endpoints packet) = some next) :
    ∃ client, world.phase connection = .looping client ∧
      next = world.serve connection client endpoints packet := by
  simp only [step] at h
  split at h
  · rename_i client hphase
    exact ⟨client, hphase, (Option.some.inj h).symm⟩
  · cases h

theorem exists_of_step_leave (h : step world (.leave connection) = some next) :
    ∃ client, next = world.setPhase connection (.leaving client false) := by
  simp only [step] at h
  split at h
  · rename_i client _
    exact ⟨client, (Option.some.inj h).symm⟩
  · cases h

theorem of_step_fail (h : step world (.fail connection) = some next) :
    next = world.setPhase connection .returned := by
  simp only [step] at h
  split at h
  · exact (Option.some.inj h).symm
  · exact (Option.some.inj h).symm
  · cases h

theorem exists_of_stepCollect {filter : String} {client : ClientId}
    (h : stepCollect world number filter client = some next) :
    ∃ fanout qos, world.fanouts[number]? = some fanout ∧
      world.broker.subscriptionsOf client filter = some qos ∧
      next = world.setFanout number { fanout with
        visited := (filter, client) :: fanout.visited
        matched := fanout.matched ++ [(client, qos)] } := by
  unfold stepCollect at h
  split at h
  · rename_i fanout qos hfanout hsubscription
    rw [Option.ite_none_right_eq_some] at h
    exact ⟨fanout, qos, hfanout, hsubscription, (Option.some.inj h.2).symm⟩
  · cases h

theorem exists_of_step_collected (h : step world (.collected number) = some next) :
    ∃ fanout, world.fanouts[number]? = some fanout ∧
      next = world.setFanout number { fanout with collecting := false } := by
  obtain ⟨fanout, hfanout, hnext⟩ := Option.map_eq_some_iff.mp h
  exact ⟨fanout, hfanout, hnext.symm⟩

/-- A delivery takes the next of the collected clients. -/
theorem exists_of_stepDeliver (h : stepDeliver world number = some next) :
    ∃ fanout client subQos matched, world.fanouts[number]? = some fanout ∧
      fanout.matched = (client, subQos) :: matched ∧
      next = world.turn number fanout client subQos matched := by
  unfold stepDeliver at h
  split at h
  · rename_i fanout hfanout
    split at h
    · rename_i client subQos matched _ hmatched
      exact ⟨fanout, client, subQos, matched, hfanout, hmatched, (Option.some.inj h).symm⟩
    · cases h
  · cases h

end Taken

section Turns

variable {world : World} {connection : ConnectionId}

/-- The turns of a registration, one right after the other, register the session. -/
theorem registerSession_of_turns {registration : Registration}
    (hphase : world.phase connection = .removing registration) :
    [.advance connection, .advance connection, .advance connection].foldlM step world =
      let (sessionPresent, broker) := world.broker.registerSession registration.client connection
        registration.will registration.cleanSession
      some ((world.setBroker broker).setPhase connection
        (.registered registration.client sessionPresent)) := by
  simp [step, World.advance, hphase, World.setPhase, World.setBroker, World.broker,
    Broker.registerSession]

/-- The turns at the end of a handler, one right after the other, remove the session and call
`publish` on the will. -/
theorem removeSession_of_turns {client : ClientId} {graceful : Bool}
    (hphase : world.phase connection = .leaving client graceful) :
    ∃ turns : ℕ, (List.replicate turns (.advance connection)).foldlM step world =
      let (will, broker) := world.broker.removeSession client graceful
      let last := (world.setBroker broker).setPhase connection .returned
      some (will.elim last (last.startFanout "")) := by
  cases hentry : world.store.broker.sessions.lookup client with
  | none =>
    refine ⟨1, ?_⟩
    simp [step, World.advance, hphase, hentry, Broker.removeSession, World.setBroker, World.broker]
  | some entry =>
    refine ⟨2, ?_⟩
    cases graceful <;> cases hwill : entry.will <;>
    simp [step, World.advance, hphase, hentry, hwill, Broker.removeSession, World.setPhase,
      World.setBroker, World.broker, World.startFanout]

/-- A dispatch that hands nothing on is the whole of `dispatch_server_inbound`. -/
theorem dispatchServerInbound_of_dispatch {client : ClientId} {endpoints : List Endpoint}
    {packet : Packet}
    (hstored : ∀ id, packet = .pubrel id →
      (world.channel connection).session.qos2Recv.lookup id = none)
    (hfanouts : (world.dispatch connection client endpoints packet).fanouts = world.fanouts) :
    ∃ dispatched, world.store.dispatchServerInbound connection client { endpoints, order := [] }
        packet = some dispatched ∧
      (world.dispatch connection client endpoints packet).store = dispatched.store := by
  have hreply (world : World) (reply : Packet) (phase : Phase) :
      (world.reply connection reply phase).store =
        (world.store.answer connection reply []).store := by
    rw [World.reply_eq]
    rfl
  cases packet with
  | publish publish =>
    simp only [World.dispatch, World.channel] at hfanouts ⊢
    simp only [Store.dispatchServerInbound]
    cases hacked : ((world.store.channels connection).ackInboundPublishPreChain publish).2 with
    | error reason => exact ⟨_, rfl, rfl⟩
    | ok acked =>
      rw [hacked] at hfanouts
      by_cases hqos : publish.qos = .exactlyOnce
      · simp only [hqos, if_true]
        exact ⟨_, rfl, rfl⟩
      · simp only [hqos, if_false, World.handOn, Store.handOn] at hfanouts ⊢
        cases hchain : runServerChainThenDecideFanout endpoints publish with
        | none => exact ⟨_, rfl, rfl⟩
        | some packet =>
          rw [hchain] at hfanouts
          cases List.append_right_eq_self.mp hfanouts
  | subscribe s | unsubscribe u => exact ⟨_, rfl, hreply _ _ _⟩
  | pingreq | pubrec id => exact ⟨_, rfl, hreply _ _ _⟩
  | pubrel id =>
    have hlookup : (world.store.channels connection).session.qos2Recv.lookup id = none :=
      hstored id rfl
    simp only [World.dispatch, World.channel, Store.dispatchServerInbound, hlookup]
    exact ⟨_, rfl, hreply _ _ _⟩
  | puback | pubcomp | connect | connack | suback | unsuback | pingresp | disconnect =>
    exact ⟨_, rfl, rfl⟩

section Fanouts

variable {number : ℕ} {fanout : Fanout} {client : ClientId} {subQos : QoS}
  {matched : List (ClientId × QoS)}

/-- A client without a session is passed over. -/
theorem turn_of_recipient_eq_none (h : world.broker.recipient fanout.source client = none) :
    world.turn number fanout client subQos matched =
      world.setFanout number { fanout with matched } := by
  simp only [World.turn, h]

/-- A client with a session is delivered to on the channel of its entry. -/
theorem turn_of_recipient_eq_some {entry : SubscriberEntry}
    (h : world.broker.recipient fanout.source client = some entry) :
    world.turn number fanout client subQos matched =
      ((world.setFanout number { fanout with matched }).setChannel entry.channel
        (Broker.deliver fanout.packet subQos (world.channel entry.channel)).2).record
          (.fannedOut entry.channel
            (Broker.deliver fanout.packet subQos (world.channel entry.channel)).1) := by
  simp only [World.turn, h]

theorem fanouts_turn :
    (world.turn number fanout client subQos matched).fanouts =
      world.fanouts.set number { fanout with matched } := by
  unfold World.turn
  split <;> rfl

/-- The turns of a fan-out, one right after the other, publish to the collected subscriptions. -/
theorem publish_of_turns (hfanout : world.fanouts[number]? = some fanout)
    (hcollecting : fanout.collecting = false) (hmatched : fanout.matched = matched) :
    ∃ last, (List.replicate matched.length (.deliver number)).foldlM step world = some last ∧
      last.store = { world.store with
        channels := (world.broker.publish fanout.source fanout.packet matched
          world.store.channels).2 } := by
  induction matched generalizing world fanout with
  | nil => exact ⟨world, rfl, rfl⟩
  | cons subscription matched ih =>
    obtain ⟨client, subQos⟩ := subscription
    have hlt : number < world.fanouts.length := (List.getElem?_eq_some_iff.mp hfanout).1
    have hstep : step world (.deliver number) =
        some (world.turn number fanout client subQos matched) := by
      simp only [step, stepDeliver, hfanout, hcollecting, hmatched]
    have hturn : (world.turn number fanout client subQos matched).fanouts[number]? =
        some { fanout with matched } := by
      rw [fanouts_turn, List.getElem?_set_self hlt]
    obtain ⟨last, hrun, hlast⟩ := ih hturn hcollecting rfl
    refine ⟨last, ?_, ?_⟩
    · rw [List.length_cons, List.replicate_succ, List.foldlM_cons, hstep]
      exact hrun
    · rw [hlast, Broker.publish]
      cases hrecipient : world.broker.recipient fanout.source client with
      | none =>
        rw [turn_of_recipient_eq_none hrecipient]
        rfl
      | some entry =>
        rw [turn_of_recipient_eq_some hrecipient]
        rfl

end Fanouts

end Turns

end HotaruMqtt.Connections

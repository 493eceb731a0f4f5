import HotaruMqtt.Protocol.Connections

/-!
# The CONNACK comes first

A handler registers its session, and thereby shows its channel to every fan-out, before it enqueues
the CONNACK. A PUBLISH can get ahead of the CONNACK as soon as the tree holds a subscription of the
client, or a fan-out has collected one, while the channel waits. Whoever subscribed it may have used
an earlier connection of the same client, or one that is still served.
-/

namespace HotaruMqtt.Connections

open Library

def IsConnack (cmd : WriteCmd) : Prop := ∃ ack, cmd = .packet (.connack ack)

/-- The CONNECT was not yet answered. -/
def Phase.awaitsConnack : Phase → Bool
  | connecting | removing _ | wiping _ _ | inserting _ _ | registered _ _ => true
  | looping _ | completing _ _ | leaving _ _ | unregistering _ _ | returned => false

/-- The handler is in its loop. -/
def Phase.serves : Phase → Bool
  | looping _ | completing _ _ => true
  | _ => false

namespace World

/-- The CONNACK of the connection was enqueued. -/
def Greeted (world : World) (connection : ConnectionId) : Prop :=
  ∃ cmd ∈ (world.channel connection).commands, IsConnack cmd

/-- Nothing is enqueued before the CONNECT is answered, and the first command is a CONNACK. -/
def ConnackFirst (world : World) (connection : ConnectionId) : Prop :=
  ((world.phase connection).awaitsConnack = true → (world.channel connection).commands = []) ∧
    ∀ cmd, (world.channel connection).commands.head? = some cmd → IsConnack cmd

/-- The client has no subscription, and no fan-out of another client has collected one of it. -/
def OutOfReach (world : World) (client : ClientId) : Prop :=
  (∀ filter, world.broker.subscriptionsOf client filter = none) ∧
    ∀ fanout ∈ world.fanouts, fanout.source ≠ client → ∀ qos, (client, qos) ∉ fanout.matched

end World

/-- A session is inserted only for a client that is out of reach, and a SUBSCRIBE is dispatched only
while the connection registered for its client has its CONNACK. -/
def Discreet (world : World) : Action → Prop
  | .advance connection =>
      match world.phase connection with
      | .inserting registration _ => world.OutOfReach registration.client
      | _ => True
  | .serve connection _ (.subscribe _) =>
      match world.phase connection with
      | .looping client => ∀ registered will,
          world.broker.ownerOf client = some (registered, will) → world.Greeted registered
      | _ => True
  | _ => True

/-- The queue of a connection only grows, and only behind its CONNACK. -/
def Follows (world next : World) (connection : ConnectionId) : Prop :=
  ∃ added, (next.channel connection).commands = (world.channel connection).commands ++ added ∧
    (added = [] ∨ world.Greeted connection ∨
      (∃ ack, added = [.packet (.connack ack)]) ∧
        (next.phase connection).awaitsConnack = false)

section Follows

variable {world next : World} {connection : ConnectionId}

theorem Follows.of_commands
    (h : (next.channel connection).commands = (world.channel connection).commands) :
    Follows world next connection :=
  ⟨[], h.trans (List.append_nil _).symm, .inl rfl⟩

theorem Follows.greeted (h : Follows world next connection) (hgreeted : world.Greeted connection) :
    next.Greeted connection := by
  obtain ⟨added, hcommands, _⟩ := h
  obtain ⟨cmd, hmem, hconnack⟩ := hgreeted
  refine ⟨cmd, ?_, hconnack⟩
  rw [hcommands]
  exact List.mem_append_left _ hmem

/-- A queue that only grows keeps its first packet. -/
theorem Follows.connackFirst (h : Follows world next connection)
    (hfirst : world.ConnackFirst connection)
    (hphase : (next.phase connection).awaitsConnack = true →
      (world.phase connection).awaitsConnack = true) : next.ConnackFirst connection := by
  obtain ⟨added, hcommands, rfl | hgreeted | ⟨⟨ack, rfl⟩, hanswered⟩⟩ := h
  · rw [List.append_nil] at hcommands
    rw [World.ConnackFirst, hcommands]
    exact ⟨fun hawaits ↦ hfirst.1 (hphase hawaits), hfirst.2⟩
  · obtain ⟨greeting, hmem, _⟩ := hgreeted
    have hne : (world.channel connection).commands ≠ [] := List.ne_nil_of_mem hmem
    constructor
    · intro hawaits
      exact absurd (hfirst.1 (hphase hawaits)) hne
    · intro cmd hhead
      rw [hcommands, List.head?_append_of_ne_nil _ hne] at hhead
      exact hfirst.2 cmd hhead
  · constructor
    · intro hawaits
      rw [hanswered] at hawaits
      cases hawaits
    · intro cmd hhead
      rw [hcommands, List.head?_append] at hhead
      rcases Option.or_eq_some_iff.mp hhead with hhead | ⟨_, hhead⟩
      · exact hfirst.2 cmd hhead
      · exact ⟨ack, (Option.some.inj hhead).symm⟩

/-- A change to one channel is a change to one queue. -/
theorem follows_of_update {channel : MqttChannel} {added : List WriteCmd}
    (hchannels : next.store.channels = Function.update world.store.channels connection channel)
    (hcommands : channel.commands = (world.channel connection).commands ++ added)
    (hadded : added = [] ∨ world.Greeted connection ∨
      (∃ ack, added = [.packet (.connack ack)]) ∧
        (next.phase connection).awaitsConnack = false) (other : ConnectionId) :
    Follows world next other := by
  by_cases hother : other = connection
  · subst hother
    refine ⟨added, ?_, hadded⟩
    rw [World.channel, hchannels, Function.update_self, hcommands]
  · apply Follows.of_commands
    rw [World.channel, hchannels, Function.update_of_ne hother]
    rfl

end Follows

section Reach

variable {world next : World}

/-- Every subscription that a fan-out has collected was collected before. -/
def ListsNoMore (world next : World) : Prop :=
  ∀ fanout ∈ next.fanouts, ∀ subscription ∈ fanout.matched,
    ∃ earlier ∈ world.fanouts, earlier.source = fanout.source ∧ subscription ∈ earlier.matched

theorem listsNoMore_of_fanouts (h : next.fanouts = world.fanouts) : ListsNoMore world next := by
  intro fanout hfanout subscription hmem
  exact ⟨fanout, h ▸ hfanout, rfl, hmem⟩

/-- A fan-out starts with nobody on its list. -/
theorem listsNoMore_startFanout (source : ClientId) (packet : PublishPacket) :
    ListsNoMore world (world.startFanout source packet) := by
  intro fanout hfanout subscription hmem
  rcases List.mem_append.mp hfanout with hfanout | hfanout
  · exact ⟨fanout, hfanout, rfl, hmem⟩
  · obtain rfl := List.mem_singleton.mp hfanout
    cases hmem

theorem listsNoMore_set {number : ℕ} {fanout served : Fanout}
    (hfanout : world.fanouts[number]? = some fanout)
    (hfanouts : next.fanouts = world.fanouts.set number served)
    (hsource : served.source = fanout.source)
    (hmatched : ∀ subscription ∈ served.matched, subscription ∈ fanout.matched) :
    ListsNoMore world next := by
  intro other hother subscription hmem
  rw [hfanouts] at hother
  rcases List.mem_or_eq_of_mem_set hother with hother | rfl
  · exact ⟨other, hother, rfl, hmem⟩
  · exact ⟨fanout, List.mem_of_getElem? hfanout, hsource.symm, hmatched subscription hmem⟩

theorem World.OutOfReach.mono {client : ClientId} (h : world.OutOfReach client)
    (hsubscriptions : ∀ filter, next.broker.subscriptionsOf client filter = none)
    (hfanouts : ListsNoMore world next) : next.OutOfReach client := by
  refine ⟨hsubscriptions, ?_⟩
  intro fanout hfanout hsource qos hmem
  obtain ⟨earlier, hearlier, hsame, hlisted⟩ := hfanouts fanout hfanout _ hmem
  exact h.2 earlier hearlier (hsame ▸ hsource) qos hlisted

end Reach

/-! ## The invariant -/

structure GreetingInv (world : World) : Prop where
  first : ∀ connection, world.ConnackFirst connection
  serving : ∀ connection, (world.phase connection).serves = true → world.Greeted connection
  reach : ∀ client connection will, world.broker.ownerOf client = some (connection, will) →
    world.Greeted connection ∨ world.OutOfReach client

theorem greetingInv_init : GreetingInv init where
  first connection := by
    refine ⟨fun _ ↦ rfl, ?_⟩
    intro cmd hhead
    cases hhead
  serving connection hserves := by cases hserves
  reach client connection will howner := by cases howner

section Step

variable {world next : World} {connection : ConnectionId}

theorem GreetingInv.frame (h : GreetingInv world) (hfollows : ∀ other, Follows world next other)
    (hphase : ∀ other,
      ((next.phase other).awaitsConnack = true → (world.phase other).awaitsConnack = true) ∧
      ((next.phase other).serves = true → (world.phase other).serves = true ∨ next.Greeted other))
    (hreach : ∀ client other will, next.broker.ownerOf client = some (other, will) →
      world.Greeted other ∨ next.OutOfReach client) : GreetingInv next where
  first other := (hfollows other).connackFirst (h.first other) (hphase other).1
  serving other hserves := by
    rcases (hphase other).2 hserves with hserves | hgreeted
    · exact (hfollows other).greeted (h.serving other hserves)
    · exact hgreeted
  reach client other will howner := by
    rcases hreach client other will howner with hgreeted | hout
    · exact .inl ((hfollows other).greeted hgreeted)
    · exact .inr hout

/-- Owners and subscriptions only disappear. -/
theorem GreetingInv.reach_of_fewer (h : GreetingInv world) (next : World)
    (howners : ∀ client owner, next.broker.ownerOf client = some owner →
      world.broker.ownerOf client = some owner)
    (hsubscriptions : ∀ client filter, world.broker.subscriptionsOf client filter = none →
      next.broker.subscriptionsOf client filter = none)
    (hfanouts : ListsNoMore world next) (client : ClientId) (other : ConnectionId)
    (will : Option WillMessage) (howner : next.broker.ownerOf client = some (other, will)) :
    world.Greeted other ∨ next.OutOfReach client := by
  rcases h.reach client other will (howners client _ howner) with hgreeted | hout
  · exact .inl hgreeted
  · exact .inr (hout.mono (fun filter ↦ hsubscriptions client filter (hout.1 filter)) hfanouts)

/-- Only the handler of one connection moves on. -/
theorem phases_of_update {phase : Phase}
    (hnext : next.phase = Function.update world.phase connection phase)
    (hawaits : phase.awaitsConnack = true → (world.phase connection).awaitsConnack = true)
    (hserves : phase.serves = true →
      (world.phase connection).serves = true ∨ next.Greeted connection) (other : ConnectionId) :
    ((next.phase other).awaitsConnack = true → (world.phase other).awaitsConnack = true) ∧
      ((next.phase other).serves = true →
        (world.phase other).serves = true ∨ next.Greeted other) := by
  rw [hnext]
  by_cases hother : other = connection
  · subst hother
    rw [Function.update_self]
    exact ⟨hawaits, hserves⟩
  · rw [Function.update_of_ne hother]
    exact ⟨id, .inl⟩

theorem phases_of_eq (hnext : next.phase = world.phase) (other : ConnectionId) :
    ((next.phase other).awaitsConnack = true → (world.phase other).awaitsConnack = true) ∧
      ((next.phase other).serves = true →
        (world.phase other).serves = true ∨ next.Greeted other) := by
  rw [hnext]
  exact ⟨id, .inl⟩

theorem GreetingInv.setPhase (h : GreetingInv world) {phase : Phase}
    (hawaits : phase.awaitsConnack = true → (world.phase connection).awaitsConnack = true)
    (hserves : phase.serves = true → (world.phase connection).serves = true) :
    GreetingInv (world.setPhase connection phase) :=
  h.frame (fun _ ↦ .of_commands rfl)
    (phases_of_update rfl hawaits fun hphase ↦ .inl (hserves hphase)) h.reach

theorem GreetingInv.setBroker (h : GreetingInv world) {broker : Broker}
    (hreach : ∀ client other will, broker.ownerOf client = some (other, will) →
      world.Greeted other ∨ (world.setBroker broker).OutOfReach client) :
    GreetingInv (world.setBroker broker) :=
  h.frame (fun _ ↦ .of_commands rfl) (phases_of_eq rfl) hreach

/-- What a handler in its loop enqueues stands behind the CONNACK. -/
theorem GreetingInv.setChannel (h : GreetingInv world) {channel : MqttChannel}
    {added : List WriteCmd}
    (hcommands : channel.commands = (world.channel connection).commands ++ added)
    (hserves : (world.phase connection).serves = true ∨ added = []) :
    GreetingInv (world.setChannel connection channel) := by
  refine h.frame (follows_of_update rfl hcommands ?_) (phases_of_eq rfl) h.reach
  rcases hserves with hserves | hadded
  · exact .inr (.inl (h.serving connection hserves))
  · exact .inl hadded

theorem GreetingInv.startFanout (h : GreetingInv world) (source : ClientId)
    (packet : PublishPacket) : GreetingInv (world.startFanout source packet) := by
  refine h.frame (fun _ ↦ .of_commands rfl) (phases_of_eq rfl) ?_
  exact h.reach_of_fewer _ (fun _ _ howner ↦ howner) (fun _ _ hnone ↦ hnone)
    (listsNoMore_startFanout source packet)

theorem GreetingInv.handOn (h : GreetingInv world) (client : ClientId)
    (endpoints : List Endpoint) (publish : PublishPacket) :
    GreetingInv (world.handOn client endpoints publish) := by
  obtain hsame | ⟨packet, _, hstarted⟩ := world.handOn_cases client endpoints publish
  · rw [hsame]
    exact h
  · rw [hstarted]
    exact h.startFanout client packet

theorem GreetingInv.reply (h : GreetingInv world)
    (hserves : (world.phase connection).serves = true) (packet : Packet) (client : ClientId) :
    GreetingInv (world.reply connection packet (.looping client)) := by
  rw [World.reply_eq]
  refine (h.setChannel (MqttChannel.commands_reply ..) (.inl hserves)).setPhase ?_ fun _ ↦ hserves
  intro hawaits
  split at hawaits <;> cases hawaits

/-- A handler answers the CONNECT. -/
theorem GreetingInv.connack (h : GreetingInv world) (ack : ConnackPacket) {phase : Phase}
    (hphase : phase.awaitsConnack = false) :
    GreetingInv (world.reply connection (.connack ack) phase) := by
  have hcommands := (world.channel connection).commands_reply (.connack ack)
  rw [World.reply_eq]
  cases hreceiving : (world.channel connection).receiving with
  | true =>
    rw [hreceiving, if_pos rfl] at hcommands
    refine h.frame (follows_of_update rfl hcommands ?_) (phases_of_update rfl ?_ ?_) h.reach
    · refine .inr (.inr ⟨⟨ack, rfl⟩, ?_⟩)
      rw [World.phase_setPhase, if_pos rfl]
      exact hphase
    · intro hawaits
      rw [if_pos rfl, hphase] at hawaits
      cases hawaits
    · intro _
      refine .inr ⟨.packet (.connack ack), ?_, ack, rfl⟩
      change _ ∈ ((world.setChannel connection _).channel connection).commands
      rw [World.channel_setChannel, if_pos rfl, hcommands]
      exact List.mem_append_right _ (List.mem_singleton_self _)
  | false =>
    rw [hreceiving] at hcommands
    refine h.frame (follows_of_update rfl hcommands (.inl rfl)) (phases_of_update rfl ?_ ?_) h.reach
    · intro hawaits
      cases hawaits
    · intro hserves
      cases hserves

/-- A dispatch on a greeted connection reaches nobody who is not greeted. -/
theorem greetingInv_dispatch {client : ClientId} (h : GreetingInv world)
    (hphase : world.phase connection = .looping client) (endpoints : List Endpoint)
    (packet : Packet) (hdiscreet : Discreet world (.serve connection endpoints packet)) :
    GreetingInv (world.dispatch connection client endpoints packet) := by
  have hserves : (world.phase connection).serves = true := by
    rw [hphase]
    rfl
  cases packet with
  | publish publish =>
    obtain ⟨added, hcommands, _⟩ :=
      (world.channel connection).commands_ackInboundPublishPreChain publish
    have hacked := h.setChannel hcommands (.inl hserves)
    simp only [World.dispatch]
    split
    · exact hacked.setPhase Bool.noConfusion Bool.noConfusion
    · split
      · exact hacked
      · exact hacked.handOn client endpoints publish
  | subscribe s =>
    simp only [World.dispatch]
    refine .reply ?_ (by exact hserves) _ client
    refine h.setBroker ?_
    intro client' other will howner
    rw [Broker.ownerOf_subscribe] at howner
    by_cases hclient : client' = client
    · subst hclient
      simp only [Discreet, hphase] at hdiscreet
      exact .inl (hdiscreet other will howner)
    · refine (h.reach client' other will howner).imp_right fun hout ↦ ?_
      refine hout.mono (fun filter ↦ ?_) (listsNoMore_of_fanouts rfl)
      change (Broker.subscribe _ _ _).2.subscriptionsOf _ _ = _
      rw [Broker.subscriptionsOf_subscribe_of_ne _ hclient]
      exact hout.1 filter
  | unsubscribe u =>
    simp only [World.dispatch]
    refine .reply ?_ (by exact hserves) _ client
    refine h.setBroker ?_
    intro client' other will howner
    rw [Broker.ownerOf_unsubscribe] at howner
    refine (h.reach client' other will howner).imp_right fun hout ↦ ?_
    refine hout.mono (fun filter ↦ ?_) (listsNoMore_of_fanouts rfl)
    exact Broker.subscriptionsOf_unsubscribe_eq_none _ _ _ (hout.1 filter)
  | puback id | pubcomp id =>
    refine h.frame (fun other ↦ .of_commands ?_) (phases_of_eq rfl) h.reach
    exact (world.broker.ackOutbound_frame client id world.store.channels other).1
  | pubrel id =>
    simp only [World.dispatch]
    split
    · exact h.reply hserves _ client
    · have htaken : GreetingInv (world.setChannel connection
          ((world.channel connection).takeStored id)) :=
        h.setChannel (List.append_nil _).symm (.inr rfl)
      refine (htaken.handOn client endpoints _).setPhase Bool.noConfusion fun _ ↦ ?_
      rw [(World.handOn_frame ..).2.1]
      exact hserves
  | pingreq | pubrec id => exact h.reply hserves _ client
  | connect connect => exact h.setPhase Bool.noConfusion Bool.noConfusion
  | connack | suback | unsuback | pingresp | disconnect => exact h

/-- A session or the subscriptions of a client are removed. -/
theorem GreetingInv.remove (h : GreetingInv world) {sessions : Table ClientId SubscriberEntry}
    {subscriptions : SubscriptionTree}
    (howners : ∀ client owner, Broker.ownerOf { sessions, subscriptions } client = some owner →
      world.broker.ownerOf client = some owner)
    (hsubscriptions : ∀ client filter, world.broker.subscriptionsOf client filter = none →
      Broker.subscriptionsOf { sessions, subscriptions } client filter = none) :
    GreetingInv (world.setBroker { sessions, subscriptions }) :=
  h.setBroker (h.reach_of_fewer (world.setBroker { sessions, subscriptions }) howners
    hsubscriptions (listsNoMore_of_fanouts rfl))

theorem GreetingInv.eraseSession (h : GreetingInv world) (client : ClientId) :
    GreetingInv (world.setBroker
      { world.broker with sessions := world.broker.sessions.erase client }) := by
  refine h.remove ?_ fun _ _ hnone ↦ hnone
  intro client' owner howner
  exact world.broker.ownerOf_of_ownerOf_erase client' howner

theorem GreetingInv.removeClient (h : GreetingInv world) (client : ClientId) :
    GreetingInv (world.setBroker
      { world.broker with
        subscriptions := world.broker.subscriptions.removeClient client }) := by
  refine h.remove (fun _ _ howner ↦ howner) ?_
  intro client' filter hnone
  refine (Index.get_removeAll ..).trans ?_
  split
  · rfl
  · exact hnone

theorem GreetingInv.insertSession (h : GreetingInv world) {client : ClientId}
    (hout : world.OutOfReach client) (entry : SubscriberEntry) :
    GreetingInv (world.setBroker
      { world.broker with sessions := world.broker.sessions.insert client entry }) := by
  refine h.setBroker ?_
  intro client' other will howner
  rw [Broker.ownerOf_insert_eq] at howner
  split at howner
  · rename_i hclient
    rw [hclient]
    exact .inr hout
  · exact h.reach client' other will howner

/-- A turn of a registration. -/
theorem GreetingInv.register {broker : Broker} (h : GreetingInv (world.setBroker broker))
    (hawaits : (world.phase connection).awaitsConnack = true) {phase : Phase}
    (hserves : phase.serves = false) :
    GreetingInv ((world.setBroker broker).setPhase connection phase) := by
  refine h.setPhase (fun _ ↦ hawaits) ?_
  rw [hserves]
  exact Bool.noConfusion

theorem greetingInv_advance (h : GreetingInv world)
    (hdiscreet : Discreet world (.advance connection))
    (hstep : world.advance connection = some next) : GreetingInv next := by
  unfold World.advance at hstep
  split at hstep
  · rename_i registration hphase
    obtain rfl := Option.some.inj hstep
    exact (h.eraseSession registration.client).register (by rw [hphase]; rfl) rfl
  · rename_i registration _ hphase
    obtain rfl := Option.some.inj hstep
    refine GreetingInv.register ?_ (by rw [hphase]; rfl) rfl
    split
    · exact h.removeClient registration.client
    · exact h
  · rename_i registration _ hphase
    obtain rfl := Option.some.inj hstep
    simp only [Discreet, hphase] at hdiscreet
    exact (h.insertSession hdiscreet _).register (by rw [hphase]; rfl) rfl
  · obtain rfl := Option.some.inj hstep
    exact h.connack _ rfl
  · rename_i hphase
    obtain rfl := Option.some.inj hstep
    exact h.reply (by rw [hphase]; rfl) _ _
  · split at hstep
    · obtain rfl := Option.some.inj hstep
      exact h.setPhase Bool.noConfusion Bool.noConfusion
    · obtain rfl := Option.some.inj hstep
      exact (h.eraseSession _).setPhase Bool.noConfusion Bool.noConfusion
  · rename_i client will _
    obtain rfl := Option.some.inj hstep
    cases will with
    | none => exact (h.removeClient client).setPhase Bool.noConfusion Bool.noConfusion
    | some will =>
      refine GreetingInv.startFanout ?_ _ _
      exact (h.removeClient client).setPhase Bool.noConfusion Bool.noConfusion
  · cases hstep
  · cases hstep
  · cases hstep

theorem greetingInv_connect (h : GreetingInv world) (auth : Server.AuthResult)
    (connect : ConnectPacket) (hphase : world.phase connection = .connecting) :
    GreetingInv (world.accept connection auth connect) := by
  have hversion : GreetingInv (world.setChannel connection
      { world.channel connection with version := connect.version }) :=
    h.setChannel (List.append_nil _).symm (.inr rfl)
  simp only [World.accept]
  split
  · refine hversion.setPhase (fun _ ↦ ?_) Bool.noConfusion
    change (world.phase connection).awaitsConnack = true
    rw [hphase]
    rfl
  · exact hversion.connack _ rfl

theorem greetingInv_collect {number : ℕ} {filter : String} {client : ClientId}
    (h : GreetingInv world) (hstep : stepCollect world number filter client = some next) :
    GreetingInv next := by
  obtain ⟨fanout, qos, hfanout, hsubscription, rfl⟩ := exists_of_stepCollect hstep
  refine h.frame (fun _ ↦ .of_commands rfl) (phases_of_eq rfl) ?_
  intro client' other will howner
  refine (h.reach client' other will howner).imp_right fun hout ↦ ⟨hout.1, ?_⟩
  intro fanout' hmem hsource qos' hlisted
  rcases List.mem_or_eq_of_mem_set hmem with hmem | rfl
  · exact hout.2 fanout' hmem hsource qos' hlisted
  · rcases List.mem_append.mp hlisted with hlisted | hlisted
    · exact hout.2 fanout (List.mem_of_getElem? hfanout) hsource qos' hlisted
    · obtain ⟨rfl, rfl⟩ := Prod.mk.inj (List.mem_singleton.mp hlisted)
      rw [hout.1 filter] at hsubscription
      cases hsubscription

theorem GreetingInv.setFanout (h : GreetingInv world) {number : ℕ} {fanout served : Fanout}
    (hfanout : world.fanouts[number]? = some fanout) (hsource : served.source = fanout.source)
    (hmatched : ∀ subscription ∈ served.matched, subscription ∈ fanout.matched) :
    GreetingInv (world.setFanout number served) := by
  refine h.frame (fun _ ↦ .of_commands rfl) (phases_of_eq rfl) ?_
  exact h.reach_of_fewer _ (fun _ _ howner ↦ howner) (fun _ _ hnone ↦ hnone)
    (listsNoMore_set hfanout rfl hsource hmatched)

/-- A fan-out reaches only connections that have their CONNACK. -/
theorem GreetingInv.greeted_of_recipient (h : GreetingInv world) {number : ℕ} {fanout : Fanout}
    {client : ClientId} {subQos : QoS} {entry : SubscriberEntry}
    (hfanout : world.fanouts[number]? = some fanout) (hmem : (client, subQos) ∈ fanout.matched)
    (hrecipient : world.broker.recipient fanout.source client = some entry) :
    world.Greeted entry.channel := by
  rw [Broker.recipient, Option.ite_none_left_eq_some] at hrecipient
  obtain ⟨hsource, hentry⟩ := hrecipient
  have howner : world.broker.ownerOf client = some (entry.channel, entry.will) := by
    rw [Broker.ownerOf, hentry]
    rfl
  rcases h.reach client _ _ howner with hgreeted | hout
  · exact hgreeted
  · exact absurd hmem
      (hout.2 fanout (List.mem_of_getElem? hfanout) (fun hsame ↦ hsource hsame.symm) subQos)

/-- A delivery goes to a connection that is greeted. -/
theorem greetingInv_deliver {number : ℕ} (h : GreetingInv world)
    (hstep : stepDeliver world number = some next) : GreetingInv next := by
  obtain ⟨fanout, client, subQos, matched, hfanout, hmatched, rfl⟩ := exists_of_stepDeliver hstep
  have hserved : GreetingInv (world.setFanout number { fanout with matched }) := by
    refine h.setFanout hfanout rfl ?_
    rw [hmatched]
    exact fun _ hmem ↦ List.mem_cons_of_mem _ hmem
  cases hrecipient : world.broker.recipient fanout.source client with
  | none =>
    rw [turn_of_recipient_eq_none hrecipient]
    exact hserved
  | some entry =>
    have hgreeted : world.Greeted entry.channel :=
      h.greeted_of_recipient hfanout (hmatched ▸ List.mem_cons_self) hrecipient
    rw [turn_of_recipient_eq_some hrecipient]
    refine hserved.frame ?_ (phases_of_eq rfl) hserved.reach
    exact follows_of_update rfl (deliver_commands ..) (.inr (.inl hgreeted))

/-- Every discreet step keeps those who are not greeted out of reach. -/
theorem greetingInv_step {action : Action} (h : GreetingInv world)
    (hdiscreet : Discreet world action) (hstep : step world action = some next) :
    GreetingInv next := by
  cases action with
  | connect connection auth connect =>
    obtain ⟨hphase, rfl⟩ := of_step_connect hstep
    exact greetingInv_connect h auth connect hphase
  | advance connection => exact greetingInv_advance h hdiscreet hstep
  | serve connection endpoints packet =>
    obtain ⟨client, hphase, rfl⟩ := exists_of_step_serve hstep
    unfold World.serve
    split
    · exact h.setPhase Bool.noConfusion Bool.noConfusion
    · exact greetingInv_dispatch h hphase endpoints packet hdiscreet
  | leave connection =>
    obtain ⟨client, rfl⟩ := exists_of_step_leave hstep
    exact h.setPhase Bool.noConfusion Bool.noConfusion
  | fail connection =>
    obtain rfl := of_step_fail hstep
    exact h.setPhase Bool.noConfusion Bool.noConfusion
  | collect number filter client => exact greetingInv_collect h hstep
  | collected number =>
    obtain ⟨fanout, hfanout, rfl⟩ := exists_of_step_collected hstep
    exact h.setFanout hfanout rfl fun _ hmem ↦ hmem
  | deliver number => exact greetingInv_deliver h hstep
  | close connection =>
    obtain rfl := Option.some.inj hstep
    refine h.frame ?_ (phases_of_eq rfl) h.reach
    exact follows_of_update rfl (List.append_nil _).symm (.inl rfl)
  | writerMarks connection | writerDrops connection =>
    obtain rfl := Option.some.inj hstep
    exact h.setChannel (List.append_nil _).symm (.inr rfl)

end Step

/-- In every run in which sessions are inserted and subscriptions are made discreetly, nothing gets
ahead of the CONNACK of any connection. -/
theorem connack_first {actions : List Action} {world : World}
    (run : Run step Discreet init actions world) (connection : ConnectionId) :
    world.ConnackFirst connection := by
  have hinv : GreetingInv world :=
    run.invariant greetingInv_init fun _ _ _ h hdiscreet hstep ↦ greetingInv_step h hdiscreet hstep
  exact hinv.first connection

/-- A check of discreetness that inserts sessions only while there are no subscriptions at all. -/
def isDiscreet (world : World) : Action → Bool
  | .advance connection =>
      match world.phase connection with
      | .inserting _ _ => decide (world.broker.subscriptions.keys = ∅) && world.fanouts.isEmpty
      | _ => true
  | .serve connection _ (.subscribe _) =>
      match world.phase connection with
      | .looping client => (world.broker.ownerOf client).all fun (registered, _) ↦
          (world.channel registered).commands.any fun cmd ↦
            match cmd with
            | .packet (.connack _) => true
            | _ => false
      | _ => true
  | _ => true

theorem discreet_of_isDiscreet (world : World) (action : Action)
    (h : isDiscreet world action = true) : Discreet world action := by
  unfold isDiscreet at h
  unfold Discreet
  split at h
  · split
    · rename_i hphase
      rw [hphase, Bool.and_eq_true, decide_eq_true_iff, List.isEmpty_iff] at h
      obtain ⟨hkeys, hfanouts⟩ := h
      refine ⟨?_, ?_⟩
      · intro filter
        rw [Broker.subscriptionsOf, Index.get,
          Table.lookup_eq_none_of_notMem_keys (hkeys ▸ Finset.notMem_empty filter)]
        rfl
      · rw [hfanouts]
        intro fanout hmem
        cases hmem
    · trivial
  · split
    · rename_i hphase
      intro registered will howner
      rw [hphase] at h
      simp only [howner, Option.all_some, List.any_eq_true] at h
      obtain ⟨cmd, hmem, hconnack⟩ := h
      split at hconnack
      · exact ⟨_, hmem, _, rfl⟩
      · cases hconnack
    · trivial
  · trivial

def hello : PublishPacket :=
  { topic := "t", payload := [104, 105], dup := false, qos := .atMostOnce, retain := false
    packetId := none }

/-- Two clients are admitted, one of them subscribes, and the other one publishes. -/
def discreetActions : List Action :=
  welcome 0 (connectAs "a" true none) ++ welcome 1 (connectAs "b" true none) ++
    [.serve 0 [] (subscribeTo "t" .atMostOnce), .serve 1 [] (.publish hello)] ++ reach 0 "t" "a"

theorem connack_first_discreet :
    ∃ world, Run step Discreet init discreetActions world ∧
      .publish hello ∈ (world.channel 0).commands ∧ world.ConnackFirst 0 := by
  obtain ⟨world, run, hpublished⟩ : ∃ world, Run step Discreet init discreetActions world ∧
      .publish hello ∈ (world.channel 0).commands :=
    ⟨_, Run.of_guarded discreet_of_isDiscreet rfl, by decide⟩
  exact ⟨world, run, hpublished, connack_first run 0⟩

/-- A client that has subscribed connects again, without a clean session. Another client publishes
before the handler of the new connection gets to its CONNACK. -/
def overtakingActions : List Action :=
  welcome 0 (connectAs "a" true none) ++ welcome 1 (connectAs "b" true none) ++
    [.serve 0 [] (subscribeTo "t" .atMostOnce)] ++ register 2 (connectAs "a" false none) ++
    [.serve 1 [] (.publish hello)] ++ reach 0 "t" "a"

/-- The PUBLISH is enqueued while the CONNACK is not, and ends up in front of it. -/
theorem publish_before_connack :
    ∃ world last, Run step Unrestricted init overtakingActions world ∧
      world.phase 2 = .registered "a" true ∧
      (world.channel 2).commands = [.publish hello] ∧ ¬ world.ConnackFirst 2 ∧
      step world (.advance 2) = some last ∧
      (last.channel 2).commands = [.publish hello,
        .packet (.connack { sessionPresent := true, returnCode := .accepted })] := by
  refine ⟨_, _, Run.of_foldlM rfl, rfl, rfl, ?_, rfl, rfl⟩
  intro hfirst
  cases hfirst.1 rfl

end HotaruMqtt.Connections

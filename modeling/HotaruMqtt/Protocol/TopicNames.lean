import HotaruMqtt.Protocol.Connections

/-!
# Topics that are delivered

A PUBLISH reaches the fan-out on three routes: directly, when the PUBREL of a stored message
arrives, and as the will of a client that is gone. No route looks at the topic. What can be said is
that a delivered topic came in with a PUBLISH or with the will of a CONNECT, or was written by the
endpoint chain of a message in place of its own.
-/

namespace HotaruMqtt.Connections

open Library

/-- The message that the dispatch of a packet hands to the chain. -/
def handedOn (world : World) (connection : ConnectionId) : Packet → Option PublishPacket
  | .publish publish =>
      match ((world.channel connection).ackInboundPublishPreChain publish).2 with
      | .ok () => if publish.qos = .exactlyOnce then none else some publish
      | .error _ => none
  | .pubrel id =>
      ((world.channel connection).session.qos2Recv.lookup id).map (Store.rebuildPublish · id)
  | _ => none

/-- The topic that a chain gives to a message in place of its own. -/
def rewritten (world : World) : Action → List String
  | .serve connection endpoints packet =>
      ((handedOn world connection packet).bind fun publish ↦
        (runServerChainThenDecideFanout endpoints publish).bind fun changed ↦
          if changed.topic = publish.topic then none else some changed.topic).toList
  | _ => []

/-- The will that a handler holds while it is not, or no longer, in the table of sessions. -/
def Phase.will : Phase → Option WillMessage
  | removing registration | wiping registration _ | inserting registration _ => registration.will
  | unregistering _ will => will
  | _ => none

section Topics

variable (Good : String → Prop)

/-- The topics that come in with PUBLISH packets and with accepted wills are good. -/
def Brings (_ : World) : Action → Prop
  | .connect _ auth connect =>
      auth.accepted = true → ∀ will, connect.will = some will → Good will.topic
  | .serve _ _ (.publish publish) => Good publish.topic
  | _ => True

/-- The topics of what was enqueued and of what is stored. -/
structure ChannelTopics (channel : MqttChannel) : Prop where
  queued : ∀ cmd ∈ channel.commands, ∀ packet, published cmd = some packet → Good packet.topic
  stored : ∀ id message, channel.session.qos2Recv.lookup id = some message → Good message.topic

theorem brings_mono {Good Good' : String → Prop} {world : World} {action : Action}
    (himp : ∀ topic, Good topic → Good' topic) (h : Brings Good world action) :
    Brings Good' world action := by
  unfold Brings at h ⊢
  split
  · exact fun haccepted will hwill ↦ himp _ (h haccepted will hwill)
  · exact himp _ h
  · trivial

/-- Every topic in the system is good. -/
structure TopicsInv (world : World) : Prop where
  channels : ∀ connection, ChannelTopics Good (world.channel connection)
  fanouts : ∀ fanout ∈ world.fanouts, Good fanout.packet.topic
  wills : ∀ client connection will,
    world.broker.ownerOf client = some (connection, some will) → Good will.topic
  held : ∀ connection will, (world.phase connection).will = some will → Good will.topic

end Topics

theorem topicsInv_init (Good : String → Prop) : TopicsInv Good init where
  channels connection := by
    constructor
    · intro cmd hmem
      cases hmem
    · intro id message hstored
      cases hstored
  fanouts fanout hmem := by cases hmem
  wills client connection will howner := by cases howner
  held connection will hheld := by cases hheld

theorem TopicsInv.mono {Good Good' : String → Prop} {world : World} (h : TopicsInv Good world)
    (himp : ∀ topic, Good topic → Good' topic) : TopicsInv Good' world where
  channels connection := by
    constructor
    · intro cmd hmem packet hpublished
      exact himp _ ((h.channels connection).queued cmd hmem packet hpublished)
    · intro id message hstored
      exact himp _ ((h.channels connection).stored id message hstored)
  fanouts fanout hmem := himp _ (h.fanouts fanout hmem)
  wills client connection will howner := himp _ (h.wills client connection will howner)
  held connection will hheld := himp _ (h.held connection will hheld)

section Channels

variable {Good : String → Prop} {channel next : MqttChannel}

theorem ChannelTopics.append (h : ChannelTopics Good channel) {added : List WriteCmd}
    (hcommands : next.commands = channel.commands ++ added)
    (hadded : ∀ cmd ∈ added, ∀ packet, published cmd = some packet → Good packet.topic)
    (hstored : next.session.qos2Recv = channel.session.qos2Recv) : ChannelTopics Good next where
  queued cmd hmem := by
    rw [hcommands] at hmem
    rcases List.mem_append.mp hmem with hmem | hmem
    · exact h.queued cmd hmem
    · exact hadded cmd hmem
  stored := by
    rw [hstored]
    exact h.stored

theorem ChannelTopics.reply (h : ChannelTopics Good channel) {packet : Packet}
    (hpacket : published (.packet packet) = none) :
    ChannelTopics Good (channel.reply packet).1 := by
  refine h.append (MqttChannel.commands_reply ..) ?_ (by rw [MqttChannel.session_reply])
  intro cmd hmem publish hpublish
  split at hmem
  · rw [List.mem_singleton.mp hmem, hpacket] at hpublish
    cases hpublish
  · cases hmem

theorem ChannelTopics.store (h : ChannelTopics Good channel) (id : PacketId)
    {message : IncomingPublish} (hgood : Good message.topic) :
    ChannelTopics Good { channel with
      session := { channel.session with
        qos2Recv := channel.session.qos2Recv.insert id message } } where
  queued := h.queued
  stored id' message' hstored := by
    rw [Table.lookup_insert_eq] at hstored
    split at hstored
    · rw [← Option.some.inj hstored]
      exact hgood
    · exact h.stored id' message' hstored

theorem ChannelTopics.takeStored (h : ChannelTopics Good channel) (id : PacketId) :
    ChannelTopics Good (channel.takeStored id) where
  queued := h.queued
  stored id' message hstored := h.stored id' message (Table.lookup_of_lookup_erase hstored)

theorem ChannelTopics.ackInboundPublishPreChain (h : ChannelTopics Good channel)
    {publish : PublishPacket} (hgood : Good publish.topic) :
    ChannelTopics Good (channel.ackInboundPublishPreChain publish).1 := by
  unfold MqttChannel.ackInboundPublishPreChain
  split
  · exact h.reply rfl
  · rename_i id _ _
    exact (h.store id hgood).reply rfl
  · exact h

theorem ChannelTopics.deliver (h : ChannelTopics Good channel) {packet : PublishPacket}
    (hgood : Good packet.topic) (subQos : QoS) :
    ChannelTopics Good (Broker.deliver packet subQos channel).2 := by
  refine h.append (deliver_commands ..) ?_ (deliver_qos2Recv ..)
  intro cmd hmem publish hpublish
  split at hmem
  · rw [List.mem_singleton.mp hmem] at hpublish
    rw [← Option.some.inj hpublish]
    exact hgood
  · cases hmem

theorem ChannelTopics.abandon (h : ChannelTopics Good channel) :
    ChannelTopics Good { channel with session := channel.session.abandon } where
  queued := h.queued
  stored id message hstored := by cases hstored

end Channels

section Steps

variable {Good : String → Prop} {world next : World} {connection : ConnectionId}

theorem TopicsInv.setChannel (h : TopicsInv Good world) {channel : MqttChannel}
    (hchannel : ChannelTopics Good channel) :
    TopicsInv Good (world.setChannel connection channel) where
  channels other := by
    rw [World.channel_setChannel]
    split
    · exact hchannel
    · exact h.channels other
  fanouts := h.fanouts
  wills := h.wills
  held := h.held

theorem TopicsInv.setPhase (h : TopicsInv Good world) {phase : Phase}
    (hwill : ∀ will, phase.will = some will → Good will.topic) :
    TopicsInv Good (world.setPhase connection phase) where
  channels := h.channels
  fanouts := h.fanouts
  wills := h.wills
  held other := by
    rw [World.phase_setPhase]
    split
    · exact hwill
    · exact h.held other

theorem TopicsInv.setPhase_of_will_eq_none (h : TopicsInv Good world) {phase : Phase}
    (hphase : phase.will = none) : TopicsInv Good (world.setPhase connection phase) := by
  refine h.setPhase fun will hwill ↦ ?_
  rw [hphase] at hwill
  cases hwill

theorem TopicsInv.setBroker (h : TopicsInv Good world) {broker : Broker}
    (howners : ∀ client connection will,
      broker.ownerOf client = some (connection, some will) → Good will.topic) :
    TopicsInv Good (world.setBroker broker) :=
  ⟨h.channels, h.fanouts, howners, h.held⟩

theorem TopicsInv.setSubscriptions (h : TopicsInv Good world) (subscriptions : SubscriptionTree) :
    TopicsInv Good (world.setBroker { world.broker with subscriptions }) :=
  h.setBroker h.wills

theorem TopicsInv.eraseSession (h : TopicsInv Good world) (client : ClientId) :
    TopicsInv Good (world.setBroker
      { world.broker with sessions := world.broker.sessions.erase client }) := by
  refine h.setBroker ?_
  intro client' connection will howner
  exact h.wills client' connection will (world.broker.ownerOf_of_ownerOf_erase client' howner)

theorem TopicsInv.insertSession (h : TopicsInv Good world) {entry : SubscriberEntry}
    (hwill : ∀ will, entry.will = some will → Good will.topic) (client : ClientId) :
    TopicsInv Good (world.setBroker
      { world.broker with sessions := world.broker.sessions.insert client entry }) := by
  refine h.setBroker ?_
  intro client' connection will howner
  rw [Broker.ownerOf_insert_eq] at howner
  split at howner
  · exact hwill will (Prod.mk.inj (Option.some.inj howner)).2
  · exact h.wills client' connection will howner

theorem TopicsInv.startFanout (h : TopicsInv Good world) {packet : PublishPacket}
    (hgood : Good packet.topic) (source : ClientId) :
    TopicsInv Good (world.startFanout source packet) where
  channels := h.channels
  fanouts fanout hmem := by
    rcases List.mem_append.mp hmem with hmem | hmem
    · exact h.fanouts fanout hmem
    · rw [List.mem_singleton.mp hmem]
      exact hgood
  wills := h.wills
  held := h.held

theorem TopicsInv.setFanout (h : TopicsInv Good world) {number : ℕ} {fanout served : Fanout}
    (hfanout : world.fanouts[number]? = some fanout) (hpacket : served.packet = fanout.packet) :
    TopicsInv Good (world.setFanout number served) where
  channels := h.channels
  fanouts other hmem := by
    rcases List.mem_or_eq_of_mem_set hmem with hmem | rfl
    · exact h.fanouts other hmem
    · rw [hpacket]
      exact h.fanouts fanout (List.mem_of_getElem? hfanout)
  wills := h.wills
  held := h.held

theorem TopicsInv.record (h : TopicsInv Good world) (event : Event) :
    TopicsInv Good (world.record event) :=
  ⟨h.channels, h.fanouts, h.wills, h.held⟩

/-- What the chain lets through has the topic of the message, or one that the chain has written. -/
theorem TopicsInv.handOn (h : TopicsInv Good world) {endpoints : List Endpoint}
    {publish : PublishPacket} (hgood : Good publish.topic)
    (hchain : ∀ changed, runServerChainThenDecideFanout endpoints publish = some changed →
      changed.topic ≠ publish.topic → Good changed.topic)
    (client : ClientId) : TopicsInv Good (world.handOn client endpoints publish) := by
  obtain hsame | ⟨changed, hchanged, hstarted⟩ := world.handOn_cases client endpoints publish
  · rw [hsame]
    exact h
  · rw [hstarted]
    refine h.startFanout ?_ client
    by_cases htopic : changed.topic = publish.topic
    · rw [htopic]
      exact hgood
    · exact hchain changed hchanged htopic

theorem TopicsInv.reply (h : TopicsInv Good world) {packet : Packet}
    (hpacket : published (.packet packet) = none) {phase : Phase} (hphase : phase.will = none) :
    TopicsInv Good (world.reply connection packet phase) := by
  rw [World.reply_eq]
  refine (h.setChannel ((h.channels connection).reply hpacket)).setPhase_of_will_eq_none ?_
  split
  · exact hphase
  · rfl

theorem mem_rewritten {endpoints : List Endpoint} {packet : Packet}
    {publish changed : PublishPacket} (hhanded : handedOn world connection packet = some publish)
    (hchanged : runServerChainThenDecideFanout endpoints publish = some changed)
    (htopic : changed.topic ≠ publish.topic) :
    changed.topic ∈ rewritten world (.serve connection endpoints packet) := by
  simp [rewritten, hhanded, hchanged, htopic]

theorem topicsInv_dispatch {client : ClientId} {endpoints : List Endpoint} {packet : Packet}
    (h : TopicsInv Good world)
    (hrewritten : ∀ topic ∈ rewritten world (.serve connection endpoints packet), Good topic)
    (hbrings : Brings Good world (.serve connection endpoints packet)) :
    TopicsInv Good (world.dispatch connection client endpoints packet) := by
  have hchain (publish : PublishPacket)
      (hhanded : handedOn world connection packet = some publish) (changed : PublishPacket)
      (hchanged : runServerChainThenDecideFanout endpoints publish = some changed)
      (htopic : changed.topic ≠ publish.topic) : Good changed.topic :=
    hrewritten _ (mem_rewritten hhanded hchanged htopic)
  cases packet with
  | publish publish =>
    have hacked : TopicsInv Good (world.setChannel connection _) :=
      h.setChannel ((h.channels connection).ackInboundPublishPreChain hbrings)
    simp only [World.dispatch]
    split
    · exact hacked.setPhase_of_will_eq_none rfl
    · rename_i hresult
      split
      · exact hacked
      · rename_i hqos
        refine hacked.handOn hbrings (hchain publish ?_) client
        simp [handedOn, hresult, hqos]
  | subscribe s =>
    simp only [World.dispatch]
    refine TopicsInv.reply ?_ rfl rfl
    refine h.setBroker ?_
    rw [Broker.ownerOf_subscribe]
    exact h.wills
  | unsubscribe u =>
    refine TopicsInv.reply ?_ rfl rfl
    refine h.setBroker ?_
    rw [Broker.ownerOf_unsubscribe]
    exact h.wills
  | puback id | pubcomp id =>
    refine ⟨?_, h.fanouts, h.wills, h.held⟩
    intro other
    obtain ⟨hcommands, _, hstored⟩ :=
      world.broker.ackOutbound_frame client id world.store.channels other
    refine (h.channels other).append (hcommands.trans (List.append_nil _).symm) ?_ hstored
    intro cmd hmem
    cases hmem
  | pubrel id =>
    simp only [World.dispatch]
    split
    · exact h.reply rfl rfl
    · rename_i stored hstored
      have htaken : TopicsInv Good (world.setChannel connection _) :=
        h.setChannel ((h.channels connection).takeStored id)
      have hgood : Good (Store.rebuildPublish stored id).topic :=
        (h.channels connection).stored id stored hstored
      refine (htaken.handOn hgood (hchain _ ?_) client).setPhase_of_will_eq_none rfl
      simp [handedOn, hstored]
  | pingreq | pubrec id => exact h.reply rfl rfl
  | connect connect => exact h.setPhase_of_will_eq_none rfl
  | connack | suback | unsuback | pingresp | disconnect => exact h

theorem topicsInv_advance (h : TopicsInv Good world)
    (hstep : world.advance connection = some next) : TopicsInv Good next := by
  have hheld := h.held connection
  unfold World.advance at hstep
  split at hstep
  · rename_i registration hphase
    rw [hphase] at hheld
    obtain rfl := Option.some.inj hstep
    exact (h.eraseSession registration.client).setPhase hheld
  · rename_i hphase
    rw [hphase] at hheld
    obtain rfl := Option.some.inj hstep
    exact (h.setSubscriptions _).setPhase hheld
  · rename_i registration _ hphase
    rw [hphase] at hheld
    obtain rfl := Option.some.inj hstep
    exact (h.insertSession hheld registration.client).setPhase_of_will_eq_none rfl
  · obtain rfl := Option.some.inj hstep
    exact h.reply rfl rfl
  · obtain rfl := Option.some.inj hstep
    exact h.reply rfl rfl
  · rename_i client graceful _
    split at hstep
    · obtain rfl := Option.some.inj hstep
      exact h.setPhase_of_will_eq_none rfl
    · rename_i entry hentry
      obtain rfl := Option.some.inj hstep
      refine (h.eraseSession client).setPhase fun will hwill ↦ ?_
      have hentryWill : entry.will = some will := by
        cases graceful with
        | true => cases hwill
        | false => exact hwill
      apply h.wills client entry.channel will
      rw [Broker.ownerOf, hentry, ← hentryWill]
      rfl
  · rename_i client will hphase
    rw [hphase] at hheld
    obtain rfl := Option.some.inj hstep
    have hwiped : TopicsInv Good ((world.setBroker { world.broker with
        subscriptions := world.broker.subscriptions.removeClient client }).setPhase connection
          .returned) :=
      (h.setSubscriptions _).setPhase_of_will_eq_none rfl
    cases will with
    | none => exact hwiped
    | some will => exact hwiped.startFanout (hheld will rfl) ""
  · cases hstep
  · cases hstep
  · cases hstep

theorem topicsInv_connect (h : TopicsInv Good world) (auth : Server.AuthResult)
    {connect : ConnectPacket} (hbrings : Brings Good world (.connect connection auth connect)) :
    TopicsInv Good (world.accept connection auth connect) := by
  have hversion : TopicsInv Good (world.setChannel connection
      { world.channel connection with version := connect.version }) :=
    h.setChannel ⟨(h.channels connection).queued, (h.channels connection).stored⟩
  simp only [World.accept]
  split
  · rename_i haccepted
    refine hversion.setPhase fun will hwill ↦ ?_
    obtain ⟨willPacket, hwillPacket, rfl⟩ := Option.map_eq_some_iff.mp hwill
    exact hbrings haccepted willPacket hwillPacket
  · exact hversion.reply rfl rfl

theorem topicsInv_deliver {number : ℕ} (h : TopicsInv Good world)
    (hstep : stepDeliver world number = some next) : TopicsInv Good next := by
  obtain ⟨fanout, client, subQos, matched, hfanout, _, rfl⟩ := exists_of_stepDeliver hstep
  have hserved : TopicsInv Good (world.setFanout number { fanout with matched }) :=
    h.setFanout hfanout rfl
  cases hrecipient : world.broker.recipient fanout.source client with
  | none =>
    rw [turn_of_recipient_eq_none hrecipient]
    exact hserved
  | some entry =>
    rw [turn_of_recipient_eq_some hrecipient]
    refine TopicsInv.record (hserved.setChannel ?_) _
    exact (h.channels entry.channel).deliver
      (h.fanouts fanout (List.mem_of_getElem? hfanout)) subQos

theorem topicsInv_close (h : TopicsInv Good world) :
    TopicsInv Good (stepClose world connection) := by
  refine TopicsInv.record (h.setChannel ?_) _
  have hchannel := h.channels connection
  cases (world.channel connection).isOpen with
  | true => exact ⟨hchannel.abandon.queued, hchannel.abandon.stored⟩
  | false => exact ⟨hchannel.queued, hchannel.stored⟩

theorem topicsInv_step {action : Action} (h : TopicsInv Good world)
    (hrewritten : ∀ topic ∈ rewritten world action, Good topic) (hbrings : Brings Good world action)
    (hstep : step world action = some next) : TopicsInv Good next := by
  cases action with
  | connect connection auth connect =>
    obtain ⟨-, rfl⟩ := of_step_connect hstep
    exact topicsInv_connect h auth hbrings
  | advance connection => exact topicsInv_advance h hstep
  | serve connection endpoints packet =>
    obtain ⟨client, -, rfl⟩ := exists_of_step_serve hstep
    unfold World.serve
    split
    · exact h.setPhase_of_will_eq_none rfl
    · exact topicsInv_dispatch h hrewritten hbrings
  | leave connection =>
    obtain ⟨client, rfl⟩ := exists_of_step_leave hstep
    exact h.setPhase_of_will_eq_none rfl
  | fail connection =>
    obtain rfl := of_step_fail hstep
    exact h.setPhase_of_will_eq_none rfl
  | collect number filter client =>
    obtain ⟨fanout, qos, hfanout, -, rfl⟩ := exists_of_stepCollect hstep
    exact h.setFanout hfanout rfl
  | collected number =>
    obtain ⟨fanout, hfanout, rfl⟩ := exists_of_step_collected hstep
    exact h.setFanout hfanout rfl
  | deliver number => exact topicsInv_deliver h hstep
  | close connection =>
    obtain rfl := Option.some.inj hstep
    exact topicsInv_close h
  | writerMarks connection | writerDrops connection =>
    obtain rfl := Option.some.inj hstep
    exact h.setChannel ⟨(h.channels connection).queued, (h.channels connection).stored⟩

end Steps

def IsTopicName (topic : String) : Prop := Topic.validatePublishTopic topic = .ok ()

instance (topic : String) : Decidable (IsTopicName topic) := inferInstanceAs (Decidable (_ = _))

/-- Every PUBLISH that was enqueued has the name of a topic, unless a chain wrote its topic. -/
def DeliversNames (current : Observed World String) : Prop :=
  ∀ connection, ∀ cmd ∈ (current.state.channel connection).commands, ∀ packet,
    published cmd = some packet → packet.topic ∉ current.seen → IsTopicName packet.topic

/-- Every PUBLISH and every will that comes in has the name of a topic. -/
def BringsNames (current : Observed World String) : Action → Prop :=
  Brings IsTopicName current.state

/-- If only names of topics come in then only names of topics are delivered, apart from what the
endpoint chains have written. -/
theorem topic_names_delivered {actions : List Action} {current : Observed World String}
    (run : Run (observed rewritten step) BringsNames ⟨init, []⟩ actions current) :
    DeliversNames current := by
  have hinv : TopicsInv (fun topic ↦ topic ∉ current.seen → IsTopicName topic) current.state := by
    induction run with
    | refl => exact topicsInv_init _
    | @tail _ before action next _ hbrings hstep ih =>
      obtain ⟨hstep, hseen⟩ := of_observed hstep
      refine topicsInv_step (ih.mono ?_) ?_ ?_ hstep
      · intro topic hname hnot
        apply hname
        rw [hseen, List.mem_append, not_or] at hnot
        exact hnot.1
      · intro topic hmem hnot
        rw [hseen, List.mem_append, not_or] at hnot
        exact absurd hmem hnot.2
      · exact brings_mono (fun _ hname _ ↦ hname) hbrings
  intro connection
  exact (hinv.channels connection).queued

def bringsNames (_ : Observed World String) : Action → Bool
  | .connect _ _ connect => connect.will.all fun will ↦ IsTopicName will.topic
  | .serve _ _ (.publish publish) => IsTopicName publish.topic
  | _ => true

theorem bringsNames_of_check (current : Observed World String) (action : Action)
    (h : bringsNames current action = true) : BringsNames current action := by
  unfold bringsNames at h
  unfold BringsNames Brings
  split
  · intro _ will hwill
    simpa only [hwill, Option.all_some, decide_eq_true_eq] using h
  · exact of_decide_eq_true h
  · trivial

def message (topic : String) (qos : QoS) (packetId : Option PacketId) : PublishPacket :=
  { topic, payload := [], dup := false, qos, retain := false, packetId }

/-- A client subscribes to everything. Another client publishes with QoS 0 and with QoS 2 and then
disappears, so that its will is published. -/
def threeRoutes (direct stored will : String) : List Action :=
  welcome 0 (connectAs "a" true none) ++
    welcome 1 (connectAs "b" true
      (some { topic := will, payload := [], qos := .atMostOnce, retain := false })) ++
    [.serve 0 [] (subscribeTo "#" .atMostOnce),
      .serve 1 [] (.publish (message direct .atMostOnce none))] ++ reach 0 "#" "a" ++
    [.serve 1 [] (.publish (message stored .exactlyOnce (some 1))), .serve 1 [] (.pubrel 1)] ++
    reach 1 "#" "a" ++ [.advance 1, .leave 1, .advance 1, .advance 1] ++ reach 2 "#" "a"

def deliveredTopics (world : World) (connection : ConnectionId) : List String :=
  ((world.channel connection).commands.filterMap published).map fun packet ↦ packet.topic

/-- An endpoint that rewrites a topic in its own way. -/
def shouting : Endpoint := fun incoming ↦
  some { shouldFanout := true, incoming := some { incoming with topic := "+" } }

/-- Three messages are delivered under their names, and a fourth under a topic that a chain has
written. -/
theorem topic_names_delivered_threeRoutes :
    ∃ current, Run (observed rewritten step) BringsNames ⟨init, []⟩
        (threeRoutes "t" "x/y" "gone" ++ welcome 2 (connectAs "c" true none) ++
          [.serve 2 [shouting] (.publish (message "u" .atMostOnce none))] ++ reach 3 "#" "a")
        current ∧
      deliveredTopics current.state 0 = ["t", "x/y", "gone", "+"] ∧ current.seen = ["+"] ∧
      DeliversNames current := by
  obtain ⟨current, run, htopics, hseen⟩ : ∃ current,
      Run (observed rewritten step) BringsNames ⟨init, []⟩
        (threeRoutes "t" "x/y" "gone" ++ welcome 2 (connectAs "c" true none) ++
          [.serve 2 [shouting] (.publish (message "u" .atMostOnce none))] ++ reach 3 "#" "a")
        current ∧
      deliveredTopics current.state 0 = ["t", "x/y", "gone", "+"] ∧ current.seen = ["+"] :=
    ⟨_, Run.of_guarded bringsNames_of_check rfl, rfl, rfl⟩
  exact ⟨current, run, htopics, hseen, topic_names_delivered run⟩

/-- Wildcards are delivered on all three routes, and no chain has written them. The first PUBLISH is
one that can be read from the wire. -/
theorem wildcards_delivered :
    ∃ current, Run (observed rewritten step) Unrestricted ⟨init, []⟩
        (threeRoutes "+" "x/+" "w/#") current ∧
      deliveredTopics current.state 0 = ["+", "x/+", "w/#"] ∧ current.seen = [] ∧
      ¬ IsTopicName "+" ∧ ¬ IsTopicName "x/+" ∧ ¬ IsTopicName "w/#" ∧ ¬ DeliversNames current ∧
      Codec.readPacket [0x30, 3, 0, 1, 43] default =
        .ok (.publish (message "+" .atMostOnce none), []) := by
  obtain ⟨current, run, htopics, hseen⟩ : ∃ current,
      Run (observed rewritten step) Unrestricted ⟨init, []⟩ (threeRoutes "+" "x/+" "w/#") current ∧
      deliveredTopics current.state 0 = ["+", "x/+", "w/#"] ∧ current.seen = [] :=
    ⟨_, Run.of_foldlM rfl, rfl, rfl⟩
  refine ⟨current, run, htopics, hseen, by decide, by decide, by decide, ?_, by decide⟩
  intro hnames
  have hmem : "+" ∈ deliveredTopics current.state 0 := by
    rw [htopics]
    exact List.mem_cons_self
  obtain ⟨packet, hpacket, htopic⟩ := List.mem_map.mp hmem
  obtain ⟨cmd, hcmd, hpublished⟩ := List.mem_filterMap.mp hpacket
  have hkept : packet.topic ∉ current.seen := by
    rw [hseen]
    exact List.not_mem_nil
  have hname : IsTopicName "+" := htopic ▸ hnames 0 cmd hcmd packet hpublished hkept
  exact absurd hname (by decide)

end HotaruMqtt.Connections

import HotaruMqtt.Protocol.Exchange
import HotaruMqtt.Protocol.Fanouts

/-!
# The answers of the server

A handler answers what it reads before it reads on, and messages of other clients are put into the
same queue meanwhile. Apart from these messages, the queue of a connection holds the CONNACK that
accepts it and then one answer for each packet that needs one, in the order in which the packets
were read. Only the last answer may be missing: a PUBREL is answered behind the endpoints, and a
handler whose writer is gone returns without an answer.
-/

namespace HotaruMqtt.Connections

open Library

/-- The packets of a queue that are not messages of a fan-out. -/
def World.controls (world : World) (connection : ConnectionId) : List Packet :=
  (world.channel connection).commands.filterMap Link.control

/-- The answer to a packet. A SUBACK has a code for each filter, in the order of the filters; a
client without a session is granted nothing. -/
inductive Answers : Packet → Packet → Prop where
  | puback {p : PublishPacket} {id : PacketId} (qos : p.qos = .atLeastOnce)
      (identifier : p.packetId = some id) : Answers (.publish p) (.puback id)
  | pubrec {p : PublishPacket} {id : PacketId} (qos : p.qos = .exactlyOnce)
      (identifier : p.packetId = some id) : Answers (.publish p) (.pubrec id)
  | suback (s : SubscribePacket) {codes : List SubackCode}
      (granted : codes = (s.subscriptions.map fun ts ↦
          Reference.subackCode { filter := ts.topic, qos := ts.qos }) ∨
        codes = s.subscriptions.map fun _ ↦ .failure) :
      Answers (.subscribe s) (.suback { packetId := s.packetId, returnCodes := codes })
  | unsuback (u : UnsubscribePacket) :
      Answers (.unsubscribe u)
        (.unsuback { packetId := u.packetId, reasonCodes := List.replicate u.topics.length 0 })
  | pingresp : Answers .pingreq .pingresp
  | pubrel (id : PacketId) : Answers (.pubrec id) (.pubrel id)
  | pubcomp (id : PacketId) : Answers (.pubrel id) (.pubcomp id)

/-- What the dispatcher replies is the answer the protocol asks for. -/
theorem answers_of_serverAnswer {broker : Broker} {client : ClientId} {packet answer : Packet}
    (h : Link.serverAnswer broker client packet = some answer) : Answers packet answer := by
  cases packet with
  | publish p =>
    simp only [Link.serverAnswer, Link.handshakeAnswer, Link.publishReply] at h
    split at h
    · rename_i hqos hid
      obtain rfl := Option.some.inj h
      exact .puback hqos hid
    · rename_i hqos hid
      obtain rfl := Option.some.inj h
      exact .pubrec hqos hid
    · cases h
  | subscribe s =>
    obtain rfl := Option.some.inj h
    refine .suback s ?_
    unfold Broker.subscribe
    split
    · right
      rw [List.map_map]
      rfl
    · left
      rw [subscribeFilters_codes, List.map_map]
      rfl
  | unsubscribe u =>
    obtain rfl := Option.some.inj h
    exact .unsuback u
  | pingreq =>
    obtain rfl := Option.some.inj h
    exact .pingresp
  | pubrec id =>
    obtain rfl := Option.some.inj h
    exact .pubrel id
  | pubrel id =>
    obtain rfl := Option.some.inj h
    exact .pubcomp id
  | connect | connack | puback | pubcomp | suback | unsuback | pingresp | disconnect => cases h

/-- The packets that are answered are those that need an answer. -/
theorem isSome_serverAnswer (broker : Broker) (client : ClientId) (packet : Packet) :
    (Link.serverAnswer broker client packet).isSome = Server.needsReply packet := by
  cases packet with
  | publish p =>
    simp only [Link.serverAnswer, Link.handshakeAnswer, Link.publishReply, Server.needsReply]
    cases p.qos <;> cases p.packetId <;> rfl
  | _ => rfl

/-- What a handler reads that needs an answer. -/
def observeRequest (_ : World) : Action → List (ConnectionId × Packet)
  | .serve connection _ packet =>
      if Server.needsReply packet then [(connection, packet)] else []
  | _ => []

def requestsOf (connection : ConnectionId) (seen : List (ConnectionId × Packet)) : List Packet :=
  seen.filterMap fun request ↦ if request.1 = connection then some request.2 else none

/-- Behind a CONNACK that accepts the connection there is an answer to each request, the pending
ones apart. -/
def Answered (pending asked controls : List Packet) : Prop :=
  ∃ ack answered replies, controls = .connack ack :: replies ∧ ack.returnCode = .accepted ∧
    asked = answered ++ pending ∧ List.Forall₂ Answers answered replies

/-- Nothing was answered but the CONNECT. -/
def Unasked (asked controls : List Packet) : Prop :=
  asked = [] ∧ (controls = [] ∨ ∃ ack, controls = [.connack ack])

/-- What a handler has read and answered in each phase. -/
def Phase.Owes : Phase → List Packet → List Packet → Prop
  | connecting, asked, controls | removing _, asked, controls | wiping _ _, asked, controls
  | inserting _ _, asked, controls | registered _ _, asked, controls => asked = [] ∧ controls = []
  | looping _, asked, controls | leaving _ _, asked, controls
  | unregistering _ _, asked, controls => Answered [] asked controls
  | completing _ id, asked, controls => Answered [.pubrel id] asked controls
  | returned, asked, controls =>
      Unasked asked controls ∨ ∃ pending, pending.length ≤ 1 ∧ Answered pending asked controls

section Answering

variable {asked controls : List Packet} {packet reply : Packet}

theorem Answered.answer (h : Answered [packet] asked controls) (hanswers : Answers packet reply) :
    Answered [] asked (controls ++ [reply]) := by
  obtain ⟨ack, answered, replies, rfl, hack, rfl, hreplies⟩ := h
  refine ⟨ack, answered ++ [packet], replies ++ [reply], rfl, hack, (List.append_nil _).symm, ?_⟩
  exact List.rel_append hreplies (.cons hanswers .nil)

theorem Answered.ask (h : Answered [] asked controls) (packet : Packet) :
    Answered [packet] (asked ++ [packet]) controls := by
  obtain ⟨ack, answered, replies, rfl, hack, rfl, hreplies⟩ := h
  exact ⟨ack, answered, replies, rfl, hack, by rw [List.append_nil], hreplies⟩

/-- A handler may return from everywhere. -/
theorem Phase.Owes.returns {phase : Phase} (h : phase.Owes asked controls) :
    Phase.returned.Owes asked controls := by
  cases phase with
  | connecting | removing | wiping | inserting | registered => exact .inl ⟨h.1, .inl h.2⟩
  | looping | leaving | unregistering => exact .inr ⟨[], Nat.zero_le 1, h⟩
  | completing client id => exact .inr ⟨[.pubrel id], Nat.le_refl 1, h⟩
  | returned => exact h

/-- A handler answers and goes on, or finds its writer gone and returns. -/
theorem owes_answer {client : ClientId} (h : Answered [packet] asked controls)
    (hanswers : Answers packet reply) (receiving : Bool) :
    (if receiving then Phase.looping client else .returned).Owes asked
      (controls ++ Handover.ifLive receiving [reply]) := by
  cases receiving with
  | true => exact h.answer hanswers
  | false =>
    simp only [Handover.ifLive, Bool.false_eq_true, if_false, List.append_nil]
    exact .inr ⟨[packet], Nat.le_refl 1, h⟩

/-- A handler sends its CONNACK, unless its writer is gone. -/
theorem owes_connack {phase : Phase} {ack : ConnackPacket} (h : phase.Owes [] [.connack ack])
    (receiving : Bool) :
    (if receiving then phase else .returned).Owes []
      (Handover.ifLive receiving [.connack ack]) := by
  cases receiving with
  | true => exact h
  | false => exact .inl ⟨rfl, .inl rfl⟩

end Answering

/-- What a step does to the handlers and to their queues, with what is seen of it. A handler that
moves goes on owing no more than it may. -/
inductive Conduct (world next : World) : List (ConnectionId × Packet) → Prop where
  | keeps (phases : next.phase = world.phase) (controls : next.controls = world.controls) :
      Conduct world next []
  | moves (connection : ConnectionId) (phase : Phase) (asked added : List Packet)
      (phases : next.phase = Function.update world.phase connection phase)
      (controls : next.controls =
        Function.update world.controls connection (world.controls connection ++ added))
      (owes : ∀ earlier controls, (world.phase connection).Owes earlier controls →
        phase.Owes (earlier ++ asked) (controls ++ added)) :
      Conduct world next (asked.map fun packet ↦ (connection, packet))

section Steps

variable {world between next : World} {connection : ConnectionId} {channel : MqttChannel}

theorem World.controls_congr (h : next.store.channels = world.store.channels) :
    next.controls = world.controls := by
  funext other
  rw [World.controls, World.channel, h, World.controls, World.channel]

theorem World.controls_setChannel (channel : MqttChannel) :
    (world.setChannel connection channel).controls =
      Function.update world.controls connection (channel.commands.filterMap Link.control) := by
  funext other
  rw [World.controls, World.channel_setChannel, Function.update_apply]
  split <;> rfl

theorem World.controls_of_control_eq
    (h : channel.commands.filterMap Link.control = world.controls connection) :
    (world.setChannel connection channel).controls = world.controls := by
  rw [World.controls_setChannel, h, Function.update_eq_self]

/-- The queue grows by an answer, unless the writer is gone. -/
theorem World.controls_of_extends {packet : Packet}
    (h : Link.Extends (world.channel connection) channel [.packet packet]) :
    (world.setChannel connection channel).controls =
      Function.update world.controls connection (world.controls connection ++
        Handover.ifLive (world.channel connection).receiving [packet]) := by
  rw [World.controls_setChannel, h.commands, List.filterMap_append]
  cases (world.channel connection).receiving <;> rfl

/-- A handler goes on without a word. -/
theorem conduct_silent {before : Phase} (hbefore : world.phase connection = before) (phase : Phase)
    (hphases : next.phase = Function.update world.phase connection phase)
    (hcontrols : next.controls = world.controls)
    (howes : ∀ asked controls, before.Owes asked controls → phase.Owes asked controls) :
    Conduct world next [] := by
  refine .moves connection phase [] [] hphases ?_ ?_
  · rw [hcontrols, List.append_nil, Function.update_eq_self]
  · intro asked controls h
    rw [hbefore] at h
    rw [List.append_nil, List.append_nil]
    exact howes asked controls h

theorem conduct_returns (hphases : next.phase = Function.update world.phase connection .returned)
    (hcontrols : next.controls = world.controls) : Conduct world next [] :=
  conduct_silent rfl .returned hphases hcontrols fun _ _ howes ↦ howes.returns

/-- A handler sends a packet and goes on, or finds its writer gone and returns. -/
theorem conduct_reply {before : Phase} (hbefore : world.phase connection = before)
    (packet : Packet) (phase : Phase) (asked : List Packet)
    (hphase : between.phase = world.phase) (hcontrols : between.controls = world.controls)
    (howes : ∀ earlier controls, before.Owes earlier controls →
      ∀ receiving : Bool, (if receiving then phase else .returned).Owes (earlier ++ asked)
        (controls ++ Handover.ifLive receiving [packet])) :
    Conduct world (between.reply connection packet phase)
      (asked.map fun packet ↦ (connection, packet)) := by
  rw [World.reply_eq]
  refine .moves connection (if (between.channel connection).receiving then phase else .returned)
    asked (Handover.ifLive (between.channel connection).receiving [packet]) ?_ ?_ ?_
  · rw [← hphase]
    rfl
  · rw [← hcontrols]
    exact World.controls_of_extends (.reply _ _)
  · intro earlier controls h
    rw [hbefore] at h
    exact howes earlier controls h _

/-- A handler in the loop answers a packet. -/
theorem conduct_answer {client : ClientId} (hphase : world.phase connection = .looping client)
    {packet reply : Packet} (hanswer : Link.serverAnswer world.broker client packet = some reply)
    (hphases : between.phase = world.phase) (hcontrols : between.controls = world.controls) :
    Conduct world (between.reply connection reply (.looping client)) [(connection, packet)] := by
  refine conduct_reply hphase reply (.looping client) [packet] hphases hcontrols ?_
  intro earlier controls howes receiving
  exact owes_answer (Answered.ask howes packet) (answers_of_serverAnswer hanswer) receiving

theorem observeRequest_serve {endpoints : List Endpoint} {packet : Packet}
    (h : Server.needsReply packet = true) :
    observeRequest world (.serve connection endpoints packet) = [(connection, packet)] :=
  if_pos h

theorem handOn_controls (client : ClientId) (endpoints : List Endpoint) (p : PublishPacket) :
    (world.handOn client endpoints p).controls = world.controls :=
  World.controls_congr (congrArg Store.channels (world.handOn_frame client endpoints p).1)

/-- A reply fails only if the writer no longer receives. -/
theorem ackInboundPublishPreChain_isOk (channel : MqttChannel) (p : PublishPacket) :
    (channel.ackInboundPublishPreChain p).2.isOk =
      (!Server.needsReply (.publish p) || channel.receiving) := by
  have hok : (channel.ackInboundPublishPreChain p).2.isOk = true ↔
      (channel.ackInboundPublishPreChain p).2 = .ok () := by
    cases (channel.ackInboundPublishPreChain p).2 <;> simp [Except.isOk, Except.toBool]
  rw [Bool.eq_iff_iff, hok, Server.ackInboundPublishPreChain_ok_iff]
  cases Server.needsReply (.publish p) <;> simp

/-- The handler of a PUBLISH goes on if the message could be acknowledged. -/
theorem dispatch_publish_frame {client : ClientId}
    (hphase : world.phase connection = .looping client) (endpoints : List Endpoint)
    (p : PublishPacket) :
    let acked := (world.channel connection).ackInboundPublishPreChain p
    let next := world.dispatch connection client endpoints (.publish p)
    next.phase = Function.update world.phase connection
        (if acked.2.isOk then .looping client else .returned) ∧
      next.controls = (world.setChannel connection acked.1).controls := by
  dsimp only [World.dispatch]
  cases ((world.channel connection).ackInboundPublishPreChain p).2 with
  | error reason => exact ⟨rfl, rfl⟩
  | ok acked =>
    have hlooping : world.phase = Function.update world.phase connection (.looping client) := by
      rw [← hphase, Function.update_eq_self]
    dsimp only
    split
    · exact ⟨hlooping, rfl⟩
    · exact ⟨(World.handOn_frame _ client endpoints p).2.1.trans hlooping,
        handOn_controls client endpoints p⟩

theorem conduct_publish {client : ClientId} (hphase : world.phase connection = .looping client)
    (endpoints : List Endpoint) (p : PublishPacket) :
    Conduct world (world.dispatch connection client endpoints (.publish p))
      (observeRequest world (.serve connection endpoints (.publish p))) := by
  obtain ⟨hphases, hcontrols⟩ := dispatch_publish_frame hphase endpoints p
  have hextends := (Link.grows_ackInboundPublish (world.channel connection) p).toExtends
  have hneeds : (Link.publishReply p).isSome = Server.needsReply (.publish p) :=
    isSome_serverAnswer world.broker client (.publish p)
  have hok := ackInboundPublishPreChain_isOk (world.channel connection) p
  cases hanswer : Link.publishReply p with
  | none =>
    rw [hanswer] at hextends hneeds
    rw [← hneeds] at hok
    rw [hok, Option.isSome_none, Bool.not_false, Bool.true_or, if_pos rfl, ← hphase,
      Function.update_eq_self] at hphases
    rw [World.controls_of_control_eq] at hcontrols
    · rw [observeRequest, ← hneeds]
      exact .keeps hphases hcontrols
    · rw [hextends.commands, List.filterMap_append]
      cases (world.channel connection).receiving <;> exact List.append_nil _
  | some reply =>
    rw [hanswer] at hextends hneeds
    rw [← hneeds] at hok
    rw [hok] at hphases
    rw [observeRequest_serve hneeds.symm]
    refine .moves connection _ [.publish p]
      (Handover.ifLive (world.channel connection).receiving [reply]) hphases
      (hcontrols.trans (World.controls_of_extends hextends)) ?_
    intro earlier controls howes
    rw [hphase] at howes
    have hserver : Link.serverAnswer world.broker client (.publish p) = some reply := hanswer
    exact owes_answer (Answered.ask howes _) (answers_of_serverAnswer hserver) _

/-- A dispatched packet is answered before the next is read. -/
theorem conduct_dispatch {client : ClientId} (hphase : world.phase connection = .looping client)
    (endpoints : List Endpoint) (packet : Packet) :
    Conduct world (world.dispatch connection client endpoints packet)
      (observeRequest world (.serve connection endpoints packet)) := by
  cases packet with
  | publish p => exact conduct_publish hphase endpoints p
  | subscribe s => exact conduct_answer hphase rfl rfl rfl
  | unsubscribe u => exact conduct_answer hphase rfl rfl rfl
  | pingreq => exact conduct_answer hphase rfl rfl rfl
  | pubrec id => exact conduct_answer hphase rfl rfl rfl
  | pubrel id =>
    simp only [World.dispatch]
    split
    · exact conduct_answer hphase rfl rfl rfl
    · rename_i stored _
      refine .moves connection (.completing client id) [.pubrel id] [] ?_ ?_ ?_
      · rw [World.setPhase, (World.handOn_frame _ client endpoints _).2.1]
        rfl
      · rw [List.append_nil, Function.update_eq_self]
        refine (handOn_controls client endpoints (Store.rebuildPublish stored id)).trans ?_
        exact World.controls_of_control_eq rfl
      · intro earlier controls howes
        rw [hphase] at howes
        rw [List.append_nil]
        exact Answered.ask howes _
  | puback id | pubcomp id =>
    refine .keeps rfl ?_
    funext other
    exact congrArg (List.filterMap Link.control)
      (Broker.ackOutbound_frame world.broker client id world.store.channels other).1
  | connect c =>
    exact conduct_returns rfl rfl
  | connack | suback | unsuback | pingresp | disconnect => exact .keeps rfl rfl

/-- A message of a fan-out is no answer. -/
theorem conduct_turn {number : ℕ} {fanout : Fanout} {client : ClientId} {subQos : QoS}
    {matched : List (ClientId × QoS)} :
    Conduct world (world.turn number fanout client subQos matched) [] := by
  cases hrecipient : world.broker.recipient fanout.source client with
  | none =>
    rw [turn_of_recipient_eq_none hrecipient]
    exact .keeps rfl rfl
  | some entry =>
    rw [turn_of_recipient_eq_some hrecipient]
    have hcontrol : (Broker.deliver fanout.packet subQos
        (world.channel entry.channel)).2.commands.filterMap Link.control =
          world.controls entry.channel := by
      rw [deliver_commands, List.filterMap_append]
      cases (world.channel entry.channel).receiving <;> exact List.append_nil _
    exact .keeps rfl (World.controls_of_control_eq hcontrol)

theorem conduct_advance (h : world.advance connection = some next) : Conduct world next [] := by
  cases hphase : world.phase connection with
  | connecting | looping | returned =>
    simp only [World.advance, hphase] at h
    cases h
  | removing registration =>
    simp only [World.advance, hphase] at h
    obtain rfl := Option.some.inj h
    exact conduct_silent hphase (.wiping registration _) rfl rfl fun _ _ howes ↦ howes
  | wiping registration present =>
    simp only [World.advance, hphase] at h
    obtain rfl := Option.some.inj h
    exact conduct_silent hphase (.inserting registration present) rfl rfl fun _ _ howes ↦ howes
  | inserting registration present =>
    simp only [World.advance, hphase] at h
    obtain rfl := Option.some.inj h
    exact conduct_silent hphase (.registered registration.client present) rfl rfl
      fun _ _ howes ↦ howes
  | registered client present =>
    simp only [World.advance, hphase] at h
    obtain rfl := Option.some.inj h
    refine conduct_reply hphase _ (.looping client) [] rfl rfl ?_
    rintro earlier controls ⟨rfl, rfl⟩ receiving
    have hlooping : (Phase.looping client).Owes []
        [.connack { sessionPresent := present, returnCode := .accepted }] :=
      ⟨_, [], [], rfl, rfl, rfl, .nil⟩
    exact owes_connack hlooping receiving
  | completing client id =>
    simp only [World.advance, hphase] at h
    obtain rfl := Option.some.inj h
    refine conduct_reply hphase (.pubcomp id) (.looping client) [] rfl rfl ?_
    intro earlier controls howes receiving
    rw [List.append_nil]
    exact owes_answer howes (.pubcomp id) receiving
  | leaving client graceful =>
    simp only [World.advance, hphase] at h
    split at h
    · obtain rfl := Option.some.inj h
      exact conduct_returns rfl rfl
    · rename_i entry _
      obtain rfl := Option.some.inj h
      exact conduct_silent hphase (.unregistering client (if graceful then none else entry.will))
        rfl rfl fun _ _ howes ↦ howes
  | unregistering client will =>
    simp only [World.advance, hphase] at h
    obtain rfl := Option.some.inj h
    cases will with
    | none => exact conduct_returns rfl rfl
    | some will => exact conduct_returns rfl rfl

theorem conduct_connect (hphase : world.phase connection = .connecting) (auth : Server.AuthResult)
    (connect : ConnectPacket) : Conduct world (world.accept connection auth connect) [] := by
  have hcontrols : (world.setChannel connection
      { world.channel connection with version := connect.version }).controls = world.controls :=
    World.controls_of_control_eq rfl
  unfold World.accept
  dsimp only
  split
  · exact conduct_silent hphase (.removing _) rfl hcontrols fun _ _ howes ↦ howes
  · refine conduct_reply hphase _ .returned [] rfl hcontrols ?_
    rintro earlier controls ⟨rfl, rfl⟩ receiving
    have hreturned : Phase.returned.Owes []
        [.connack { sessionPresent := false, returnCode := auth.returnCode }] :=
      .inl ⟨rfl, .inr ⟨_, rfl⟩⟩
    exact owes_connack hreturned receiving

/-- Every step notes its request and enqueues the answer of at most one. -/
theorem conduct_of_step {action : Action} (h : step world action = some next) :
    Conduct world next (observeRequest world action) := by
  cases action with
  | connect connection auth connect =>
    obtain ⟨hphase, rfl⟩ := of_step_connect h
    exact conduct_connect hphase auth connect
  | advance connection => exact conduct_advance h
  | serve connection endpoints packet =>
    obtain ⟨client, hphase, rfl⟩ := exists_of_step_serve h
    unfold World.serve
    split
    · rename_i hdisconnect
      rw [hdisconnect]
      exact conduct_silent hphase (.leaving client true) rfl rfl fun _ _ howes ↦ howes
    · exact conduct_dispatch hphase endpoints packet
  | leave connection =>
    simp only [step] at h
    split at h
    · rename_i client hphase
      obtain rfl := Option.some.inj h
      exact conduct_silent hphase (.leaving client false) rfl rfl fun _ _ howes ↦ howes
    · cases h
  | fail connection =>
    rw [of_step_fail h]
    exact conduct_returns rfl rfl
  | collect number filter client =>
    obtain ⟨fanout, qos, -, -, rfl⟩ := exists_of_stepCollect h
    exact .keeps rfl rfl
  | collected number =>
    obtain ⟨fanout, -, rfl⟩ := exists_of_step_collected h
    exact .keeps rfl rfl
  | deliver number =>
    obtain ⟨fanout, client, subQos, matched, -, -, rfl⟩ := exists_of_stepDeliver h
    exact conduct_turn
  | close | writerMarks | writerDrops =>
    obtain rfl := Option.some.inj h
    exact .keeps rfl (World.controls_of_control_eq rfl)

end Steps

def AnswersInv (current : Observed World (ConnectionId × Packet)) : Prop :=
  ∀ connection, (current.state.phase connection).Owes (requestsOf connection current.seen)
    (current.state.controls connection)

section Runs

variable {world next : World} {seen added : List (ConnectionId × Packet)}

theorem requestsOf_append (connection : ConnectionId) (seen added : List (ConnectionId × Packet)) :
    requestsOf connection (seen ++ added) =
      requestsOf connection seen ++ requestsOf connection added :=
  List.filterMap_append

theorem requestsOf_map (connection other : ConnectionId) (asked : List Packet) :
    requestsOf other (asked.map fun packet ↦ (connection, packet)) =
      if other = connection then asked else [] := by
  rw [requestsOf, List.filterMap_map]
  split
  · rename_i heq
    simp [heq]
  · rename_i hne
    simp [Ne.symm hne]

/-- Such a step keeps requests and answers in line. -/
theorem answersInv_of_conduct (h : AnswersInv ⟨world, seen⟩) (hconduct : Conduct world next added) :
    AnswersInv ⟨next, seen ++ added⟩ := by
  intro other
  have hother := h other
  dsimp only at hother ⊢
  cases hconduct with
  | keeps phases controls =>
    rw [List.append_nil, phases, controls]
    exact hother
  | moves connection phase asked more phases controls owes =>
    rw [requestsOf_append, requestsOf_map, phases, controls, Function.update_apply,
      Function.update_apply]
    split
    · rename_i heq
      rw [heq] at hother ⊢
      exact owes _ _ hother
    · rw [List.append_nil]
      exact hother

theorem answersInv_step {current last : Observed World (ConnectionId × Packet)} {action : Action}
    (h : AnswersInv current) (hstep : observed observeRequest step current action = some last) :
    AnswersInv last := by
  obtain ⟨hstep, hseen⟩ := of_observed hstep
  obtain ⟨state, seen⟩ := last
  dsimp only at hstep hseen
  rw [hseen]
  exact answersInv_of_conduct h (conduct_of_step hstep)

/-- Every queue holds a CONNACK and then the answers to what the handler has read, one for each
packet that needs one and in this order, however the steps of all handlers and fan-outs come. At
most the last packet has no answer, and none while the handler is in its loop. -/
theorem requests_answered_in_order {actions : List Action}
    {current : Observed World (ConnectionId × Packet)}
    (run : Run (observed observeRequest step) Unrestricted ⟨init, []⟩ actions current)
    (connection : ConnectionId) :
    let asked := requestsOf connection current.seen
    let controls := current.state.controls connection
    (Unasked asked controls ∨ ∃ pending, pending.length ≤ 1 ∧ Answered pending asked controls) ∧
    ∀ client, current.state.phase connection = .looping client → Answered [] asked controls := by
  have hstart : AnswersInv ⟨init, []⟩ := fun _ ↦ ⟨rfl, rfl⟩
  have hinv : AnswersInv current :=
    run.invariant hstart fun _ _ _ h _ hstep ↦ answersInv_step h hstep
  have howes := hinv connection
  refine ⟨howes.returns, ?_⟩
  intro client hphase
  rw [hphase] at howes
  exact howes

def questions : List Packet := [subscribeTo "t" .atMostOnce, .pingreq, .pubrel 7]

/-- A subscriber is answered three times, before and behind a message of another client. -/
theorem requests_answered_in_order_between :
    ∃ current, Run (observed observeRequest step) Unrestricted ⟨init, []⟩
        (audience ++ [.serve 0 [] .pingreq, .serve 1 [] (.publish (remark [1]))] ++
          reach 0 "t" "a" ++ [.serve 0 [] (.pubrel 7)]) current ∧
      requestsOf 0 current.seen = questions ∧
      (current.state.channel 0).commands.length = 5 ∧
      Answered [] questions (current.state.controls 0) := by
  obtain ⟨current, run, hasked, hlength, hphase⟩ :
      ∃ current, Run (observed observeRequest step) Unrestricted ⟨init, []⟩
        (audience ++ [.serve 0 [] .pingreq, .serve 1 [] (.publish (remark [1]))] ++
          reach 0 "t" "a" ++ [.serve 0 [] (.pubrel 7)]) current ∧
      requestsOf 0 current.seen = questions ∧
      (current.state.channel 0).commands.length = 5 ∧
      current.state.phase 0 = .looping "a" :=
    ⟨_, Run.of_foldlM rfl, rfl, rfl, rfl⟩
  have hanswered := (requests_answered_in_order run 0).2 "a" hphase
  rw [hasked] at hanswered
  exact ⟨current, run, hasked, hlength, hanswered⟩

end Runs

end HotaruMqtt.Connections

import HotaruMqtt.Protocol.TopicNames

/-!
# What the fan-outs deliver

Every message in the queue of a connection was put there by a fan-out, as a copy of the packet that
the fan-out was called with. A fan-out serves every subscription that it has met once, in the order
in which it has met them, and never the client that the packet comes from. Nothing is said about
subscriptions that change while a fan-out collects them.
-/

namespace HotaruMqtt.Connections

open Library

inductive Sighting where
  /-- The handler of a connection has called `publish`. -/
  | started (connection : ConnectionId) (number : ℕ)
  /-- A subscription of the client had its turn. -/
  | served (number : ℕ) (client : ClientId) (delivery : Option (ConnectionId × PublishPacket))

/-- A call of `publish` in the step of a handler. -/
def observeStart (world : World) (action : Action) (connection : ConnectionId) : List Sighting :=
  match step world action with
  | some next =>
      if world.fanouts.length < next.fanouts.length then
        [.started connection world.fanouts.length]
      else []
  | none => []

/-- What a turn of the fan-out loop delivers. -/
def World.delivery (world : World) (fanout : Fanout) (client : ClientId) (subQos : QoS) :
    Option (ConnectionId × PublishPacket) :=
  (world.broker.recipient fanout.source client).map fun entry ↦
    (entry.channel, (Broker.deliver fanout.packet subQos (world.channel entry.channel)).1)

def observeTurn (world : World) (number : ℕ) : List Sighting :=
  match world.fanouts[number]? with
  | some fanout =>
      match fanout.matched with
      | (client, subQos) :: _ => [.served number client (world.delivery fanout client subQos)]
      | [] => []
  | none => []

def observe (world : World) : Action → List Sighting
  | .serve connection endpoints packet =>
      observeStart world (.serve connection endpoints packet) connection
  | .advance connection => observeStart world (.advance connection) connection
  | .deliver number => observeTurn world number
  | _ => []

/-- The clients whose subscriptions a fan-out has served. -/
def turns (number : ℕ) (seen : List Sighting) : List ClientId :=
  seen.filterMap fun sighting ↦ match sighting with
    | .served number' client _ => if number' = number then some client else none
    | .started _ _ => none

/-- What was delivered to a connection, with the numbers of the fan-outs. -/
def deliveries (connection : ConnectionId) (seen : List Sighting) : List (ℕ × PublishPacket) :=
  seen.filterMap fun sighting ↦ match sighting with
    | .served number _ (some (connection', packet)) =>
        if connection' = connection then some (number, packet) else none
    | _ => none

def starts (connection : ConnectionId) (seen : List Sighting) : List ℕ :=
  seen.filterMap fun sighting ↦ match sighting with
    | .started connection' number => if connection' = connection then some number else none
    | .served _ _ _ => none

def World.queued (world : World) (connection : ConnectionId) : List PublishPacket :=
  (world.channel connection).commands.filterMap published

/-- A message of a fan-out with the level of a subscription. -/
def IsCopy (packet message : PublishPacket) : Prop :=
  ∃ subQos packetId, message =
    { packet with dup := false, retain := false, qos := packet.qos.min subQos, packetId }

section Appending

variable (seen more : List Sighting)

theorem turns_append (number : ℕ) :
    turns number (seen ++ more) = turns number seen ++ turns number more :=
  List.filterMap_append

theorem deliveries_append (connection : ConnectionId) :
    deliveries connection (seen ++ more) =
      deliveries connection seen ++ deliveries connection more :=
  List.filterMap_append

theorem starts_append (connection : ConnectionId) :
    starts connection (seen ++ more) = starts connection seen ++ starts connection more :=
  List.filterMap_append

variable {seen}

theorem exists_served_of_delivery {connection : ConnectionId} {number : ℕ} {packet : PublishPacket}
    (h : (number, packet) ∈ deliveries connection seen) :
    ∃ client, .served number client (some (connection, packet)) ∈ seen := by
  obtain ⟨sighting, hmem, hdelivered⟩ := List.mem_filterMap.mp h
  split at hdelivered
  · rename_i number' client connection' packet'
    rw [Option.ite_none_right_eq_some] at hdelivered
    obtain ⟨rfl, hsame⟩ := hdelivered
    obtain ⟨rfl, rfl⟩ := Prod.mk.inj (Option.some.inj hsame)
    exact ⟨client, hmem⟩
  · cases hdelivered

end Appending

/-- No message is enqueued, and no writer comes back. -/
structure Still (world next : World) : Prop where
  queued : ∀ connection, next.queued connection = world.queued connection
  receiving : ∀ connection, (next.channel connection).receiving = true →
    (world.channel connection).receiving = true

section Still

variable {world next last : World} {connection : ConnectionId}

theorem Still.trans (h : Still world next) (h' : Still next last) : Still world last where
  queued connection := (h'.queued connection).trans (h.queued connection)
  receiving connection hlive := h.receiving connection (h'.receiving connection hlive)

theorem still_of_channels (h : next.store.channels = world.store.channels) : Still world next where
  queued connection := by
    rw [World.queued, World.channel, h, World.queued, World.channel]
  receiving connection := by
    rw [World.channel, h]
    exact id

theorem still_setChannel {channel : MqttChannel}
    (hcommands : channel.commands.filterMap published = world.queued connection)
    (hreceiving : channel.receiving = true → (world.channel connection).receiving = true) :
    Still world (world.setChannel connection channel) where
  queued other := by
    rw [World.queued, World.channel_setChannel]
    split
    · rename_i heq
      rw [heq, hcommands]
    · rfl
  receiving other := by
    rw [World.channel_setChannel]
    split
    · rename_i heq
      rw [heq]
      exact hreceiving
    · exact id

theorem still_reply {packet : Packet} (hpacket : ∀ p, packet ≠ .publish p) (phase : Phase) :
    Still world (world.reply connection packet phase) := by
  have hnone : published (.packet packet) = none := by
    cases packet with
    | publish p => exact absurd rfl (hpacket p)
    | _ => rfl
  rw [World.reply_eq]
  refine Still.trans (still_setChannel (MqttChannel.published_reply _ hnone) ?_)
    (still_of_channels rfl)
  rw [MqttChannel.receiving_reply]
  exact id

/-- A step that may call `publish`. -/
structure Handles (world next : World) : Prop where
  still : Still world next
  fanouts : next.fanouts = world.fanouts ∨
    ∃ source packet, next.fanouts = world.fanouts ++ [.fresh source packet]

theorem Handles.of_still (h : Still world next) (hfanouts : next.fanouts = world.fanouts) :
    Handles world next :=
  ⟨h, .inl hfanouts⟩

theorem handles_handOn (h : Still world next) (hfanouts : next.fanouts = world.fanouts)
    (client : ClientId) (endpoints : List Endpoint) (publish : PublishPacket) :
    Handles world (next.handOn client endpoints publish) := by
  obtain ⟨hstore, -, -⟩ := next.handOn_frame client endpoints publish
  refine ⟨h.trans (still_of_channels (congrArg Store.channels hstore)), ?_⟩
  rw [← hfanouts]
  obtain hnone | ⟨packet, -, hsome⟩ := next.handOn_cases client endpoints publish
  · rw [hnone]
    exact .inl rfl
  · rw [hsome]
    exact .inr ⟨client, packet, rfl⟩

theorem handles_reply (h : Still world next) (hfanouts : next.fanouts = world.fanouts)
    {packet : Packet} (hpacket : ∀ p, packet ≠ .publish p) (phase : Phase) :
    Handles world (next.reply connection packet phase) := by
  refine .of_still (h.trans (still_reply hpacket phase)) ?_
  rw [World.reply_eq]
  exact hfanouts

/-- A dispatch starts at most one fan-out and publishes nothing itself. -/
theorem handles_dispatch (client : ClientId) (endpoints : List Endpoint) (packet : Packet) :
    Handles world (world.dispatch connection client endpoints packet) := by
  cases packet with
  | publish publish =>
    have hacked : Still world (world.setChannel connection
        ((world.channel connection).ackInboundPublishPreChain publish).1) := by
      refine still_setChannel (MqttChannel.published_ackInboundPublishPreChain ..) ?_
      rw [MqttChannel.receiving_ackInboundPublishPreChain]
      exact id
    simp only [World.dispatch]
    split
    · exact .of_still (hacked.trans (still_of_channels rfl)) rfl
    · split
      · exact .of_still hacked rfl
      · exact handles_handOn hacked rfl client endpoints publish
  | subscribe s | unsubscribe u =>
    simp only [World.dispatch]
    refine handles_reply ?_ ?_ ?_ _
    · exact still_of_channels rfl
    · rfl
    · intro p heq
      cases heq
  | puback id | pubcomp id =>
    have hframe := world.broker.ackOutbound_frame client id world.store.channels
    refine .of_still ⟨?_, ?_⟩ rfl
    · intro other
      exact congrArg (List.filterMap published) (hframe other).1
    · intro other hlive
      exact (hframe other).2.1.symm.trans hlive
  | pubrel id =>
    simp only [World.dispatch]
    split
    · refine handles_reply (still_of_channels rfl) rfl ?_ _
      intro p heq
      cases heq
    · rename_i stored _
      have htaken : Still world (world.setChannel connection
          ((world.channel connection).takeStored id)) := still_setChannel rfl fun hlive ↦ hlive
      have hhanded := handles_handOn htaken rfl client endpoints (Store.rebuildPublish stored id)
      exact ⟨hhanded.still.trans (still_of_channels rfl), hhanded.fanouts⟩
  | pingreq | pubrec id =>
    refine handles_reply (still_of_channels rfl) rfl ?_ _
    intro p heq
    cases heq
  | connect | connack | suback | unsuback | pingresp | disconnect =>
    exact .of_still (still_of_channels rfl) rfl

theorem handles_advance (h : world.advance connection = some next) : Handles world next := by
  unfold World.advance at h
  split at h
  · obtain rfl := Option.some.inj h
    exact .of_still (still_of_channels rfl) rfl
  · obtain rfl := Option.some.inj h
    exact .of_still (still_of_channels rfl) rfl
  · obtain rfl := Option.some.inj h
    exact .of_still (still_of_channels rfl) rfl
  · obtain rfl := Option.some.inj h
    refine handles_reply (still_of_channels rfl) rfl ?_ _
    intro p heq
    cases heq
  · obtain rfl := Option.some.inj h
    refine handles_reply (still_of_channels rfl) rfl ?_ _
    intro p heq
    cases heq
  · split at h
    · obtain rfl := Option.some.inj h
      exact .of_still (still_of_channels rfl) rfl
    · obtain rfl := Option.some.inj h
      exact .of_still (still_of_channels rfl) rfl
  · rename_i will _
    obtain rfl := Option.some.inj h
    cases will with
    | none => exact .of_still (still_of_channels rfl) rfl
    | some will => exact ⟨still_of_channels rfl, .inr ⟨"", Broker.willPacket will, rfl⟩⟩
  · cases h
  · cases h
  · cases h

theorem still_accept (auth : Server.AuthResult) (connect : ConnectPacket) :
    Still world (world.accept connection auth connect) ∧
      (world.accept connection auth connect).fanouts = world.fanouts := by
  have hversion : Still world (world.setChannel connection
      { world.channel connection with version := connect.version }) := still_setChannel rfl id
  simp only [World.accept]
  split
  · exact ⟨hversion.trans (still_of_channels rfl), rfl⟩
  · refine ⟨hversion.trans (still_reply ?_ _), ?_⟩
    · intro p heq
      cases heq
    · rw [World.reply_eq]
      rfl

end Still

/-- What a step can do to the fan-outs and the queues. -/
inductive Turn (world : World) : Action → World → List Sighting → Prop where
  | aside {action : Action} {next : World} (still : Still world next)
      (fanouts : next.fanouts = world.fanouts) : Turn world action next []
  | starts {action : Action} {next : World} (connection : ConnectionId) (source : ClientId)
      (packet : PublishPacket) (still : Still world next)
      (fanouts : next.fanouts = world.fanouts ++ [.fresh source packet])
      (acts : action = .advance connection ∨
        ∃ endpoints packet, action = .serve connection endpoints packet) :
      Turn world action next [.started connection world.fanouts.length]
  | collects (number : ℕ) (fanout : Fanout) (filter : String) (client : ClientId) (qos : QoS)
      (found : world.fanouts[number]? = some fanout) (collecting : fanout.collecting = true)
      (matching : Topic.filterMatches filter (Topic.segments fanout.packet.topic) = true)
      (unmet : (filter, client) ∉ fanout.visited) :
      Turn world (.collect number filter client)
        (world.setFanout number { fanout with
          visited := (filter, client) :: fanout.visited
          matched := fanout.matched ++ [(client, qos)] }) []
  | collected (number : ℕ) (fanout : Fanout) (found : world.fanouts[number]? = some fanout) :
      Turn world (.collected number) (world.setFanout number { fanout with collecting := false }) []
  | serves (number : ℕ) (fanout : Fanout) (client : ClientId) (subQos : QoS)
      (matched : List (ClientId × QoS)) (found : world.fanouts[number]? = some fanout)
      (first : fanout.matched = (client, subQos) :: matched) :
      Turn world (.deliver number) (world.turn number fanout client subQos matched)
        [.served number client (world.delivery fanout client subQos)]

section Turns

variable {world next : World} {action : Action} {connection : ConnectionId}

theorem turn_of_handles (h : Handles world next) (hstep : step world action = some next)
    (hacts : action = .advance connection ∨
      ∃ endpoints packet, action = .serve connection endpoints packet) :
    Turn world action next (observeStart world action connection) := by
  unfold observeStart
  rw [hstep]
  dsimp only
  obtain hsame | ⟨source, packet, hstarted⟩ := h.fanouts
  · rw [hsame, if_neg (Nat.lt_irrefl _)]
    exact .aside h.still hsame
  · have hlt : world.fanouts.length < next.fanouts.length := by
      rw [hstarted, List.length_append, List.length_singleton]
      exact Nat.lt_succ_self _
    rw [if_pos hlt]
    exact .starts connection source packet h.still hstarted hacts

/-- Every step starts a fan-out, serves one client of one or leaves all alone. -/
theorem turn_of_step (h : step world action = some next) :
    Turn world action next (observe world action) := by
  cases action with
  | connect connection auth connect =>
    obtain ⟨-, rfl⟩ := of_step_connect h
    obtain ⟨hstill, hfanouts⟩ := still_accept auth connect
    exact .aside hstill hfanouts
  | advance connection => exact turn_of_handles (handles_advance h) h (.inl rfl)
  | serve connection endpoints packet =>
    refine turn_of_handles ?_ h (.inr ⟨endpoints, packet, rfl⟩)
    obtain ⟨client, -, rfl⟩ := exists_of_step_serve h
    unfold World.serve
    split
    · exact .of_still (still_of_channels rfl) rfl
    · exact handles_dispatch client endpoints packet
  | leave connection =>
    obtain ⟨client, rfl⟩ := exists_of_step_leave h
    exact .aside (still_of_channels rfl) rfl
  | fail connection =>
    rw [of_step_fail h]
    exact .aside (still_of_channels rfl) rfl
  | collect number filter client =>
    simp only [step, stepCollect] at h
    split at h
    · rename_i fanout qos hfanout _
      rw [Option.ite_none_right_eq_some] at h
      obtain ⟨hmeets, h⟩ := h
      obtain rfl := Option.some.inj h
      simp only [Bool.and_eq_true, Bool.not_eq_true', List.contains_eq_mem,
        decide_eq_false_iff_not] at hmeets
      exact .collects number fanout filter client qos hfanout hmeets.1.1 hmeets.1.2 hmeets.2
    · cases h
  | collected number =>
    obtain ⟨fanout, hfanout, rfl⟩ := exists_of_step_collected h
    exact .collected number fanout hfanout
  | deliver number =>
    obtain ⟨fanout, client, subQos, matched, hfanout, hmatched, rfl⟩ := exists_of_stepDeliver h
    simp only [observe, observeTurn, hfanout, hmatched]
    exact .serves number fanout client subQos matched hfanout hmatched
  | close connection =>
    obtain rfl := Option.some.inj h
    have hclosed : Still world (world.setChannel connection
        { world.channel connection with
          isOpen := false
          session := if (world.channel connection).isOpen then
              (world.channel connection).session.abandon
            else (world.channel connection).session }) := still_setChannel rfl fun hlive ↦ hlive
    exact .aside (hclosed.trans (still_of_channels rfl)) rfl
  | writerMarks connection =>
    obtain rfl := Option.some.inj h
    exact .aside (still_setChannel rfl fun hlive ↦ hlive) rfl
  | writerDrops connection =>
    obtain rfl := Option.some.inj h
    refine .aside (still_setChannel rfl ?_) rfl
    intro hlive
    cases hlive

end Turns

/-! ## Accounts -/

/-- Where a fan-out stands, by what was seen of it. -/
structure Accounted (seen : List Sighting) (number : ℕ) (fanout : Fanout) : Prop where
  distinct : fanout.visited.Nodup
  matching : ∀ entry ∈ fanout.visited,
    Topic.filterMatches entry.1 (Topic.segments fanout.packet.topic) = true
  turns : turns number seen ++ fanout.matched.map Prod.fst =
    (fanout.visited.map Prod.snd).reverse
  copies : ∀ client connection message,
    .served number client (some (connection, message)) ∈ seen →
      client ≠ fanout.source ∧ IsCopy fanout.packet message

structure FanoutsInv (current : Observed World Sighting) : Prop where
  accounted : ∀ number fanout, current.state.fanouts[number]? = some fanout →
    Accounted current.seen number fanout
  unseen : ∀ number client delivery, .served number client delivery ∈ current.seen →
    number < current.state.fanouts.length
  queued : ∀ connection, current.state.queued connection <+:
    (deliveries connection current.seen).map Prod.snd
  queuedAll : ∀ connection, (current.state.channel connection).receiving = true →
    current.state.queued connection = (deliveries connection current.seen).map Prod.snd

section Accounts

variable {current next : Observed World Sighting} {action : Action}

theorem fanoutsInv_init : FanoutsInv { state := init, seen := [] } where
  accounted number fanout hfanout := by cases hfanout
  unseen number client delivery hmem := by cases hmem
  queued connection := List.prefix_rfl
  queuedAll connection _ := rfl

/-- Nothing is delivered. -/
theorem FanoutsInv.undelivered (h : FanoutsInv current) (hstill : Still current.state next.state)
    (hlength : current.state.fanouts.length ≤ next.state.fanouts.length)
    (hserved : ∀ number client delivery, .served number client delivery ∈ next.seen →
      .served number client delivery ∈ current.seen)
    (hdeliveries : ∀ connection,
      deliveries connection next.seen = deliveries connection current.seen)
    (haccounted : ∀ number fanout, next.state.fanouts[number]? = some fanout →
      Accounted next.seen number fanout) : FanoutsInv next where
  accounted := haccounted
  unseen number client delivery hmem :=
    (h.unseen number client delivery (hserved number client delivery hmem)).trans_le hlength
  queued connection := by
    rw [hstill.queued, hdeliveries]
    exact h.queued connection
  queuedAll connection hlive := by
    rw [hstill.queued, hdeliveries]
    exact h.queuedAll connection (hstill.receiving connection hlive)

theorem turns_eq_nil {number : ℕ} {seen : List Sighting}
    (h : ∀ client delivery, .served number client delivery ∉ seen) : turns number seen = [] := by
  rw [turns, List.filterMap_eq_nil_iff]
  intro sighting hmem
  cases sighting with
  | started => rfl
  | served number' client delivery =>
    apply if_neg
    rintro rfl
    exact h client delivery hmem

theorem Accounted.started {number : ℕ} {fanout : Fanout} {seen : List Sighting}
    (h : Accounted seen number fanout) (connection : ConnectionId) (started : ℕ) :
    Accounted (seen ++ [.started connection started]) number fanout where
  distinct := h.distinct
  matching := h.matching
  turns := by
    rw [turns_append]
    exact (congrArg (· ++ _) (List.append_nil _)).trans h.turns
  copies client connection message hmem := by
    obtain hmem | hmem := List.mem_append.mp hmem
    · exact h.copies client connection message hmem
    · cases List.mem_singleton.mp hmem

/-- One fan-out has changed. -/
theorem accounted_set {fanouts : List Fanout} {seen seen' : List Sighting}
    (h : ∀ number fanout, fanouts[number]? = some fanout → Accounted seen number fanout)
    {number : ℕ} {changed : Fanout} (hchanged : Accounted seen' number changed)
    (hothers : ∀ other fanout, other ≠ number → Accounted seen other fanout →
      Accounted seen' other fanout) (other : ℕ) (fanout : Fanout)
    (hfanout : (fanouts.set number changed)[other]? = some fanout) :
    Accounted seen' other fanout := by
  by_cases hother : other = number
  · subst hother
    obtain ⟨hlt, hget⟩ := List.getElem?_eq_some_iff.mp hfanout
    rw [List.getElem_set_self] at hget
    rw [← hget]
    exact hchanged
  · rw [List.getElem?_set_ne (Ne.symm hother)] at hfanout
    exact hothers other fanout hother (h other fanout hfanout)

/-- The turn of a subscription. -/
theorem Accounted.served {number : ℕ} {fanout : Fanout} {seen : List Sighting} {client : ClientId}
    {subQos : QoS} {matched : List (ClientId × QoS)} (h : Accounted seen number fanout)
    (hfirst : fanout.matched = (client, subQos) :: matched)
    {delivery : Option (ConnectionId × PublishPacket)}
    (hdelivery : ∀ connection message, delivery = some (connection, message) →
      client ≠ fanout.source ∧ IsCopy fanout.packet message) :
    Accounted (seen ++ [.served number client delivery]) number { fanout with matched } where
  distinct := h.distinct
  matching := h.matching
  turns := by
    have hturn : Connections.turns number [.served number client delivery] = [client] := by
      simp [Connections.turns]
    rw [turns_append, hturn, List.append_assoc, List.singleton_append, ← h.turns, hfirst,
      List.map_cons]
  copies := by
    intro client' connection message hmem
    obtain hmem | hmem := List.mem_append.mp hmem
    · exact h.copies client' connection message hmem
    · obtain ⟨-, rfl, hsame⟩ := Sighting.served.inj (List.mem_singleton.mp hmem)
      exact hdelivery connection message hsame.symm

theorem Accounted.other {number other : ℕ} {fanout : Fanout} {seen : List Sighting}
    (h : Accounted seen other fanout) (hother : other ≠ number) (client : ClientId)
    (delivery : Option (ConnectionId × PublishPacket)) :
    Accounted (seen ++ [.served number client delivery]) other fanout where
  distinct := h.distinct
  matching := h.matching
  turns := by
    have hturn : Connections.turns other [.served number client delivery] = [] := by
      simp [Connections.turns, Ne.symm hother]
    rw [turns_append, hturn, List.append_nil]
    exact h.turns
  copies := by
    intro client' connection message hmem
    obtain hmem | hmem := List.mem_append.mp hmem
    · exact h.copies client' connection message hmem
    · obtain ⟨hsame, -, -⟩ := Sighting.served.inj (List.mem_singleton.mp hmem)
      exact absurd hsame hother

/-- What a client is sent is a copy of the message, and not for its sender. -/
theorem delivery_isCopy {world : World} {fanout : Fanout} {client : ClientId} {subQos : QoS}
    {connection : ConnectionId} {message : PublishPacket}
    (h : world.delivery fanout client subQos = some (connection, message)) :
    client ≠ fanout.source ∧ IsCopy fanout.packet message := by
  obtain ⟨entry, hentry, hmessage⟩ := Option.map_eq_some_iff.mp h
  constructor
  · rintro rfl
    rw [Broker.recipient, if_pos rfl] at hentry
    cases hentry
  · rw [← (Prod.mk.inj hmessage).2]
    exact ⟨subQos, _, rfl⟩

/-- The message of a turn, if it goes to the connection. -/
def deliveredTo (connection : ConnectionId) :
    Option (ConnectionId × PublishPacket) → List PublishPacket
  | some (connection', packet) => if connection' = connection then [packet] else []
  | none => []

theorem deliveries_served (connection : ConnectionId) (seen : List Sighting) (number : ℕ)
    (client : ClientId) (delivery : Option (ConnectionId × PublishPacket)) :
    (deliveries connection (seen ++ [.served number client delivery])).map Prod.snd =
      (deliveries connection seen).map Prod.snd ++ deliveredTo connection delivery := by
  rw [deliveries_append, List.map_append]
  cases delivery with
  | none => rfl
  | some delivery =>
    obtain ⟨connection', packet⟩ := delivery
    by_cases hconnection : connection' = connection <;>
      simp [deliveries, deliveredTo, hconnection]

section TurnChannels

variable (world : World) (number : ℕ) (fanout : Fanout) (client : ClientId) (subQos : QoS)
  (matched : List (ClientId × QoS)) (connection : ConnectionId)

theorem receiving_turn :
    ((world.turn number fanout client subQos matched).channel connection).receiving =
      (world.channel connection).receiving := by
  cases hrecipient : world.broker.recipient fanout.source client with
  | none =>
    rw [turn_of_recipient_eq_none hrecipient]
    rfl
  | some entry =>
    rw [turn_of_recipient_eq_some hrecipient]
    change (World.channel (World.setChannel _ _ _) connection).receiving = _
    rw [World.channel_setChannel]
    split
    · rename_i hconnection
      rw [deliver_receiving, hconnection]
    · rfl

/-- The delivery of a turn is what it adds to a queue. -/
theorem queued_turn :
    (world.turn number fanout client subQos matched).queued connection =
      world.queued connection ++
        if (world.channel connection).receiving then
          deliveredTo connection (world.delivery fanout client subQos)
        else [] := by
  cases hrecipient : world.broker.recipient fanout.source client with
  | none =>
    rw [turn_of_recipient_eq_none hrecipient, World.delivery, hrecipient, Option.map_none,
      deliveredTo, ite_self, List.append_nil]
    rfl
  | some entry =>
    rw [turn_of_recipient_eq_some hrecipient, World.delivery, hrecipient, Option.map_some]
    change (World.channel (World.setChannel _ _ _) connection).commands.filterMap published = _
    rw [World.channel_setChannel]
    split
    · rename_i hconnection
      rw [deliver_commands, List.filterMap_append, hconnection, deliveredTo, if_pos rfl]
      split <;> rfl
    · rename_i hconnection
      rw [deliveredTo, if_neg (Ne.symm hconnection), ite_self, List.append_nil]
      rfl

end TurnChannels

theorem FanoutsInv.serves (h : FanoutsInv current) {number : ℕ} {fanout : Fanout}
    {client : ClientId} {subQos : QoS} {matched : List (ClientId × QoS)}
    (hfound : current.state.fanouts[number]? = some fanout)
    (hfirst : fanout.matched = (client, subQos) :: matched) :
    FanoutsInv
      { state := current.state.turn number fanout client subQos matched
        seen := current.seen ++
          [.served number client (current.state.delivery fanout client subQos)] } where
  accounted := by
    dsimp only
    rw [fanouts_turn]
    apply accounted_set h.accounted
    · exact (h.accounted number fanout hfound).served hfirst fun _ _ ↦ delivery_isCopy
    · exact fun other fanout hother haccounted ↦ haccounted.other hother client _
  unseen := by
    intro number' client' delivery' hmem
    dsimp only
    rw [fanouts_turn, List.length_set]
    obtain hmem | hmem := List.mem_append.mp hmem
    · exact h.unseen number' client' delivery' hmem
    · obtain ⟨rfl, -, -⟩ := Sighting.served.inj (List.mem_singleton.mp hmem)
      exact (List.getElem?_eq_some_iff.mp hfound).1
  queued := by
    intro connection
    dsimp only
    rw [queued_turn, deliveries_served]
    split
    · rename_i hlive
      rw [h.queuedAll connection hlive]
    · rw [List.append_nil]
      exact (h.queued connection).trans (List.prefix_append _ _)
  queuedAll := by
    intro connection hlive
    dsimp only at hlive ⊢
    rw [receiving_turn] at hlive
    rw [queued_turn, deliveries_served, if_pos hlive, h.queuedAll connection hlive]

/-- Every step keeps the account of all fan-outs. -/
theorem fanoutsInv_step (h : FanoutsInv current)
    (hstep : observed observe step current action = some next) : FanoutsInv next := by
  obtain ⟨state, seen⟩ := next
  obtain ⟨hstate, rfl⟩ := of_observed hstep
  have hturn := turn_of_step hstate
  generalize observe current.state action = sightings at hturn
  cases hturn with
  | aside still fanouts =>
    rw [List.append_nil]
    refine h.undelivered still (by rw [fanouts]) (fun _ _ _ hmem ↦ hmem) (fun _ ↦ rfl) ?_
    dsimp only
    rw [fanouts]
    exact h.accounted
  | starts connection source packet still fanouts acts =>
    refine h.undelivered still ?_ ?_ ?_ ?_
    · dsimp only
      rw [fanouts, List.length_append]
      exact Nat.le_add_right _ _
    · intro number client delivery hmem
      obtain hmem | hmem := List.mem_append.mp hmem
      · exact hmem
      · cases List.mem_singleton.mp hmem
    · intro other
      dsimp only
      rw [deliveries_append]
      exact List.append_nil _
    · intro number fanout hfanout
      dsimp only at hfanout ⊢
      rw [fanouts, List.getElem?_append] at hfanout
      split at hfanout
      · exact (h.accounted number fanout hfanout).started connection _
      · rename_i hnumber
        obtain ⟨hlt, hget⟩ := List.getElem?_eq_some_iff.mp hfanout
        rw [List.getElem_singleton] at hget
        subst hget
        refine Accounted.started ⟨List.nodup_nil, ?_, ?_, ?_⟩ connection _
        · intro entry hmem
          cases hmem
        · rw [turns_eq_nil]
          · rfl
          · intro client delivery hmem
            exact hnumber (h.unseen number client delivery hmem)
        · intro client connection message hmem
          exact absurd (h.unseen number client _ hmem) hnumber
  | collects number fanout filter client qos found collecting matching unmet =>
    rw [List.append_nil]
    refine h.undelivered (still_of_channels rfl) ?_ (fun _ _ _ hmem ↦ hmem) (fun _ ↦ rfl) ?_
    · exact (List.length_set ..).ge
    · have haccounted := h.accounted number fanout found
      apply accounted_set h.accounted
      · constructor
        · exact List.nodup_cons.mpr ⟨unmet, haccounted.distinct⟩
        · intro entry hmem
          obtain rfl | hmem := List.mem_cons.mp hmem
          · exact matching
          · exact haccounted.matching entry hmem
        · rw [List.map_append, ← List.append_assoc, haccounted.turns]
          exact (List.reverse_cons ..).symm
        · exact haccounted.copies
      · exact fun _ _ _ haccounted ↦ haccounted
  | collected number fanout found =>
    rw [List.append_nil]
    refine h.undelivered (still_of_channels rfl) ?_ (fun _ _ _ hmem ↦ hmem) (fun _ ↦ rfl) ?_
    · exact (List.length_set ..).ge
    · have haccounted := h.accounted number fanout found
      apply accounted_set h.accounted
      · exact ⟨haccounted.distinct, haccounted.matching, haccounted.turns, haccounted.copies⟩
      · exact fun _ _ _ haccounted ↦ haccounted
  | serves number fanout client subQos matched found first => exact h.serves found first

/-- Every message in a queue comes from a fan-out. Each fan-out serves the subscriptions that it has
met one by one, each of them once, and delivers copies of its packet, but not to its source. -/
theorem fanouts_accounted {actions : List Action} {last : Observed World Sighting}
    (run : Run (observed observe step) Unrestricted { state := init, seen := [] } actions last) :
    (∀ number fanout, last.state.fanouts[number]? = some fanout →
      Accounted last.seen number fanout) ∧
    ∀ connection, last.state.queued connection <+:
        (deliveries connection last.seen).map Prod.snd ∧
      ((last.state.channel connection).receiving = true →
        last.state.queued connection = (deliveries connection last.seen).map Prod.snd) := by
  have hinv : FanoutsInv last :=
    run.invariant fanoutsInv_init fun _ _ _ h _ hstep ↦ fanoutsInv_step h hstep
  exact ⟨hinv.accounted, fun connection ↦ ⟨hinv.queued connection, hinv.queuedAll connection⟩⟩

end Accounts

/-- A client has subscribed, and another one has come to its loop. -/
def audience : List Action :=
  welcome 0 (connectAs "a" true none) ++ [.serve 0 [] (subscribeTo "t" .atMostOnce)] ++
    welcome 1 (connectAs "b" true none)

def remark (payload : Bytes) : PublishPacket :=
  { topic := "t", payload, dup := false, qos := .atMostOnce, retain := false, packetId := none }

set_option maxRecDepth 8000 in
theorem fanouts_accounted_remark :
    ∃ last, Run (observed observe step) Unrestricted { state := init, seen := [] }
        (audience ++ [.serve 1 [] (.publish (remark [1]))] ++ reach 0 "t" "a") last ∧
      last.state.queued 0 = [remark [1]] ∧ deliveries 0 last.seen = [(0, remark [1])] ∧
      ∃ fanout, last.state.fanouts = [fanout] ∧ Accounted last.seen 0 fanout := by
  obtain ⟨last, run, hdeliveries, fanout, hfanout, hlive⟩ : ∃ last,
      Run (observed observe step) Unrestricted { state := init, seen := [] }
        (audience ++ [.serve 1 [] (.publish (remark [1]))] ++ reach 0 "t" "a") last ∧
      deliveries 0 last.seen = [(0, remark [1])] ∧
      ∃ fanout, last.state.fanouts = [fanout] ∧ (last.state.channel 0).receiving = true :=
    ⟨_, Run.of_foldlM rfl, rfl, _, rfl, rfl⟩
  obtain ⟨haccounted, hqueues⟩ := fanouts_accounted run
  have hqueued := (hqueues 0).2 hlive
  rw [hdeliveries] at hqueued
  refine ⟨last, run, hqueued, hdeliveries, fanout, hfanout, haccounted 0 fanout ?_⟩
  rw [hfanout]
  rfl

end HotaruMqtt.Connections

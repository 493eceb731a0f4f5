import HotaruMqtt.Protocol.Connections
import HotaruMqtt.Session.PacketId

/-!
# Packets in flight

The fan-out stores a packet under a new identifier and sends an adjusted copy of it, with this
identifier, the effective QoS and the flags cleared. What it stores is the packet of the publisher.
An acknowledgement is looked up by the client, and so reaches the connection that is registered for
the client, which need not be the one on which it came in.
-/

namespace HotaruMqtt.Connections

open Library

/-- A PUBLISH was fanned out to the connection under the identifier, and was not acknowledged
since. -/
def InFlight (history : List Event) (connection : ConnectionId) (id : PacketId)
    (packet : PublishPacket) : Prop :=
  ∃ earlier later, history = earlier ++ .fannedOut connection packet :: later ∧
    packet.packetId = some id ∧ .acknowledged connection id ∉ later

/-- A PUBLISH with an identifier was fanned out to the connection. -/
def numberedFor (connection : ConnectionId) : Event → Bool
  | .fannedOut recipient packet => recipient = connection && packet.packetId.isSome
  | _ => false

/-- How many identifiers the session of a connection has allocated. -/
def numbered (history : List Event) (connection : ConnectionId) : ℕ :=
  history.countP (numberedFor connection)

section History

variable {history : List Event} {event : Event} {connection : ConnectionId} {id : PacketId}
  {packet : PublishPacket}

theorem inFlight_append :
    InFlight (history ++ [event]) connection id packet ↔
      InFlight history connection id packet ∧ event ≠ .acknowledged connection id ∨
        event = .fannedOut connection packet ∧ packet.packetId = some id := by
  constructor
  · rintro ⟨earlier, later, hhistory, hid, hlater⟩
    rcases List.eq_nil_or_concat' later with rfl | ⟨later, last, rfl⟩
    · obtain ⟨-, hevent⟩ := List.append_inj' hhistory rfl
      exact .inr ⟨List.singleton_inj.mp hevent, hid⟩
    · rw [← List.cons_append, ← List.append_assoc] at hhistory
      obtain ⟨hearlier, hevent⟩ := List.append_inj' hhistory rfl
      obtain rfl := List.singleton_inj.mp hevent
      rw [List.mem_append, not_or] at hlater
      refine .inl ⟨⟨earlier, later, hearlier, hid, hlater.1⟩, ?_⟩
      rintro rfl
      exact hlater.2 (List.mem_singleton_self _)
  · rintro (⟨⟨earlier, later, rfl, hid, hlater⟩, hevent⟩ | ⟨rfl, hid⟩)
    · refine ⟨earlier, later ++ [event], by simp, hid, ?_⟩
      rw [List.mem_append, not_or, List.mem_singleton]
      exact ⟨hlater, fun h ↦ hevent h.symm⟩
    · exact ⟨history, [], rfl, hid, List.not_mem_nil⟩

/-- An event that neither numbers a PUBLISH for a connection nor acknowledges one. -/
theorem inFlight_append_of_other (hnumbered : numberedFor connection event = false)
    (hacknowledged : event ≠ .acknowledged connection id) :
    InFlight (history ++ [event]) connection id packet ↔ InFlight history connection id packet := by
  rw [inFlight_append]
  constructor
  · rintro (⟨hinflight, -⟩ | ⟨rfl, hid⟩)
    · exact hinflight
    · simp [numberedFor, hid] at hnumbered
  · exact fun hinflight ↦ .inl ⟨hinflight, hacknowledged⟩

theorem numbered_append :
    numbered (history ++ [event]) connection =
      numbered history connection + if numberedFor connection event then 1 else 0 := by
  rw [numbered, List.countP_append, List.countP_singleton]
  rfl

theorem InFlight.fannedOut_mem (h : InFlight history connection id packet) :
    .fannedOut connection packet ∈ history ∧ packet.packetId = some id := by
  obtain ⟨earlier, later, rfl, hid, _⟩ := h
  exact ⟨List.mem_append_right _ List.mem_cons_self, hid⟩

end History

/-- The table holds exactly what is in flight according to the history. -/
def World.Resendable (world : World) (connection : ConnectionId) : Prop :=
  ∀ id packet, (world.channel connection).session.outboundInflight.lookup id = some packet ↔
    InFlight world.history connection id packet

/-- The packet is already what the fan-out will send, unless that is sent with QoS 0. -/
def AsSent (packet : PublishPacket) (subQos : QoS) (session : MqttSession) : Prop :=
  packet.qos.min subQos = .atMostOnce ∨
    packet.qos.min subQos = packet.qos ∧ packet.dup = false ∧ packet.retain = false ∧
      packet.packetId = some session.allocatePacketId.1

/-- An acknowledgement comes in on the connection that is registered for the client, or concerns
nothing in flight, neither there nor here. -/
def OnTarget (world : World) (connection : ConnectionId) (client : ClientId) (id : PacketId) :
    Prop :=
  (∃ will, world.broker.ownerOf client = some (connection, will)) ∨
    ∀ other, other = connection ∨ (∃ will, world.broker.ownerOf client = some (other, will)) →
      (world.channel other).session.outboundInflight.lookup id = none

/-- Every fan-out serves a packet that is as it will be sent, and every acknowledgement is on
target. -/
def Faithful (world : World) : Action → Prop
  | .deliver number => ∀ fanout client subQos matched entry,
      world.fanouts[number]? = some fanout → fanout.matched = (client, subQos) :: matched →
      world.broker.recipient fanout.source client = some entry →
      AsSent fanout.packet subQos (world.channel entry.channel).session
  | .serve connection _ (.puback id) | .serve connection _ (.pubcomp id) => ∀ client,
      world.phase connection = .looping client → OnTarget world connection client id
  | _ => True

section Deliver

variable (packet : PublishPacket) (subQos : QoS) (channel : MqttChannel)

theorem session_deliver :
    (Broker.deliver packet subQos channel).2.session =
      (Broker.trackOutbound channel packet (packet.qos.min subQos)).2.session := by
  simp only [Broker.deliver, MqttChannel.sendPublish, MqttChannel.send]
  split <;> rfl

variable {packet subQos}

theorem deliver_of_atMostOnce (h : packet.qos.min subQos = .atMostOnce) :
    (Broker.deliver packet subQos channel).1.packetId = none ∧
      (Broker.deliver packet subQos channel).2.session = channel.session := by
  rw [session_deliver]
  simp [Broker.deliver, Broker.trackOutbound, h]

theorem deliver_of_ne_atMostOnce (h : packet.qos.min subQos ≠ .atMostOnce) :
    (Broker.deliver packet subQos channel).1.packetId =
        some channel.session.allocatePacketId.1 ∧
      (Broker.deliver packet subQos channel).2.session.pktCounter =
        channel.session.allocatePacketId.2.pktCounter ∧
      (Broker.deliver packet subQos channel).2.session.outboundInflight =
        channel.session.outboundInflight.insert channel.session.allocatePacketId.1 packet := by
  rw [session_deliver]
  simp only [Broker.deliver, Broker.trackOutbound, h, if_false]
  exact ⟨trivial, trivial, rfl⟩

/-- A packet that is as it will be sent is what is sent, and no other packet is. -/
theorem eq_deliver_iff_asSent (h : packet.qos.min subQos ≠ .atMostOnce) :
    packet = (Broker.deliver packet subQos channel).1 ↔ AsSent packet subQos channel.session := by
  rw [AsSent, or_iff_right h]
  simp only [Broker.deliver, Broker.trackOutbound, h, if_false]
  constructor
  · intro hpacket
    refine ⟨?_, ?_, ?_, ?_⟩
    · exact (congrArg PublishPacket.qos hpacket).symm
    · exact congrArg PublishPacket.dup hpacket
    · exact congrArg PublishPacket.retain hpacket
    · exact congrArg PublishPacket.packetId hpacket
  · rintro ⟨hqos, hdup, hretain, hid⟩
    rw [hqos]
    cases packet
    cases hdup
    cases hretain
    cases hid
    rfl

end Deliver

/-! ## The invariant -/

/-- The counter counts the history, and the table holds what is in flight, as long as the counter
has not wrapped and the session was not abandoned. -/
structure InflightInv (world : World) (connection : ConnectionId) : Prop where
  counter : numbered world.history connection ≤ 65535 →
    (world.channel connection).session.pktCounter.toNat = numbered world.history connection
  bounded : numbered world.history connection ≤ 65535 → ∀ packet id,
    .fannedOut connection packet ∈ world.history → packet.packetId = some id →
    id.toNat ≤ numbered world.history connection
  resendable : numbered world.history connection ≤ 65535 → .closed connection ∉ world.history →
    world.Resendable connection

theorem inflightInv_init (connection : ConnectionId) : InflightInv init connection where
  counter _ := rfl
  bounded _ packet id hmem := by cases hmem
  resendable _ _ id packet := by
    constructor
    · intro hlookup
      cases hlookup
    · rintro ⟨earlier, later, hhistory, _⟩
      cases earlier <;> cases hhistory

/-- What a fan-out or an acknowledgement could change is as before. -/
structure Quiet (world next : World) : Prop where
  inflight : ∀ connection, (next.channel connection).session.outboundInflight =
    (world.channel connection).session.outboundInflight
  counter : ∀ connection, (next.channel connection).session.pktCounter =
    (world.channel connection).session.pktCounter
  history : next.history = world.history

section Quiet

variable {world next last : World} {connection : ConnectionId}

theorem InflightInv.of_quiet (h : InflightInv world connection) (hquiet : Quiet world next) :
    InflightInv next connection := by
  constructor
  · rw [hquiet.history, hquiet.counter]
    exact h.counter
  · rw [hquiet.history]
    exact h.bounded
  · rw [hquiet.history, World.Resendable, hquiet.inflight, hquiet.history]
    exact h.resendable

theorem Quiet.trans (h : Quiet world next) (h' : Quiet next last) : Quiet world last where
  inflight connection := (h'.inflight connection).trans (h.inflight connection)
  counter connection := (h'.counter connection).trans (h.counter connection)
  history := h'.history.trans h.history

/-- The channels are not touched. -/
theorem quiet_of_channels (hchannels : next.store.channels = world.store.channels)
    (hhistory : next.history = world.history) : Quiet world next where
  inflight connection := by rw [World.channel, hchannels]; rfl
  counter connection := by rw [World.channel, hchannels]; rfl
  history := hhistory

theorem quiet_setChannel {channel : MqttChannel}
    (hinflight : channel.session.outboundInflight =
      (world.channel connection).session.outboundInflight)
    (hcounter : channel.session.pktCounter = (world.channel connection).session.pktCounter) :
    Quiet world (world.setChannel connection channel) where
  inflight other := by
    rw [World.channel_setChannel]
    split
    · rw [hinflight, ‹other = connection›]
    · rfl
  counter other := by
    rw [World.channel_setChannel]
    split
    · rw [hcounter, ‹other = connection›]
    · rfl
  history := rfl

theorem quiet_reply (packet : Packet) (phase : Phase) :
    Quiet world (world.reply connection packet phase) := by
  rw [World.reply_eq]
  refine Quiet.trans (quiet_setChannel ?_ ?_) (quiet_of_channels rfl rfl)
  · rw [MqttChannel.session_reply]
  · rw [MqttChannel.session_reply]

theorem quiet_handOn (client : ClientId) (endpoints : List Endpoint) (publish : PublishPacket) :
    Quiet world (world.handOn client endpoints publish) := by
  obtain ⟨hstore, _, hhistory⟩ := world.handOn_frame client endpoints publish
  exact quiet_of_channels (congrArg Store.channels hstore) hhistory

theorem quiet_advance (hstep : world.advance connection = some next) : Quiet world next := by
  unfold World.advance at hstep
  split at hstep
  · obtain rfl := Option.some.inj hstep
    exact quiet_of_channels rfl rfl
  · obtain rfl := Option.some.inj hstep
    exact quiet_of_channels rfl rfl
  · obtain rfl := Option.some.inj hstep
    exact quiet_of_channels rfl rfl
  · obtain rfl := Option.some.inj hstep
    exact quiet_reply _ _
  · obtain rfl := Option.some.inj hstep
    exact quiet_reply _ _
  · split at hstep
    · obtain rfl := Option.some.inj hstep
      exact quiet_of_channels rfl rfl
    · obtain rfl := Option.some.inj hstep
      exact quiet_of_channels rfl rfl
  · rename_i will _
    obtain rfl := Option.some.inj hstep
    cases will with
    | none => exact quiet_of_channels rfl rfl
    | some will => exact quiet_of_channels rfl rfl
  · cases hstep
  · cases hstep
  · cases hstep

theorem quiet_accept (auth : Server.AuthResult) (connect : ConnectPacket) :
    Quiet world (world.accept connection auth connect) := by
  have hversion : Quiet world (world.setChannel connection
      { world.channel connection with version := connect.version }) :=
    quiet_setChannel rfl rfl
  simp only [World.accept]
  split
  · exact hversion.trans (quiet_of_channels rfl rfl)
  · exact hversion.trans (quiet_reply _ _)

/-- A packet that acknowledges nothing. -/
theorem quiet_dispatch {client : ClientId} {packet : Packet} (endpoints : List Endpoint)
    (hpuback : ∀ id, packet ≠ .puback id) (hpubcomp : ∀ id, packet ≠ .pubcomp id) :
    Quiet world (world.dispatch connection client endpoints packet) := by
  cases packet with
  | publish publish =>
    obtain ⟨hcounter, _, hinflight⟩ :=
      (world.channel connection).ackInboundPublishPreChain_frame publish
    have hacked : Quiet world (world.setChannel connection _) := quiet_setChannel hinflight hcounter
    simp only [World.dispatch]
    split
    · exact hacked.trans (quiet_of_channels rfl rfl)
    · split
      · exact hacked
      · exact hacked.trans (quiet_handOn client endpoints publish)
  | subscribe s | unsubscribe u =>
    refine Quiet.trans ?_ (quiet_reply _ _)
    exact quiet_of_channels rfl rfl
  | puback id => exact absurd rfl (hpuback id)
  | pubcomp id => exact absurd rfl (hpubcomp id)
  | pubrel id =>
    simp only [World.dispatch]
    split
    · exact quiet_reply _ _
    · have htaken : Quiet world (world.setChannel connection
          ((world.channel connection).takeStored id)) := quiet_setChannel rfl rfl
      exact (htaken.trans (quiet_handOn client endpoints _)).trans (quiet_of_channels rfl rfl)
  | pingreq | pubrec id => exact quiet_reply _ _
  | connect | connack | suback | unsuback | pingresp | disconnect =>
    exact quiet_of_channels rfl rfl

end Quiet

section Events

variable {world next : World} {connection : ConnectionId} {event : Event}

/-- An event that does not number a PUBLISH for the connection. -/
theorem InflightInv.append (h : InflightInv world connection)
    (hhistory : next.history = world.history ++ [event])
    (hevent : numberedFor connection event = false)
    (hcounter : (next.channel connection).session.pktCounter =
      (world.channel connection).session.pktCounter)
    (hresendable : world.Resendable connection → event ≠ .closed connection →
      next.Resendable connection) : InflightInv next connection := by
  have hnumbered : numbered next.history connection = numbered world.history connection := by
    rw [hhistory, numbered_append, hevent]
    rfl
  constructor
  · rw [hnumbered, hcounter]
    exact h.counter
  · rw [hnumbered, hhistory]
    intro hbound packet id hmem hid
    rcases List.mem_append.mp hmem with hmem | hmem
    · exact h.bounded hbound packet id hmem hid
    · rw [← List.mem_singleton.mp hmem] at hevent
      simp [numberedFor, hid] at hevent
  · rw [hnumbered, hhistory, List.mem_append, not_or, List.mem_singleton]
    rintro hbound ⟨hopen, hclosed⟩
    exact hresendable (h.resendable hbound hopen) fun heq ↦ hclosed heq.symm

/-- An event that concerns another connection, or a PUBLISH without an identifier. -/
theorem InflightInv.append_of_other (h : InflightInv world connection)
    (hhistory : next.history = world.history ++ [event])
    (hevent : numberedFor connection event = false)
    (hacknowledged : ∀ id, event ≠ .acknowledged connection id)
    (hsession : (next.channel connection).session = (world.channel connection).session) :
    InflightInv next connection := by
  refine h.append hhistory hevent (by rw [hsession]) fun hresendable _ id packet ↦ ?_
  rw [hsession, hhistory, inFlight_append_of_other hevent (hacknowledged id)]
  exact hresendable id packet

theorem inflightInv_close (h : InflightInv world connection) (closed : ConnectionId) :
    InflightInv (stepClose world closed) connection := by
  by_cases hclosed : connection = closed
  · subst hclosed
    refine h.append rfl rfl ?_ fun _ hne ↦ absurd rfl hne
    change ((world.setChannel connection _).channel connection).session.pktCounter = _
    rw [World.channel_setChannel, if_pos rfl]
    cases (world.channel connection).isOpen <;> rfl
  · refine h.append_of_other rfl rfl (fun _ ↦ by simp) ?_
    change ((world.setChannel closed _).channel connection).session = _
    rw [World.channel_setChannel, if_neg hclosed]

end Events

section Acknowledgements

variable (broker : Broker) (client : ClientId) (id : PacketId) (channels : Channels)

theorem pktCounter_ackOutbound (connection : ConnectionId) :
    ((broker.ackOutbound client id channels).2 connection).session.pktCounter =
      (channels connection).session.pktCounter := by
  unfold Broker.ackOutbound
  split
  · rfl
  · rename_i entry _
    dsimp only
    by_cases hconnection : connection = entry.channel
    · subst hconnection
      rw [Function.update_self]
      rfl
    · rw [Function.update_of_ne hconnection]

/-- The connection that is registered for the client loses the entry under the identifier. -/
theorem outboundInflight_ackOutbound_of_owner {connection : ConnectionId}
    {will : Option WillMessage} (howner : broker.ownerOf client = some (connection, will)) :
    ((broker.ackOutbound client id channels).2 connection).session.outboundInflight =
      (channels connection).session.outboundInflight.erase id := by
  obtain ⟨entry, hentry, hchannel⟩ := Option.map_eq_some_iff.mp howner
  obtain ⟨rfl, -⟩ := Prod.mk.inj hchannel
  simp only [Broker.ackOutbound, hentry, Function.update_self]
  rfl

theorem outboundInflight_ackOutbound_of_not_owner {connection : ConnectionId}
    (howner : ¬ ∃ will, broker.ownerOf client = some (connection, will)) :
    ((broker.ackOutbound client id channels).2 connection).session.outboundInflight =
      (channels connection).session.outboundInflight := by
  unfold Broker.ackOutbound
  split
  · rfl
  · rename_i entry hentry
    have hconnection : connection ≠ entry.channel := by
      rintro rfl
      exact howner ⟨entry.will, by rw [Broker.ownerOf, hentry]; rfl⟩
    dsimp only
    rw [Function.update_of_ne hconnection]

end Acknowledgements

section Acknowledge

variable {world next : World} {connection acking : ConnectionId} {client : ClientId}
  {id : PacketId}

/-- Where something is in flight, an acknowledgement is on target if it takes effect on the
connection on which it came in. -/
theorem OnTarget.owner_iff (h : OnTarget world acking client id) (connection : ConnectionId) :
    ((∃ will, world.broker.ownerOf client = some (connection, will)) ↔ connection = acking) ∨
      (world.channel connection).session.outboundInflight.lookup id = none := by
  rcases h with ⟨will, howner⟩ | hnone
  · refine .inl ⟨?_, ?_⟩
    · rintro ⟨will', howner'⟩
      rw [howner] at howner'
      exact (Prod.mk.inj (Option.some.inj howner')).1.symm
    · rintro rfl
      exact ⟨will, howner⟩
  · by_cases hconcerned : connection = acking ∨
        ∃ will, world.broker.ownerOf client = some (connection, will)
    · exact .inr (hnone connection hconcerned)
    · rw [not_or] at hconcerned
      exact .inl (iff_of_false hconcerned.2 hconcerned.1)

theorem resendable_acknowledge (h : world.Resendable connection)
    (htarget : OnTarget world acking client id)
    (hchannels : next.store.channels =
      (world.broker.ackOutbound client id world.store.channels).2)
    (hhistory : next.history = world.history ++ [.acknowledged acking id]) :
    next.Resendable connection := by
  intro id' packet
  have hflight : InFlight next.history connection id' packet ↔
      (world.channel connection).session.outboundInflight.lookup id' = some packet ∧
        ¬ (connection = acking ∧ id' = id) := by
    rw [hhistory, inFlight_append, h id' packet]
    constructor
    · rintro (⟨hinflight, hne⟩ | ⟨hevent, _⟩)
      · refine ⟨hinflight, ?_⟩
        rintro ⟨rfl, rfl⟩
        exact hne rfl
      · cases hevent
    · rintro ⟨hinflight, hne⟩
      refine .inl ⟨hinflight, fun hevent ↦ hne ?_⟩
      obtain ⟨rfl, rfl⟩ := Event.acknowledged.inj hevent
      exact ⟨rfl, rfl⟩
  rw [hflight, World.channel, hchannels]
  by_cases howner : ∃ will, world.broker.ownerOf client = some (connection, will)
  · obtain ⟨will, hentry⟩ := howner
    rw [outboundInflight_ackOutbound_of_owner _ _ _ _ hentry, Table.lookup_erase_eq]
    by_cases hid : id' = id
    · subst hid
      rw [if_pos rfl]
      refine iff_of_false (fun hnone ↦ by cases hnone) ?_
      rintro ⟨hlookup, hne⟩
      rcases htarget.owner_iff connection with hiff | hnone
      · exact hne ⟨hiff.mp ⟨will, hentry⟩, rfl⟩
      · rw [hnone] at hlookup
        cases hlookup
    · rw [if_neg hid]
      exact ⟨fun hlookup ↦ ⟨hlookup, fun hboth ↦ hid hboth.2⟩, And.left⟩
  · rw [outboundInflight_ackOutbound_of_not_owner _ _ _ _ howner]
    refine ⟨fun hlookup ↦ ⟨hlookup, ?_⟩, And.left⟩
    rintro ⟨hacking, rfl⟩
    rcases htarget.owner_iff connection with hiff | hnone
    · exact howner (hiff.mpr hacking)
    · cases hnone.symm.trans hlookup

theorem inflightInv_acknowledge (h : InflightInv world connection)
    (htarget : OnTarget world acking client id)
    (hchannels : next.store.channels =
      (world.broker.ackOutbound client id world.store.channels).2)
    (hhistory : next.history = world.history ++ [.acknowledged acking id]) :
    InflightInv next connection := by
  refine h.append hhistory rfl ?_ fun hresendable _ ↦
    resendable_acknowledge hresendable htarget hchannels hhistory
  rw [World.channel, hchannels]
  exact pktCounter_ackOutbound ..

end Acknowledge

section Fanouts

variable {world : World} {number : ℕ} {fanout : Fanout} {client : ClientId} {subQos : QoS}
  {matched : List (ClientId × QoS)} {entry : SubscriberEntry}

theorem history_turn (hrecipient : world.broker.recipient fanout.source client = some entry) :
    (world.turn number fanout client subQos matched).history = world.history ++
      [.fannedOut entry.channel
        (Broker.deliver fanout.packet subQos (world.channel entry.channel)).1] := by
  rw [turn_of_recipient_eq_some hrecipient]
  rfl

theorem channel_turn (hrecipient : world.broker.recipient fanout.source client = some entry)
    (connection : ConnectionId) :
    (world.turn number fanout client subQos matched).channel connection =
      if connection = entry.channel then
        (Broker.deliver fanout.packet subQos (world.channel entry.channel)).2
      else world.channel connection := by
  rw [turn_of_recipient_eq_some hrecipient]
  exact World.channel_setChannel ..

/-- Below the wrap the next identifier is new. -/
theorem InflightInv.fresh {connection : ConnectionId} (h : InflightInv world connection)
    (hbound : numbered world.history connection + 1 ≤ 65535) :
    (world.channel connection).session.allocatePacketId.1.toNat =
        numbered world.history connection + 1 ∧
      (world.channel connection).session.allocatePacketId.2.pktCounter.toNat =
        numbered world.history connection + 1 := by
  have hcounter := h.counter (by omega)
  rw [← hcounter] at hbound ⊢
  exact MqttSession.toNat_allocate hbound

theorem InflightInv.not_inFlight_fresh {connection : ConnectionId}
    (h : InflightInv world connection) (hbound : numbered world.history connection + 1 ≤ 65535)
    (packet : PublishPacket) :
    ¬ InFlight world.history connection
      (world.channel connection).session.allocatePacketId.1 packet := by
  intro hinflight
  obtain ⟨hmem, hid⟩ := hinflight.fannedOut_mem
  have hle := h.bounded (by omega) packet _ hmem hid
  rw [(h.fresh hbound).1] at hle
  omega

section Number

variable (h : InflightInv world entry.channel)
  (hrecipient : world.broker.recipient fanout.source client = some entry)
  (hqos : fanout.packet.qos.min subQos ≠ .atMostOnce)
include hrecipient hqos

theorem numbered_turn :
    numbered (world.turn number fanout client subQos matched).history entry.channel =
      numbered world.history entry.channel + 1 := by
  obtain ⟨hid, -⟩ := deliver_of_ne_atMostOnce (world.channel entry.channel) hqos
  rw [history_turn hrecipient, numbered_append]
  simp [numberedFor, hid]

/-- What the table holds after a packet was numbered. -/
theorem lookup_turn (id : PacketId) :
    ((world.turn number fanout client subQos matched).channel
        entry.channel).session.outboundInflight.lookup id =
      if id = (world.channel entry.channel).session.allocatePacketId.1 then some fanout.packet
      else (world.channel entry.channel).session.outboundInflight.lookup id := by
  obtain ⟨-, -, hinflight⟩ := deliver_of_ne_atMostOnce (world.channel entry.channel) hqos
  rw [channel_turn hrecipient, if_pos rfl, hinflight, Table.lookup_insert_eq]

/-- What is in flight after a packet was numbered. -/
theorem inFlight_turn (id : PacketId) (packet : PublishPacket) :
    InFlight (world.turn number fanout client subQos matched).history entry.channel id packet ↔
      InFlight world.history entry.channel id packet ∨
        id = (world.channel entry.channel).session.allocatePacketId.1 ∧
          packet = (Broker.deliver fanout.packet subQos (world.channel entry.channel)).1 := by
  obtain ⟨hid, -⟩ := deliver_of_ne_atMostOnce (world.channel entry.channel) hqos
  rw [history_turn hrecipient, inFlight_append]
  constructor
  · rintro (⟨hinflight, -⟩ | ⟨hevent, hpacketId⟩)
    · exact .inl hinflight
    · obtain ⟨-, rfl⟩ := Event.fannedOut.inj hevent
      rw [hid] at hpacketId
      exact .inr ⟨(Option.some.inj hpacketId).symm, rfl⟩
  · rintro (hinflight | ⟨rfl, rfl⟩)
    · exact .inl ⟨hinflight, by simp⟩
    · exact .inr ⟨rfl, hid⟩

include h

/-- A turn that numbers a packet which is already as it will be sent. -/
theorem inflightInv_number
    (hsent : AsSent fanout.packet subQos (world.channel entry.channel).session) :
    InflightInv (world.turn number fanout client subQos matched) entry.channel := by
  obtain ⟨hid, hcounter, -⟩ := deliver_of_ne_atMostOnce (world.channel entry.channel) hqos
  have hpacket := (eq_deliver_iff_asSent (world.channel entry.channel) hqos).mpr hsent
  constructor
  · rw [numbered_turn hrecipient hqos, channel_turn hrecipient, if_pos rfl, hcounter]
    exact fun hbound ↦ (h.fresh hbound).2
  · rw [numbered_turn hrecipient hqos, history_turn hrecipient]
    intro hbound packet id hmem hpacketId
    rcases List.mem_append.mp hmem with hmem | hmem
    · exact (h.bounded (by omega) packet id hmem hpacketId).trans (Nat.le_succ _)
    · obtain ⟨-, rfl⟩ := Event.fannedOut.inj (List.mem_singleton.mp hmem)
      rw [hid] at hpacketId
      rw [← Option.some.inj hpacketId, (h.fresh hbound).1]
  · rw [numbered_turn hrecipient hqos, history_turn hrecipient]
    intro hbound hopen id packet
    have hbefore : world.Resendable entry.channel :=
      h.resendable (by omega) fun hmem ↦ hopen (List.mem_append_left _ hmem)
    rw [lookup_turn hrecipient hqos, inFlight_turn hrecipient hqos, ← hpacket]
    by_cases hnew : id = (world.channel entry.channel).session.allocatePacketId.1
    · subst hnew
      rw [if_pos rfl, or_iff_right (h.not_inFlight_fresh hbound packet), Option.some.injEq]
      exact ⟨fun heq ↦ ⟨rfl, heq.symm⟩, fun heq ↦ heq.2.symm⟩
    · rw [if_neg hnew, or_iff_left fun hboth ↦ hnew hboth.1]
      exact hbefore id packet

end Number

theorem inflightInv_turn {connection : ConnectionId} (h : InflightInv world connection)
    (hsent : ∀ entry, world.broker.recipient fanout.source client = some entry →
      AsSent fanout.packet subQos (world.channel entry.channel).session) :
    InflightInv (world.turn number fanout client subQos matched) connection := by
  cases hrecipient : world.broker.recipient fanout.source client with
  | none =>
    rw [turn_of_recipient_eq_none hrecipient]
    exact h.of_quiet (quiet_of_channels rfl rfl)
  | some entry =>
    by_cases hconnection : connection = entry.channel
    · subst hconnection
      by_cases hqos : fanout.packet.qos.min subQos = .atMostOnce
      · obtain ⟨hid, hsession⟩ := deliver_of_atMostOnce (world.channel entry.channel) hqos
        refine h.append_of_other (history_turn hrecipient) ?_ (fun _ ↦ by simp) ?_
        · simp [numberedFor, hid]
        · rw [channel_turn hrecipient, if_pos rfl, hsession]
      · exact inflightInv_number h hrecipient hqos (hsent entry hrecipient)
    · refine h.append_of_other (history_turn hrecipient) ?_ (fun _ ↦ by simp) ?_
      · simp [numberedFor, Ne.symm hconnection]
      · rw [channel_turn hrecipient, if_neg hconnection]

/-- A turn that numbers any other packet stores something else than it sends. -/
theorem not_resendable_turn
    (hrecipient : world.broker.recipient fanout.source client = some entry)
    (hsent : ¬ AsSent fanout.packet subQos (world.channel entry.channel).session) :
    ¬ (world.turn number fanout client subQos matched).Resendable entry.channel := by
  have hqos : fanout.packet.qos.min subQos ≠ .atMostOnce := fun hqos ↦ hsent (.inl hqos)
  intro hresendable
  have hstored := (hresendable _ _).mpr
    ((inFlight_turn hrecipient hqos _ _).mpr (.inr ⟨rfl, rfl⟩))
  rw [lookup_turn hrecipient hqos, if_pos rfl] at hstored
  exact hsent ((eq_deliver_iff_asSent _ hqos).mp (Option.some.inj hstored))

end Fanouts

section Runs

variable {world next : World} {connection : ConnectionId}

theorem inflightInv_serve {serving : ConnectionId} {client : ClientId} {endpoints : List Endpoint}
    {packet : Packet} (h : InflightInv world connection)
    (hphase : world.phase serving = .looping client)
    (hfaithful : Faithful world (.serve serving endpoints packet)) :
    InflightInv (world.serve serving client endpoints packet) connection := by
  unfold World.serve
  split
  · exact h.of_quiet (quiet_of_channels rfl rfl)
  · cases packet with
    | puback id | pubcomp id =>
      exact inflightInv_acknowledge h (hfaithful client hphase) rfl rfl
    | _ =>
      apply h.of_quiet
      exact quiet_dispatch endpoints (fun _ heq ↦ by cases heq) fun _ heq ↦ by cases heq

theorem inflightInv_step {action : Action} (h : InflightInv world connection)
    (hfaithful : Faithful world action) (hstep : step world action = some next) :
    InflightInv next connection := by
  cases action with
  | connect connecting auth connect =>
    obtain ⟨-, rfl⟩ := of_step_connect hstep
    exact h.of_quiet (quiet_accept auth connect)
  | advance advancing => exact h.of_quiet (quiet_advance hstep)
  | serve serving endpoints packet =>
    obtain ⟨client, hphase, rfl⟩ := exists_of_step_serve hstep
    exact inflightInv_serve h hphase hfaithful
  | leave leaving =>
    obtain ⟨client, rfl⟩ := exists_of_step_leave hstep
    exact h.of_quiet (quiet_of_channels rfl rfl)
  | fail failing =>
    obtain rfl := of_step_fail hstep
    exact h.of_quiet (quiet_of_channels rfl rfl)
  | collect number filter client =>
    obtain ⟨fanout, qos, -, -, rfl⟩ := exists_of_stepCollect hstep
    exact h.of_quiet (quiet_of_channels rfl rfl)
  | collected number =>
    obtain ⟨fanout, -, rfl⟩ := exists_of_step_collected hstep
    exact h.of_quiet (quiet_of_channels rfl rfl)
  | deliver number =>
    obtain ⟨fanout, client, subQos, matched, hfanout, hmatched, rfl⟩ := exists_of_stepDeliver hstep
    exact inflightInv_turn h fun entry hrecipient ↦
      hfaithful fanout client subQos matched entry hfanout hmatched hrecipient
  | close closed =>
    obtain rfl := Option.some.inj hstep
    exact inflightInv_close h closed
  | writerMarks marked | writerDrops marked =>
    obtain rfl := Option.some.inj hstep
    exact h.of_quiet (quiet_setChannel rfl rfl)

theorem inflightInv_of_run {actions : List Action} (run : Run step Faithful init actions world)
    (connection : ConnectionId) : InflightInv world connection := by
  induction run with
  | refl => exact inflightInv_init connection
  | tail _ hfaithful hstep ih => exact inflightInv_step ih hfaithful hstep

theorem exists_not_resendable {number : ℕ} (hstep : step world (.deliver number) = some next)
    (hfaithful : ¬ Faithful world (.deliver number)) :
    ∃ connection, ¬ next.Resendable connection := by
  obtain ⟨fanout, client, subQos, matched, hfanout, hmatched, rfl⟩ := exists_of_stepDeliver hstep
  by_contra hall
  rw [not_exists_not] at hall
  refine hfaithful fun fanout' client' subQos' matched' entry hfanout' hmatched' hrecipient ↦ ?_
  obtain rfl := Option.some.inj (hfanout.symm.trans hfanout')
  obtain ⟨hsubscription, rfl⟩ := List.cons.inj (hmatched.symm.trans hmatched')
  obtain ⟨rfl, rfl⟩ := Prod.mk.inj hsubscription
  by_contra hsent
  exact not_resendable_turn hrecipient hsent (hall entry.channel)

end Runs

/-- In every run of faithful steps, the table of every session that was not closed holds what is in
flight, as long as its counter has not wrapped. A turn of a fan-out that is not faithful leaves a
table that does not. -/
theorem inflight_resendable (world : World) :
    (∀ actions, Run step Faithful init actions world → ∀ connection,
      numbered world.history connection ≤ 65535 → .closed connection ∉ world.history →
      world.Resendable connection) ∧
    (∀ number next, step world (.deliver number) = some next →
      ¬ Faithful world (.deliver number) → ∃ connection, ¬ next.Resendable connection) := by
  constructor
  · intro actions run connection hbound hopen
    exact (inflightInv_of_run run connection).resendable hbound hopen
  · intro number next hstep hfaithful
    exact exists_not_resendable hstep hfaithful

instance (packet : PublishPacket) (subQos : QoS) (session : MqttSession) :
    Decidable (AsSent packet subQos session) :=
  inferInstanceAs (Decidable (_ ∨ _))

def isFaithful (world : World) : Action → Bool
  | .deliver number =>
      match world.fanouts[number]? with
      | some fanout =>
          fanout.matched.head?.all fun (client, subQos) ↦
            (world.broker.recipient fanout.source client).all fun entry ↦
              AsSent fanout.packet subQos (world.channel entry.channel).session
      | none => true
  | .serve connection _ (.puback _) | .serve connection _ (.pubcomp _) =>
      match world.phase connection with
      | .looping client =>
          (world.broker.ownerOf client).any fun (registered, _) ↦ registered = connection
      | _ => true
  | _ => true

theorem onTarget_of_any {world : World} {connection : ConnectionId} {client : ClientId}
    (h : ((world.broker.ownerOf client).any fun (registered, _) ↦ registered = connection) = true)
    (id : PacketId) : OnTarget world connection client id := by
  rw [Option.any_eq_true] at h
  obtain ⟨⟨registered, will⟩, howner, hregistered⟩ := h
  obtain rfl := of_decide_eq_true hregistered
  exact .inl ⟨will, howner⟩

theorem faithful_of_isFaithful (world : World) (action : Action)
    (h : isFaithful world action = true) : Faithful world action := by
  cases action with
  | deliver number =>
    intro fanout client subQos matched entry hfanout hmatched hrecipient
    simpa [isFaithful, hfanout, hmatched, hrecipient] using h
  | serve connection endpoints packet =>
    cases packet with
    | puback id | pubcomp id =>
      intro client hphase
      simp only [isFaithful, hphase] at h
      exact onTarget_of_any h id
    | _ => trivial
  | _ => trivial

def numberedMessage (id : PacketId) (retain : Bool) : PublishPacket :=
  { topic := "t", payload := [], dup := false, qos := .atLeastOnce, retain, packetId := some id }

/-- A client subscribes with QoS 1, and another client is there to publish. -/
def subscribed : List Action :=
  welcome 0 (connectAs "a" true none) ++ welcome 1 (connectAs "b" true none) ++
    [.serve 0 [] (subscribeTo "t" .atLeastOnce)]

/-- The publisher happens to use the identifiers that the subscriber is sent. -/
def coincidence : List Action :=
  subscribed ++ [.serve 1 [] (.publish (numberedMessage 1 false))] ++ reach 0 "t" "a" ++
    [.serve 1 [] (.publish (numberedMessage 2 false))] ++ reach 1 "t" "a" ++
    [.serve 0 [] (.puback 1)]

theorem inflight_resendable_coincidence :
    ∃ world, Run step Faithful init coincidence world ∧
      (world.channel 0).session.outboundInflight.lookup 1 = none ∧
      (world.channel 0).session.outboundInflight.lookup 2 = some (numberedMessage 2 false) ∧
      world.Resendable 0 := by
  obtain ⟨world, run, hfirst, hsecond, hbound, hopen⟩ : ∃ world,
      Run step Faithful init coincidence world ∧
      (world.channel 0).session.outboundInflight.lookup 1 = none ∧
      (world.channel 0).session.outboundInflight.lookup 2 = some (numberedMessage 2 false) ∧
      numbered world.history 0 ≤ 65535 ∧ .closed 0 ∉ world.history :=
    ⟨_, Run.of_guarded faithful_of_isFaithful rfl, rfl, rfl, by decide, by decide⟩
  exact ⟨world, run, hfirst, hsecond, (inflight_resendable world).1 _ run 0 hbound hopen⟩

/-- A retained message with an identifier of the publisher is sent under the first identifier of the
subscriber, and is stored as it came in. A message that is stored as it is sent outlives its PUBACK
if the client has registered another connection in between. -/
theorem stored_not_as_sent :
    (∃ world, Run step Unrestricted init
        (subscribed ++ [.serve 1 [] (.publish (numberedMessage 7 true))] ++ reach 0 "t" "a")
        world ∧
      .publish (numberedMessage 1 false) ∈ (world.channel 0).commands ∧
      (world.channel 0).session.outboundInflight.lookup 1 = some (numberedMessage 7 true) ∧
      numbered world.history 0 ≤ 65535 ∧ .closed 0 ∉ world.history ∧ ¬ world.Resendable 0) ∧
    ∃ world, Run step Unrestricted init
        (subscribed ++ [.serve 1 [] (.publish (numberedMessage 1 false))] ++ reach 0 "t" "a" ++
          register 2 (connectAs "a" false none) ++ [.serve 0 [] (.puback 1)]) world ∧
      world.history =
        [.fannedOut 0 (numberedMessage 1 false)] ++ [.acknowledged 0 1] ∧
      (world.channel 0).session.outboundInflight.lookup 1 = some (numberedMessage 1 false) ∧
      numbered world.history 0 ≤ 65535 ∧ .closed 0 ∉ world.history ∧ ¬ world.Resendable 0 := by
  constructor
  · refine ⟨_, Run.of_foldlM rfl, by decide, rfl, by decide, by decide, ?_⟩
    intro hresendable
    obtain ⟨-, hid⟩ := ((hresendable 1 (numberedMessage 7 true)).mp rfl).fannedOut_mem
    cases hid
  · obtain ⟨world, run, hhistory, hstored⟩ : ∃ world, Run step Unrestricted init
        (subscribed ++ [.serve 1 [] (.publish (numberedMessage 1 false))] ++ reach 0 "t" "a" ++
          register 2 (connectAs "a" false none) ++ [.serve 0 [] (.puback 1)]) world ∧
        world.history =
          [.fannedOut 0 (numberedMessage 1 false)] ++ [.acknowledged 0 1] ∧
        (world.channel 0).session.outboundInflight.lookup 1 = some (numberedMessage 1 false) :=
      ⟨_, Run.of_foldlM rfl, rfl, rfl⟩
    refine ⟨world, run, hhistory, hstored, by rw [hhistory]; decide, by rw [hhistory]; decide, ?_⟩
    intro hresendable
    have hinflight := (hresendable 1 _).mp hstored
    rw [hhistory, inFlight_append] at hinflight
    rcases hinflight with ⟨-, hne⟩ | ⟨hevent, -⟩
    · exact hne rfl
    · cases hevent

end HotaruMqtt.Connections

import HotaruMqtt.Library.Keys
import HotaruMqtt.Protocol.EndToEnd
import HotaruMqtt.Protocol.Server

/-!
# What a response of an operation means on the server

Whatever a client is told at the end of an operation has happened on the server. A message that was
acknowledged or completed was handed to the endpoint chain once. A SUBSCRIBE was served, and its
codes say for every filter whether it is valid. An UNSUBSCRIBE was served.
-/

namespace HotaruMqtt.Link

open Library Codec Handover

/-- The identifier of a packet that asks for an acknowledgement. -/
def requestId : Packet → Option PacketId
  | .publish p => p.packetId
  | .subscribe s => some s.packetId
  | .unsubscribe u => some u.packetId
  | _ => none

/-- Every request was enqueued by the operation that owns its identifier, and by nobody else. -/
structure Issues (setting : Setting) (world : Operations.World) : Prop where
  origin : ∀ packet ∈ Drain.seen setting.version world.channel.commands, ∀ id,
    requestId packet = some id → ∃ op, (world.operations op).id = some id ∧
      issued (world.phase op) = true ∧
      Drain.seen setting.version [Operations.command id (setting.requests op)] = [packet]
  nodup : ((Drain.seen setting.version world.channel.commands).filterMap requestId).Nodup

section Issues

variable {setting : Setting} {world next : Operations.World}

/-- Nothing is enqueued that asks for an acknowledgement. -/
theorem Issues.enqueue (h : Issues setting world) {added : List WriteCmd}
    (hextends : Extends world.channel next.channel added) (hkeeps : KeepsIssued world next)
    (hadded : (Drain.seen setting.version added).filterMap requestId = []) :
    Issues setting next := by
  have hseen : Drain.seen setting.version next.channel.commands =
      Drain.seen setting.version world.channel.commands ++
        ifLive world.channel.receiving (Drain.seen setting.version added) := by
    rw [hextends.commands, Drain.seen_append, seen_ifLive]
  have hnone (packet : Packet)
      (hmem : packet ∈ ifLive world.channel.receiving (Drain.seen setting.version added)) :
      requestId packet = none := by
    unfold ifLive at hmem
    split at hmem
    · exact List.filterMap_eq_nil_iff.mp hadded packet hmem
    · cases hmem
  constructor
  · intro packet hmem id hid
    rw [hseen, List.mem_append] at hmem
    obtain hmem | hmem := hmem
    · obtain ⟨op, hop, hissued, hcommand⟩ := h.origin packet hmem id hid
      obtain ⟨hissued, hsame⟩ := hkeeps op hissued
      exact ⟨op, hsame.trans hop, hissued, hcommand⟩
    · rw [hnone packet hmem] at hid
      cases hid
  · rw [hseen, List.filterMap_append, List.filterMap_eq_nil_iff.mpr hnone, List.append_nil]
    exact h.nodup

theorem seen_command (version : ProtocolVersion) (id : PacketId) (request : MqttRequest) :
    ∃ packet, Drain.seen version [Operations.command id request] = [packet] ∧
      requestId packet = some id := by
  cases request with
  | publish | subscribe | unsubscribe => exact ⟨_, rfl, rfl⟩

/-- An operation enqueues its request. -/
theorem Issues.issue (h : Issues setting world) (hinv : Operations.Inv setting.requests world)
    (hkeeps : KeepsIssued world next) {op : Waiter} {id : PacketId}
    {signal : Option Operations.Answer} (hbefore : world.phase op = .registered id signal)
    (hbehind : next.phase op = .waiting id signal)
    (hsame : (next.operations op).id = (world.operations op).id)
    (hextends : Extends world.channel next.channel
      [Operations.command id (setting.requests op)]) : Issues setting next := by
  obtain ⟨request, hrequest, hrequestId⟩ :=
    seen_command setting.version id (setting.requests op)
  have hseen : Drain.seen setting.version next.channel.commands =
      Drain.seen setting.version world.channel.commands ++
        ifLive world.channel.receiving [request] := by
    rw [hextends.commands, Drain.seen_append, seen_ifLive, hrequest]
  have howner : (world.operations op).id = some id := (hinv.sound hbefore).1
  have hfresh : id ∉ (Drain.seen setting.version world.channel.commands).filterMap requestId := by
    intro hmem
    obtain ⟨packet, hpacket, hpacketId⟩ := List.mem_filterMap.mp hmem
    obtain ⟨op', hop', hissued, -⟩ := h.origin packet hpacket id hpacketId
    obtain rfl := hinv.id_inj op' op id hop' howner
    rw [hbefore] at hissued
    cases hissued
  constructor
  · intro packet hmem id' hid'
    rw [hseen, List.mem_append] at hmem
    obtain hmem | hmem := hmem
    · obtain ⟨op', hop', hissued, hcommand⟩ := h.origin packet hmem id' hid'
      obtain ⟨hissued, hsame⟩ := hkeeps op' hissued
      exact ⟨op', hsame.trans hop', hissued, hcommand⟩
    · unfold ifLive at hmem
      split at hmem
      · obtain rfl := List.mem_singleton.mp hmem
        obtain rfl := Option.some.inj (hrequestId.symm.trans hid')
        refine ⟨op, hsame.trans howner, ?_, hrequest⟩
        rw [hbehind]
        rfl
      · cases hmem
  · rw [hseen, List.filterMap_append]
    unfold ifLive
    split
    · rw [List.filterMap_cons_some hrequestId, List.filterMap_nil, List.nodup_append]
      refine ⟨h.nodup, List.nodup_singleton id, ?_⟩
      rintro id' hmem _ hmem' rfl
      rw [List.mem_singleton.mp hmem'] at hmem
      exact hfresh hmem
    · rw [List.filterMap_nil, List.append_nil]
      exact h.nodup

theorem Issues.stop (h : Issues setting world)
    (hchannel : next.channel = { world.channel with receiving := false })
    (hkeeps : KeepsIssued world next) : Issues setting next := by
  have hcommands : next.channel.commands = world.channel.commands := by
    rw [hchannel]
  constructor
  · intro packet hmem id hid
    rw [hcommands] at hmem
    obtain ⟨op, hop, hissued, hcommand⟩ := h.origin packet hmem id hid
    obtain ⟨hissued, hsame⟩ := hkeeps op hissued
    exact ⟨op, hsame.trans hop, hissued, hcommand⟩
  · rw [hcommands]
    exact h.nodup

end Issues

section Steps

variable {setting : Setting} {world next : World} {action : Action}

/-- Seen from the operations, the writer, the reader and the handler are steps of their
surroundings. -/
inductive ClientStep (setting : Setting) (world next : World) : Prop where
  | same (h : next.client = world.client)
  | moves (taken : Operations.Action)
      (hstep : Operations.step setting.requests world.client taken = some next.client)
      (h : Moves setting.requests world.client taken next.client)
  | reads (packet : Packet)
      (hstep : Operations.step setting.requests world.client (.receive packet) = some next.client)
  | replies (packet : Packet) (hnone : requestId packet = none)
      (h : next.client =
        { world.client with channel := (world.client.channel.reply packet).1 })

theorem clientStep_of_step (hstep : step setting world action = some next) :
    ClientStep setting world next := by
  cases effect_of_step hstep with
  | operates action client notReceive notTakes taken =>
    exact .moves action taken (moves_of_step notReceive notTakes taken)
  | clientFails | clientBreaksOff =>
    refine .moves .writerStops rfl (moves_of_step ?_ ?_ rfl)
    · intro packet heq
      cases heq
    · intro heq
      cases heq
  | clientReads packet => exact .reads packet rfl
  | clientTicks => exact .replies .pingreq rfl rfl
  | clientDisconnects => exact .replies .disconnect rfl rfl
  | _ => exact .same rfl

theorem issues_step (h : Issues setting world.client)
    (hinv : Operations.Inv setting.requests world.client)
    (hstep : ClientStep setting world next) : Issues setting next.client := by
  cases hstep with
  | same hsame =>
    rw [hsame]
    exact h
  | moves taken htaken hmoves =>
    have hkeeps := hmoves.keeps
    cases hmoves.emits with
    | quiet hextends => exact h.enqueue hextends hkeeps rfl
    | numbered op id signal before behind owner hextends =>
      exact h.issue hinv hkeeps before behind owner hextends
    | unnumbered p hid hextends =>
      refine h.enqueue hextends hkeeps (List.filterMap_cons_none ?_)
      exact hid
    | stops hstops => exact h.stop hstops hkeeps
  | reads packet hreads =>
    have hkeeps := keepsIssued_receive world.client packet
    have hextends := extends_dispatchClient world.client.channel packet
    have hchannel := (Operations.stepReceive_frame world.client packet).1
    rw [Option.some.inj hreads] at hkeeps hchannel
    rw [← hchannel] at hextends
    refine h.enqueue hextends hkeeps ?_
    cases packet with
    | publish p =>
      simp only [handshakeAnswer, publishReply]
      split <;> rfl
    | _ => rfl
  | replies packet hnone hreplies =>
    rw [hreplies]
    refine h.enqueue (.reply world.client.channel packet) (fun _ hissued ↦ ⟨hissued, rfl⟩) ?_
    refine List.filterMap_cons_none ?_
    cases packet with
    | publish | subscribe | unsubscribe => exact hnone
    | _ => rfl

theorem allocations_le_of_clientStep (h : ClientStep setting world next) :
    world.client.allocations ≤ next.client.allocations := by
  cases h with
  | same hsame => rw [hsame]
  | moves taken htaken => exact Operations.allocations_le_of_step htaken
  | reads packet hreads => exact Operations.allocations_le_of_step hreads
  | replies packet hnone hreplies => rw [hreplies]

theorem operations_inv_step (h : Operations.Inv setting.requests world.client)
    (hbound : next.client.allocations ≤ 65535) (hstep : ClientStep setting world next) :
    Operations.Inv setting.requests next.client := by
  cases hstep with
  | same hsame =>
    rw [hsame]
    exact h
  | moves taken htaken => exact Operations.inv_step h hbound htaken
  | reads packet hreads => exact Operations.inv_step h hbound hreads
  | replies packet hnone hreplies =>
    rw [hreplies]
    have hsession := MqttChannel.session_reply world.client.channel packet
    refine h.setChannel (congrArg MqttSession.pktCounter hsession) fun id slot hslot ↦ ?_
    rwa [hsession] at hslot

end Steps

/-! ## Answers of the server -/

def filtersOf (s : SubscribePacket) : List TopicFilter :=
  s.subscriptions.map fun ts ↦ { filter := ts.topic, qos := ts.qos }

/-- What the server has read and handed on when it enqueues an acknowledgement. -/
def Justified (served : List Packet) (handed : List PublishPacket) : Packet → Prop
  | .puback id => ∃ p ∈ handed, p.qos = .atLeastOnce ∧ p.packetId = some id
  | .suback ack => ∃ s, .subscribe s ∈ served ∧ s.packetId = ack.packetId ∧
      ack.returnCodes = (filtersOf s).map Reference.subackCode
  | .unsuback ack => ∃ u, .unsubscribe u ∈ served ∧ u.packetId = ack.packetId
  | _ => True

theorem Justified.mono {served served' : List Packet} {handed handed' : List PublishPacket}
    {packet : Packet} (h : Justified served handed packet) (hserved : served ⊆ served')
    (hhanded : handed ⊆ handed') : Justified served' handed' packet := by
  cases packet with
  | puback id =>
    obtain ⟨p, hp, hqos, hid⟩ := h
    exact ⟨p, hhanded hp, hqos, hid⟩
  | suback ack =>
    obtain ⟨s, hs, hid, hcodes⟩ := h
    exact ⟨s, hserved hs, hid, hcodes⟩
  | unsuback ack =>
    obtain ⟨u, hu, hid⟩ := h
    exact ⟨u, hserved hu, hid⟩
  | _ => trivial

/-- The client has a session as long as the server serves it, and every acknowledgement that the
server has enqueued is justified. -/
structure Justifies (setting : Setting) (world : World) : Prop where
  session : world.serverStopped = false →
    (world.store.broker.ownerOf setting.clientId).isSome = true
  answers : ∀ packet ∈ Drain.seen setting.version (world.server setting).commands,
    Justified world.served world.handedByServer packet

section Answers

variable {setting : Setting} {world next : World} {action : Action}

/-- The codes for the filters of a client with a session. -/
theorem codes_subscribe {broker : Broker} {client : ClientId}
    (h : (broker.ownerOf client).isSome = true) (filters : List TopicFilter) :
    (broker.subscribe client filters).1 = filters.map Reference.subackCode := by
  rw [Broker.ownerOf, Option.isSome_map] at h
  obtain ⟨entry, hentry⟩ := Option.isSome_iff_exists.mp h
  simp only [Broker.subscribe, hentry]
  exact subscribeFilters_codes client filters _

/-- What the server answers to a packet is justified by it. -/
theorem justified_answer {broker : Broker} {client : ClientId} {packet answer : Packet}
    {handed : List PublishPacket} {served : List Packet}
    (hsession : (broker.ownerOf client).isSome = true)
    (hanswer : serverAnswer broker client packet = some answer) (hserved : packet ∈ served)
    (hhanded : ∀ p, direct packet = some p → p ∈ handed) (version : ProtocolVersion) :
    Justified served handed (answer.seenIn version) := by
  cases packet with
  | publish p =>
    simp only [serverAnswer, handshakeAnswer, publishReply] at hanswer
    split at hanswer
    · rename_i id hqos hid
      obtain rfl := Option.some.inj hanswer
      refine ⟨p, hhanded p ?_, hqos, hid⟩
      simp [direct, hqos]
    · obtain rfl := Option.some.inj hanswer
      trivial
    · cases hanswer
  | subscribe s =>
    obtain rfl := Option.some.inj hanswer
    exact ⟨s, hserved, rfl, codes_subscribe hsession _⟩
  | unsubscribe u =>
    obtain rfl := Option.some.inj hanswer
    exact ⟨u, hserved, rfl⟩
  | pingreq | pubrec | pubrel =>
    obtain rfl := Option.some.inj hanswer
    trivial
  | _ => cases hanswer

theorem mem_seen {version : ProtocolVersion} {cmds : List WriteCmd} {packet : Packet}
    (h : packet ∈ Drain.seen version cmds) :
    (∃ p, packet = .publish p) ∨
      ∃ answer ∈ cmds.filterMap control, packet = answer.seenIn version := by
  unfold Drain.seen at h
  obtain ⟨carried, hcarried, rfl⟩ := List.mem_map.mp h
  obtain ⟨cmd, hcmd, hcarries⟩ := List.mem_filterMap.mp hcarried
  cases cmd with
  | packet answer =>
    obtain rfl := Option.some.inj hcarries
    exact .inr ⟨answer, List.mem_filterMap.mpr ⟨_, hcmd, rfl⟩, rfl⟩
  | publish p =>
    obtain rfl := Option.some.inj hcarries
    exact .inl ⟨_, rfl⟩
  | flush | shutdown => cases hcarries

/-- What happens to the queue of the server apart from its reads. -/
theorem Justifies.congr (h : Justifies setting world)
    (hsession : next.serverStopped = false → world.serverStopped = false ∧
      next.store.broker.ownerOf setting.clientId = world.store.broker.ownerOf setting.clientId)
    (hserved : next.served = world.served) (hhanded : next.handedByServer = world.handedByServer)
    (hcommands : ∀ packet ∈ Drain.seen setting.version (next.server setting).commands,
      packet ∈ Drain.seen setting.version (world.server setting).commands ∨
        ∃ p, packet = .publish p) : Justifies setting next := by
  constructor
  · intro hlooping
    obtain ⟨hbefore, hsame⟩ := hsession hlooping
    rw [hsame]
    exact h.session hbefore
  · intro packet hmem
    rw [hserved, hhanded]
    obtain hold | ⟨p, rfl⟩ := hcommands packet hmem
    · exact h.answers packet hold
    · trivial

theorem Justifies.same (h : Justifies setting world) (hstore : next.store = world.store)
    (hserved : next.served = world.served) (hhanded : next.handedByServer = world.handedByServer)
    (hstopped : next.serverStopped = false → world.serverStopped = false) :
    Justifies setting next := by
  apply h.congr
  · rw [hstore]
    exact fun hlooping ↦ ⟨hstopped hlooping, rfl⟩
  · exact hserved
  · exact hhanded
  · intro packet hmem
    rw [World.server, hstore] at hmem
    exact .inl hmem

/-- The channel of the server changes, but not its queue. -/
theorem Justifies.setServer (h : Justifies setting world) {channel : MqttChannel}
    (hstore : next.store = (world.setServer setting channel).store)
    (hcommands : channel.commands = (world.server setting).commands)
    (hserved : next.served = world.served) (hhanded : next.handedByServer = world.handedByServer)
    (hstopped : next.serverStopped = world.serverStopped) : Justifies setting next := by
  have hserver : next.server setting = channel := by
    rw [World.server, hstore]
    exact Function.update_self ..
  apply h.congr
  · rw [hstore, hstopped]
    exact fun hlooping ↦ ⟨hlooping, rfl⟩
  · exact hserved
  · exact hhanded
  · intro packet hmem
    rw [hserver, hcommands] at hmem
    exact .inl hmem

/-- The server reads a packet and dispatches it. -/
theorem Justifies.dispatch (h : Justifies setting world) (hinv : ServerInv setting world)
    (hlooping : world.serverStopped = false) {packet : Packet} (toServer : Bytes)
    {surroundings : Surroundings} {dispatched : ServerDispatch} (stopped : Bool)
    (hdispatched : world.store.dispatchServerInbound setting.connection setting.clientId
      surroundings packet = some dispatched) :
    Justifies setting (world.dispatched packet toServer dispatched stopped) := by
  obtain ⟨added, hgrows, hadded⟩ := grows_dispatchServer hdispatched
  have hdirect := direct_dispatchServer (hinv.sound hlooping) hdispatched
  constructor
  · intro _
    exact (congrArg Option.isSome
      (congrFun (Server.ownerOf_dispatch hdispatched) setting.clientId)).trans (h.session hlooping)
  · intro answer hmem
    change answer ∈ Drain.seen setting.version
      (dispatched.store.channels setting.connection).commands at hmem
    rw [hgrows.commands, Drain.seen_append, seen_ifLive, List.mem_append] at hmem
    obtain hmem | hmem := hmem
    · exact (h.answers answer hmem).mono (List.subset_append_left _ _)
        (List.subset_append_left _ _)
    · unfold ifLive at hmem
      split at hmem
      · rename_i hreceiving
        obtain ⟨p, rfl⟩ | ⟨raw, hraw, rfl⟩ := mem_seen hmem
        · trivial
        · rw [hadded, Option.mem_toList] at hraw
          refine justified_answer (h.session hlooping) hraw ?_ ?_ setting.version
          · exact List.mem_append_right _ List.mem_cons_self
          · intro p hp
            have hmem : p ∈ dispatched.handed.filter (fun m ↦ m.qos ≠ .exactlyOnce) := by
              obtain hall | ⟨-, -, hgone⟩ := hdirect
              · rw [hall, hp]
                exact List.mem_cons_self
              · exact absurd (hgone.symm.trans hreceiving) Bool.false_ne_true
            exact List.mem_append_right _ (List.mem_filter.mp hmem).1
      · cases hmem

/-- What the server reads is served: the broker is the one behind the packet, and a message that is
handed on goes through the chain and its fan-out. No other step serves or hands on anything. -/
def Serves (setting : Setting) (world : World) : Action → World → Prop
  | .serverReads surroundings, next => ∃ (packet : Option Packet) (handed : Option PublishPacket),
      next.served = world.served ++ packet.toList ∧
        next.handedByServer = world.handedByServer ++ handed.toList ∧
        next.store.broker =
          packet.elim world.store.broker (Server.brokerBehind world.store.broker setting.clientId) ∧
        world.store.HandsOn setting.clientId surroundings handed next.store
  | _, next => next.served = world.served ∧ next.handedByServer = world.handedByServer

theorem serves_of_step (hstep : step setting world action = some next) :
    Serves setting world action next := by
  cases effect_of_step hstep with
  | serverReads surroundings packet toServer dispatched stopped looping taken handled ends =>
    obtain ⟨handed, hhanded, hhandsOn⟩ := Store.handsOn_dispatch handled
    refine ⟨some packet, handed, rfl, ?_, Server.broker_dispatch handled, hhandsOn⟩
    rw [World.dispatched, hhanded]
  | serverFaults =>
    refine ⟨none, none, (List.append_nil _).symm, (List.append_nil _).symm, rfl, ?_⟩
    exact Store.Quiet.handsOn ⟨fun _ ↦ rfl, fun _ ↦ rfl, fun _ ↦ rfl⟩
  | _ => exact ⟨rfl, rfl⟩

end Answers

/-! ## Identifiers that are used once -/

theorem nodup_opens {packets : List Packet} (h : (packets.filterMap requestId).Nodup) :
    (packets.filterMap opens).Nodup := by
  have hsublist : ((packets.filterMap some).filterMap opens).Sublist
      (packets.filterMap requestId) := by
    apply filterMap_filterMap_sublist
    intro packet _ part id hpart hopens
    obtain rfl := Option.some.inj hpart
    obtain ⟨p, rfl, -, hid, -⟩ := message_of_opens hopens
    exact hid
  rw [List.filterMap_some] at hsublist
  exact h.sublist hsublist

section Handed

variable {setting : Setting} {world : World}

/-- The messages of QoS 2 that the server has handed on are those that the PUBRELs release. -/
theorem Inv.released_eq (hinv : Inv setting world) :
    world.handedByServer.filter (fun m ↦ m.qos = .exactlyOnce) =
      (Inbound.handshakes world.served).map fun p ↦ { p with dup := false } := by
  rw [hinv.server.released, (Inbound.Receiver.meets_after world.served).released, List.map_map]
  rfl

end Handed

section Responses

variable {setting : Setting} {world : World} {op : Waiter} {id : PacketId}

/-- The operations keep their own invariant, and their requests are numbered apart. -/
theorem issues_of_run {store : Store} {actions : List Action}
    (run : Run (step setting) (Steady setting) (init setting store) actions world)
    (hbound : world.client.allocations ≤ 65535) :
    Operations.Inv setting.requests world.client ∧ Issues setting world.client := by
  induction run with
  | refl =>
    refine ⟨Operations.inv_init _ _, ?_, List.nodup_nil⟩
    intro packet hmem
    cases hmem
  | tail _ _ hstep ih =>
    have hclient := clientStep_of_step hstep
    obtain ⟨hops, hissues⟩ := ih ((allocations_le_of_clientStep hclient).trans hbound)
    exact ⟨operations_inv_step hops hbound hclient, issues_step hissues hops hclient⟩

end Responses

def greeting : PublishRequest :=
  { topic := "t", payload := [1], qos := .exactlyOnce, retain := false }

def greetingSetting : Setting :=
  { version := .v311, connection := 0, clientId := "c", requests := fun _ ↦ .publish greeting }

/-- A client that publishes, and one that subscribes. -/
def greetingStore : Store :=
  { broker :=
      (((Broker.new.registerSession "c" 0 none true).2.registerSession "s" 1 none true).2.subscribe
        "s" [{ filter := "t", qos := .atMostOnce }]).2
    channels := fun _ ↦ .new }

/-- What both parties send for it. -/
def greetingCommands : List WriteCmd :=
  [.publish (Operations.publishPacket greeting (some 1)), .packet (.pubrec 1), .packet (.pubrel 1),
    .packet (.pubcomp 1), .packet .pingreq, .packet .pingresp]

theorem greetingCommands_sendable : ∀ cmd ∈ greetingCommands, cmd.Sendable .v311 := by
  have hpublish : Codec.Sendable .v311
      (.publish (Operations.publishPacket greeting (some 1))) :=
    .of_body rfl ⟨by decide, carries_default .v311⟩ (by decide) (by decide)
  have hpubrec : Codec.Sendable .v311 (.pubrec 1) :=
    .of_body rfl trivial (by decide) (by decide)
  have hpubrel : Codec.Sendable .v311 (.pubrel 1) :=
    .of_body rfl trivial (by decide) (by decide)
  have hpubcomp : Codec.Sendable .v311 (.pubcomp 1) :=
    .of_body rfl trivial (by decide) (by decide)
  have hpingreq : Codec.Sendable .v311 .pingreq :=
    .of_body rfl trivial (by decide) (by decide)
  have hpingresp : Codec.Sendable .v311 .pingresp :=
    .of_body rfl trivial (by decide) (by decide)
  intro cmd hcmd packet hpacket
  simp only [greetingCommands, List.mem_cons, List.not_mem_nil, or_false] at hcmd
  obtain rfl | rfl | rfl | rfl | rfl | rfl := hcmd <;> obtain rfl := Option.some.inj hpacket
  · exact hpublish
  · exact hpubrec
  · exact hpubrel
  · exact hpubcomp
  · exact hpingreq
  · exact hpingresp

end HotaruMqtt.Link

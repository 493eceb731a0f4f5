import HotaruMqtt.Protocol.Responses

/-!
# Deliveries in order

Between a client and its server the messages of QoS 2 are handed on in the order in which their
sender has enqueued them, each of them once, and so are all the others; a message of QoS 2 may
fall behind later ones of another level, for it waits for its PUBREL. Once nothing is under way,
everything that was enqueued was handed on. This holds in both directions, for the requests of the
client and for the fan-outs of the broker.
-/

namespace HotaruMqtt.Link

open Library Codec Handover

/-- The messages that were handed on are the first that were sent, on either way. A message of QoS 2
is handed on by `release`, any other by `pass`. -/
structure InOrder {α : Type} (qos : α → QoS) (release pass : PublishPacket → α)
    (sent : List Packet) (handed : List α) : Prop where
  released : (handed.filter fun m ↦ qos m = .exactlyOnce) <+: (messages sent).map release
  passed : (handed.filter fun m ↦ qos m ≠ .exactlyOnce) <+: (sent.filterMap direct).map pass

/-- All messages that were sent were handed on. -/
structure AllInOrder {α : Type} (qos : α → QoS) (release pass : PublishPacket → α)
    (sent : List Packet) (handed : List α) : Prop where
  released : (handed.filter fun m ↦ qos m = .exactlyOnce) = (messages sent).map release
  passed : (handed.filter fun m ↦ qos m ≠ .exactlyOnce) = (sent.filterMap direct).map pass

/-- What a server hands on when a PUBREL comes in. -/
def withoutDup (p : PublishPacket) : PublishPacket := { p with dup := false }

/-- Both parties run, and everything they have enqueued was written and read. -/
structure Settled (setting : Setting) (world : World) : Prop where
  clientLive : world.client.channel.receiving = true
  serverLive : (world.server setting).receiving = true
  clientLooping : world.clientLoop = .looping
  serverLooping : world.serverStopped = false
  clientWritten : world.clientWritten = world.client.channel.commands.length
  serverWritten : world.serverWritten = (world.server setting).commands.length
  toServer : world.toServer = []
  toClient : world.toClient = []

section Order

variable {setting : Setting} {world : World}

/-- A server numbers its messages and sends no other PUBLISH, so no handshake opens twice. -/
theorem nodup_opens_server (h : ServerInv setting world)
    (hlength : (numbered (world.server setting).commands).length ≤ 65535) :
    ((Drain.seen setting.version (world.server setting).commands).filterMap opens).Nodup := by
  apply List.Nodup.sublist _ (h.counted.nodup hlength)
  rw [Drain.seen, List.filterMap_map]
  apply filterMap_filterMap_sublist
  intro cmd hcmd packet id hcarried hopens
  cases cmd with
  | publish p =>
    obtain rfl := Option.some.inj hcarried
    obtain ⟨hqos, hid⟩ := Option.ite_none_right_eq_some.mp hopens
    exact hid
  | packet packet =>
    obtain rfl := Option.some.inj hcarried
    cases packet with
    | publish p =>
      have hmem : .publish p ∈ (world.server setting).commands.filterMap control :=
        List.mem_filterMap.mpr ⟨_, hcmd, rfl⟩
      exact absurd hmem (h.plain p)
    | _ => cases hopens
  | flush | shutdown => cases hcarried

/-- The requests of the client on the server, while no identifier is used twice. -/
theorem inOrder_server (hinv : Inv setting world) (hissues : Issues setting world.client) :
    InOrder PublishPacket.qos withoutDup id
      (Drain.seen setting.version world.client.channel.commands) world.handedByServer where
  released := by
    rw [hinv.released_eq]
    exact (hinv.joined.duplex.there.handshakes_prefix (nodup_opens hissues.nodup)).map withoutDup
  passed := by
    rw [List.map_id]
    exact hinv.server.prompt.trans (hinv.joined.outward.read_isPrefix.filterMap direct)

/-- The fan-outs of the broker on the client. -/
theorem inOrder_client (hinv : Inv setting world) (hclient : ClientInv world)
    (hlength : (numbered (world.server setting).commands).length ≤ 65535) :
    InOrder IncomingPublish.qos incomingFromPacket incomingFromPacket
      (Drain.seen setting.version (world.server setting).commands) world.handedByClient where
  released := by
    rw [hclient.released, (Inbound.Receiver.meets_after _).released]
    exact (hinv.joined.duplex.back.handshakes_prefix
      (nodup_opens_server hinv.server hlength)).map incomingFromPacket
  passed :=
    hclient.prompt.trans
      ((hinv.joined.inward.read_isPrefix.filterMap direct).map incomingFromPacket)

/-- In a settled world each party has read what the other has enqueued. -/
theorem Settled.read_eq (h : Settled setting world) (hinv : Inv setting world) :
    world.served = Drain.seen setting.version world.client.channel.commands ∧
      world.client.received = Drain.seen setting.version (world.server setting).commands := by
  have houtward := hinv.joined.outward
  have hinward := hinv.joined.inward
  simp only [World.clientEnd, World.serverEnd, h.toServer, h.toClient, h.clientLive,
    h.serverLive] at houtward hinward
  exact ⟨houtward.read_eq h.clientWritten, hinward.read_eq h.serverWritten⟩

theorem Settled.handovers (h : Settled setting world) (hinv : Inv setting world) :
    let sent := Drain.seen setting.version world.client.channel.commands
    let answered := Drain.seen setting.version (world.server setting).commands
    Handover true true sent sent answered answered ∧
      Handover true true answered answered sent sent := by
  obtain ⟨hserved, hreceived⟩ := h.read_eq hinv
  have hduplex := hinv.joined.duplex
  simp only [World.clientEnd, World.serverEnd, h.clientLive, h.serverLive, hserved,
    hreceived] at hduplex
  exact ⟨hduplex.there, hduplex.back⟩

/-- The server hands the messages of the client on in the order they were enqueued. -/
theorem allInOrder_server (h : Settled setting world) (hinv : Inv setting world)
    (hissues : Issues setting world.client) :
    AllInOrder PublishPacket.qos withoutDup id
      (Drain.seen setting.version world.client.channel.commands) world.handedByServer where
  released := by
    rw [hinv.released_eq, (h.read_eq hinv).1,
      (h.handovers hinv).1.handshakes_eq (nodup_opens hissues.nodup)]
    rfl
  passed := by
    rw [List.map_id, hinv.server.promptAll h.serverLooping, (h.read_eq hinv).1]

/-- The client hands on those of the server in their order. -/
theorem allInOrder_client (h : Settled setting world) (hinv : Inv setting world)
    (hclient : ClientInv world)
    (hlength : (numbered (world.server setting).commands).length ≤ 65535) :
    AllInOrder IncomingPublish.qos incomingFromPacket incomingFromPacket
      (Drain.seen setting.version (world.server setting).commands) world.handedByClient where
  released := by
    rw [hclient.released, (Inbound.Receiver.meets_after _).released, (h.read_eq hinv).2,
      (h.handovers hinv).2.handshakes_eq (nodup_opens_server hinv.server hlength)]
  passed := by
    rw [hclient.promptAll h.clientLooping, (h.read_eq hinv).2]

/-- The run is steady, and the session of the client is not abandoned as long as its loop runs. -/
def Orderly (setting : Setting) (world : World) (action : Action) : Prop :=
  Steady setting world action ∧ Lasting world action

/-- Both invariants hold after every orderly run. -/
theorem handed_of_run {store : Store} {actions : List Action}
    (run : Run (step setting) (Orderly setting) (init setting store) actions world) :
    Inv setting world ∧ ClientInv world := by
  induction run with
  | refl => exact ⟨inv_init setting store, clientInv_init setting store⟩
  | tail _ horderly hstep ih =>
    obtain ⟨hinv, hclient⟩ := ih
    exact ⟨inv_step hinv horderly.1 hstep, clientInv_step hclient horderly.2 hstep⟩

/-- Messages are handed on in the order of their sender and at most once in both directions,
however the steps of both parties, of the wires and of the other clients come, and all of them are
handed on once the connection has settled. What the server has handed on went through its chain and
its fan-out. -/
theorem messages_in_order {store : Store} {actions : List Action}
    (run : Run (step setting) (Orderly setting) (init setting store) actions world)
    (hallocations : world.client.allocations ≤ 65535)
    (hnumbered : (numbered (world.server setting).commands).length ≤ 65535) :
    let requests := Drain.seen setting.version world.client.channel.commands
    let fanOuts := Drain.seen setting.version (world.server setting).commands
    InOrder PublishPacket.qos withoutDup id requests world.handedByServer ∧
      InOrder IncomingPublish.qos incomingFromPacket incomingFromPacket fanOuts
        world.handedByClient ∧
      (Settled setting world →
        AllInOrder PublishPacket.qos withoutDup id requests world.handedByServer ∧
          AllInOrder IncomingPublish.qos incomingFromPacket incomingFromPacket fanOuts
            world.handedByClient) ∧
      ∀ action next, step setting world action = some next → Serves setting world action next := by
  intro requests fanOuts
  obtain ⟨hinv, hclient⟩ := handed_of_run run
  obtain ⟨-, hissues⟩ := issues_of_run (run.mono fun _ _ horderly ↦ horderly.1) hallocations
  refine ⟨inOrder_server hinv hissues, inOrder_client hinv hclient hnumbered, ?_,
    fun action next hstep ↦ serves_of_step hstep⟩
  intro hsettled
  exact ⟨allInOrder_server hsettled hinv hissues,
    allInOrder_client hsettled hinv hclient hnumbered⟩

end Order

/-- A message of another client, and what the fan-out makes of it. -/
def news : PublishPacket :=
  { topic := "t", payload := [2], dup := false, qos := .exactlyOnce, retain := false
    packetId := some 7 }

def newsSent : PublishPacket := { news with qos := .atLeastOnce, packetId := some 1 }

def newsStore : Store :=
  { greetingStore with
    broker := (greetingStore.broker.subscribe "c" [{ filter := "t", qos := .atLeastOnce }]).2 }

theorem newsCommands_sendable :
    ∀ cmd ∈ [.publish newsSent, .packet (.puback 1)] ++ greetingCommands, cmd.Sendable .v311 := by
  have hpublish : Codec.Sendable .v311 (.publish newsSent) :=
    .of_body rfl ⟨by decide, carries_default .v311⟩ (by decide) (by decide)
  have hpuback : Codec.Sendable .v311 (.puback 1) :=
    .of_body rfl trivial (by decide) (by decide)
  intro cmd hcmd
  obtain hcmd | hcmd := List.mem_append.mp hcmd
  · intro packet hpacket
    simp only [List.mem_cons, List.not_mem_nil, or_false] at hcmd
    obtain rfl | rfl := hcmd <;> obtain rfl := Option.some.inj hpacket
    · exact hpublish
    · exact hpuback
  · exact greetingCommands_sendable cmd hcmd

/-- A message of QoS 2 for the server and one of QoS 1 for the client cross, with a tick between the
two packets that the client reads first. -/
def newsRun : List Action :=
  let surroundings : Surroundings :=
    { endpoints := [], order := [("s", .atMostOnce), ("c", .atLeastOnce)] }
  [.other (.publish "d" news surroundings.order),
    .client (.start 0), .client (.register 0), .client (.send 0), .clientWrites,
    .serverReads surroundings, .serverWrites, .serverWrites, .clientReads, .clientTicks 0,
    .clientReads, .clientWrites, .clientWrites, .clientWrites, .serverReads surroundings,
    .serverReads surroundings, .serverReads surroundings, .serverWrites, .serverWrites,
    .clientReads, .clientReads]

/-- The check behind `Orderly` for runs that write given commands and do not end the session. -/
def keepsOrder (cmds : List WriteCmd) (world : World) : Action → Bool
  | .client .abandon => false
  | action => keepsSteady greetingSetting cmds world action

theorem orderly_of_keepsOrder {cmds : List WriteCmd}
    (hcmds : ∀ cmd ∈ cmds, cmd.Sendable .v311) (world : World) (action : Action)
    (h : keepsOrder cmds world action = true) : Orderly greetingSetting world action := by
  constructor
  · apply steady_of_keepsSteady greetingSetting hcmds world action
    unfold keepsOrder at h
    split at h
    · cases h
    · exact h
  · rintro rfl
    cases h

set_option maxRecDepth 8000 in
theorem messages_in_order_crossing :
    ∃ world, Run (step greetingSetting) (Orderly greetingSetting)
        (init greetingSetting newsStore) newsRun world ∧
      world.handedByServer.filter (fun m ↦ m.qos = .exactlyOnce) =
        [Operations.publishPacket greeting (some 1)] ∧
      world.handedByClient.filter (fun m ↦ m.qos ≠ .exactlyOnce) =
        [incomingFromPacket newsSent] ∧
      (world.store.channels 1).commands = [
        .publish { news with qos := .atMostOnce, packetId := none },
        .publish { Operations.publishPacket greeting none with qos := .atMostOnce }] := by
  obtain ⟨world, run, hallocations, hclient, hserver, hsettled, hqueue⟩ : ∃ world,
      Run (step greetingSetting) (Orderly greetingSetting) (init greetingSetting newsStore)
        newsRun world ∧ world.client.allocations = 1 ∧
      world.client.channel.commands = [.publish (Operations.publishPacket greeting (some 1)),
        .packet (.puback 1), .packet .pingreq, .packet (.pubrel 1)] ∧
      (world.server greetingSetting).commands = [.publish newsSent, .packet (.pubrec 1),
        .packet .pingresp, .packet (.pubcomp 1)] ∧ Settled greetingSetting world ∧
      (world.store.channels 1).commands = [
        .publish { news with qos := .atMostOnce, packetId := none },
        .publish { Operations.publishPacket greeting none with qos := .atMostOnce }] :=
    ⟨_, Run.of_guarded (orderly_of_keepsOrder newsCommands_sendable) rfl, rfl, rfl, rfl,
      ⟨rfl, rfl, rfl, rfl, rfl, rfl, rfl, rfl⟩, rfl⟩
  have hnumbered : (numbered (world.server greetingSetting).commands).length ≤ 65535 := by
    rw [hserver]
    decide
  obtain ⟨-, -, hall, -⟩ := messages_in_order run (by rw [hallocations]; decide) hnumbered
  obtain ⟨hrequests, hfanOuts⟩ := hall hsettled
  rw [hclient] at hrequests
  rw [hserver] at hfanOuts
  exact ⟨world, run, hrequests.released, hfanOuts.passed, hqueue⟩

end HotaruMqtt.Link

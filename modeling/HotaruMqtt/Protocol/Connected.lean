import HotaruMqtt.Protocol.Agreement

/-!
# A connected client has its session

A client that takes itself for connected has a server that has registered its session, under its
identifier, with its will and in its version; a client that was refused has a server that has
refused it, with the same code.
-/

namespace HotaruMqtt.Agreement

open Library Codec

/-- What the server has registered and answered. -/
structure ServerSide (config : MqttClientConfig) (connection : ConnectionId)
    (server : Server.World) : Prop where
  unregistered : server.phase = .connecting → server.registration = none
  registered : ∀ client sessionPresent, server.phase = .registered client sessionPresent →
    Joined config connection server
  answers : ∀ ack,
    .connack ack ∈ (server.store.channels connection).commands.filterMap Link.control →
    Answered server.phase ∧ Decided config connection server ack.returnCode

section ServerSide

variable {config : MqttClientConfig} {connection : ConnectionId} {server next : Server.World}
  {action : Server.Action} {code : ConnackReturnCode}

theorem Decided.version (h : Decided config connection server code) :
    (server.store.channels connection).version = config.protocolVersion := by
  unfold Decided at h
  split at h
  · exact h.version
  · exact h.version

/-- Nothing that matters has happened to the server. -/
theorem Decided.congr (h : Decided config connection server code)
    (hphase : next.phase = server.phase) (hregistration : next.registration = server.registration)
    (hbroker : next.store.broker = server.store.broker)
    (hversion : (next.store.channels connection).version =
      (server.store.channels connection).version) : Decided config connection next code := by
  unfold Decided at h ⊢
  split at h
  · rename_i hcode
    rw [if_pos hcode]
    constructor
    · exact hregistration.trans h.registration
    · rw [hphase, hbroker]
      exact h.owner
    · exact hversion.trans h.version
  · rename_i hcode
    rw [if_neg hcode]
    exact ⟨hphase.trans h.returned, hregistration.trans h.registration, hversion.trans h.version⟩

theorem Joined.decided (h : Joined config connection server) :
    Decided config connection server .accepted :=
  h

theorem ServerSide.congr (h : ServerSide config connection server)
    (hphase : next.phase = server.phase) (hregistration : next.registration = server.registration)
    (hbroker : next.store.broker = server.store.broker)
    (hversion : (next.store.channels connection).version =
      (server.store.channels connection).version)
    (hcommands : (next.store.channels connection).commands =
      (server.store.channels connection).commands) : ServerSide config connection next where
  unregistered := by
    rw [hphase, hregistration]
    exact h.unregistered
  registered := by
    rw [hphase]
    intro client sessionPresent hregistered
    have hjoined := (h.registered client sessionPresent hregistered).decided
    exact hjoined.congr hphase hregistration hbroker hversion
  answers := by
    rw [hcommands, hphase]
    intro ack hmem
    obtain ⟨hanswered, hdecided⟩ := h.answers ack hmem
    exact ⟨hanswered, hdecided.congr hphase hregistration hbroker hversion⟩

/-- The server takes back neither an acceptance nor a refusal. -/
theorem decided_step (hunregistered : server.phase = .connecting → server.registration = none)
    (hmove : ServerMove connection server action next)
    (h : Decided config connection server code) : Decided config connection next code := by
  have hconnecting (hphase : server.phase = .connecting) : False := by
    have hnone := hunregistered hphase
    unfold Decided at h
    split at h
    · rw [h.registration] at hnone
      cases hnone
    · rw [h.returned] at hphase
      cases hphase
  cases hmove with
  | accepts auth connect wire waits taken => exact (hconnecting waits).elim
  | givesUp result waits => exact (hconnecting waits).elim
  | welcomes client sessionPresent waits channel registration broker answered =>
    have hversion := (Link.Extends.reply (server.store.channels connection)
      (.connack { sessionPresent, returnCode := .accepted })).version
    rw [← channel] at hversion
    unfold Decided at h ⊢
    split at h
    · rename_i hcode
      rw [if_pos hcode]
      refine ⟨registration.trans h.registration, ?_, hversion.trans h.version⟩
      rw [broker]
      exact fun _ ↦ h.owner (by rw [waits]; trivial)
    · rw [h.returned] at waits
      cases waits
  | proceeds added grows plain registration owner phase =>
    unfold Decided at h ⊢
    split at h
    · rename_i hcode
      rw [if_pos hcode]
      refine ⟨registration.trans h.registration, ?_, grows.version.trans h.version⟩
      intro hpresent
      rw [owner hpresent _ (Option.mem_def.mpr h.registration)]
      apply h.owner
      obtain ⟨hsame, -⟩ | ⟨hreturned, hanswered, -⟩ := phase
      · rw [← hsame]
        exact hpresent
      · cases hphase : server.phase with
        | returned result => exact absurd hphase (hreturned result)
        | connecting =>
          rw [hphase] at hanswered
          cases hanswered
        | registered | looping | leaving => trivial
    · rename_i hcode
      rw [if_neg hcode]
      refine ⟨?_, registration.trans h.registration, grows.version.trans h.version⟩
      obtain ⟨hsame, -⟩ | ⟨hreturned, -⟩ := phase
      · exact hsame.trans h.returned
      · exact absurd h.returned (hreturned _)

/-- A CONNECT is accepted. -/
theorem accept_of_accepted (connection : ConnectionId) (server : Server.World)
    {auth : Server.AuthResult} (hauth : auth.accepted = true) (connect : ConnectPacket) :
    let accepted := server.accept connection auth connect
    let client := Server.assignedClientId connection connect
    let will := Server.connectWill connect
    (∃ sessionPresent, accepted.phase = .registered client sessionPresent) ∧
      accepted.registration = some (client, will) ∧
      accepted.store.broker.ownerOf client = some (connection, will) ∧
      accepted.store.channels connection =
        { server.store.channels connection with version := connect.version } := by
  intro accepted client will
  simp only [accepted, Server.World.accept, hauth, if_true]
  refine ⟨⟨_, rfl⟩, rfl, ?_, Function.update_self ..⟩
  rw [Broker.ownerOf_registerSession, Function.update_self]

/-- A CONNECT is refused. -/
theorem accept_of_refused (connection : ConnectionId) (server : Server.World)
    {auth : Server.AuthResult} (hauth : auth.accepted = false) (connect : ConnectPacket) :
    let refused := server.accept connection auth connect
    refused.phase = .returned (.error (.protocol (.connectionRefused auth.returnCode))) ∧
      refused.registration = server.registration ∧
      refused.store.channels connection =
        ({ server.store.channels connection with version := connect.version }.reply
          (.connack { sessionPresent := false, returnCode := auth.returnCode })).1 := by
  intro refused
  simp only [refused, Server.World.accept, hauth, Bool.false_eq_true, if_false]
  exact ⟨rfl, rfl, Function.update_self ..⟩

theorem mem_control_of_extends {channel next : MqttChannel} {packet answer : Packet}
    (h : Link.Extends channel next [.packet answer])
    (hmem : packet ∈ next.commands.filterMap Link.control) :
    packet ∈ channel.commands.filterMap Link.control ∨ packet = answer := by
  rw [h.commands, List.filterMap_append, List.mem_append] at hmem
  obtain hmem | hmem := hmem
  · exact .inl hmem
  · unfold Handover.ifLive at hmem
    split at hmem
    · exact .inr (List.mem_singleton.mp hmem)
    · cases hmem

/-- The server reads the CONNECT of the client. -/
theorem serverSide_accept (h : ServerSide config connection server)
    (hphase : server.phase = .connecting) {auth : Server.AuthResult}
    (hauth : auth.accepted = false → auth.returnCode ≠ .accepted) :
    ServerSide config connection (server.accept connection auth (Client.buildConnect config)) := by
  have hnone (ack : ConnackPacket) :
      .connack ack ∉ (server.store.channels connection).commands.filterMap Link.control := by
    intro hmem
    obtain ⟨hanswered, -⟩ := h.answers ack hmem
    rw [hphase] at hanswered
    cases hanswered
  cases haccepted : auth.accepted with
  | true =>
    obtain ⟨⟨sessionPresent, hregistered⟩, hregistration, howner, hchannel⟩ :=
      accept_of_accepted connection server haccepted (Client.buildConnect config)
    rw [connectWill_buildConnect] at hregistration howner
    constructor
    · intro hconnecting
      rw [hregistered] at hconnecting
      cases hconnecting
    · intro _ _ _
      exact ⟨hregistration, fun _ ↦ howner, by rw [hchannel]; rfl⟩
    · intro ack hmem
      rw [hchannel] at hmem
      exact absurd hmem (hnone ack)
  | false =>
    obtain ⟨hreturned, hregistration, hchannel⟩ :=
      accept_of_refused connection server haccepted (Client.buildConnect config)
    have hextends := Link.Extends.reply
      { server.store.channels connection with version := config.protocolVersion }
      (.connack { sessionPresent := false, returnCode := auth.returnCode })
    constructor
    · intro hconnecting
      rw [hreturned] at hconnecting
      cases hconnecting
    · intro client sessionPresent hregistered
      rw [hreturned] at hregistered
      cases hregistered
    · intro ack hmem
      rw [hchannel] at hmem
      obtain hmem | hack := mem_control_of_extends hextends hmem
      · exact absurd hmem (hnone ack)
      · obtain rfl := Packet.connack.inj hack
        rw [hreturned]
        refine ⟨trivial, ?_⟩
        rw [Decided, if_neg (hauth haccepted)]
        refine ⟨hreturned, hregistration.trans (h.unregistered hphase), ?_⟩
        rw [hchannel]
        exact hextends.version

/-- The server takes a step that reads no other CONNECT than that of the client. -/
theorem serverSide_step (h : ServerSide config connection server)
    (hmove : ServerMove connection server action next)
    (hconnect : ∀ connect wire, server.phase = .connecting →
      readPacket server.wire default = .ok (.connect connect, wire) →
        connect = Client.buildConnect config)
    (hauth : ∀ auth, action = .connect auth → auth.accepted = false →
      auth.returnCode ≠ .accepted) : ServerSide config connection next := by
  have hdecided (code : ConnackReturnCode) (hbefore : Decided config connection server code) :
      Decided config connection next code := decided_step h.unregistered hmove hbefore
  cases hmove with
  | accepts auth connect wire waits taken =>
    obtain rfl := hconnect connect wire waits taken
    have hsame : ServerSide config connection { server with wire } := h.congr rfl rfl rfl rfl rfl
    exact serverSide_accept hsame waits (hauth auth rfl)
  | givesUp result waits same unregistered phase =>
    constructor
    · intro _
      exact unregistered.trans (h.unregistered waits)
    · intro client sessionPresent hregistered
      rw [phase] at hregistered
      cases hregistered
    · intro ack hmem
      rw [same] at hmem
      obtain ⟨hanswered, -⟩ := h.answers ack hmem
      rw [waits] at hanswered
      cases hanswered
  | welcomes client sessionPresent waits channel registration broker answered =>
    constructor
    · intro hconnecting
      rw [hconnecting] at answered
      cases answered
    · intro client sessionPresent hregistered
      rw [hregistered] at answered
      cases answered
    · intro ack hmem
      rw [channel] at hmem
      refine ⟨answered, hdecided _ ?_⟩
      obtain hmem | hack := mem_control_of_extends (Link.Extends.reply _ _) hmem
      · exact (h.answers ack hmem).2
      · obtain rfl := Packet.connack.inj hack
        exact (h.registered client sessionPresent waits).decided
  | proceeds added grows plain registration owner phase =>
    constructor
    · intro hconnecting
      obtain ⟨hsame, -⟩ | ⟨-, -, hanswered⟩ := phase
      · rw [hsame] at hconnecting
        exact registration.trans (h.unregistered hconnecting)
      · rw [hconnecting] at hanswered
        cases hanswered
    · intro client sessionPresent hregistered
      obtain ⟨hsame, -⟩ | ⟨-, -, hanswered⟩ := phase
      · rw [hsame] at hregistered
        exact hdecided _ (h.registered client sessionPresent hregistered).decided
      · rw [hregistered] at hanswered
        cases hanswered
    · intro ack hmem
      rw [grows.commands, List.filterMap_append, List.mem_append] at hmem
      obtain hmem | hmem := hmem
      · obtain ⟨hanswered, hbefore⟩ := h.answers ack hmem
        refine ⟨?_, hdecided _ hbefore⟩
        obtain ⟨hsame, -⟩ | ⟨-, -, hanswered⟩ := phase
        · rw [hsame]
          exact hanswered
        · exact hanswered
      · unfold Handover.ifLive at hmem
        split at hmem
        · exact absurd hmem (plain ack)
        · cases hmem

end ServerSide

/-! ## The client and the wires -/

/-- The packets of the commands that were written. -/
def carriedBy (cmds : List WriteCmd) (written : ℕ) : List Packet :=
  (cmds.take written).filterMap WriteCmd.carried

/-- What is enqueued behind does not change what was written. -/
theorem carriedBy_of_isPrefix {cmds more : List WriteCmd} {written : ℕ} (hinitial : cmds <+: more)
    (h : written ≤ cmds.length) : carriedBy more written = carriedBy cmds written := by
  obtain ⟨added, rfl⟩ := hinitial
  rw [carriedBy, List.take_append_of_le_length h, carriedBy]

theorem carriedBy_succ {cmds : List WriteCmd} {written : ℕ} {cmd : WriteCmd}
    (h : cmds[written]? = some cmd) :
    carriedBy cmds (written + 1) = carriedBy cmds written ++ cmd.carried.toList := by
  rw [carriedBy, List.take_add_one, h, List.filterMap_append, carriedBy]
  cases hcarried : cmd.carried <;> simp [hcarried]

/-- The client has not read its CONNACK yet. -/
def Expecting : Client.Phase → Prop
  | .opening | .awaitingConnack => True
  | .bound | .waiting _ | .looping | .leaving | .returned _ => False

theorem Bound.not_opening {phase : Client.Phase} (h : Bound phase) : phase ≠ .opening := by
  rintro rfl
  cases h

/-- The CONNECT is the first that the client enqueues. -/
structure ClientSide (config : MqttClientConfig) (client : Client.World) : Prop where
  opening : client.phase = .opening →
    client.channel.commands = [] ∧ client.channel.receiving = true
  opened : client.phase ≠ .opening → client.channel.version = config.protocolVersion ∧
    [.packet (.connect (Client.buildConnect config))] <+: client.channel.commands

structure Inv (config : MqttClientConfig) (connection : ConnectionId) (world : World) : Prop where
  client : ClientSide config world.client
  server : ServerSide config connection world.server
  clientWritten_le : world.clientWritten ≤ world.client.channel.commands.length
  serverWritten_le : world.serverWritten ≤ (world.channel connection).commands.length
  outward : world.server.phase = .connecting → Leads config.protocolVersion
    (carriedBy world.client.channel.commands world.clientWritten) world.server.wire
  inward : Expecting world.client.phase → Leads config.protocolVersion
    (carriedBy (world.channel connection).commands world.serverWritten) world.client.wire
  verdict : ∀ code ∈ world.verdict, Decided config connection world.server code
  bound : Bound world.client.phase → world.verdict = some .accepted

section Steps

variable {config : MqttClientConfig} {connection : ConnectionId} {world next : World}
  {action : Action}

theorem clientSide_step {client next : Client.World} {action : Client.Action}
    (h : ClientSide config client) (hmove : ClientMove config client action next) :
    ClientSide config next ∧ client.channel.commands <+: next.channel.commands := by
  cases hmove with
  | connects waits wire version sent =>
    obtain ⟨hempty, hreceiving⟩ := h.opening waits
    obtain ⟨hphase, hcommands⟩ | hdead := sent
    · refine ⟨⟨?_, ?_⟩, ?_⟩
      · rw [hphase]
        exact fun h ↦ by cases h
      · rw [hcommands, hempty]
        exact fun _ ↦ ⟨version, List.prefix_rfl⟩
      · rw [hcommands]
        exact List.prefix_append _ _
    · rw [hreceiving] at hdead
      cases hdead
  | binds ack rest waits taken accepted channel phase =>
    rw [channel]
    refine ⟨⟨?_, ?_⟩, List.prefix_rfl⟩
    · rw [phase]
      exact fun h ↦ by cases h
    · rw [channel]
      exact fun _ ↦ h.opened (by rw [waits]; exact fun h ↦ by cases h)
  | givesUp result waits channel phase =>
    rw [channel]
    refine ⟨⟨?_, ?_⟩, List.prefix_rfl⟩
    · rw [phase]
      exact fun h ↦ by cases h
    · rw [channel]
      exact fun _ ↦ h.opened (by rw [waits]; exact fun h ↦ by cases h)
  | proceeds added bound version grows phase notConnack =>
    obtain ⟨hversion, hconnect⟩ := h.opened bound.not_opening
    have hphase : next.phase ≠ .opening := by
      obtain hbound | ⟨result, hreturned⟩ := phase
      · exact hbound.not_opening
      · rw [hreturned]
        exact fun h ↦ by cases h
    have hinitial : client.channel.commands <+: next.channel.commands := by
      rw [grows]
      exact List.prefix_append _ _
    exact ⟨⟨fun hopening ↦ absurd hopening hphase,
      fun _ ↦ ⟨version.trans hversion, hconnect.trans hinitial⟩⟩, hinitial⟩

/-- What the server takes for a CONNECT is the CONNECT of the client. -/
theorem Inv.connect_of_read (h : Inv config connection world) {connect : ConnectPacket}
    {wire : Bytes} (hphase : world.server.phase = .connecting)
    (hread : readPacket world.server.wire default = .ok (.connect connect, wire)) :
    connect = Client.buildConnect config := by
  have hleads := h.outward hphase
  obtain ⟨first, later, hfirst, -⟩ := hleads.packetType_of_read hread
  have hopened : world.client.phase ≠ .opening := by
    intro hopening
    rw [(h.client.opening hopening).1] at hfirst
    simp [carriedBy] at hfirst
  obtain ⟨-, more, hcommands⟩ := h.client.opened hopened
  rw [← hcommands] at hfirst hleads
  cases hwritten : world.clientWritten with
  | zero =>
    rw [hwritten] at hfirst
    cases hfirst
  | succ written =>
    rw [hwritten] at hleads
    obtain ⟨rest, hread'⟩ := hleads.connect_of_read default
    rw [hread, seenIn_buildConnect] at hread'
    exact Packet.connect.inj (Prod.mk.inj (Except.ok.inj hread')).1

theorem inv_init (config : MqttClientConfig) (connection : ConnectionId) (store : Store) :
    Inv config connection (init connection store) := by
  have hchannel : (init connection store).channel connection = .new := Function.update_self ..
  constructor
  · exact ⟨fun _ ↦ ⟨rfl, rfl⟩, fun hopened ↦ absurd rfl hopened⟩
  · refine ⟨fun _ ↦ rfl, ?_, ?_⟩
    · intro client sessionPresent hregistered
      cases hregistered
    intro ack hmem
    change .connack ack ∈ ((init connection store).channel connection).commands.filterMap
      Link.control at hmem
    rw [hchannel] at hmem
    cases hmem
  · exact Nat.le_refl 0
  · exact Nat.zero_le _
  · exact fun _ ↦ .nothing
  · intro _
    rw [hchannel]
    exact .nothing
  · exact fun _ h ↦ by cases h
  · exact fun h ↦ by cases h

/-- A server only appends to its queue, and a wire is read only after CONNECT. -/
theorem serverMove_frame {server next : Server.World} {action : Server.Action}
    (hmove : ServerMove connection server action next) :
    (server.store.channels connection).commands <+: (next.store.channels connection).commands ∧
      (next.phase = .connecting → server.phase = .connecting ∧ next.wire = server.wire) := by
  have hinitial {channel channel' : MqttChannel} {added : List WriteCmd}
      (hextends : Link.Extends channel channel' added) :
      channel.commands <+: channel'.commands := by
    rw [hextends.commands]
    exact List.prefix_append _ _
  cases hmove with
  | accepts auth connect wire waits taken =>
    cases hauth : auth.accepted with
    | true =>
      obtain ⟨⟨sessionPresent, hphase⟩, -, -, hchannel⟩ :=
        accept_of_accepted connection { server with wire } hauth connect
      rw [hchannel, hphase]
      exact ⟨List.prefix_rfl, fun hconnecting ↦ by cases hconnecting⟩
    | false =>
      obtain ⟨hphase, -, hchannel⟩ :=
        accept_of_refused connection { server with wire } hauth connect
      have hreply := hinitial (Link.Extends.reply
        { server.store.channels connection with version := connect.version }
        (.connack { sessionPresent := false, returnCode := auth.returnCode }))
      rw [hchannel, hphase]
      exact ⟨hreply, fun hconnecting ↦ by cases hconnecting⟩
  | givesUp result waits same unregistered phase =>
    rw [same, phase]
    exact ⟨List.prefix_rfl, fun hconnecting ↦ by cases hconnecting⟩
  | welcomes client sessionPresent waits channel registration broker answered =>
    rw [channel]
    refine ⟨hinitial (Link.Extends.reply _ _), ?_⟩
    intro hconnecting
    rw [hconnecting] at answered
    cases answered
  | proceeds added grows plain registration owner phase =>
    refine ⟨hinitial grows, ?_⟩
    intro hconnecting
    obtain ⟨hsame, hwire⟩ | ⟨-, -, hanswered⟩ := phase
    · exact ⟨hsame.symm.trans hconnecting, hwire⟩
    · rw [hconnecting] at hanswered
      cases hanswered

/-- A CONNACK that was written is answered for. -/
theorem Inv.decided_of_mem (h : Inv config connection world) {ack : ConnackPacket}
    (hmem : .connack ack ∈ (world.channel connection).commands.filterMap WriteCmd.carried) :
    Decided config connection world.server ack.returnCode := by
  obtain ⟨cmd, hcmd, hcarried⟩ := List.mem_filterMap.mp hmem
  apply (h.server.answers ack _).2
  refine List.mem_filterMap.mpr ⟨cmd, hcmd, ?_⟩
  cases cmd with
  | packet packet => exact hcarried
  | publish p => cases hcarried
  | flush | shutdown => cases hcarried

/-- What the client takes for a CONNACK is a CONNACK of the server. -/
theorem Inv.decided_of_read (h : Inv config connection world)
    (hphase : world.client.phase = .awaitingConnack) {code : ConnackReturnCode}
    (hverdict : verdictOf config world.client.wire = some code) :
    Decided config connection world.server code := by
  unfold verdictOf at hverdict
  split at hverdict
  · rename_i ack rest hread
    obtain rfl := Option.some.inj hverdict
    have hexpecting : Expecting world.client.phase := by
      rw [hphase]
      trivial
    obtain ⟨sent, hsent, hcode⟩ := (h.inward hexpecting).connack_of_read hread
    rw [hcode]
    apply h.decided_of_mem
    exact ((List.take_sublist _ _).filterMap WriteCmd.carried).subset hsent
  · cases hverdict

/-- The client takes a step other than reading its CONNACK. -/
theorem Inv.clientStep (h : Inv config connection world) {action : Client.Action}
    {client : Client.World} (hconnack : action ≠ .connack)
    (hmove : ClientMove config world.client action client) :
    Inv config connection { world with client } := by
  obtain ⟨hclient, hinitial⟩ := clientSide_step h.client hmove
  refine { h with
    client := hclient
    clientWritten_le := h.clientWritten_le.trans hinitial.length_le
    outward := ?_
    inward := ?_
    bound := ?_ }
  · intro hconnecting
    dsimp only
    rw [carriedBy_of_isPrefix hinitial h.clientWritten_le]
    exact h.outward hconnecting
  · intro hexpecting
    cases hmove with
    | connects waits wire version sent =>
      have hbefore : Expecting world.client.phase := by
        rw [waits]
        trivial
      have hleads := h.inward hbefore
      rw [← wire] at hleads
      exact hleads
    | binds => exact absurd rfl hconnack
    | givesUp result waits channel phase =>
      rw [phase] at hexpecting
      cases hexpecting
    | proceeds added bound version grows phase notConnack =>
      obtain hbound | ⟨result, hreturned⟩ := phase
      · cases hphase : client.phase with
        | opening | awaitingConnack =>
          rw [hphase] at hbound
          cases hbound
        | bound | waiting | looping | leaving | returned =>
          rw [hphase] at hexpecting
          cases hexpecting
      · rw [hreturned] at hexpecting
        cases hexpecting
  · intro hbound
    cases hmove with
    | connects waits wire version sent =>
      obtain ⟨hphase, -⟩ | hdead := sent
      · rw [hphase] at hbound
        cases hbound
      · rw [(h.client.opening waits).2] at hdead
        cases hdead
    | binds => exact absurd rfl hconnack
    | givesUp result waits channel phase =>
      rw [phase] at hbound
      cases hbound
    | proceeds added bound => exact h.bound bound

/-- The client reads its CONNACK. -/
theorem Inv.clientReads (h : Inv config connection world) {client : Client.World}
    (hmove : ClientMove config world.client .connack client) :
    Inv config connection
      { world with client, verdict := verdictOf config world.client.wire } := by
  obtain ⟨hclient, hinitial⟩ := clientSide_step h.client hmove
  have hoverall (hphase : world.client.phase = .awaitingConnack) (hnot : ¬ Expecting client.phase)
      (hbound : Bound client.phase → verdictOf config world.client.wire = some .accepted) :
      Inv config connection
        { world with client, verdict := verdictOf config world.client.wire } := by
    refine { h with
      client := hclient
      clientWritten_le := h.clientWritten_le.trans hinitial.length_le
      outward := ?_
      inward := fun hexpecting ↦ absurd hexpecting hnot
      verdict := fun code hcode ↦ h.decided_of_read hphase hcode
      bound := hbound }
    intro hconnecting
    dsimp only
    rw [carriedBy_of_isPrefix hinitial h.clientWritten_le]
    exact h.outward hconnecting
  cases hmove with
  | binds ack rest waits taken accepted channel phase =>
    apply hoverall waits
    · rw [phase]
      exact fun h ↦ by cases h
    · intro _
      rw [verdictOf, taken, ← accepted]
  | givesUp result waits channel phase =>
    apply hoverall waits
    · rw [phase]
      exact fun h ↦ by cases h
    · rw [phase]
      exact fun h ↦ by cases h
  | proceeds added bound version grows phase notConnack => exact absurd rfl notConnack

/-- The server takes a step. -/
theorem Inv.serverStep (h : Inv config connection world) {action : Server.Action}
    {server : Server.World} (hmove : ServerMove connection world.server action server)
    (hauth : ∀ auth, action = .connect auth → auth.accepted = false →
      auth.returnCode ≠ .accepted) : Inv config connection { world with server } := by
  obtain ⟨hinitial, hwaits⟩ := serverMove_frame hmove
  refine { h with
    server := serverSide_step h.server hmove (fun _ _ ↦ h.connect_of_read) hauth
    serverWritten_le := h.serverWritten_le.trans hinitial.length_le
    outward := ?_
    inward := ?_
    verdict := fun code hcode ↦ decided_step h.server.unregistered hmove (h.verdict code hcode) }
  · intro hconnecting
    obtain ⟨hbefore, hwire⟩ := hwaits hconnecting
    dsimp only
    rw [hwire]
    exact h.outward hbefore
  · intro hexpecting
    have hsame := carriedBy_of_isPrefix hinitial h.serverWritten_le
    have hleads := h.inward hexpecting
    unfold World.channel at hleads
    rw [← hsame] at hleads
    exact hleads

/-- Every orderly step keeps what is on the two wires in line with the parties. -/
theorem inv_step (h : Inv config connection world) (horderly : Orderly connection world action)
    (hstep : step config connection world action = some next) : Inv config connection next := by
  have hopened {cmd : WriteCmd}
      (hcmd : world.client.channel.commands[world.clientWritten]? = some cmd) :
      world.client.phase ≠ .opening := by
    intro hopening
    rw [(h.client.opening hopening).1] at hcmd
    cases hcmd
  cases effect_of_step hstep with
  | reads client move => exact h.clientReads move
  | client action client notConnack move => exact h.clientStep notConnack move
  | enqueues cmd channel grows =>
    have hextends := Link.Extends.send grows
    obtain ⟨hversion, hconnect⟩ := h.client.opened horderly
    have hinitial : world.client.channel.commands <+: channel.commands := by
      rw [hextends.commands]
      exact List.prefix_append _ _
    refine { h with
      client := ⟨fun hopening ↦ absurd hopening horderly,
        fun _ ↦ ⟨hextends.version.trans hversion, hconnect.trans hinitial⟩⟩
      clientWritten_le := h.clientWritten_le.trans hinitial.length_le
      outward := ?_ }
    intro hconnecting
    have hleads := h.outward hconnecting
    rw [← carriedBy_of_isPrefix hinitial h.clientWritten_le] at hleads
    exact hleads
  | clientWrites cmd bytes hnext encoded =>
    obtain ⟨hlt, -⟩ := List.getElem?_eq_some_iff.mp hnext
    refine { h with
      server := h.server.congr rfl rfl rfl rfl rfl
      clientWritten_le := hlt
      outward := ?_
      verdict := fun code hcode ↦ (h.verdict code hcode).congr rfl rfl rfl rfl }
    intro hconnecting
    dsimp only
    rw [carriedBy_succ hnext]
    exact (h.outward hconnecting).write (horderly cmd hnext) encoded
      fun _ _ ↦ (h.client.opened (hopened hnext)).1
  | clientFails cmd hnext =>
    exact { h with
      client := ⟨fun hopening ↦ absurd hopening (hopened hnext), h.client.opened⟩ }
  | server action server move =>
    apply h.serverStep move
    rintro auth rfl
    exact horderly
  | serverWrites cmd bytes hnext encoded =>
    obtain ⟨hlt, hget⟩ := List.getElem?_eq_some_iff.mp hnext
    refine { h with
      client := ⟨h.client.opening, h.client.opened⟩
      serverWritten_le := hlt
      inward := ?_ }
    intro hexpecting
    dsimp only
    change Leads config.protocolVersion
      (carriedBy (world.channel connection).commands (world.serverWritten + 1)) _
    rw [carriedBy_succ hnext]
    refine (h.inward hexpecting).write (horderly cmd hnext) encoded ?_
    intro ack hcarried
    have hmem : .connack ack ∈ (world.channel connection).commands.filterMap WriteCmd.carried :=
      List.mem_filterMap.mpr ⟨cmd, List.mem_of_getElem? hnext, hcarried⟩
    exact (h.decided_of_mem hmem).version
  | serverFails =>
    have hchannel : (world.setChannel connection
        { world.channel connection with receiving := false }).channel connection =
          { world.channel connection with receiving := false } := Function.update_self ..
    have hversion := congrArg MqttChannel.version hchannel
    have hcommands := congrArg MqttChannel.commands hchannel
    refine { h with
      server := h.server.congr rfl rfl rfl hversion hcommands
      serverWritten_le := ?_
      inward := ?_
      verdict := fun code hcode ↦ (h.verdict code hcode).congr rfl rfl rfl hversion }
    · rw [hcommands]
      exact h.serverWritten_le
    · rw [hcommands]
      exact h.inward

/-- Both parties agree on whether they are connected, however their steps, those of the wires, of
the operations and of the other clients come. A client behind its CONNACK was accepted. -/
theorem parties_agree {store : Store} {actions : List Action}
    (run : Run (step config connection) (Orderly connection) (init connection store) actions
      world) :
    (∀ code, world.verdict = some code → Decided config connection world.server code) ∧
      (Bound world.client.phase → Joined config connection world.server) := by
  have hinv : Inv config connection world :=
    run.invariant (inv_init config connection store) fun _ _ _ h horderly hstep ↦
      inv_step h horderly hstep
  exact ⟨hinv.verdict, fun hbound ↦ hinv.verdict _ (hinv.bound hbound)⟩

end Steps

def mournful : MqttClientConfig :=
  { clientId := "c", protocolVersion := .v311
    will := some { topic := "t", payload := [1], qos := .atLeastOnce, retain := false } }

def mournfulCommands : List WriteCmd :=
  [.packet (.connect (Client.buildConnect mournful)),
    .packet (.connack { sessionPresent := false, returnCode := .accepted })]

/-- The check behind `Orderly` for runs that write these commands and refuse nobody. -/
def keepsOrder (world : World) : Action → Bool
  | .enqueue _ => false
  | .clientWrites => world.client.channel.version = .v311 &&
      world.client.channel.commands[world.clientWritten]?.all fun cmd ↦ cmd ∈ mournfulCommands
  | .serverWrites => (world.channel 0).version = .v311 &&
      (world.channel 0).commands[world.serverWritten]?.all fun cmd ↦ cmd ∈ mournfulCommands
  | .server (.connect auth) => auth.accepted
  | _ => true

theorem orderly_of_keepsOrder (world : World) (action : Action)
    (h : keepsOrder world action = true) : Orderly 0 world action := by
  have hconnect : Codec.Sendable .v311 (.connect (Client.buildConnect mournful)) := by
    refine .of_body rfl ⟨carries_default .v311, ?_⟩ (by decide) (by decide)
    rintro will hwill
    obtain rfl := Option.some.inj hwill
    exact carries_default .v311
  have hconnack : Codec.Sendable .v311
      (.connack { sessionPresent := false, returnCode := .accepted }) :=
    .of_body rfl (carries_default .v311) (by decide) (by decide)
  have hsendable (cmd : WriteCmd) (hcmd : cmd ∈ mournfulCommands) : cmd.Sendable .v311 := by
    intro packet hpacket
    simp only [mournfulCommands, List.mem_cons, List.not_mem_nil, or_false] at hcmd
    obtain rfl | rfl := hcmd <;> obtain rfl := Option.some.inj hpacket
    · exact hconnect
    · exact hconnack
  cases action with
  | enqueue => cases h
  | clientWrites | serverWrites =>
    intro cmd hcmd
    simp only [keepsOrder, hcmd, Option.all_some, Bool.and_eq_true, decide_eq_true_eq] at h
    rw [h.1]
    exact hsendable cmd h.2
  | server action =>
    cases action with
    | connect auth =>
      intro hrefused
      rw [keepsOrder, hrefused] at h
      cases h
    | _ => trivial
  | client => trivial

/-- A client connects. -/
theorem parties_agree_connected :
    ∃ world, Run (step mournful 0) (Orderly 0) (init 0 { broker := .new, channels := fun _ ↦ .new })
        [.client .connect, .clientWrites,
          .server (.connect { accepted := true, returnCode := .accepted }), .server .sendConnack,
          .serverWrites, .client .connack] world ∧
      world.client.phase = .bound ∧ world.server.registration = some ("c", mournful.will) := by
  obtain ⟨world, run, hphase⟩ : ∃ world,
      Run (step mournful 0) (Orderly 0) (init 0 { broker := .new, channels := fun _ ↦ .new })
        [.client .connect, .clientWrites,
          .server (.connect { accepted := true, returnCode := .accepted }), .server .sendConnack,
          .serverWrites, .client .connack] world ∧ world.client.phase = .bound :=
    ⟨_, Run.of_guarded orderly_of_keepsOrder rfl, rfl⟩
  have hbound : Bound world.client.phase := by
    rw [hphase]
    trivial
  exact ⟨world, run, hphase, ((parties_agree run).2 hbound).registration⟩

end HotaruMqtt.Agreement

import HotaruMqtt.Protocol.Client
import HotaruMqtt.Protocol.Link
import HotaruMqtt.Protocol.Server

/-!
# Agreement on a connection

The handler of a client and the handler of its connection on the server run side by side, joined by
a stream of bytes in either direction, from the CONNECT on. A client that takes itself for connected
has a server that has registered its session, under its identifier, with its will and in its
version; a client that was refused has a server that has refused it, with the same code.

This takes an authenticator that does not refuse with the code of acceptance, and operations that
start behind the CONNECT: a channel can be acquired before its handler runs, and a packet that is
enqueued then comes before the CONNECT. The broker serves other clients meanwhile, and its fan-outs
may come before the CONNACK. No channel is closed by its user, and a writer stops only at a packet
that it cannot encode, with nothing of it on the wire.
-/

namespace HotaruMqtt.Agreement

open Library Codec

structure World where
  client : Client.World
  /-- The number of commands that the writer of the client has written. -/
  clientWritten : ℕ
  server : Server.World
  serverWritten : ℕ
  /-- The code of the CONNACK that the client has read. -/
  verdict : Option ConnackReturnCode

inductive Action where
  /-- A step of the handler of the client. -/
  | client (action : Client.Action)
  /-- An operation of the client enqueues something. -/
  | enqueue (cmd : WriteCmd)
  | clientWrites
  /-- A step of the handler of the server, or of the broker for another client. -/
  | server (action : Server.Action)
  | serverWrites

def init (connection : ConnectionId) (store : Store) : World :=
  { client := Client.init .new [], clientWritten := 0
    server := Server.init (store.setChannel connection .new) [], serverWritten := 0
    verdict := none }

/-- What the wait for the CONNACK ends with. -/
def verdictOf (config : MqttClientConfig) (wire : Bytes) : Option ConnackReturnCode :=
  match readPacket wire config.protocolVersion with
  | .ok (.connack ack, _) => some ack.returnCode
  | _ => none

section Steps

variable (config : MqttClientConfig) (connection : ConnectionId)

def World.channel (world : World) : MqttChannel := world.server.store.channels connection

def World.setClientChannel (world : World) (channel : MqttChannel) : World :=
  { world with client := { world.client with channel } }

def World.setChannel (world : World) (channel : MqttChannel) : World :=
  { world with server := { world.server with
    store := world.server.store.setChannel connection channel } }

def step (world : World) : Action → Option World
  | .client (.peer _) | .client (.disturb _) | .server (.disturb _) => none
  | .client .connack =>
      (Client.step config world.client .connack).map fun client ↦
        { world with client, verdict := verdictOf config world.client.wire }
  | .client action =>
      (Client.step config world.client action).map fun client ↦ { world with client }
  | .enqueue cmd => (world.client.channel.send cmd).toOption.map world.setClientChannel
  | .clientWrites =>
      let channel := world.client.channel
      if channel.receiving then
        channel.commands[world.clientWritten]?.map fun cmd ↦
          match Drain.encodeCmd channel.version cmd with
          | some bytes =>
              { world with
                server := { world.server with wire := world.server.wire ++ bytes }
                clientWritten := world.clientWritten + 1 }
          | none => world.setClientChannel { channel with receiving := false }
      else none
  | .server action =>
      (Server.step connection world.server action).map fun server ↦ { world with server }
  | .serverWrites =>
      let channel := world.channel connection
      if channel.receiving then
        channel.commands[world.serverWritten]?.map fun cmd ↦
          match Drain.encodeCmd channel.version cmd with
          | some bytes =>
              { world with
                client := { world.client with wire := world.client.wire ++ bytes }
                serverWritten := world.serverWritten + 1 }
          | none => world.setChannel connection { channel with receiving := false }
      else none

/-- What is written is representable in the version, operations start behind the CONNECT, and the
authenticator does not refuse with the code of acceptance. -/
def Orderly (world : World) : Action → Prop
  | .enqueue _ => world.client.phase ≠ .opening
  | .clientWrites => ∀ cmd, world.client.channel.commands[world.clientWritten]? = some cmd →
      cmd.Sendable world.client.channel.version
  | .serverWrites => ∀ cmd, (world.channel connection).commands[world.serverWritten]? = some cmd →
      cmd.Sendable (world.channel connection).version
  | .server (.connect auth) => auth.accepted = false → auth.returnCode ≠ .accepted
  | _ => True

end Steps

/-- The client has read a CONNACK that accepts the connection. -/
def Bound : Client.Phase → Prop
  | .bound | .waiting _ | .looping | .leaving => True
  | .opening | .awaitingConnack | .returned _ => False

/-- The server is behind its CONNACK. -/
def Answered : Server.Phase → Prop
  | .connecting | .registered _ _ => False
  | .looping _ | .leaving _ _ | .returned _ => True

/-- The session of the handler is registered. -/
def Present : Server.Phase → Prop
  | .registered _ _ | .looping _ | .leaving _ _ => True
  | .connecting | .returned _ => False

/-- The server has registered the client, and it has the session for as long as its handler runs.
Both speak the version of the client. -/
structure Joined (config : MqttClientConfig) (connection : ConnectionId) (server : Server.World) :
    Prop where
  registration : server.registration =
    some (Server.assignedClientId connection (Client.buildConnect config), config.will)
  owner : Present server.phase → server.store.broker.ownerOf
    (Server.assignedClientId connection (Client.buildConnect config)) =
      some (connection, config.will)
  version : (server.store.channels connection).version = config.protocolVersion

structure Refused (config : MqttClientConfig) (connection : ConnectionId)
    (code : ConnackReturnCode) (server : Server.World) : Prop where
  returned : server.phase = .returned (.error (.protocol (.connectionRefused code)))
  registration : server.registration = none
  version : (server.store.channels connection).version = config.protocolVersion

/-- What the code of a CONNACK says about the server. -/
def Decided (config : MqttClientConfig) (connection : ConnectionId) (server : Server.World)
    (code : ConnackReturnCode) : Prop :=
  if code = .accepted then Joined config connection server
  else Refused config connection code server

/-- Of the packets that were written and not read, the first comes first on the wire. A CONNACK is
written in the expected version. -/
inductive Leads (expected : ProtocolVersion) : List Packet → Bytes → Prop where
  | nothing : Leads expected [] []
  | frame {first : Packet} {later : List Packet} {version : ProtocolVersion} {bytes : Bytes}
      (more : Bytes) (sendable : Codec.Sendable version first)
      (encoded : encodePacket first version = .ok bytes)
      (spoken : ∀ ack, first = .connack ack → version = expected) :
      Leads expected (first :: later) (bytes ++ more)

namespace Leads

variable {expected : ProtocolVersion} {packets : List Packet} {wire : Bytes}

/-- The writer puts a command on the wire. -/
theorem write (h : Leads expected packets wire) {version : ProtocolVersion} {cmd : WriteCmd}
    {bytes : Bytes} (hsendable : cmd.Sendable version)
    (hbytes : Drain.encodeCmd version cmd = some bytes)
    (hspoken : ∀ ack, cmd.carried = some (.connack ack) → version = expected) :
    Leads expected (packets ++ cmd.carried.toList) (wire ++ bytes) := by
  cases h with
  | frame more sendable encoded spoken =>
    rw [List.append_assoc]
    exact .frame _ sendable encoded spoken
  | nothing =>
    cases hcarried : cmd.carried with
    | none =>
      obtain rfl : bytes = [] := by
        cases cmd with
        | packet | publish => cases hcarried
        | flush => exact (Option.some.inj hbytes).symm
        | shutdown => cases hbytes
      exact .nothing
    | some packet =>
      have hpacket := hsendable packet hcarried
      obtain ⟨frame, hframe, -⟩ := hpacket.exists_frame
      rw [Drain.encodeCmd_of_carried hcarried hpacket, hframe] at hbytes
      obtain rfl : frame = bytes := Option.some.inj hbytes
      rw [List.nil_append, ← List.append_nil frame]
      refine .frame [] hpacket hframe ?_
      rintro ack rfl
      exact hspoken ack hcarried

/-- What is read is of the kind of the first packet. -/
theorem packetType_of_read (h : Leads expected packets wire) {version : ProtocolVersion}
    {packet : Packet} {rest : Bytes} (hread : readPacket wire version = .ok (packet, rest)) :
    ∃ first later, packets = first :: later ∧ packet.packetType = first.packetType := by
  cases h with
  | nothing => cases hread
  | frame more sendable encoded spoken =>
    exact ⟨_, _, rfl, packetType_of_written encoded hread⟩

/-- A CONNACK is read in the expected version. -/
theorem connack_of_read (h : Leads expected packets wire) {ack : ConnackPacket} {rest : Bytes}
    (hread : readPacket wire expected = .ok (.connack ack, rest)) :
    ∃ sent, .connack sent ∈ packets ∧ ack.returnCode = sent.returnCode := by
  obtain ⟨first, later, rfl, htype⟩ := h.packetType_of_read hread
  cases first with
  | connack sent =>
    refine ⟨sent, List.mem_cons_self, ?_⟩
    cases h with
    | frame more sendable encoded spoken =>
      obtain rfl := spoken sent rfl
      obtain ⟨frame, hframe, hdecode⟩ := sendable.exists_frame
      obtain rfl := Except.ok.inj (hframe.symm.trans encoded)
      have hread' := readPacket_eq_ok_iff.mpr (hdecode more)
      obtain ⟨hsame, -⟩ := Prod.mk.inj (Except.ok.inj (hread.symm.trans hread'))
      obtain rfl := Packet.connack.inj hsame
      rfl
  | _ => cases htype

/-- A CONNECT is read as it was written, whatever version is assumed. -/
theorem connect_of_read {connect : ConnectPacket} {later : List Packet}
    (h : Leads expected (.connect connect :: later) wire) (version : ProtocolVersion) :
    ∃ rest, readPacket wire version = .ok ((Packet.connect connect).seenIn version, rest) := by
  cases h with
  | frame more sendable encoded spoken =>
    have hsendable : Codec.Sendable version (.connect connect) :=
      ⟨sendable.shape, sendable.fields, sendable.body⟩
    obtain ⟨frame, hframe, hdecode⟩ := hsendable.exists_frame
    obtain rfl := Except.ok.inj (hframe.symm.trans encoded)
    exact ⟨more, readPacket_eq_ok_iff.mpr (hdecode more)⟩

end Leads

/-- No version drops anything of the CONNECT a client builds. -/
theorem seenIn_buildConnect (config : MqttClientConfig) (version : ProtocolVersion) :
    (Packet.connect (Client.buildConnect config)).seenIn version =
      .connect (Client.buildConnect config) := by
  have hempty (version : ProtocolVersion) : Properties.seenIn version {} = {} := ite_self _
  cases hwill : config.will <;> simp [Packet.seenIn, Client.buildConnect, hwill, hempty]

/-- The server reads the will of the configuration back. -/
theorem connectWill_buildConnect (config : MqttClientConfig) :
    Server.connectWill (Client.buildConnect config) = config.will := by
  cases hwill : config.will <;> simp [Server.connectWill, Client.buildConnect, hwill]

/-! ## What a step does -/

section Server

variable {connection : ConnectionId} {world next : Server.World} {action : Server.Action}

inductive ServerMove (connection : ConnectionId) (world : Server.World) :
    Server.Action → Server.World → Prop where
  | accepts (auth : Server.AuthResult) (connect : ConnectPacket) (wire : Bytes)
      (waits : world.phase = .connecting)
      (taken : readPacket world.wire default = .ok (.connect connect, wire)) :
      ServerMove connection world (.connect auth)
        ({ world with wire }.accept connection auth connect)
  | givesUp {action : Server.Action} {next : Server.World} (result : Except Fault Unit)
      (waits : world.phase = .connecting) (same : next.store = world.store)
      (unregistered : next.registration = world.registration)
      (phase : next.phase = .returned result) : ServerMove connection world action next
  | welcomes {next : Server.World} (client : ClientId) (sessionPresent : Bool)
      (waits : world.phase = .registered client sessionPresent)
      (channel : next.store.channels connection =
        ((world.store.channels connection).reply
          (.connack { sessionPresent, returnCode := .accepted })).1)
      (registration : next.registration = world.registration)
      (broker : next.store.broker = world.store.broker) (answered : Answered next.phase) :
      ServerMove connection world .sendConnack next
  | proceeds {action : Server.Action} {next : Server.World} (added : List WriteCmd)
      (grows : Link.Extends (world.store.channels connection) (next.store.channels connection)
        added)
      (plain : ∀ ack, .connack ack ∉ added.filterMap Link.control)
      (registration : next.registration = world.registration)
      (owner : Present next.phase → ∀ registered ∈ world.registration,
        next.store.broker.ownerOf registered.1 = world.store.broker.ownerOf registered.1)
      (phase : next.phase = world.phase ∧ next.wire = world.wire ∨
        (∀ result, world.phase ≠ .returned result) ∧ Answered world.phase ∧ Answered next.phase) :
      ServerMove connection world action next

/-- No answer to a packet of the loop is a CONNACK. -/
theorem connack_not_mem_serverAnswer (broker : Broker) (client : ClientId) (packet : Packet)
    (ack : ConnackPacket) : .connack ack ∉ (Link.serverAnswer broker client packet).toList := by
  rw [Option.mem_toList]
  cases packet with
  | publish p =>
    simp only [Link.serverAnswer, Link.handshakeAnswer, Link.publishReply]
    split <;> simp
  | _ => simp [Link.serverAnswer, Link.handshakeAnswer]

theorem connack_not_mem_messages (messages : List PublishPacket) (ack : ConnackPacket) :
    .connack ack ∉ (messages.map WriteCmd.publish).filterMap Link.control := by
  simp [List.filterMap_map, Function.comp_def, Link.control]

/-- A step of the handler behind its CONNACK that leaves the channel alone. -/
theorem ServerMove.still {client : ClientId} (hphase : world.phase = .looping client)
    (hstore : next.store = world.store) (hregistration : next.registration = world.registration)
    (hanswered : Answered next.phase) : ServerMove connection world action next := by
  refine .proceeds [] ?_ (fun _ hmem ↦ by cases hmem) hregistration ?_
    (.inr ⟨?_, ?_, hanswered⟩)
  · rw [hstore]
    exact .of_eq rfl rfl rfl
  · intro _ registered _
    rw [hstore]
  · intro result
    rw [hphase]
    exact fun h ↦ by cases h
  · rw [hphase]
    trivial

theorem serverMove_wait {client : ClientId} {event : Server.Event}
    (hphase : world.phase = .looping client)
    (h : world.wait connection client event = some next) :
    ServerMove connection world (.turn event) next := by
  cases event with
  | wireFails | timeout | shutdown =>
    obtain rfl := Option.some.inj h
    exact .still hphase rfl rfl trivial
  | read surroundings =>
    simp only [Server.World.wait] at h
    split at h
    · obtain rfl := Option.some.inj h
      exact .still hphase rfl rfl trivial
    · obtain rfl := Option.some.inj h
      exact .still hphase rfl rfl trivial
    · rename_i packet wire hread
      unfold Server.World.serve at h
      split at h
      · obtain rfl := Option.some.inj h
        exact .still hphase rfl rfl trivial
      · obtain ⟨dispatched, hdispatched, rfl⟩ := Option.map_eq_some_iff.mp h
        obtain ⟨added, hgrows, hadded⟩ := Link.grows_dispatchServer hdispatched
        have hplain (ack : ConnackPacket) : .connack ack ∉ added.filterMap Link.control := by
          rw [hadded]
          exact connack_not_mem_serverAnswer _ _ _ ack
        have hreturned (result : Except Fault Unit) : world.phase ≠ .returned result := by
          rw [hphase]
          exact fun h ↦ by cases h
        have hanswered : Answered world.phase := by
          rw [hphase]
          trivial
        have howner (registered : ClientId × Option WillMessage) :=
          congrFun (Server.ownerOf_dispatch hdispatched) registered.1
        split
        · exact .proceeds added hgrows.toExtends hplain rfl (fun _ registered _ ↦ howner registered)
            (.inr ⟨hreturned, hanswered, hanswered⟩)
        · exact .proceeds added hgrows.toExtends hplain rfl (fun _ registered _ ↦ howner registered)
            (.inr ⟨hreturned, hanswered, trivial⟩)

/-- Every step of the server but a disturbance is one of the listed moves. -/
theorem serverMove_of_step (hdisturb : ∀ channels, action ≠ .disturb channels)
    (h : Server.step connection world action = some next) :
    ServerMove connection world action next := by
  cases action with
  | connect auth =>
    simp only [Server.step] at h
    split at h
    · rename_i hphase
      split at h
      · obtain rfl := Option.some.inj h
        exact .givesUp _ hphase rfl rfl rfl
      · rename_i connect wire hread
        obtain rfl := Option.some.inj h
        exact .accepts auth connect wire hphase hread
      · obtain rfl := Option.some.inj h
        exact .givesUp _ hphase rfl rfl rfl
    · cases h
  | connectFails | connectTimeout =>
    simp only [Server.step] at h
    split at h
    · rename_i hphase
      obtain rfl := Option.some.inj h
      exact .givesUp _ hphase rfl rfl rfl
    · cases h
  | sendConnack =>
    simp only [Server.step] at h
    split at h
    · rename_i client sessionPresent hphase
      have hchannel (channel : MqttChannel) :
          (world.store.setChannel connection channel).channels connection = channel :=
        Function.update_self ..
      split at h
      · obtain rfl := Option.some.inj h
        exact .welcomes client sessionPresent hphase (hchannel _) rfl rfl trivial
      · obtain rfl := Option.some.inj h
        exact .welcomes client sessionPresent hphase (hchannel _) rfl rfl trivial
    · cases h
  | turn event =>
    simp only [Server.step] at h
    split at h
    · rename_i client hphase
      split at h
      · exact serverMove_wait hphase h
      · obtain rfl := Option.some.inj h
        exact .still hphase rfl rfl trivial
    · cases h
  | unregister order =>
    have hunregister := h
    simp only [Server.step] at h
    split at h
    · rename_i client graceful hphase
      obtain ⟨messages, hgrows⟩ :=
        Link.Grows.step (Server.store_of_unregister hphase hunregister) connection
      obtain ⟨_, -, rfl⟩ := Option.map_eq_some_iff.mp h
      refine .proceeds _ hgrows.toExtends (connack_not_mem_messages messages) rfl
        (fun hpresent ↦ by cases hpresent) (.inr ⟨?_, ?_, trivial⟩)
      · intro result
        rw [hphase]
        exact fun h ↦ by cases h
      · rw [hphase]
        trivial
    · cases h
  | other operation =>
    simp only [Server.step] at h
    split at h
    · rename_i hother
      obtain ⟨store, hstore, rfl⟩ := Option.map_eq_some_iff.mp h
      obtain ⟨messages, hgrows⟩ := Link.Grows.step hstore connection
      refine .proceeds _ hgrows.toExtends (connack_not_mem_messages messages) rfl ?_
        (.inl ⟨rfl, rfl⟩)
      intro _ registered hregistered
      rw [Option.mem_def.mp hregistered, Option.all_some, decide_eq_true_eq] at hother
      exact (Store.step_frame hother hstore).1
    · cases h
  | disturb channels => exact absurd rfl (hdisturb channels)

end Server

section Client

variable {config : MqttClientConfig} {world next : Client.World} {action : Client.Action}

inductive ClientMove (config : MqttClientConfig) (world : Client.World) :
    Client.Action → Client.World → Prop where
  | connects {next : Client.World} (waits : world.phase = .opening)
      (wire : next.wire = world.wire)
      (version : next.channel.version = config.protocolVersion)
      (sent : next.phase = .awaitingConnack ∧ next.channel.commands =
          world.channel.commands ++ [.packet (.connect (Client.buildConnect config))] ∨
        world.channel.receiving = false) :
      ClientMove config world .connect next
  | binds {next : Client.World} (ack : ConnackPacket) (rest : Bytes)
      (waits : world.phase = .awaitingConnack)
      (taken : readPacket world.wire config.protocolVersion = .ok (.connack ack, rest))
      (accepted : ack.returnCode = .accepted) (channel : next.channel = world.channel)
      (phase : next.phase = .bound) : ClientMove config world .connack next
  | givesUp {action : Client.Action} {next : Client.World} (result : Except Fault Unit)
      (waits : world.phase = .awaitingConnack) (channel : next.channel = world.channel)
      (phase : next.phase = .returned result) : ClientMove config world action next
  | proceeds {action : Client.Action} {next : Client.World} (added : List WriteCmd)
      (bound : Bound world.phase) (version : next.channel.version = world.channel.version)
      (grows : next.channel.commands = world.channel.commands ++ added)
      (phase : Bound next.phase ∨ ∃ result, next.phase = .returned result)
      (notConnack : action ≠ .connack) : ClientMove config world action next

/-- A step behind the CONNACK. -/
theorem ClientMove.of_extends {added : List WriteCmd} (hbound : Bound world.phase)
    (hextends : Link.Extends world.channel next.channel added)
    (hphase : Bound next.phase ∨ ∃ result, next.phase = .returned result)
    (hconnack : action ≠ .connack) : ClientMove config world action next :=
  .proceeds _ hbound hextends.version hextends.commands hphase hconnack

theorem bound_of_eq {phase phase' : Client.Phase} (h : phase = phase') (hbound : Bound phase') :
    Bound phase := by
  rw [h]
  exact hbound

theorem clientMove_wait {event : Client.Event} (hphase : world.phase = .looping)
    (h : world.wait event = some next) : ClientMove config world (.turn event) next := by
  have hbound : Bound world.phase := bound_of_eq hphase trivial
  have hstill : Link.Extends world.channel world.channel [] := .of_eq rfl rfl rfl
  have hconnack : Client.Action.turn event ≠ .connack := fun heq ↦ by cases heq
  cases event with
  | wireFails | shutdown =>
    obtain rfl := Option.some.inj h
    exact .of_extends hbound hstill (.inl trivial) hconnack
  | ping taken =>
    simp only [Client.World.wait] at h
    split at h
    · split at h
      · rename_i hsend
        obtain rfl := Option.some.inj h
        exact .of_extends hbound (.send hsend) (.inl hbound) hconnack
      · obtain rfl := Option.some.inj h
        exact .of_extends hbound hstill (.inl trivial) hconnack
    · cases h
  | read =>
    simp only [Client.World.wait] at h
    split at h
    · obtain rfl := Option.some.inj h
      exact .of_extends hbound hstill (.inl trivial) hconnack
    · obtain rfl := Option.some.inj h
      exact .of_extends hbound hstill (.inr ⟨_, rfl⟩) hconnack
    · rename_i packet wire hread
      obtain rfl := Option.some.inj h
      have hextends := Link.extends_dispatchClient world.channel packet
      unfold Client.World.dispatch
      dsimp only
      split
      · exact .of_extends hbound hextends (.inl trivial) hconnack
      · exact .of_extends hbound hextends (.inl hbound) hconnack
      · exact .of_extends hbound hextends (.inr ⟨_, rfl⟩) hconnack

theorem clientMove_subscribe (hphase : world.phase = .bound) (filters : List TopicFilter) :
    ClientMove config world .subscribe (world.subscribe filters) := by
  have hbound : Bound world.phase := bound_of_eq hphase trivial
  have hconnack : Client.Action.subscribe ≠ .connack := fun heq ↦ by cases heq
  unfold Client.World.subscribe
  split
  · exact .of_extends hbound (.of_eq rfl rfl rfl) (.inl trivial) hconnack
  · dsimp only
    split
    · rename_i hsend
      have hextends := Link.Extends.send hsend
      exact .proceeds _ hbound hextends.version hextends.commands (.inl trivial) hconnack
    · exact .of_extends hbound (.of_eq rfl rfl rfl) (.inr ⟨_, rfl⟩) hconnack

/-- Every step of the client but bytes and disturbances is one of the listed moves. -/
theorem clientMove_of_step (hpeer : ∀ bytes, action ≠ .peer bytes)
    (hdisturb : ∀ channel, action ≠ .disturb channel)
    (h : Client.step config world action = some next) : ClientMove config world action next := by
  cases action with
  | connect =>
    simp only [Client.step] at h
    split at h
    · rename_i hphase
      split at h
      · rename_i channel hsend
        obtain rfl := Option.some.inj h
        have hextends := Link.Extends.send hsend
        refine .connects hphase rfl hextends.version (.inl ⟨rfl, ?_⟩)
        rw [(MqttChannel.of_send_eq_ok hsend).2]
      · rename_i reason hsend
        obtain rfl := Option.some.inj h
        exact .connects hphase rfl rfl (.inr (MqttChannel.of_send_eq_error hsend).1)
    · cases h
  | connack =>
    simp only [Client.step] at h
    split at h
    · rename_i hphase
      split at h
      · obtain rfl := Option.some.inj h
        exact .givesUp _ hphase rfl rfl
      · rename_i ack rest hread
        split at h
        · rename_i haccepted
          obtain rfl := Option.some.inj h
          exact .binds ack rest hphase hread haccepted rfl rfl
        · obtain rfl := Option.some.inj h
          exact .givesUp _ hphase rfl rfl
      · obtain rfl := Option.some.inj h
        exact .givesUp _ hphase rfl rfl
    · cases h
  | connackFails | connackTimeout =>
    simp only [Client.step] at h
    split at h
    · rename_i hphase
      obtain rfl := Option.some.inj h
      exact .givesUp _ hphase rfl rfl
    · cases h
  | subscribe =>
    simp only [Client.step] at h
    split at h
    · rename_i hphase
      obtain rfl := Option.some.inj h
      exact clientMove_subscribe hphase _
    · cases h
  | wake =>
    simp only [Client.step] at h
    split at h
    · rename_i id hphase
      have hbound : Bound world.phase := bound_of_eq hphase trivial
      split at h
      · obtain rfl := Option.some.inj h
        exact .of_extends hbound (.of_eq rfl rfl rfl) (.inl trivial) fun heq ↦ by cases heq
      · split at h
        · cases h
        · obtain rfl := Option.some.inj h
          exact .of_extends hbound (.of_eq rfl rfl rfl) (.inr ⟨_, rfl⟩) fun heq ↦ by cases heq
    · cases h
  | expire =>
    simp only [Client.step] at h
    split at h
    · rename_i id hphase
      split at h
      · cases h
      · obtain rfl := Option.some.inj h
        exact .of_extends (bound_of_eq hphase trivial) (.of_eq rfl rfl rfl) (.inr ⟨_, rfl⟩)
          fun heq ↦ by cases heq
    · cases h
  | turn event =>
    simp only [Client.step] at h
    split at h
    · rename_i hphase
      split at h
      · exact clientMove_wait hphase h
      · obtain rfl := Option.some.inj h
        exact .of_extends (bound_of_eq hphase trivial) (.of_eq rfl rfl rfl) (.inl trivial)
          fun heq ↦ by cases heq
    · cases h
  | disconnect =>
    simp only [Client.step] at h
    split at h
    · rename_i hphase
      obtain rfl := Option.some.inj h
      exact .of_extends (bound_of_eq hphase trivial) (.reply _ _) (.inr ⟨_, rfl⟩)
        fun heq ↦ by cases heq
    · cases h
  | peer bytes => exact absurd rfl (hpeer bytes)
  | disturb channel => exact absurd rfl (hdisturb channel)

end Client

inductive Effect (config : MqttClientConfig) (connection : ConnectionId) (world : World) :
    Action → World → Prop where
  | reads (client : Client.World) (move : ClientMove config world.client .connack client) :
      Effect config connection world (.client .connack)
        { world with client, verdict := verdictOf config world.client.wire }
  | client (action : Client.Action) (client : Client.World) (notConnack : action ≠ .connack)
      (move : ClientMove config world.client action client) :
      Effect config connection world (.client action) { world with client }
  | enqueues (cmd : WriteCmd) (channel : MqttChannel)
      (grows : world.client.channel.send cmd = .ok channel) :
      Effect config connection world (.enqueue cmd) (world.setClientChannel channel)
  | clientWrites (cmd : WriteCmd) (bytes : Bytes)
      (next : world.client.channel.commands[world.clientWritten]? = some cmd)
      (encoded : Drain.encodeCmd world.client.channel.version cmd = some bytes) :
      Effect config connection world .clientWrites
        { world with
          server := { world.server with wire := world.server.wire ++ bytes }
          clientWritten := world.clientWritten + 1 }
  | clientFails (cmd : WriteCmd)
      (next : world.client.channel.commands[world.clientWritten]? = some cmd) :
      Effect config connection world .clientWrites
        (world.setClientChannel { world.client.channel with receiving := false })
  | server (action : Server.Action) (server : Server.World)
      (move : ServerMove connection world.server action server) :
      Effect config connection world (.server action) { world with server }
  | serverWrites (cmd : WriteCmd) (bytes : Bytes)
      (next : (world.channel connection).commands[world.serverWritten]? = some cmd)
      (encoded : Drain.encodeCmd (world.channel connection).version cmd = some bytes) :
      Effect config connection world .serverWrites
        { world with
          client := { world.client with wire := world.client.wire ++ bytes }
          serverWritten := world.serverWritten + 1 }
  | serverFails : Effect config connection world .serverWrites
      (world.setChannel connection { world.channel connection with receiving := false })

/-- Every step of the connection moves one of its parties. -/
theorem effect_of_step {config : MqttClientConfig} {connection : ConnectionId}
    {world next : World} {action : Action}
    (h : step config connection world action = some next) :
    Effect config connection world action next := by
  cases action with
  | client action =>
    cases action with
    | peer | disturb => cases h
    | connack =>
      obtain ⟨client, hclient, rfl⟩ := Option.map_eq_some_iff.mp h
      refine .reads client (clientMove_of_step ?_ ?_ hclient)
      · intro bytes heq
        cases heq
      · intro channel heq
        cases heq
    | _ =>
      obtain ⟨client, hclient, rfl⟩ := Option.map_eq_some_iff.mp h
      refine .client _ client ?_ (clientMove_of_step ?_ ?_ hclient)
      · intro heq
        cases heq
      · intro bytes heq
        cases heq
      · intro channel heq
        cases heq
  | enqueue cmd =>
    obtain ⟨channel, hchannel, rfl⟩ := Option.map_eq_some_iff.mp h
    refine .enqueues cmd channel ?_
    cases hsend : world.client.channel.send cmd with
    | error reason =>
      rw [hsend] at hchannel
      cases hchannel
    | ok sent =>
      rw [hsend] at hchannel
      rw [Option.some.inj hchannel]
  | clientWrites =>
    simp only [step] at h
    split at h
    · obtain ⟨cmd, hcmd, rfl⟩ := Option.map_eq_some_iff.mp h
      split
      · rename_i bytes hbytes
        exact .clientWrites cmd bytes hcmd hbytes
      · exact .clientFails cmd hcmd
    · cases h
  | server action =>
    cases action with
    | disturb => cases h
    | _ =>
      obtain ⟨server, hserver, rfl⟩ := Option.map_eq_some_iff.mp h
      refine .server _ server (serverMove_of_step ?_ hserver)
      intro channels heq
      cases heq
  | serverWrites =>
    simp only [step] at h
    split at h
    · obtain ⟨cmd, hcmd, rfl⟩ := Option.map_eq_some_iff.mp h
      split
      · rename_i bytes hbytes
        exact .serverWrites cmd bytes hcmd hbytes
      · exact .serverFails
    · cases h

end HotaruMqtt.Agreement

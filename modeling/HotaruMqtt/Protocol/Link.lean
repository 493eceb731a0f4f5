import HotaruMqtt.Protocol.Acknowledgements
import HotaruMqtt.Protocol.Exchange
import HotaruMqtt.Session.Arrival

/-!
# A client and a server joined by wires

The operations of a client, its handler and the handler of its connection on the server run side by
side, with a stream of bytes in either direction. The writer of each party puts the frames of its
commands on the stream to the other, and the reader of each party takes packets off the stream that
comes in. The handshake of the connection is over, the client has no initial subscriptions, and both
channels are in the same version. The keep-alive tick of the client cancels the read in progress.
Beside them the broker serves other clients, waits run into timeouts, operations are cancelled,
loops and writers end, writes break off and sessions are abandoned. A call of `close` is the end of
the loop, of the session and of the writer, in any order.

A queue shows everything that was ever enqueued, and its writer keeps its place in it.
-/

namespace HotaruMqtt.Link

open Library Codec Handover

/-- What stays the same while the parties run. -/
structure Setting where
  version : ProtocolVersion
  connection : ConnectionId
  clientId : ClientId
  requests : Waiter → MqttRequest

inductive ClientLoop where
  | looping
  /-- The loop was left and the DISCONNECT is not sent yet. -/
  | leaving
  | ended
  deriving DecidableEq

structure World where
  client : Operations.World
  /-- The number of commands that the writer of the client has written. -/
  clientWritten : ℕ
  toServer : Bytes
  store : Store
  serverWritten : ℕ
  toClient : Bytes
  /-- What the server has read. -/
  served : List Packet
  /-- What the server has handed to the endpoint chain. -/
  handedByServer : List PublishPacket
  /-- The loop of the server has ended. -/
  serverStopped : Bool
  /-- What the client has handed to its endpoints. -/
  handedByClient : List IncomingPublish
  clientLoop : ClientLoop

inductive Action where
  /-- A step of an operation or of its surroundings, but neither of the reader nor of the writer. -/
  | client (action : Operations.Action)
  | clientWrites
  /-- A write fails behind a part of its bytes. -/
  | clientBreaksOff (accepted : ℕ)
  | clientReads
  /-- The keep-alive tick cancels a read that has taken some bytes. -/
  | clientTicks (taken : ℕ)
  /-- The loop ends with the wire, on a signal or because the channel is closed. -/
  | clientLeaves
  | clientDisconnects
  | serverWrites
  | serverBreaksOff (accepted : ℕ)
  | serverReads (surroundings : Surroundings)
  /-- The loop ends with the wire, on a signal or by a timeout. -/
  | serverLeaves
  | serverAbandons
  | serverWriterStops
  /-- The broker serves another client. Behind its loop the handler of this one is another. -/
  | other (operation : Operation)

section Steps

variable (setting : Setting)

namespace World

def server (world : World) : MqttChannel := world.store.channels setting.connection

def setServer (world : World) (channel : MqttChannel) : World :=
  { world with store := world.store.setChannel setting.connection channel }

def setClient (world : World) (channel : MqttChannel) : World :=
  { world with client := { world.client with channel } }

def stopClient (world : World) : World :=
  world.setClient { world.client.channel with receiving := false }

def stopServer (world : World) : World :=
  world.setServer setting { world.server setting with receiving := false }

def abandonServer (world : World) : World :=
  world.setServer setting
    { world.server setting with session := (world.server setting).session.abandon }

/-- Behind the read of a packet on the server. -/
def serve (world : World) (surroundings : Surroundings) (packet : Packet) : Option World :=
  let world := { world with served := world.served ++ [packet] }
  if packet = .disconnect then some { world with serverStopped := true }
  else
    (world.store.dispatchServerInbound setting.connection setting.clientId surroundings packet).map
      fun dispatched ↦
        { world with
          store := dispatched.store
          handedByServer := world.handedByServer ++ dispatched.handed
          serverStopped := !dispatched.result.isOk }

/-- Behind the read of a packet on the client. -/
def receive (world : World) (packet : Packet) : World :=
  let dispatched := world.client.channel.dispatchClientInbound packet
  { world with
    client := Operations.stepReceive world.client packet
    handedByClient := world.handedByClient ++ dispatched.handed
    clientLoop := match dispatched.result with
      | .ok false => .looping
      | .ok true => .leaving
      | .error _ => .ended }

/-- The branch of the tick, with the PINGREQ that it sends. -/
def tick (world : World) (taken : ℕ) : World :=
  let (channel, result) := world.client.channel.reply .pingreq
  { world.setClient channel with
    toClient := world.toClient.drop taken
    clientLoop := match result with
      | .ok () => .looping
      | .error _ => .leaving }

end World

/-- A new connection behind its handshake. -/
def init (store : Store) : World :=
  let channel := { MqttChannel.new with version := setting.version }
  { client := Operations.init channel, clientWritten := 0, toServer := []
    store := store.setChannel setting.connection channel, serverWritten := 0, toClient := []
    served := [], handedByServer := [], serverStopped := false, handedByClient := []
    clientLoop := .looping }

/-- The bytes of the command that the writer is about to write. -/
def nextBytes (channel : MqttChannel) (written : ℕ) : Option Bytes :=
  if channel.receiving then
    channel.commands[written]?.bind (Drain.encodeCmd channel.version)
  else none

/-- A reader that finds no whole packet goes on waiting. -/
def step (world : World) : Action → Option World
  | .client (.receive _) | .client .writerTakes => none
  | .client action =>
      (Operations.step setting.requests world.client action).map fun client ↦
        { world with client }
  | .clientWrites =>
      let channel := world.client.channel
      if channel.receiving then
        channel.commands[world.clientWritten]?.map fun cmd ↦
          match Drain.encodeCmd channel.version cmd with
          | some bytes =>
              { world with
                toServer := world.toServer ++ bytes, clientWritten := world.clientWritten + 1 }
          | none => world.stopClient
      else none
  | .clientBreaksOff accepted =>
      (nextBytes world.client.channel world.clientWritten).bind fun bytes ↦
        if accepted < bytes.length then
          some { world.stopClient with toServer := world.toServer ++ bytes.take accepted }
        else none
  | .clientReads =>
      if world.clientLoop = .looping then
        match readPacket world.toClient world.client.channel.version with
        | .error (.error .io) => none
        | .error _ => some { world with clientLoop := .ended }
        | .ok (packet, toClient) => some ({ world with toClient }.receive packet)
      else none
  | .clientTicks taken =>
      if world.clientLoop = .looping then
        match readPacket (world.toClient.take taken) world.client.channel.version with
        | .error (.error .io) => some (world.tick taken)
        | _ => none
      else none
  | .clientLeaves =>
      if world.clientLoop = .looping then some { world with clientLoop := .leaving } else none
  | .clientDisconnects =>
      if world.clientLoop = .leaving then
        some { world.setClient (world.client.channel.reply .disconnect).1 with
          clientLoop := .ended }
      else none
  | .serverWrites =>
      let channel := world.server setting
      if channel.receiving then
        channel.commands[world.serverWritten]?.map fun cmd ↦
          match Drain.encodeCmd channel.version cmd with
          | some bytes =>
              { world with
                toClient := world.toClient ++ bytes, serverWritten := world.serverWritten + 1 }
          | none => world.stopServer setting
      else none
  | .serverBreaksOff accepted =>
      (nextBytes (world.server setting) world.serverWritten).bind fun bytes ↦
        if accepted < bytes.length then
          some { world.stopServer setting with
            toClient := world.toClient ++ bytes.take accepted }
        else none
  | .serverReads surroundings =>
      if world.serverStopped then none
      else
        match readPacket world.toServer (world.server setting).version with
        | .error (.error .io) => none
        | .error _ => some { world with serverStopped := true }
        | .ok (packet, toServer) => { world with toServer }.serve setting surroundings packet
  | .serverLeaves => if world.serverStopped then none else some { world with serverStopped := true }
  | .serverAbandons => some (world.abandonServer setting)
  | .serverWriterStops => some (world.stopServer setting)
  | .other operation =>
      if world.serverStopped = false ∧ operation.changes = some setting.clientId then none
      else (world.store.step operation).map fun store ↦ { world with store }

/-- What is written is representable in the version of the connection, ticks strike between two
packets, and the session of the server is not abandoned as long as its loop runs. -/
def Steady (world : World) : Action → Prop
  | .clientWrites | .clientBreaksOff _ =>
      ∀ cmd, world.client.channel.commands[world.clientWritten]? = some cmd →
        cmd.Sendable setting.version
  | .serverWrites | .serverBreaksOff _ =>
      ∀ cmd, (world.server setting).commands[world.serverWritten]? = some cmd →
        cmd.Sendable setting.version
  | .clientTicks taken => taken = 0
  | .serverAbandons => world.serverStopped = true
  | _ => True

/-- A check for runs that write given commands only. -/
def keepsSteady (cmds : List WriteCmd) (world : World) : Action → Bool
  | .clientWrites | .clientBreaksOff _ =>
      world.client.channel.commands[world.clientWritten]?.all fun cmd ↦ cmd ∈ cmds
  | .serverWrites | .serverBreaksOff _ =>
      (world.server setting).commands[world.serverWritten]?.all fun cmd ↦ cmd ∈ cmds
  | .clientTicks taken => taken = 0
  | .serverAbandons => world.serverStopped
  | _ => true

theorem steady_of_keepsSteady {cmds : List WriteCmd}
    (hcmds : ∀ cmd ∈ cmds, cmd.Sendable setting.version) (world : World) (action : Action)
    (h : keepsSteady setting cmds world action = true) : Steady setting world action := by
  cases action with
  | clientWrites | clientBreaksOff | serverWrites | serverBreaksOff =>
    intro cmd hcmd
    simp only [keepsSteady, hcmd, Option.all_some, decide_eq_true_eq] at h
    exact hcmds cmd h
  | clientTicks taken =>
    change taken = 0
    exact of_decide_eq_true h
  | serverAbandons => exact h
  | _ => trivial

end Steps

def World.dispatched (world : World) (packet : Packet) (toServer : Bytes)
    (dispatched : ServerDispatch) (serverStopped : Bool) : World :=
  { world with
    toServer
    served := world.served ++ [packet]
    store := dispatched.store
    handedByServer := world.handedByServer ++ dispatched.handed
    serverStopped }

inductive Effect (setting : Setting) (world : World) : Action → World → Prop where
  | operates (action : Operations.Action) (client : Operations.World)
      (notReceive : ∀ packet, action ≠ .receive packet) (notTakes : action ≠ .writerTakes)
      (taken : Operations.step setting.requests world.client action = some client) :
      Effect setting world (.client action) { world with client }
  | clientWrites (cmd : WriteCmd) (bytes : Bytes) (live : world.client.channel.receiving = true)
      (next : world.client.channel.commands[world.clientWritten]? = some cmd)
      (encoded : Drain.encodeCmd world.client.channel.version cmd = some bytes) :
      Effect setting world .clientWrites
        { world with
          toServer := world.toServer ++ bytes, clientWritten := world.clientWritten + 1 }
  | clientFails : Effect setting world .clientWrites world.stopClient
  | clientBreaksOff (cmd : WriteCmd) (bytes : Bytes) (accepted : ℕ)
      (live : world.client.channel.receiving = true)
      (next : world.client.channel.commands[world.clientWritten]? = some cmd)
      (encoded : Drain.encodeCmd world.client.channel.version cmd = some bytes)
      (isPart : accepted < bytes.length) :
      Effect setting world (.clientBreaksOff accepted)
        { world.stopClient with toServer := world.toServer ++ bytes.take accepted }
  | clientReads (packet : Packet) (toClient : Bytes) (looping : world.clientLoop = .looping)
      (taken : readPacket world.toClient world.client.channel.version = .ok (packet, toClient)) :
      Effect setting world .clientReads ({ world with toClient }.receive packet)
  | clientFaults (fault : Fault) (hio : fault ≠ .error .io)
      (taken : readPacket world.toClient world.client.channel.version = .error fault) :
      Effect setting world .clientReads { world with clientLoop := .ended }
  | clientTicks (taken : ℕ) (looping : world.clientLoop = .looping)
      (cut : readPacket (world.toClient.take taken) world.client.channel.version =
        .error (.error .io)) :
      Effect setting world (.clientTicks taken) (world.tick taken)
  | clientLeaves : Effect setting world .clientLeaves { world with clientLoop := .leaving }
  | clientDisconnects : Effect setting world .clientDisconnects
      { world.setClient (world.client.channel.reply .disconnect).1 with clientLoop := .ended }
  | serverWrites (cmd : WriteCmd) (bytes : Bytes) (live : (world.server setting).receiving = true)
      (next : (world.server setting).commands[world.serverWritten]? = some cmd)
      (encoded : Drain.encodeCmd (world.server setting).version cmd = some bytes) :
      Effect setting world .serverWrites
        { world with
          toClient := world.toClient ++ bytes, serverWritten := world.serverWritten + 1 }
  | serverFails : Effect setting world .serverWrites (world.stopServer setting)
  | serverBreaksOff (cmd : WriteCmd) (bytes : Bytes) (accepted : ℕ)
      (live : (world.server setting).receiving = true)
      (next : (world.server setting).commands[world.serverWritten]? = some cmd)
      (encoded : Drain.encodeCmd (world.server setting).version cmd = some bytes)
      (isPart : accepted < bytes.length) :
      Effect setting world (.serverBreaksOff accepted)
        { world.stopServer setting with toClient := world.toClient ++ bytes.take accepted }
  | serverStops : Effect setting world .serverWriterStops (world.stopServer setting)
  | serverAbandons : Effect setting world .serverAbandons (world.abandonServer setting)
  | serverReads (surroundings : Surroundings) (packet : Packet) (toServer : Bytes)
      (dispatched : ServerDispatch) (stopped : Bool) (looping : world.serverStopped = false)
      (taken : readPacket world.toServer (world.server setting).version = .ok (packet, toServer))
      (handled : world.store.dispatchServerInbound setting.connection setting.clientId surroundings
        packet = some dispatched)
      (ends : stopped = false → dispatched.result.isOk = true) :
      Effect setting world (.serverReads surroundings)
        (world.dispatched packet toServer dispatched stopped)
  | serverFaults (surroundings : Surroundings) (fault : Fault) (hio : fault ≠ .error .io)
      (taken : readPacket world.toServer (world.server setting).version = .error fault) :
      Effect setting world (.serverReads surroundings) { world with serverStopped := true }
  | serverLeaves : Effect setting world .serverLeaves { world with serverStopped := true }
  | other (operation : Operation) (store : Store)
      (changes : world.serverStopped = false → operation.changes ≠ some setting.clientId)
      (taken : world.store.step operation = some store) :
      Effect setting world (.other operation) { world with store }

theorem exists_of_nextBytes {channel : MqttChannel} {written : ℕ} {bytes : Bytes}
    (h : nextBytes channel written = some bytes) :
    channel.receiving = true ∧ ∃ cmd, channel.commands[written]? = some cmd ∧
      Drain.encodeCmd channel.version cmd = some bytes := by
  unfold nextBytes at h
  split at h
  · rename_i hreceiving
    exact ⟨hreceiving, Option.bind_eq_some_iff.mp h⟩
  · cases h

/-- A packet that is read is dispatched, unless it ends the loop. -/
theorem effect_of_serverReads {setting : Setting} {world next : World}
    {surroundings : Surroundings} (h : step setting world (.serverReads surroundings) = some next) :
    Effect setting world (.serverReads surroundings) next := by
  simp only [step] at h
  split at h
  · cases h
  · rename_i hlooping
    have hlooping := Bool.eq_false_of_not_eq_true hlooping
    split at h
    · cases h
    · rename_i fault hio hread
      obtain rfl := Option.some.inj h
      exact .serverFaults surroundings fault hio hread
    · rename_i packet toServer hread
      unfold World.serve at h
      dsimp only at h
      split at h
      · rename_i hdisconnect
        subst hdisconnect
        obtain rfl := Option.some.inj h
        -- The loop ends before the dispatch, which would do nothing with a DISCONNECT.
        have hleaves : ({ world with
            toServer, served := world.served ++ [.disconnect], serverStopped := true } : World) =
              world.dispatched .disconnect toServer
                { store := world.store, handed := [], result := .ok () } true := by
          rw [World.dispatched, List.append_nil]
        rw [hleaves]
        refine .serverReads surroundings _ _ _ _ hlooping hread rfl ?_
        intro hstopped
        cases hstopped
      · obtain ⟨dispatched, hdispatched, rfl⟩ := Option.map_eq_some_iff.mp h
        refine .serverReads surroundings packet toServer dispatched _ hlooping hread hdispatched ?_
        intro hstopped
        simpa using hstopped

theorem effect_of_step {setting : Setting} {world next : World} {action : Action}
    (h : step setting world action = some next) : Effect setting world action next := by
  cases action with
  | client action =>
    cases action with
    | receive | writerTakes => cases h
    | _ =>
      simp only [step] at h
      obtain ⟨client, hclient, rfl⟩ := Option.map_eq_some_iff.mp h
      refine .operates _ client ?_ ?_ hclient
      · intro packet heq
        cases heq
      · intro heq
        cases heq
  | clientWrites =>
    simp only [step] at h
    split at h
    · rename_i hreceiving
      obtain ⟨cmd, hcmd, rfl⟩ := Option.map_eq_some_iff.mp h
      split
      · rename_i bytes hbytes
        exact .clientWrites cmd bytes hreceiving hcmd hbytes
      · exact .clientFails
    · cases h
  | clientBreaksOff accepted =>
    obtain ⟨bytes, hbytes, h⟩ := Option.bind_eq_some_iff.mp h
    obtain ⟨hreceiving, cmd, hcmd, hencoded⟩ := exists_of_nextBytes hbytes
    obtain ⟨hpart, h⟩ := Option.ite_none_right_eq_some.mp h
    obtain rfl := Option.some.inj h
    exact .clientBreaksOff cmd bytes accepted hreceiving hcmd hencoded hpart
  | clientReads =>
    simp only [step] at h
    split at h
    · rename_i hlooping
      split at h
      · cases h
      · rename_i fault hio hread
        obtain rfl := Option.some.inj h
        exact .clientFaults fault hio hread
      · rename_i packet toClient hread
        obtain rfl := Option.some.inj h
        exact .clientReads packet toClient hlooping hread
    · cases h
  | clientTicks taken =>
    simp only [step] at h
    split at h
    · rename_i hlooping
      split at h
      · rename_i hcut
        obtain rfl := Option.some.inj h
        exact .clientTicks taken hlooping hcut
      · cases h
    · cases h
  | clientLeaves =>
    obtain ⟨-, h⟩ := Option.ite_none_right_eq_some.mp h
    obtain rfl := Option.some.inj h
    exact .clientLeaves
  | clientDisconnects =>
    obtain ⟨-, h⟩ := Option.ite_none_right_eq_some.mp h
    obtain rfl := Option.some.inj h
    exact .clientDisconnects
  | serverWrites =>
    simp only [step] at h
    split at h
    · rename_i hreceiving
      obtain ⟨cmd, hcmd, rfl⟩ := Option.map_eq_some_iff.mp h
      split
      · rename_i bytes hbytes
        exact .serverWrites cmd bytes hreceiving hcmd hbytes
      · exact .serverFails
    · cases h
  | serverBreaksOff accepted =>
    obtain ⟨bytes, hbytes, h⟩ := Option.bind_eq_some_iff.mp h
    obtain ⟨hreceiving, cmd, hcmd, hencoded⟩ := exists_of_nextBytes hbytes
    obtain ⟨hpart, h⟩ := Option.ite_none_right_eq_some.mp h
    obtain rfl := Option.some.inj h
    exact .serverBreaksOff cmd bytes accepted hreceiving hcmd hencoded hpart
  | serverReads surroundings => exact effect_of_serverReads h
  | serverLeaves =>
    obtain ⟨-, h⟩ := Option.ite_none_left_eq_some.mp h
    obtain rfl := Option.some.inj h
    exact .serverLeaves
  | serverAbandons =>
    obtain rfl := Option.some.inj h
    exact .serverAbandons
  | serverWriterStops =>
    obtain rfl := Option.some.inj h
    exact .serverStops
  | other operation =>
    simp only [step] at h
    split at h
    · cases h
    · rename_i hchanges
      obtain ⟨store, hstore, rfl⟩ := Option.map_eq_some_iff.mp h
      exact .other operation store (fun hlooping heq ↦ hchanges ⟨hlooping, heq⟩) hstore

/-- A write has broken off behind these bytes. -/
def Stub (version : ProtocolVersion) (part : Bytes) : Prop :=
  ∃ cmd more, WriteCmd.Sendable version cmd ∧ more ≠ [] ∧
    Drain.encodeCmd version cmd = some (part ++ more)

/-- The reader has taken the first packets that the writer has put on the wire, and the frames of
the others are on the wire. A writer that has stopped may leave a part of a frame behind them. -/
structure Wire (version : ProtocolVersion) (live : Bool) (commands : List WriteCmd) (written : ℕ)
    (wire : Bytes) (read : List Packet) : Prop where
  written_le : written ≤ commands.length
  spelled : ∃ packets frames part, wire = frames ++ part ∧ Spells version frames packets ∧
    (part = [] ∨ live = false ∧ Stub version part) ∧
    Drain.seen version (commands.take written) = read ++ packets.map (Packet.seenIn version)

namespace Wire

variable {version : ProtocolVersion} {live : Bool} {commands : List WriteCmd} {written : ℕ}
  {wire : Bytes} {read : List Packet}

theorem empty (version : ProtocolVersion) (live : Bool) : Wire version live [] 0 [] [] where
  written_le := Nat.le_refl 0
  spelled := ⟨[], [], [], rfl, .nil, .inl rfl, rfl⟩

theorem enqueue (h : Wire version live commands written wire read) (added : List WriteCmd) :
    Wire version live (commands ++ added) written wire read where
  written_le := by
    rw [List.length_append]
    exact Nat.le_add_right_of_le h.written_le
  spelled := by
    rw [List.take_append_of_le_length h.written_le]
    exact h.spelled

theorem stop (h : Wire version live commands written wire read) :
    Wire version false commands written wire read where
  written_le := h.written_le
  spelled := by
    obtain ⟨packets, frames, part, hwire, hspells, hpart, htaken⟩ := h.spelled
    exact ⟨packets, frames, part, hwire, hspells, hpart.imp_right fun ⟨_, hstub⟩ ↦ ⟨rfl, hstub⟩,
      htaken⟩

/-- Behind a writer that runs there are whole frames only. -/
theorem exists_frames (h : Wire version true commands written wire read) :
    ∃ packets, Spells version wire packets ∧
      Drain.seen version (commands.take written) =
        read ++ packets.map (Packet.seenIn version) := by
  obtain ⟨packets, frames, part, rfl, hspells, rfl | ⟨hdead, -⟩, htaken⟩ := h.spelled
  · rw [List.append_nil]
    exact ⟨packets, hspells, htaken⟩
  · cases hdead

/-- The writer puts the next command on the wire. -/
theorem write (h : Wire version true commands written wire read) {cmd : WriteCmd} {bytes : Bytes}
    (hnext : commands[written]? = some cmd) (hsendable : cmd.Sendable version)
    (hbytes : Drain.encodeCmd version cmd = some bytes) :
    Wire version true commands (written + 1) (wire ++ bytes) read := by
  obtain ⟨hlt, -⟩ := List.getElem?_eq_some_iff.mp hnext
  obtain ⟨packets, hspells, htaken⟩ := h.exists_frames
  have htake : commands.take (written + 1) = commands.take written ++ [cmd] := by
    rw [List.take_add_one, hnext]
    rfl
  refine ⟨hlt, ?_⟩
  rw [htake, Drain.seen_append, htaken]
  cases hcarried : cmd.carried with
  | some packet =>
    have hpacket := hsendable packet hcarried
    obtain ⟨frame, hframe, -⟩ := hpacket.exists_frame
    rw [Drain.encodeCmd_of_carried hcarried hpacket, hframe] at hbytes
    obtain rfl : frame = bytes := Option.some.inj hbytes
    refine ⟨packets ++ [packet], wire ++ frame, [], (List.append_nil _).symm,
      hspells.append hpacket hframe, .inl rfl, ?_⟩
    have hseen : Drain.seen version [cmd] = [packet.seenIn version] := by
      simp [Drain.seen, hcarried]
    rw [hseen, List.map_append, List.map_singleton, List.append_assoc]
  | none =>
    obtain rfl : bytes = [] := by
      cases cmd with
      | packet | publish => cases hcarried
      | flush => exact (Option.some.inj hbytes).symm
      | shutdown => cases hbytes
    have hseen : Drain.seen version [cmd] = [] := by
      simp [Drain.seen, hcarried]
    rw [hseen, List.append_nil, List.append_nil]
    exact ⟨packets, wire, [], (List.append_nil _).symm, hspells, .inl rfl, rfl⟩

/-- The write of the next command breaks off. -/
theorem breakOff (h : Wire version true commands written wire read) {cmd : WriteCmd}
    {bytes : Bytes} {accepted : ℕ} (hsendable : cmd.Sendable version)
    (hbytes : Drain.encodeCmd version cmd = some bytes) (hpart : accepted < bytes.length) :
    Wire version false commands written (wire ++ bytes.take accepted) read := by
  obtain ⟨packets, hspells, htaken⟩ := h.exists_frames
  refine ⟨h.written_le, packets, wire, bytes.take accepted, rfl, hspells, .inr ⟨rfl, ?_⟩, htaken⟩
  refine ⟨cmd, bytes.drop accepted, hsendable, ?_, ?_⟩
  · rw [Ne, List.drop_eq_nil_iff]
    exact Nat.not_le_of_lt hpart
  · rw [List.take_append_drop]
    exact hbytes

theorem read_isPrefix (h : Wire version live commands written wire read) :
    read <+: Drain.seen version commands := by
  obtain ⟨packets, -, -, -, -, -, htaken⟩ := h.spelled
  have hall : Drain.seen version commands = Drain.seen version (commands.take written) ++
      Drain.seen version (commands.drop written) := by
    rw [← Drain.seen_append, List.take_append_drop]
  rw [hall, htaken, List.append_assoc]
  exact List.prefix_append _ _

/-- The reader takes the next packet. -/
theorem take (h : Wire version live commands written wire read) {packet : Packet} {rest : Bytes}
    (hread : readPacket wire version = .ok (packet, rest)) :
    Wire version live commands written rest (read ++ [packet]) := by
  obtain ⟨packets, frames, part, rfl, hspells, hpart, htaken⟩ := h.spelled
  have hnone (packet : Packet) (rest : Bytes) : readPacket part version ≠ .ok (packet, rest) := by
    obtain rfl | ⟨-, cmd, more, hsendable, hmore, hbytes⟩ := hpart
    · intro hread
      cases hread
    · exact Drain.not_readPacket_part hsendable hbytes hmore rest
  obtain ⟨first, more, left, rfl, rfl, rfl, hrest⟩ := hspells.of_read_append hnone hread
  refine ⟨h.written_le, more, left, part, rfl, hrest, hpart, ?_⟩
  rw [htaken, List.map_cons, List.append_assoc, List.singleton_append]

/-- Everything was written and nothing is on the wire. -/
theorem read_eq (h : Wire version true commands written [] read)
    (hwritten : written = commands.length) : read = Drain.seen version commands := by
  obtain ⟨packets, hspells, htaken⟩ := h.exists_frames
  obtain ⟨rfl, -⟩ := hspells.eq_nil_of_error rfl
  rw [hwritten, List.take_length, List.map_nil, List.append_nil] at htaken
  exact htaken.symm

end Wire

/-- What a step of an operation or of its surroundings may enqueue. -/
inductive Emits (requests : Waiter → MqttRequest) (world next : Operations.World) : Prop where
  | quiet (h : Extends world.channel next.channel [])
  | numbered (op : Waiter) (id : PacketId) (signal : Option Operations.Answer)
      (before : world.phase op = .registered id signal)
      (behind : next.phase op = .waiting id signal)
      (owner : (next.operations op).id = (world.operations op).id)
      (h : Extends world.channel next.channel [Operations.command id (requests op)])
  | unnumbered (p : PublishPacket) (hid : p.packetId = none)
      (h : Extends world.channel next.channel [.publish p])
  | stops (h : next.channel = { world.channel with receiving := false })

/-- The operation has handed its packet to the writer, or has failed to. -/
def issued : Operations.Phase → Bool
  | .idle | .unnumbered | .allocated _ | .registered _ _ => false
  | .waiting _ _ | .released _ | .waitingComp _ _ | .expired _ | .returned _ | .cancelled => true

/-- An operation keeps its identifier and does not go back behind its send. -/
def KeepsIssued (world next : Operations.World) : Prop :=
  ∀ op, issued (world.phase op) = true →
    issued (next.phase op) = true ∧ (next.operations op).id = (world.operations op).id

theorem keepsIssued_refl (world : Operations.World) : KeepsIssued world world :=
  fun _ hissued ↦ ⟨hissued, rfl⟩

theorem keepsIssued_record {world : Operations.World} {op : Waiter}
    {operation : Operations.OperationState}
    (h : issued (world.phase op) = true →
      issued operation.phase = true ∧ operation.id = (world.operations op).id) :
    KeepsIssued world (world.record op operation) := by
  intro other hother
  by_cases heq : other = op
  · subst heq
    simp only [Operations.World.phase, Operations.World.record, Function.update_self]
    exact h hother
  · simp only [Operations.World.phase, Operations.World.record, Function.update_of_ne heq]
    exact ⟨hother, trivial⟩

/-- A step of an operation or of its surroundings, but not of the reader. -/
structure Moves (requests : Waiter → MqttRequest) (world : Operations.World)
    (action : Operations.Action) (next : Operations.World) : Prop where
  emits : Emits requests world next
  received : next.received = world.received
  stored : action ≠ .abandon →
    next.channel.session.qos2Recv = world.channel.session.qos2Recv
  keeps : KeepsIssued world next

/-- A step that enqueues nothing. -/
theorem Moves.quiet {requests : Waiter → MqttRequest} {world next : Operations.World}
    {action : Operations.Action} (hreceiving : next.channel.receiving = world.channel.receiving)
    (hversion : next.channel.version = world.channel.version)
    (hcommands : next.channel.commands = world.channel.commands)
    (hreceived : next.received = world.received)
    (hstored : next.channel.session.qos2Recv = world.channel.session.qos2Recv)
    (hkeeps : KeepsIssued world next) : Moves requests world action next where
  emits := .quiet (.of_eq hreceiving hversion hcommands)
  received := hreceived
  stored _ := hstored
  keeps := hkeeps

section Operations

variable {requests : Waiter → MqttRequest} {world next : Operations.World}
  {action : Operations.Action} {op : Waiter}

/-- Before its send an operation has nothing to keep. -/
theorem keepsIssued_of_unsent {phase : Operations.Phase} {operation : Operations.OperationState}
    (hphase : world.phase op = phase) (hunsent : issued phase = false) :
    KeepsIssued world (world.record op operation) := by
  refine keepsIssued_record fun hissued ↦ ?_
  rw [hphase, hunsent] at hissued
  cases hissued

theorem moves_stepStart (h : Operations.stepStart requests world op = some next) :
    Moves requests world action next := by
  unfold Operations.stepStart at h
  split at h
  · rename_i hphase
    split at h
    · obtain rfl := Option.some.inj h
      exact .quiet rfl rfl rfl rfl rfl (keepsIssued_of_unsent hphase rfl)
    · obtain rfl := Option.some.inj h
      exact .quiet rfl rfl rfl rfl rfl (keepsIssued_of_unsent hphase rfl)
  · cases h

theorem moves_stepRegister (h : Operations.stepRegister requests world op = some next) :
    Moves requests world action next := by
  unfold Operations.stepRegister at h
  split at h
  · rename_i hphase
    obtain rfl := Option.some.inj h
    exact .quiet rfl rfl rfl rfl rfl (keepsIssued_of_unsent hphase rfl)
  · obtain rfl := Option.some.inj h
    exact .quiet rfl rfl rfl rfl rfl (keepsIssued_record fun _ ↦ ⟨rfl, rfl⟩)
  · cases h

/-- The send is the only step of an operation that enqueues something. -/
theorem moves_stepSend (h : Operations.stepSend requests world op = some next) :
    Moves requests world action next := by
  unfold Operations.stepSend at h
  split at h
  · rename_i hphase _
    split at h
    · rename_i hsend
      obtain rfl := Option.some.inj h
      exact
        { emits := .unnumbered _ rfl (.send hsend)
          received := rfl
          stored := fun _ ↦ congrArg MqttSession.qos2Recv (MqttChannel.session_of_send hsend)
          keeps := keepsIssued_of_unsent hphase rfl }
    · obtain rfl := Option.some.inj h
      exact .quiet rfl rfl rfl rfl rfl (keepsIssued_of_unsent hphase rfl)
  · rename_i id signal hphase
    split at h
    · rename_i hsend
      obtain rfl := Option.some.inj h
      refine
        { emits := .numbered op id signal hphase ?_ ?_ (.send hsend)
          received := rfl
          stored := fun _ ↦ congrArg MqttSession.qos2Recv (MqttChannel.session_of_send hsend)
          keeps := keepsIssued_of_unsent hphase rfl }
      · simp [Operations.World.phase, Operations.World.record]
      · simp [Operations.World.record]
    · obtain rfl := Option.some.inj h
      exact .quiet rfl rfl rfl rfl rfl (keepsIssued_of_unsent hphase rfl)
  · cases h

theorem moves_stepWake (h : Operations.stepWake requests world op = some next) :
    Moves requests world action next := by
  unfold Operations.stepWake at h
  split at h
  · obtain ⟨phase, hafter, rfl⟩ := Option.map_eq_some_iff.mp h
    refine .quiet rfl rfl rfl rfl rfl (keepsIssued_record fun _ ↦ ⟨?_, rfl⟩)
    rcases Operations.afterAnswer_cases hafter with rfl | ⟨response, rfl⟩ <;> rfl
  · split at h
    · cases h
    · obtain rfl := Option.some.inj h
      exact .quiet rfl rfl rfl rfl rfl (keepsIssued_record fun _ ↦ ⟨rfl, rfl⟩)
  · obtain rfl := Option.some.inj h
    exact .quiet rfl rfl rfl rfl rfl (keepsIssued_record fun _ ↦ ⟨rfl, rfl⟩)
  · split at h
    · cases h
    · obtain rfl := Option.some.inj h
      exact .quiet rfl rfl rfl rfl rfl (keepsIssued_record fun _ ↦ ⟨rfl, rfl⟩)
  · cases h

theorem moves_of_step (hreceive : ∀ packet, action ≠ .receive packet)
    (htakes : action ≠ .writerTakes) (h : Operations.step requests world action = some next) :
    Moves requests world action next := by
  cases action with
  | receive packet => exact absurd rfl (hreceive packet)
  | writerTakes => exact absurd rfl htakes
  | start op => exact moves_stepStart h
  | register op => exact moves_stepRegister h
  | send op => exact moves_stepSend h
  | wake op => exact moves_stepWake h
  | expire op | cancel op =>
    simp only [Operations.step, Operations.stepExpire, Operations.stepCancel] at h
    split at h
    · obtain rfl := Option.some.inj h
      exact .quiet rfl rfl rfl rfl rfl (keepsIssued_record fun _ ↦ ⟨rfl, rfl⟩)
    · obtain rfl := Option.some.inj h
      exact .quiet rfl rfl rfl rfl rfl (keepsIssued_record fun _ ↦ ⟨rfl, rfl⟩)
    · cases h
  | withdraw op =>
    simp only [Operations.step, Operations.stepWithdraw] at h
    split at h
    · obtain rfl := Option.some.inj h
      exact .quiet rfl rfl rfl rfl rfl (keepsIssued_record fun _ ↦ ⟨rfl, rfl⟩)
    · cases h
  | abandon =>
    obtain rfl := Option.some.inj h
    exact
      { emits := .quiet (.of_eq rfl rfl rfl)
        received := rfl
        stored := fun habandon ↦ absurd rfl habandon
        keeps := keepsIssued_refl world }
  | writerStops =>
    obtain rfl := Option.some.inj h
    exact
      { emits := .stops rfl
        received := rfl
        stored := fun _ ↦ rfl
        keeps := keepsIssued_refl world }

end Operations

/-- The reader moves no operation; it leaves an answer at most. -/
theorem keepsIssued_receive (world : Operations.World) (packet : Packet) :
    KeepsIssued world (Operations.stepReceive world packet) := by
  unfold Operations.stepReceive
  dsimp only
  split
  · rename_i op answer _ _
    have hdeliver (phase : Operations.Phase) : issued (phase.deliver answer) = issued phase := by
      unfold Operations.Phase.deliver
      split <;> rfl
    refine keepsIssued_record fun hissued ↦ ⟨?_, rfl⟩
    exact (hdeliver _).trans hissued
  · exact keepsIssued_refl world

end HotaruMqtt.Link

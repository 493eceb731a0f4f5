import HotaruMqtt.Protocol.Link

/-!
# Both ends of a connection

Each party reads what the other has written, in order and without a fault, and the two handshakes of
QoS 2 run over both wires at once, one in each direction. What a party hands on follows from what it
has read, as long as its loop runs.
-/

namespace HotaruMqtt.Link

open Library Codec Handover

/-- A party with what it has put on the wire, as far as it is not read yet, and with what it has
read. -/
structure End where
  channel : MqttChannel
  written : ℕ
  wire : Bytes
  read : List Packet

def World.clientEnd (world : World) : End :=
  { channel := world.client.channel, written := world.clientWritten, wire := world.toServer
    read := world.client.received }

def World.serverEnd (setting : Setting) (world : World) : End :=
  { channel := world.server setting, written := world.serverWritten, wire := world.toClient
    read := world.served }

/-- Both ends agree on the version, and each reads what the other writes. -/
structure Joined (version : ProtocolVersion) (near far : End) : Prop where
  nearVersion : near.channel.version = version
  farVersion : far.channel.version = version
  outward : Wire version near.channel.receiving near.channel.commands near.written near.wire
    far.read
  inward : Wire version far.channel.receiving far.channel.commands far.written far.wire near.read
  duplex : Duplex near.channel.receiving far.channel.receiving
    (Drain.seen version near.channel.commands) near.read
    (Drain.seen version far.channel.commands) far.read

/-- The packets of a handshake are the same in every version, and no message of the fan-out is one
of them. -/
theorem filterMap_seen {f : Packet → Option PacketId} (hpublish : ∀ p, f (.publish p) = none)
    {version : ProtocolVersion} (hseen : ∀ packet, f (packet.seenIn version) = f packet)
    (cmds : List WriteCmd) :
    (Drain.seen version cmds).filterMap f = (cmds.filterMap control).filterMap f := by
  induction cmds with
  | nil => rfl
  | cons cmd cmds ih =>
    rw [Drain.seen_cons, List.filterMap_append, ih]
    cases cmd with
    | packet packet =>
      have hcarried : Drain.seen version [.packet packet] = [packet.seenIn version] := rfl
      have hcontrol : (WriteCmd.packet packet :: cmds).filterMap control =
          packet :: cmds.filterMap control := rfl
      rw [hcarried, hcontrol, List.filterMap_cons, List.filterMap_cons, hseen]
      cases f packet <;> rfl
    | publish p =>
      have hcarried : Drain.seen version [.publish p] =
          [.publish (p.seenIn version)] := rfl
      rw [hcarried, List.filterMap_cons_none (hpublish _)]
      rfl
    | flush | shutdown => rfl

section Seen

variable {version : ProtocolVersion} (cmds : List WriteCmd)

theorem closes_seen : (Drain.seen version cmds).filterMap closes =
    (cmds.filterMap control).filterMap closes :=
  filterMap_seen (fun _ ↦ rfl) (fun packet ↦ by cases packet <;> rfl) cmds

theorem receipt_seen : (Drain.seen version cmds).filterMap receipt =
    (cmds.filterMap control).filterMap receipt :=
  filterMap_seen (fun _ ↦ rfl) (fun packet ↦ by cases packet <;> rfl) cmds

theorem completion_seen : (Drain.seen version cmds).filterMap completion =
    (cmds.filterMap control).filterMap completion :=
  filterMap_seen (fun _ ↦ rfl) (fun packet ↦ by cases packet <;> rfl) cmds

theorem seen_ifLive (live : Bool) :
    Drain.seen version (ifLive live cmds) = ifLive live (Drain.seen version cmds) := by
  unfold ifLive
  split <;> rfl

end Seen

/-- The commands belong to no handshake of the other party. -/
def Unrelated (cmds : List WriteCmd) : Prop :=
  (cmds.filterMap control).filterMap closes = [] ∧
    (cmds.filterMap control).filterMap receipt = [] ∧
    (cmds.filterMap control).filterMap completion = []

/-- The commands are what the packet calls for in the handshakes. -/
def Answers (packet : Packet) (cmds : List WriteCmd) : Prop :=
  (cmds.filterMap control).filterMap closes = (receipt packet).toList ∧
    (cmds.filterMap control).filterMap receipt = (opens packet).toList ∧
    (cmds.filterMap control).filterMap completion = (closes packet).toList

namespace Joined

variable {version : ProtocolVersion} {near far : End} {channel : MqttChannel}
  {added : List WriteCmd}

theorem symm (h : Joined version near far) : Joined version far near where
  nearVersion := h.farVersion
  farVersion := h.nearVersion
  outward := h.inward
  inward := h.outward
  duplex := h.duplex.symm

/-- Commands outside the handshake leave the ends in line. -/
theorem enqueue (h : Joined version near far) (hextends : Extends near.channel channel added)
    (hadded : Unrelated added) : Joined version { near with channel } far where
  nearVersion := hextends.version.trans h.nearVersion
  farVersion := h.farVersion
  outward := by
    rw [hextends.commands, hextends.receiving]
    exact h.outward.enqueue _
  inward := h.inward
  duplex := by
    obtain ⟨hcloses, hreceipts, hcompletions⟩ := hadded
    rw [hextends.commands, hextends.receiving, Drain.seen_append, seen_ifLive]
    have hlive (f : Packet → Option PacketId)
        (hnone : (Drain.seen version added).filterMap f = []) :
        (ifLive near.channel.receiving (Drain.seen version added)).filterMap f = [] := by
      unfold ifLive
      split
      · exact hnone
      · rfl
    apply h.duplex.enqueue
    · exact hlive _ (by rw [closes_seen, hcloses])
    · exact hlive _ (by rw [receipt_seen, hreceipts])
    · exact hlive _ (by rw [completion_seen, hcompletions])

/-- An end whose writer is gone sends no more. -/
theorem dies (h : Joined version near far) :
    Joined version { near with channel := { near.channel with receiving := false } } far where
  nearVersion := h.nearVersion
  farVersion := h.farVersion
  outward := h.outward.stop
  inward := h.inward
  duplex := h.duplex.dies

/-- A command that is written arrives as the next packet. -/
theorem write (h : Joined version near far) {cmd : WriteCmd} {bytes : Bytes}
    (hlive : near.channel.receiving = true)
    (hnext : near.channel.commands[near.written]? = some cmd) (hsendable : cmd.Sendable version)
    (hbytes : Drain.encodeCmd version cmd = some bytes) :
    Joined version { near with written := near.written + 1, wire := near.wire ++ bytes } far where
  nearVersion := h.nearVersion
  farVersion := h.farVersion
  outward := by
    have houtward := h.outward
    rw [hlive] at houtward ⊢
    exact houtward.write hnext hsendable hbytes
  inward := h.inward
  duplex := h.duplex

/-- A write fails behind a part of its bytes, and the writer stops. -/
theorem breakOff (h : Joined version near far) {cmd : WriteCmd} {bytes : Bytes} {accepted : ℕ}
    (hlive : near.channel.receiving = true) (hsendable : cmd.Sendable version)
    (hbytes : Drain.encodeCmd version cmd = some bytes) (hpart : accepted < bytes.length) :
    Joined version
      { near with
        channel := { near.channel with receiving := false }
        wire := near.wire ++ bytes.take accepted } far where
  nearVersion := h.nearVersion
  farVersion := h.farVersion
  outward := by
    have houtward := h.outward
    rw [hlive] at houtward
    exact houtward.breakOff hsendable hbytes hpart
  inward := h.inward
  duplex := h.duplex.dies

/-- A party reads a packet and enqueues what it calls for. -/
theorem take (h : Joined version near far) {packet : Packet} {rest : Bytes}
    (hread : readPacket far.wire version = .ok (packet, rest))
    (hextends : Extends near.channel channel added) (hadded : Answers packet added) :
    Joined version { near with channel, read := near.read ++ [packet] }
      { far with wire := rest } where
  nearVersion := hextends.version.trans h.nearVersion
  farVersion := h.farVersion
  outward := by
    rw [hextends.commands, hextends.receiving]
    exact h.outward.enqueue _
  inward := h.inward.take hread
  duplex := by
    obtain ⟨hcloses, hreceipts, hcompletions⟩ := hadded
    rw [hextends.commands, hextends.receiving, Drain.seen_append, seen_ifLive]
    apply h.duplex.take (h.inward.take hread).read_isPrefix
    · rw [closes_seen, hcloses]
    · rw [receipt_seen, hreceipts]
    · rw [completion_seen, hcompletions]

end Joined

/-- A handshake packet is answered by the next one of the handshake. -/
theorem answers_handshake (packet : Packet) :
    (handshakeAnswer packet).toList.filterMap closes = (receipt packet).toList ∧
      (handshakeAnswer packet).toList.filterMap receipt = (opens packet).toList ∧
      (handshakeAnswer packet).toList.filterMap completion = (closes packet).toList := by
  cases packet with
  | publish p =>
    simp only [handshakeAnswer, publishReply, opens, receipt, closes]
    cases p.qos <;> cases p.packetId <;> exact ⟨rfl, rfl, rfl⟩
  | _ => exact ⟨rfl, rfl, rfl⟩

theorem answers_client (packet : Packet) :
    Answers packet ((handshakeAnswer packet).toList.map .packet) := by
  have hcontrol : ((handshakeAnswer packet).toList.map WriteCmd.packet).filterMap control =
      (handshakeAnswer packet).toList := by
    cases handshakeAnswer packet <;> rfl
  unfold Answers
  rw [hcontrol]
  exact answers_handshake packet

theorem answers_server {broker : Broker} {client : ClientId} {packet : Packet}
    {added : List WriteCmd}
    (h : added.filterMap control = (serverAnswer broker client packet).toList) :
    Answers packet added := by
  have hhandshake := answers_handshake packet
  unfold Answers
  rw [h]
  cases packet with
  | subscribe | unsubscribe | pingreq => exact ⟨rfl, rfl, rfl⟩
  | _ => exact hhandshake

theorem unrelated_messages (messages : List PublishPacket) :
    Unrelated (messages.map .publish) := by
  have hcontrol : (messages.map WriteCmd.publish).filterMap control = [] := by
    simp [List.filterMap_map, Function.comp_def, control]
  unfold Unrelated
  rw [hcontrol]
  exact ⟨rfl, rfl, rfl⟩

theorem unrelated_command (id : PacketId) (request : MqttRequest) :
    Unrelated [Operations.command id request] := by
  cases request <;> exact ⟨rfl, rfl, rfl⟩

section Joined

variable {setting : Setting} {world next : World} {action : Action}

/-- The two ends of the connection in a world. -/
abbrev World.Joined (setting : Setting) (world : World) : Prop :=
  Link.Joined setting.version world.clientEnd (world.serverEnd setting)

theorem joined_init (setting : Setting) (store : Store) : (init setting store).Joined setting := by
  have hserver : (init setting store).server setting =
      { MqttChannel.new with version := setting.version } := Function.update_self ..
  unfold World.Joined World.serverEnd
  rw [hserver]
  exact
    { nearVersion := rfl
      farVersion := rfl
      outward := .empty setting.version true
      inward := .empty setting.version true
      duplex := .new true true }

/-- An operation of the client enqueues its own command at most. -/
theorem joined_emits (h : world.Joined setting) {client : Operations.World}
    (hemits : Emits setting.requests world.client client)
    (hreceived : client.received = world.client.received) :
    World.Joined setting { world with client } := by
  unfold World.Joined World.clientEnd
  dsimp only
  rw [hreceived]
  cases hemits with
  | quiet hextends => exact h.enqueue hextends ⟨rfl, rfl, rfl⟩
  | numbered op id signal before behind owner hextends =>
    exact h.enqueue hextends (unrelated_command id _)
  | unnumbered p hid hextends => exact h.enqueue hextends ⟨rfl, rfl, rfl⟩
  | stops hstops =>
    rw [hstops]
    exact h.dies

/-- The handler of the client sends a packet that belongs to no handshake. -/
theorem joined_reply (h : world.Joined setting) {packet : Packet}
    (hpacket : Unrelated [.packet packet]) :
    (world.setClient (world.client.channel.reply packet).1).Joined setting :=
  h.enqueue (.reply world.client.channel packet) hpacket

/-- The channel of the server changes, with or without bytes on its wire. -/
theorem joined_setServer {channel : MqttChannel} {written : ℕ} {wire : Bytes}
    (h : Link.Joined setting.version world.clientEnd
      { channel, written, wire, read := world.served }) :
    World.Joined setting
      { world.setServer setting channel with serverWritten := written, toClient := wire } := by
  have hserver : (world.setServer setting channel).server setting = channel :=
    Function.update_self ..
  unfold World.Joined World.serverEnd
  change Link.Joined setting.version world.clientEnd
    { channel := (world.setServer setting channel).server setting, written, wire
      read := world.served }
  rw [hserver]
  exact h

/-- Both parties keep reading what the other writes. -/
theorem joined_step (h : world.Joined setting) (hsteady : Steady setting world action)
    (hstep : step setting world action = some next) : next.Joined setting := by
  have hclientVersion : world.client.channel.version = setting.version := h.nearVersion
  have hserverVersion : (world.server setting).version = setting.version := h.farVersion
  cases effect_of_step hstep with
  | operates action client notReceive notTakes taken =>
    have hmoves := moves_of_step notReceive notTakes taken
    exact joined_emits h hmoves.emits hmoves.received
  | clientWrites cmd bytes live hnext encoded =>
    rw [hclientVersion] at encoded
    exact h.write live hnext (hsteady cmd hnext) encoded
  | clientFails => exact h.dies
  | clientBreaksOff cmd bytes accepted live hnext encoded isPart =>
    rw [hclientVersion] at encoded
    exact h.breakOff live (hsteady cmd hnext) encoded isPart
  | clientReads packet toClient looping taken =>
    rw [hclientVersion] at taken
    have hextends := extends_dispatchClient world.client.channel packet
    obtain ⟨hchannel, hreceived, -⟩ := Operations.stepReceive_frame world.client packet
    unfold World.Joined World.clientEnd World.receive
    dsimp only
    rw [hchannel, hreceived]
    exact h.take taken hextends (answers_client packet)
  | clientFaults | clientLeaves => exact h
  | clientTicks taken looping cut =>
    obtain rfl : taken = 0 := hsteady
    exact joined_reply h ⟨rfl, rfl, rfl⟩
  | clientDisconnects => exact joined_reply h ⟨rfl, rfl, rfl⟩
  | serverWrites cmd bytes live hnext encoded =>
    rw [hserverVersion] at encoded
    exact (h.symm.write live hnext (hsteady cmd hnext) encoded).symm
  | serverFails | serverStops => exact joined_setServer h.symm.dies.symm
  | serverBreaksOff cmd bytes accepted live hnext encoded isPart =>
    rw [hserverVersion] at encoded
    exact joined_setServer (h.symm.breakOff live (hsteady cmd hnext) encoded isPart).symm
  | serverAbandons =>
    have hextends : Extends (world.server setting) { world.server setting with
        session := (world.server setting).session.abandon } [] := .of_eq rfl rfl rfl
    exact joined_setServer (h.symm.enqueue hextends ⟨rfl, rfl, rfl⟩).symm
  | serverReads surroundings packet toServer dispatched stopped looping taken handled ends =>
    rw [hserverVersion] at taken
    obtain ⟨added, hgrows, hadded⟩ := grows_dispatchServer handled
    exact (h.symm.take taken hgrows.toExtends (answers_server hadded)).symm
  | serverFaults | serverLeaves => exact h
  | other operation store changes taken =>
    obtain ⟨messages, hgrows⟩ := Grows.step taken setting.connection
    exact (h.symm.enqueue hgrows.toExtends (unrelated_messages messages)).symm

end Joined

/-! ## What is handed on -/

/-- What the server has enqueued, stored and handed on, by what it has read. The session may be
abandoned once the loop has ended. -/
structure ServerInv (setting : Setting) (world : World) : Prop where
  stored : world.serverStopped = false → ∀ id,
    (world.server setting).session.qos2Recv.lookup id =
      (Inbound.Receiver.after world.served).stored id
  released : world.handedByServer.filter (fun m ↦ m.qos = .exactlyOnce) =
    (Inbound.Receiver.after world.served).released.map Inbound.asPublish
  prompt : (world.handedByServer.filter fun m ↦ m.qos ≠ .exactlyOnce) <+:
    world.served.filterMap direct
  promptAll : world.serverStopped = false →
    (world.handedByServer.filter fun m ↦ m.qos ≠ .exactlyOnce) = world.served.filterMap direct
  counted : Counted (world.server setting)
  plain : ∀ p, .publish p ∉ (world.server setting).commands.filterMap control

/-- What the client has stored and handed on, by what it has read. The session may be abandoned once
the loop has ended. -/
structure ClientInv (world : World) : Prop where
  stored : world.clientLoop = .looping → ∀ id, world.client.channel.session.qos2Recv.lookup id =
    (Inbound.Receiver.after world.client.received).stored id
  released : world.handedByClient.filter (fun m ↦ m.qos = .exactlyOnce) =
    (Inbound.Receiver.after world.client.received).released
  prompt : (world.handedByClient.filter fun m ↦ m.qos ≠ .exactlyOnce) <+:
    (world.client.received.filterMap direct).map incomingFromPacket
  promptAll : world.clientLoop = .looping →
    (world.handedByClient.filter fun m ↦ m.qos ≠ .exactlyOnce) =
      (world.client.received.filterMap direct).map incomingFromPacket

theorem filterMap_append_singleton {α β : Type} (f : α → Option β) (items : List α) (item : α) :
    (items ++ [item]).filterMap f = items.filterMap f ++ (f item).toList := by
  rw [List.filterMap_append, List.filterMap_cons, List.filterMap_nil]
  cases f item <;> rfl

section HandedByServer

variable {setting : Setting} {world next : World} {action : Action}

theorem serverInv_init (setting : Setting) (store : Store) :
    ServerInv setting (init setting store) := by
  have hserver : (init setting store).server setting =
      { MqttChannel.new with version := setting.version } := Function.update_self ..
  refine ⟨?_, rfl, List.prefix_rfl, fun _ ↦ rfl, ?_, ?_⟩
  · rw [hserver]
    exact fun _ _ ↦ rfl
  · rw [hserver]
    exact fun _ ↦ ⟨rfl, fun _ ↦ rfl⟩
  · rw [hserver]
    exact fun p hmem ↦ by cases hmem

theorem ServerInv.sound (h : ServerInv setting world) (hlooping : world.serverStopped = false)
    (id : PacketId) (message : IncomingPublish)
    (hstored : (world.server setting).session.qos2Recv.lookup id = some message) :
    message.qos = .exactlyOnce := by
  rw [h.stored hlooping] at hstored
  exact (Inbound.sound_after _ id message hstored).1

/-- The server reads nothing. -/
theorem ServerInv.congr (h : ServerInv setting world)
    (hstored : next.serverStopped = false →
      (next.server setting).session.qos2Recv = (world.server setting).session.qos2Recv)
    (hserved : next.served = world.served) (hhanded : next.handedByServer = world.handedByServer)
    (hstopped : next.serverStopped = false → world.serverStopped = false)
    (hcounted : Counted (next.server setting))
    (hplain : ∀ p, .publish p ∉ (next.server setting).commands.filterMap control) :
    ServerInv setting next where
  stored := by
    intro hlooping
    rw [hstored hlooping, hserved]
    exact h.stored (hstopped hlooping)
  released := by
    rw [hhanded, hserved]
    exact h.released
  prompt := by
    rw [hhanded, hserved]
    exact h.prompt
  promptAll := by
    rw [hhanded, hserved]
    exact fun hlooping ↦ h.promptAll (hstopped hlooping)
  counted := hcounted
  plain := hplain

theorem ServerInv.same (h : ServerInv setting world) (hstore : next.store = world.store)
    (hserved : next.served = world.served) (hhanded : next.handedByServer = world.handedByServer)
    (hstopped : next.serverStopped = false → world.serverStopped = false) :
    ServerInv setting next := by
  have hserver : next.server setting = world.server setting := by
    rw [World.server, hstore, World.server]
  apply h.congr
  · rw [hserver]
    exact fun _ ↦ rfl
  · exact hserved
  · exact hhanded
  · exact hstopped
  · rw [hserver]
    exact h.counted
  · rw [hserver]
    exact h.plain

/-- The writer of the server stops, or its session is abandoned behind the loop. -/
theorem ServerInv.setServer (h : ServerInv setting world) {channel : MqttChannel}
    (hstore : next.store = (world.setServer setting channel).store)
    (hcommands : channel.commands = (world.server setting).commands)
    (hstored : world.serverStopped = false →
      channel.session.qos2Recv = (world.server setting).session.qos2Recv)
    (hcounter : channel.receiving = true → (world.server setting).receiving = true ∧
      channel.session.pktCounter = (world.server setting).session.pktCounter)
    (hserved : next.served = world.served) (hhanded : next.handedByServer = world.handedByServer)
    (hstopped : next.serverStopped = world.serverStopped) : ServerInv setting next := by
  have hserver : next.server setting = channel := by
    rw [World.server, hstore]
    exact Function.update_self ..
  apply h.congr
  · rw [hserver, hstopped]
    exact hstored
  · exact hserved
  · exact hhanded
  · rw [hstopped]
    exact id
  · rw [hserver]
    intro hlength
    rw [hcommands] at hlength ⊢
    refine ⟨(h.counted hlength).1, fun hlive ↦ ?_⟩
    obtain ⟨hreceiving, hsame⟩ := hcounter hlive
    rw [hsame]
    exact (h.counted hlength).2 hreceiving
  · rw [hserver, hcommands]
    exact h.plain

theorem control_ifLive (live : Bool) (cmds : List WriteCmd) :
    (ifLive live cmds).filterMap control = ifLive live (cmds.filterMap control) := by
  unfold ifLive
  split <;> rfl

theorem ServerInv.dispatch (h : ServerInv setting world) {surroundings : Surroundings}
    {packet : Packet} {dispatched : ServerDispatch} {stopped : Bool}
    (hlooping : world.serverStopped = false)
    (hhandled : world.store.dispatchServerInbound setting.connection setting.clientId
      surroundings packet = some dispatched)
    (hends : stopped = false → dispatched.result.isOk = true) (toServer : Bytes) :
    ServerInv setting (world.dispatched packet toServer dispatched stopped) := by
  obtain ⟨added, hgrows, hadded⟩ := grows_dispatchServer hhandled
  obtain ⟨hstored, hreleased⟩ :=
    stored_dispatchServer (h.stored hlooping) (Inbound.sound_after _) hhandled
  have hprompt := direct_dispatchServer (h.sound hlooping) hhandled
  have hbefore := h.promptAll hlooping
  constructor
  · intro _ id
    rw [World.dispatched, Inbound.Receiver.after_append]
    exact hstored id
  · rw [World.dispatched, Inbound.Receiver.after_append, Inbound.Receiver.released_accept,
      List.map_append, List.filter_append, h.released, hreleased]
  · rw [World.dispatched, List.filter_append, filterMap_append_singleton, hbefore]
    obtain hall | ⟨hnone, -, -⟩ := hprompt
    · rw [hall]
    · rw [hnone, List.append_nil]
      exact List.prefix_append _ _
  · intro hstopped
    rw [World.dispatched, List.filter_append, filterMap_append_singleton, hbefore]
    obtain hall | ⟨-, hfailed, -⟩ := hprompt
    · rw [hall]
    · rw [hends hstopped] at hfailed
      cases hfailed
  · exact hgrows.counted h.counted
  · intro p hmem
    change .publish p ∈
      (dispatched.store.channels setting.connection).commands.filterMap control at hmem
    rw [hgrows.commands, List.filterMap_append, control_ifLive, hadded, List.mem_append] at hmem
    obtain hmem | hmem := hmem
    · exact h.plain p hmem
    · unfold ifLive at hmem
      split at hmem
      · rw [Option.mem_toList] at hmem
        cases packet with
        | publish =>
          simp only [serverAnswer, handshakeAnswer, publishReply] at hmem
          split at hmem <;> cases hmem
        | _ => cases hmem
      · cases hmem

/-- The server hands on what its packets release. -/
theorem serverInv_step (h : ServerInv setting world) (hsteady : Steady setting world action)
    (hstep : step setting world action = some next) : ServerInv setting next := by
  cases effect_of_step hstep with
  | operates | clientWrites | clientFails | clientBreaksOff | clientReads | clientFaults |
      clientTicks | clientLeaves | clientDisconnects | serverWrites =>
    exact h.same rfl rfl rfl id
  | serverFails | serverStops | serverBreaksOff =>
    exact h.setServer rfl rfl (fun _ ↦ rfl) (fun hlive ↦ by cases hlive) rfl rfl rfl
  | serverAbandons =>
    refine h.setServer rfl rfl ?_ (fun hlive ↦ ⟨hlive, rfl⟩) rfl rfl rfl
    intro hlooping
    exact absurd (hlooping.symm.trans hsteady) Bool.false_ne_true
  | serverReads surroundings packet toServer dispatched stopped looping taken handled ends =>
    exact h.dispatch looping handled ends toServer
  | serverFaults | serverLeaves =>
    refine h.same rfl rfl rfl ?_
    intro hstopped
    cases hstopped
  | other operation store changes taken =>
    obtain ⟨messages, hgrows⟩ := Grows.step taken setting.connection
    apply h.congr
    · exact fun _ ↦ stored_step taken setting.connection
    · rfl
    · rfl
    · exact id
    · exact hgrows.counted h.counted
    · intro p hmem
      change .publish p ∈ (store.channels setting.connection).commands.filterMap control at hmem
      have hmessages : (messages.map WriteCmd.publish).filterMap control = [] := by
        simp [List.filterMap_map, Function.comp_def, control]
      rw [hgrows.commands, List.filterMap_append, control_ifLive, hmessages] at hmem
      unfold ifLive at hmem
      rw [ite_self, List.append_nil] at hmem
      exact h.plain p hmem

end HandedByServer

section HandedByClient

variable {setting : Setting} {world next : World} {action : Action}

/-- The session of the client is not abandoned as long as its loop runs. -/
def Lasting (world : World) (action : Action) : Prop :=
  action = .client .abandon → world.clientLoop ≠ .looping

theorem clientInv_init (setting : Setting) (store : Store) :
    ClientInv (init setting store) where
  stored _ _ := rfl
  released := rfl
  prompt := List.prefix_rfl
  promptAll _ := rfl

/-- The client reads nothing. -/
theorem ClientInv.congr (h : ClientInv world)
    (hstored : next.clientLoop = .looping →
      next.client.channel.session.qos2Recv = world.client.channel.session.qos2Recv)
    (hreceived : next.client.received = world.client.received)
    (hhanded : next.handedByClient = world.handedByClient)
    (hstopped : next.clientLoop = .looping → world.clientLoop = .looping) : ClientInv next where
  stored := by
    intro hlooping
    rw [hstored hlooping, hreceived]
    exact h.stored (hstopped hlooping)
  released := by
    rw [hhanded, hreceived]
    exact h.released
  prompt := by
    rw [hhanded, hreceived]
    exact h.prompt
  promptAll := by
    rw [hhanded, hreceived]
    exact fun hlooping ↦ h.promptAll (hstopped hlooping)

theorem ClientInv.dispatch (h : ClientInv world) (hlooping : world.clientLoop = .looping)
    (packet : Packet) (toClient : Bytes) :
    ClientInv ({ world with toClient }.receive packet) := by
  have hbefore := h.stored hlooping
  obtain ⟨hstored, hreleased⟩ :=
    stored_dispatchClient hbefore (Inbound.sound_after _) packet
  obtain ⟨hchannel, hreceived, -⟩ := Operations.stepReceive_frame world.client packet
  have hsound (id : PacketId) (message : IncomingPublish)
      (hmessage : world.client.channel.session.qos2Recv.lookup id = some message) :
      message.qos = .exactlyOnce := by
    rw [hbefore] at hmessage
    exact (Inbound.sound_after _ id message hmessage).1
  have hprompt := direct_dispatchClient hsound packet
  have hall := h.promptAll hlooping
  constructor
  · intro _ id
    simp only [World.receive, hchannel, hreceived, Inbound.Receiver.after_append]
    exact hstored id
  · simp only [World.receive, hreceived, Inbound.Receiver.after_append, List.filter_append]
    rw [Inbound.Receiver.released_accept, h.released, hreleased]
  · simp only [World.receive, hreceived, List.filter_append]
    rw [filterMap_append_singleton, List.map_append, hall]
    obtain hhanded | ⟨hnone, -⟩ := hprompt
    · rw [hhanded]
    · rw [hnone, List.append_nil]
      exact List.prefix_append _ _
  · intro hstopped
    simp only [World.receive, hreceived, List.filter_append]
    rw [filterMap_append_singleton, List.map_append, hall]
    obtain hhanded | ⟨-, hfailed⟩ := hprompt
    · rw [hhanded]
    · simp only [World.receive] at hstopped
      split at hstopped
      · rename_i hresult
        rw [hresult] at hfailed
        cases hfailed
      · cases hstopped
      · cases hstopped

/-- The client hands on what its packets release. -/
theorem clientInv_step (h : ClientInv world) (hlasting : Lasting world action)
    (hstep : step setting world action = some next) : ClientInv next := by
  cases effect_of_step hstep with
  | operates action client notReceive notTakes taken =>
    have hmoves := moves_of_step notReceive notTakes taken
    refine h.congr ?_ hmoves.received rfl id
    intro hlooping
    apply hmoves.stored
    rintro rfl
    exact hlasting rfl hlooping
  | clientReads packet toClient looping taken => exact h.dispatch looping packet toClient
  | clientTicks taken looping cut =>
    refine h.congr (fun _ ↦ ?_) rfl rfl fun _ ↦ looping
    exact congrArg MqttSession.qos2Recv (MqttChannel.session_reply ..)
  | clientFaults | clientLeaves | clientDisconnects =>
    refine h.congr ?_ rfl rfl ?_ <;> exact fun hlooping ↦ by cases hlooping
  | _ => exact h.congr (fun _ ↦ rfl) rfl rfl id

end HandedByClient

/-- Both parties read what the other writes, and the server hands on what it reads. -/
structure Inv (setting : Setting) (world : World) : Prop where
  joined : world.Joined setting
  server : ServerInv setting world

theorem inv_init (setting : Setting) (store : Store) : Inv setting (init setting store) :=
  ⟨joined_init setting store, serverInv_init setting store⟩

/-- Every steady step keeps both ends in line. -/
theorem inv_step {setting : Setting} {world next : World} {action : Action}
    (h : Inv setting world) (hsteady : Steady setting world action)
    (hstep : step setting world action = some next) : Inv setting next :=
  ⟨joined_step h.joined hsteady hstep, serverInv_step h.server hsteady hstep⟩

end HotaruMqtt.Link

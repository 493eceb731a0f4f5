import HotaruMqtt.Protocol.Client
import HotaruMqtt.Session.Arrival

/-!
# Ticks between packets

The loop of `handle_client` reads a packet and waits for the next tick of its ping timer at once. A
tick drops the read, and the bytes that the read has taken so far are gone. As long as every tick
strikes between two packets, the handler takes exactly the packets that the peer has sent. A tick
behind the header of a PUBLISH makes the handler read the payload as if it were packets of the peer.
-/

namespace HotaruMqtt.Client

open Library Codec

inductive Sight where
  /-- The peer has sent something. -/
  | sent (bytes : Bytes)
  /-- The handler has taken a packet off the wire. -/
  | read (packet : Packet)

def packetRead (config : MqttClientConfig) (world : World) : Action → Option Packet
  | .connack =>
      match world.phase with
      | .awaitingConnack => (readPacket world.wire config.protocolVersion).toOption.map Prod.fst
      | _ => none
  | .turn .read =>
      match world.phase with
      | .looping =>
          if world.channel.isOpen then
            (readPacket world.wire world.channel.version).toOption.map Prod.fst
          else none
      | _ => none
  | _ => none

def observe (config : MqttClientConfig) (world : World) : Action → List Sight
  | .peer bytes => [.sent bytes]
  | action => (packetRead config world action).toList.map .read

def sentBytes (sights : List Sight) : Bytes :=
  sights.flatMap fun sight ↦ match sight with
    | .sent bytes => bytes
    | .read _ => []

def packetsRead (sights : List Sight) : List Packet :=
  sights.filterMap fun sight ↦ match sight with
    | .sent _ => none
    | .read packet => some packet

/-- A tick finds no packet half read, and nobody else changes the version of the channel. -/
def Between (current : Observed World Sight) : Action → Prop
  | .turn (.ping taken) => taken = 0
  | .disturb channel => channel.version = current.state.channel.version
  | _ => True

/-- The stream so far reads as the packets that were taken and the bytes that are left. -/
structure Aligned (config : MqttClientConfig) (current : Observed World Sight) : Prop where
  version : current.state.phase = .opening ∨
    current.state.channel.version = config.protocolVersion
  stream : decodeWhole config.protocolVersion (sentBytes current.seen) =
    { decodeWhole config.protocolVersion current.state.wire with
      items := packetsRead current.seen ++
        (decodeWhole config.protocolVersion current.state.wire).items }

/-- What a step does to the wire, as an observer sees it. -/
inductive WireStep (version : ProtocolVersion) (wire next : Bytes) : List Sight → Prop where
  | sent (bytes : Bytes) (h : next = wire ++ bytes) : WireStep version wire next [.sent bytes]
  | read (packet : Packet) (h : readPacket wire version = .ok (packet, next)) :
      WireStep version wire next [.read packet]
  | quiet (h : next = wire) : WireStep version wire next []

/-- A dispatch does not change the version of the channel. -/
theorem version_dispatch (channel : MqttChannel) (packet : Packet) :
    (channel.dispatchClientInbound packet).channel.version = channel.version := by
  cases packet with
  | publish publish =>
    have hacked : (channel.ackInboundPublishPreChain publish).1.version = channel.version := by
      unfold MqttChannel.ackInboundPublishPreChain
      split
      · exact MqttChannel.version_reply channel _
      · exact MqttChannel.version_reply _ _
      · rfl
    simp only [MqttChannel.dispatchClientInbound]
    split
    · exact hacked
    · split <;> exact hacked
  | pubrec id => exact MqttChannel.version_reply _ _
  | pubrel id =>
    simp only [MqttChannel.dispatchClientInbound]
    split
    · exact MqttChannel.version_reply _ _
    · exact MqttChannel.version_reply _ _
  | _ => rfl

section Steps

variable {config : MqttClientConfig} {world next : World}

theorem dispatch_frame (world : World) (packet : Packet) :
    (world.dispatch packet).wire = world.wire ∧
      (world.dispatch packet).channel.version = world.channel.version := by
  have hversion := version_dispatch world.channel packet
  unfold World.dispatch
  dsimp only
  split <;> exact ⟨rfl, hversion⟩

theorem subscribe_frame (world : World) (filters : List TopicFilter) :
    (world.subscribe filters).wire = world.wire ∧
      (world.subscribe filters).channel.version = world.channel.version := by
  unfold World.subscribe
  split
  · exact ⟨rfl, rfl⟩
  · dsimp only
    split
    · rename_i hsend
      exact ⟨rfl, (MqttChannel.version_of_send hsend).trans rfl⟩
    · exact ⟨rfl, rfl⟩

/-- A turn of the loop whose tick finds no packet half read. -/
theorem wireStep_wait (hphase : world.phase = .looping) (hopen : world.channel.isOpen = true)
    {event : Event} (hbetween : ∀ taken, event = .ping taken → taken = 0)
    (h : world.wait event = some next) :
    WireStep world.channel.version world.wire next.wire (observe config world (.turn event)) ∧
      next.channel.version = world.channel.version := by
  cases event with
  | wireFails | shutdown =>
    obtain rfl := Option.some.inj h
    exact ⟨.quiet rfl, rfl⟩
  | ping taken =>
    obtain rfl := hbetween taken rfl
    simp only [World.wait] at h
    split at h
    · split at h
      · rename_i hsend
        obtain rfl := Option.some.inj h
        exact ⟨.quiet rfl, MqttChannel.version_of_send hsend⟩
      · obtain rfl := Option.some.inj h
        exact ⟨.quiet rfl, rfl⟩
    · cases h
  | read =>
    simp only [World.wait] at h
    simp only [observe, packetRead, hphase, hopen, if_true]
    split at h
    · rename_i hread
      obtain rfl := Option.some.inj h
      rw [hread]
      exact ⟨.quiet rfl, rfl⟩
    · rename_i hread
      obtain rfl := Option.some.inj h
      rw [hread]
      exact ⟨.quiet rfl, rfl⟩
    · rename_i packet wire hread
      obtain rfl := Option.some.inj h
      obtain ⟨hwire, hversion⟩ := dispatch_frame { world with wire } packet
      rw [hread]
      refine ⟨.read packet ?_, hversion⟩
      rw [hwire]
      exact hread

/-- A step sends something, reads a packet or leaves the wire alone. Once the CONNECT is sent, the
version of the channel is that of the configuration. -/
theorem wireStep_of_step {action : Action}
    (hversion : world.phase = .opening ∨ world.channel.version = config.protocolVersion)
    (hbetween : ∀ taken, action = .turn (.ping taken) → taken = 0)
    (hdisturb : ∀ channel, action = .disturb channel → channel.version = world.channel.version)
    (h : step config world action = some next) :
    WireStep config.protocolVersion world.wire next.wire (observe config world action) ∧
      (next.phase = .opening ∨ next.channel.version = config.protocolVersion) := by
  have hagrees (hphase : world.phase ≠ .opening) :
      world.channel.version = config.protocolVersion := hversion.resolve_left hphase
  cases action with
  | connect =>
    simp only [step] at h
    split at h
    · split at h
      · rename_i hsend
        obtain rfl := Option.some.inj h
        exact ⟨.quiet rfl, .inr ((MqttChannel.version_of_send hsend).trans rfl)⟩
      · obtain rfl := Option.some.inj h
        exact ⟨.quiet rfl, .inr rfl⟩
    · cases h
  | connack =>
    simp only [step] at h
    split at h
    · rename_i hphase
      have hkept := hagrees (by rw [hphase]; intro hopening; cases hopening)
      simp only [observe, packetRead, hphase]
      split at h
      · rename_i hread
        obtain rfl := Option.some.inj h
        rw [hread]
        exact ⟨.quiet rfl, .inr hkept⟩
      · rename_i hread
        rw [hread]
        split at h
        · obtain rfl := Option.some.inj h
          exact ⟨.read _ hread, .inr hkept⟩
        · obtain rfl := Option.some.inj h
          exact ⟨.read _ hread, .inr hkept⟩
      · rename_i hread
        obtain rfl := Option.some.inj h
        rw [hread]
        exact ⟨.read _ hread, .inr hkept⟩
    · cases h
  | connackFails | connackTimeout =>
    simp only [step] at h
    split at h
    · rename_i hphase
      obtain rfl := Option.some.inj h
      exact ⟨.quiet rfl, .inr (hagrees (by rw [hphase]; intro hopening; cases hopening))⟩
    · cases h
  | disconnect =>
    simp only [step] at h
    split at h
    · rename_i hphase
      have hkept := hagrees (by rw [hphase]; intro hopening; cases hopening)
      obtain rfl := Option.some.inj h
      exact ⟨.quiet rfl, .inr ((MqttChannel.version_reply world.channel .disconnect).trans hkept)⟩
    · cases h
  | subscribe =>
    simp only [step] at h
    split at h
    · rename_i hphase
      have hkept := hagrees (by rw [hphase]; intro hopening; cases hopening)
      obtain ⟨hwire, hsame⟩ := subscribe_frame world config.initialSubscriptions
      obtain rfl := Option.some.inj h
      exact ⟨.quiet hwire, .inr (hsame.trans hkept)⟩
    · cases h
  | wake =>
    simp only [step] at h
    split at h
    · rename_i hphase
      have hkept := hagrees (by rw [hphase]; intro hopening; cases hopening)
      split at h
      · obtain rfl := Option.some.inj h
        exact ⟨.quiet rfl, .inr hkept⟩
      · split at h
        · cases h
        · obtain rfl := Option.some.inj h
          exact ⟨.quiet rfl, .inr hkept⟩
    · cases h
  | expire =>
    simp only [step] at h
    split at h
    · rename_i hphase
      have hkept := hagrees (by rw [hphase]; intro hopening; cases hopening)
      split at h
      · cases h
      · obtain rfl := Option.some.inj h
        exact ⟨.quiet rfl, .inr hkept⟩
    · cases h
  | turn event =>
    simp only [step] at h
    split at h
    · rename_i hphase
      have hkept := hagrees (by rw [hphase]; intro hopening; cases hopening)
      split at h
      · rename_i hopen
        obtain ⟨hstep, hsame⟩ :=
          wireStep_wait hphase hopen (fun taken htaken ↦ hbetween taken (by rw [htaken])) h
        rw [hkept] at hstep
        exact ⟨hstep, .inr (hsame.trans hkept)⟩
      · rename_i hclosed
        obtain rfl := Option.some.inj h
        have hquiet : observe config world (.turn event) = [] := by
          cases event <;> simp [observe, packetRead, hphase, hclosed]
        rw [hquiet]
        exact ⟨.quiet rfl, .inr hkept⟩
    · cases h
  | peer bytes =>
    obtain rfl := Option.some.inj h
    exact ⟨.sent bytes rfl, hversion⟩
  | disturb channel =>
    obtain rfl := Option.some.inj h
    exact ⟨.quiet rfl, hversion.imp_right (hdisturb channel rfl).trans⟩

end Steps

section Runs

variable {config : MqttClientConfig}

theorem sentBytes_append (sights more : List Sight) :
    sentBytes (sights ++ more) = sentBytes sights ++ sentBytes more :=
  List.flatMap_append

theorem packetsRead_append (sights more : List Sight) :
    packetsRead (sights ++ more) = packetsRead sights ++ packetsRead more :=
  List.filterMap_append

theorem aligned_init (config : MqttClientConfig) (channel : MqttChannel) :
    Aligned config { state := init channel [], seen := [] } where
  version := .inl rfl
  stream := rfl

theorem aligned_step {current next : Observed World Sight} {action : Action}
    (h : Aligned config current) (hbetween : Between current action)
    (hstep : observed (observe config) (step config) current action = some next) :
    Aligned config next := by
  obtain ⟨hstate, hseen⟩ := of_observed hstep
  have htick (taken : ℕ) (haction : action = .turn (.ping taken)) : taken = 0 := by
    rw [haction] at hbetween
    exact hbetween
  have hdisturb (channel : MqttChannel) (haction : action = .disturb channel) :
      channel.version = current.state.channel.version := by
    rw [haction] at hbetween
    exact hbetween
  obtain ⟨hwire, hversion⟩ := wireStep_of_step h.version htick hdisturb hstate
  refine ⟨hversion, ?_⟩
  rw [hseen, sentBytes_append, packetsRead_append]
  generalize observe config current.state action = sights at hwire
  cases hwire with
  | sent bytes hnext =>
    have hsettled := settled_decodePacketFromBytes config.protocolVersion
    have hstream := h.stream
    unfold decodeWhole at hstream ⊢
    simp only [sentBytes, packetsRead, List.flatMap_cons, List.flatMap_nil, List.append_nil,
      List.filterMap_cons, List.filterMap_nil] at hstream ⊢
    rw [hnext, Incremental.drain_append hsettled, hstream, Incremental.feed_prepend,
      ← Incremental.drain_append hsettled]
  | read packet hread =>
    have hstream := h.stream
    rw [decodeWhole_of_readPacket hread] at hstream
    simpa [sentBytes, packetsRead] using hstream
  | quiet hnext =>
    rw [hnext]
    simpa [sentBytes, packetsRead] using h.stream

end Runs

/-- The frame of a PUBLISH is a header, which is not a packet by itself, and the payload. -/
theorem exists_header {version : ProtocolVersion} {p : PublishPacket} {bytes : Bytes}
    (hsendable : Codec.Sendable version (.publish p)) (hpayload : p.payload ≠ [])
    (hbytes : encodePacket (.publish p) version = .ok bytes) :
    ∃ header, bytes = header ++ p.payload ∧ readPacket header version = .error (.error .io) := by
  obtain ⟨frame, hframe, hdecode⟩ := hsendable.exists_frame
  obtain rfl : frame = bytes := Except.ok.inj (hframe.symm.trans hbytes)
  rw [encodePacket_eq] at hbytes
  obtain ⟨body, hbody, rfl⟩ : ∃ body, encodePublishBody p version = .ok body ∧
      Codec.frame (Packet.publish p).firstByte body = frame := by
    cases hbody : encodePublishBody p version with
    | error reason =>
      simp only [encodeBody, hbody] at hbytes
      cases hbytes
    | ok body =>
      simp only [encodeBody, hbody] at hbytes
      exact ⟨body, rfl, Except.ok.inj hbytes⟩
  obtain ⟨block, -, hlayout⟩ := (encodePublishBody_eq_ok_iff p version body).mp hbody
  let fields := encodeRemainingLength body.length ++
    (prefixed (asBytes p.topic) ++ (packetIdField p ++ block))
  have hfields : Codec.frame (Packet.publish p).firstByte body =
      ((Packet.publish p).firstByte :: fields) ++ p.payload := by
    rw [Codec.frame, List.cons_append, List.append_assoc]
    nth_rewrite 2 [hlayout]
    simp only [List.append_assoc]
  refine ⟨(Packet.publish p).firstByte :: fields, hfields, ?_⟩
  have hwhole := hdecode []
  rw [List.append_nil, hfields] at hwhole
  have hwaits := Incremental.wait_of_cut (settled_decodePacketFromBytes version) hwhole hpayload
  obtain ⟨second, data, hdata⟩ : ∃ second data, fields = second :: data := by
    apply List.exists_cons_of_ne_nil
    simp [fields, prefixed, toBeBytes16]
  rw [hdata] at hwaits ⊢
  rw [readPacket_eq_ofAttempt, ← Prod.eta (decodePacketFromBytes _ version), hwaits]
  rfl

/-- After a tick behind the header of a PUBLISH, the handler takes the packet that the payload
spells. -/
theorem payload_read_as_packet {config : MqttClientConfig} {world : World} {p : PublishPacket}
    {inner : Packet} {bytes rest : Bytes} (hphase : world.phase = .looping)
    (hopen : world.channel.isOpen = true) (hreceiving : world.channel.receiving = true)
    (hpublish : Codec.Sendable world.channel.version (.publish p))
    (hinner : Codec.Sendable world.channel.version inner)
    (hpayload : encodePacket inner world.channel.version = .ok p.payload)
    (hbytes : encodePacket (.publish p) world.channel.version = .ok bytes)
    (hwire : world.wire = bytes ++ rest) :
    ∃ taken next last, step config world (.turn (.ping taken)) = some next ∧
      step config next (.turn .read) = some last ∧
      packetRead config next (.turn .read) = some (inner.seenIn world.channel.version) := by
  obtain ⟨frame, hframe, hdecode⟩ := hinner.exists_frame
  obtain rfl : frame = p.payload := Except.ok.inj (hframe.symm.trans hpayload)
  have hnonempty : p.payload ≠ [] := by
    intro hnil
    have hnothing := hdecode []
    rw [hnil] at hnothing
    cases hnothing
  obtain ⟨header, rfl, hheader⟩ := exists_header hpublish hnonempty hbytes
  have htake : world.wire.take header.length = header := by
    rw [hwire, List.append_assoc, List.take_left]
  have hdrop : world.wire.drop header.length = p.payload ++ rest := by
    rw [hwire, List.append_assoc, List.drop_left]
  have hread : readPacket (p.payload ++ rest) world.channel.version =
      .ok (inner.seenIn world.channel.version, rest) := readPacket_eq_ok_iff.mpr (hdecode rest)
  let commands := world.channel.commands ++ [WriteCmd.packet .pingreq]
  let sent := { world.channel with commands }
  have hsend : world.channel.sendPacket .pingreq = .ok sent := if_pos hreceiving
  let behind := { world with wire := p.payload ++ rest, channel := sent, phase := .looping }
  have htick : step config world (.turn (.ping header.length)) = some behind := by
    simp only [step, hphase, hopen, if_true, World.wait, htake, hheader, hdrop, hsend]
    rfl
  have hopen' : behind.channel.isOpen = true := hopen
  have hphase' : behind.phase = .looping := rfl
  have hread' : readPacket behind.wire behind.channel.version =
      .ok (inner.seenIn world.channel.version, rest) := hread
  let packet := inner.seenIn world.channel.version
  refine ⟨header.length, behind, { behind with wire := rest }.dispatch packet, htick, ?_, ?_⟩
  · simp only [step, hphase', hopen', if_true, World.wait, hread']
    rfl
  · simp only [packetRead, hphase', hopen', if_true, hread']
    rfl

/-- As long as ticks strike between packets, the handler takes the packets of the stream in order
and has the rest of the stream before it. A tick behind the header of a PUBLISH whose payload spells
a packet makes it take that packet, which the peer has never sent. -/
theorem ticks_between_packets (config : MqttClientConfig) :
    (∀ channel actions last,
      Run (observed (observe config) (step config)) Between
        { state := init channel [], seen := [] } actions last →
      decodeWhole config.protocolVersion (sentBytes last.seen) =
        { decodeWhole config.protocolVersion last.state.wire with
          items := packetsRead last.seen ++
            (decodeWhole config.protocolVersion last.state.wire).items }) ∧
    ∀ (world : World) (p : PublishPacket) (inner : Packet) (bytes rest : Bytes),
      world.phase = .looping → world.channel.isOpen = true → world.channel.receiving = true →
      Codec.Sendable world.channel.version (.publish p) →
      Codec.Sendable world.channel.version inner →
      encodePacket inner world.channel.version = .ok p.payload →
      encodePacket (.publish p) world.channel.version = .ok bytes → world.wire = bytes ++ rest →
        ∃ taken next last, step config world (.turn (.ping taken)) = some next ∧
          step config next (.turn .read) = some last ∧
          packetRead config next (.turn .read) = some (inner.seenIn world.channel.version) := by
  constructor
  · intro channel actions last run
    have haligned : Aligned config last :=
      run.invariant (aligned_init config channel) fun _ _ _ h hbetween hstep ↦
        aligned_step h hbetween hstep
    exact haligned.stream
  · intro world p inner bytes rest hphase hopen hreceiving hpublish hinner hpayload hbytes hwire
    exact payload_read_as_packet hphase hopen hreceiving hpublish hinner hpayload hbytes hwire

/-- A message whose payload spells a DISCONNECT. -/
def disguised : PublishPacket :=
  { topic := "a", payload := [0xE0, 0], dup := false, qos := .atMostOnce, retain := false
    packetId := none }

def disguisedBytes : Bytes := [0x30, 5, 0, 1, 97, 0xE0, 0]

/-- A tick before the message leaves it whole. A tick behind its header makes its payload end the
loop. -/
theorem ticks_between_packets_disconnect :
    let config : MqttClientConfig := { clientId := "a" }
    let looping : World :=
      { init { MqttChannel.new with version := .v311 } disguisedBytes with phase := .looping }
    (∃ last, Run (observed (observe config) (step config)) Between ⟨init .new [], []⟩
        [.connect, .peer ([0x20, 2, 0, 0] ++ disguisedBytes), .connack, .subscribe,
          .turn (.ping 0), .turn .read] last ∧
      (decodeWhole .v311 (sentBytes last.seen)).items = packetsRead last.seen ∧
      (packetsRead last.seen).getLast? = some (.publish disguised)) ∧
    ∃ taken next last, step config looping (.turn (.ping taken)) = some next ∧
      step config next (.turn .read) = some last ∧
      packetRead config next (.turn .read) = some .disconnect := by
  intro config looping
  have hmessage : Codec.Sendable .v311 (.publish disguised) :=
    .of_body rfl ⟨by decide, carries_default .v311⟩ (by decide) (by decide)
  have hdisconnect : Codec.Sendable .v311 .disconnect :=
    .of_body rfl trivial (by decide) (by decide)
  obtain ⟨hstream, hticks⟩ := ticks_between_packets config
  constructor
  · obtain ⟨last, run, hwire, hlast⟩ : ∃ last,
        Run (observed (observe config) (step config)) Between ⟨init .new [], []⟩
          [.connect, .peer ([0x20, 2, 0, 0] ++ disguisedBytes), .connack, .subscribe,
            .turn (.ping 0), .turn .read] last ∧
        last.state.wire = [] ∧ (packetsRead last.seen).getLast? = some (.publish disguised) := by
      have hconnected : Run (observed (observe config) (step config)) Between ⟨init .new [], []⟩
          [.connect, .peer ([0x20, 2, 0, 0] ++ disguisedBytes), .connack, .subscribe] _ :=
        .tail (.tail (.tail (.tail .refl trivial rfl) trivial rfl) trivial rfl) trivial rfl
      have hbetween (current : Observed World Sight) : Between current (.turn (.ping 0)) := rfl
      exact ⟨_, .tail (hconnected.tail (hbetween _) rfl) trivial rfl, rfl, rfl⟩
    have hitems := congrArg (·.items) (hstream .new _ last run)
    rw [hwire] at hitems
    exact ⟨last, run, hitems.trans (List.append_nil _), hlast⟩
  · exact hticks looping disguised .disconnect disguisedBytes [] rfl rfl rfl hmessage hdisconnect
      rfl (by decide) rfl

end HotaruMqtt.Client

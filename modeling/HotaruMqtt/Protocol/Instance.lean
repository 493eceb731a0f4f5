import HotaruMqtt.Protocol.Link
import HotaruMqtt.Protocol.Progress

/-!
# A protocol instance and its channels

All clones of a protocol instance in client mode share one slot for a channel. The first
`open_channel` fills it, and every request acquires the channel that is in it. A later connection
opens a channel of its own, which no request can reach. So once the writer of the first channel is
gone, no request of the instance is ever served again, however often it is connected anew.

The requests on a channel run as in `Operations`. The handshake of `handle_client` is not part of
the model, and neither are the contexts that a dispatcher makes for its endpoints.
-/

namespace HotaruMqtt

inductive ProtocolRole where
  | server
  | client
  deriving DecidableEq

/-- The channels of an instance are numbered in the order in which they are opened. -/
structure MqttProtocol where
  role : ProtocolRole
  sessionChannel : Option (Option ℕ)

namespace MqttProtocol

def server : MqttProtocol := { role := .server, sessionChannel := none }

def client : MqttProtocol := { role := .client, sessionChannel := some none }

/-- Whether the first bytes of a stream look like a CONNECT. -/
def detect (initialBytes : Bytes) : Bool :=
  (initialBytes.head?.map fun b : UInt8 ↦ b >>> 4 == 1).getD false

/-- The slot keeps the channel that was put into it first. -/
def openChannel (protocol : MqttProtocol) (channel : ℕ) : MqttProtocol :=
  { protocol with sessionChannel := protocol.sessionChannel.map (·.or (some channel)) }

def acquireChannel (protocol : MqttProtocol) : Except MqttError ℕ :=
  match protocol.sessionChannel with
  | none => .error (.configuration "acquire_channel called on Server-mode MqttProtocol")
  | some none =>
      .error (.notConnected "call client.run_wire(wire) to establish session first")
  | some (some channel) => .ok channel

end MqttProtocol

def Operations.Phase.result : Operations.Phase → Option (Except MqttError MqttResponse)
  | returned result => some result
  | _ => none

namespace Instance

open Library Link

/-- Where a request stands: without a channel, with the channel it runs on, or refused. -/
inductive Stage where
  | fresh
  | installed (channel : ℕ)
  | failed (reason : MqttError)

/-- A channel that was acquired is installed in the context of the request. -/
def Stage.acquired : Except MqttError ℕ → Stage
  | .ok channel => .installed channel
  | .error reason => .failed reason

structure World where
  protocol : MqttProtocol
  channels : List Operations.World
  stage : Waiter → Stage

def init (protocol : MqttProtocol) : World :=
  { protocol, channels := [], stage := fun _ ↦ .fresh }

def World.outcome (world : World) (op : Waiter) : Option (Except MqttError MqttResponse) :=
  match world.stage op with
  | .fresh => none
  | .failed reason => some (.error reason)
  | .installed channel => (world.channels[channel]?).bind fun current ↦ (current.phase op).result

inductive Action where
  | openChannel
  | acquireChannel (op : Waiter)
  | onChannel (channel : ℕ) (action : Operations.Action)

/-- Only a request on the channel takes steps of an operation there. -/
def World.runsOn (world : World) (channel : ℕ) (action : Operations.Action) : Bool :=
  match action.owner with
  | none => true
  | some op =>
      match world.stage op with
      | .installed installed => installed = channel
      | _ => false

section Steps

variable (requests : Waiter → MqttRequest)

def stepAcquire (world : World) (op : Waiter) : Option World :=
  match world.stage op with
  | .fresh =>
      some { world with
        stage := Function.update world.stage op (.acquired world.protocol.acquireChannel) }
  | _ => none

def stepChannel (world : World) (channel : ℕ) (action : Operations.Action) : Option World :=
  if world.runsOn channel action then
    (world.channels[channel]?).bind fun current ↦
      (Operations.step requests current action).map fun next ↦
        { world with channels := world.channels.set channel next }
  else none

def step (world : World) : Action → Option World
  | .openChannel =>
      some { world with
        protocol := world.protocol.openChannel world.channels.length
        channels := world.channels ++ [Operations.init .new] }
  | .acquireChannel op => stepAcquire world op
  | .onChannel channel action => stepChannel requests world channel action

end Steps

/-- The operation has not sent its packet, or has failed to. -/
def Futile (phase : Operations.Phase) : Prop :=
  issued phase = false ∨ phase = .returned (.error .channelClosed)

section Stopped

variable {requests : Waiter → MqttRequest} {current next : Operations.World}
  {action : Operations.Action}

theorem result_of_futile {phase : Operations.Phase} (h : Futile phase) :
    phase.result = none ∨ phase.result = some (.error .channelClosed) := by
  rcases h with hissued | rfl
  · cases phase <;> first | exact .inl rfl | cases hissued
  · exact .inr rfl

theorem futile_deliver {phase : Operations.Phase} (answer : Operations.Answer) (h : Futile phase) :
    Futile (phase.deliver answer) := by
  rcases h with hissued | rfl
  · refine .inl (Eq.trans ?_ hissued)
    unfold Operations.Phase.deliver
    split <;> rfl
  · exact .inr rfl

theorem futile_of_advances {op : Waiter} {request : MqttRequest} {phase phase' : Operations.Phase}
    (hadvances : Operations.Advances op request false action phase phase') (h : Futile phase) :
    Futile phase' := by
  rcases h with hissued | rfl
  · cases hadvances with
    | allocate | skip | register => exact .inl rfl
    | refuse => exact .inr rfl
    | sendUnnumbered hlive | send hlive => cases hlive
    | _ => cases hissued
  · cases hadvances with
    | refuse hdead unsent => rcases unsent with hphase | ⟨id, signal, hphase⟩ <;> cases hphase

/-- What no step undoes once the writer is gone. -/
structure Stopped (current next : Operations.World) : Prop where
  receiving : next.channel.receiving = false
  commands : next.channel.commands <:+ current.channel.commands
  futile : ∀ op, Futile (current.phase op) → Futile (next.phase op)

theorem stopped_receive (hdead : current.channel.receiving = false) (packet : Packet) :
    Stopped current (Operations.stepReceive current packet) := by
  have hextends := extends_dispatchClient current.channel packet
  have hchannel := (Operations.stepReceive_frame current packet).1
  refine ⟨?_, ?_, fun op hfutile ↦ ?_⟩
  · rw [hchannel, hextends.receiving, hdead]
  · rw [hchannel, hextends.commands, hdead]
    exact (List.append_nil _).symm ▸ List.suffix_refl _
  · have hendures := Operations.endures_stepReceive current packet op
    rcases hendures.phase_eq with hphase | ⟨answer, hphase⟩
    · rw [hphase]
      exact hfutile
    · rw [hphase]
      exact futile_deliver answer hfutile

theorem stopped_of_step (hdead : current.channel.receiving = false)
    (h : Operations.step requests current action = some next) : Stopped current next := by
  cases howner : action.owner with
  | some op =>
    have hadvance := Operations.advance_of_step h howner
    refine ⟨hadvance.receiving.trans hdead, ?_, fun other hfutile ↦ ?_⟩
    · rw [hadvance.commands hdead]
    · by_cases hother : other = op
      · subst hother
        have hmoves := hadvance.moves
        rw [hdead] at hmoves
        exact futile_of_advances hmoves hfutile
      · rw [hadvance.others other hother]
        exact hfutile
  | none =>
    cases action with
    | start | register | send | wake | expire | withdraw | cancel => cases howner
    | receive packet =>
      obtain rfl := Option.some.inj h
      exact stopped_receive hdead packet
    | abandon =>
      obtain rfl := Option.some.inj h
      exact ⟨hdead, List.suffix_refl _, fun _ hfutile ↦ hfutile⟩
    | writerTakes =>
      obtain rfl := Option.some.inj h
      exact ⟨hdead, List.tail_suffix _, fun _ hfutile ↦ hfutile⟩
    | writerStops =>
      obtain rfl := Option.some.inj h
      exact ⟨rfl, List.suffix_refl _, fun _ hfutile ↦ hfutile⟩

end Stopped

/-! ## The first channel -/

inductive Effect (requests : Waiter → MqttRequest) (world next : World) : Prop where
  | opened (protocol : next.protocol = world.protocol.openChannel world.channels.length)
      (channels : next.channels = world.channels ++ [Operations.init .new])
      (stage : next.stage = world.stage)
  | acquired (op : Waiter) (protocol : next.protocol = world.protocol)
      (channels : next.channels = world.channels)
      (stage : next.stage =
        Function.update world.stage op (.acquired world.protocol.acquireChannel))
  | moved (channel : ℕ) (action : Operations.Action) (current moved : Operations.World)
      (hcurrent : world.channels[channel]? = some current)
      (h : Operations.step requests current action = some moved)
      (protocol : next.protocol = world.protocol)
      (channels : next.channels = world.channels.set channel moved)
      (stage : next.stage = world.stage)

/-- The slot holds the first channel as soon as there is one, and every request runs on it. -/
structure Inv (world : World) : Prop where
  slot : world.protocol.sessionChannel = some (if world.channels = [] then none else some 0)
  installed : ∀ op channel, world.stage op = .installed channel → channel = 0

/-- The first channel has lost its writer, and the requests that had not sent anything on it by then
run on it in vain. -/
structure Lost (first : Operations.World) (late : Waiter → Prop) (world : World) : Prop where
  slot : world.protocol.sessionChannel = some (some 0)
  stopped : ∃ current, world.channels[0]? = some current ∧ current.channel.receiving = false ∧
    current.channel.commands <:+ first.channel.commands ∧
    ∀ op, late op → Futile (current.phase op)
  stages : ∀ op, late op → world.stage op = .fresh ∨ world.stage op = .installed 0

/-- Without a slot every request is refused. -/
structure Unserved (world : World) : Prop where
  slot : world.protocol.sessionChannel = none
  stages : ∀ op, world.stage op = .fresh ∨ world.stage op =
    .failed (.configuration "acquire_channel called on Server-mode MqttProtocol")

section Runs

variable {requests : Waiter → MqttRequest} {world next : World} {action : Action}
  {first : Operations.World} {late : Waiter → Prop}

theorem effect_of_step (h : step requests world action = some next) :
    Effect requests world next := by
  cases action with
  | openChannel =>
    obtain rfl := Option.some.inj h
    exact .opened rfl rfl rfl
  | acquireChannel op =>
    simp only [step, stepAcquire] at h
    split at h
    · obtain rfl := Option.some.inj h
      exact .acquired op rfl rfl rfl
    · cases h
  | onChannel channel action =>
    simp only [step, stepChannel, Option.ite_none_right_eq_some, Option.bind_eq_some_iff,
      Option.map_eq_some_iff] at h
    obtain ⟨-, current, hcurrent, moved, hmoved, rfl⟩ := h
    exact .moved channel action current moved hcurrent hmoved rfl rfl rfl

theorem Inv.channel_eq_zero (h : Inv world) {channel : ℕ}
    (hacquired : Stage.acquired world.protocol.acquireChannel = .installed channel) :
    channel = 0 := by
  rw [MqttProtocol.acquireChannel, h.slot] at hacquired
  by_cases hempty : world.channels = []
  · rw [if_pos hempty] at hacquired
    cases hacquired
  · rw [if_neg hempty] at hacquired
    cases hacquired
    rfl

theorem inv_init : Inv (init .client) where
  slot := rfl
  installed op channel hstage := by cases hstage

theorem inv_step (h : Inv world) (hstep : step requests world action = some next) :
    Inv next := by
  cases effect_of_step hstep with
  | opened protocol channels stage =>
    constructor
    · rw [protocol, channels, if_neg (List.append_ne_nil_of_right_ne_nil _ (List.cons_ne_nil _ _)),
        MqttProtocol.openChannel, h.slot]
      by_cases hempty : world.channels = []
      · simp [hempty]
      · simp [hempty]
    · rw [stage]
      exact h.installed
  | acquired op protocol channels stage =>
    constructor
    · rw [protocol, channels]
      exact h.slot
    · intro other channel hstage
      rw [stage] at hstage
      by_cases hother : other = op
      · rw [hother, Function.update_self] at hstage
        exact h.channel_eq_zero hstage
      · rw [Function.update_of_ne hother] at hstage
        exact h.installed other channel hstage
  | moved channel action current moved hcurrent hmoved protocol channels stage =>
    constructor
    · rw [protocol, channels, h.slot]
      simp only [List.set_eq_nil_iff]
    · rw [stage]
      exact h.installed

theorem Lost.init (h : Inv world) (hfirst : world.channels[0]? = some first)
    (hdead : first.channel.receiving = false) :
    Lost first (fun op ↦ world.outcome op = none ∧ issued (first.phase op) = false) world where
  slot := by
    have hne : world.channels ≠ [] := by
      intro hempty
      rw [hempty] at hfirst
      cases hfirst
    rw [h.slot, if_neg hne]
  stopped := ⟨first, hfirst, hdead, List.suffix_refl _, fun op hlate ↦ .inl hlate.2⟩
  stages op hlate := by
    have houtcome := hlate.1
    unfold World.outcome at houtcome
    cases hstage : world.stage op with
    | fresh => exact .inl rfl
    | failed reason =>
      rw [hstage] at houtcome
      cases houtcome
    | installed channel =>
      rw [h.installed op channel hstage]
      exact .inr rfl

theorem lost_step (h : Lost first late world) (hstep : step requests world action = some next) :
    Lost first late next := by
  obtain ⟨current, hcurrent, hdead, hcommands, hfutile⟩ := h.stopped
  cases effect_of_step hstep with
  | opened protocol channels stage =>
    refine ⟨?_, ⟨current, ?_, hdead, hcommands, hfutile⟩, ?_⟩
    · rw [protocol, MqttProtocol.openChannel, h.slot]
      rfl
    · rw [channels, List.getElem?_append_left (List.getElem?_eq_some_iff.mp hcurrent).1]
      exact hcurrent
    · rw [stage]
      exact h.stages
  | acquired op protocol channels stage =>
    refine ⟨?_, ⟨current, ?_, hdead, hcommands, hfutile⟩, fun other hlate ↦ ?_⟩
    · rw [protocol]
      exact h.slot
    · rw [channels]
      exact hcurrent
    · rw [stage]
      by_cases hother : other = op
      · right
        rw [hother, Function.update_self, MqttProtocol.acquireChannel, h.slot]
        rfl
      · rw [Function.update_of_ne hother]
        exact h.stages other hlate
  | moved channel action before moved hbefore hmoved protocol channels stage =>
    refine ⟨?_, ?_, ?_⟩
    · rw [protocol]
      exact h.slot
    · rw [channels]
      by_cases hchannel : channel = 0
      · subst hchannel
        obtain rfl := Option.some.inj (hcurrent.symm.trans hbefore)
        have hstopped := stopped_of_step hdead hmoved
        refine ⟨moved, ?_, hstopped.receiving, hstopped.commands.trans hcommands, ?_⟩
        · exact List.getElem?_set_self (List.getElem?_eq_some_iff.mp hcurrent).1
        · exact fun op hlate ↦ hstopped.futile op (hfutile op hlate)
      · refine ⟨current, ?_, hdead, hcommands, hfutile⟩
        rw [List.getElem?_set_ne hchannel]
        exact hcurrent
    · rw [stage]
      exact h.stages

theorem Lost.outcome (h : Lost first late world) {op : Waiter} (hlate : late op) :
    world.outcome op = none ∨ world.outcome op = some (.error .channelClosed) := by
  obtain ⟨current, hcurrent, -, -, hfutile⟩ := h.stopped
  unfold World.outcome
  rcases h.stages op hlate with hstage | hstage
  · rw [hstage]
    exact .inl rfl
  · rw [hstage]
    dsimp only
    rw [hcurrent]
    exact result_of_futile (hfutile op hlate)

theorem unserved_step (h : Unserved world) (hstep : step requests world action = some next) :
    Unserved next := by
  cases effect_of_step hstep with
  | opened protocol channels stage =>
    constructor
    · rw [protocol, MqttProtocol.openChannel, h.slot]
      rfl
    · rw [stage]
      exact h.stages
  | acquired op protocol channels stage =>
    constructor
    · rw [protocol]
      exact h.slot
    · intro other
      rw [stage]
      by_cases hother : other = op
      · rw [hother, Function.update_self, MqttProtocol.acquireChannel, h.slot]
        exact .inr rfl
      · rw [Function.update_of_ne hother]
        exact h.stages other
  | moved channel action current moved hcurrent hmoved protocol channels stage =>
    constructor
    · rw [protocol]
      exact h.slot
    · rw [stage]
      exact h.stages

/-- In client mode every request runs on the channel that was opened first. Once the writer of that
channel is gone, nothing is handed to it any more, and a request that has not sent its packet by
then can only fail with `ChannelClosed`, whatever channels are opened meanwhile. In server mode no
request gets a channel. -/
theorem first_channel_serves_all (requests : Waiter → MqttRequest) :
    (∀ actions world, Run (step requests) Unrestricted (init .client) actions world →
      (∀ op channel, world.stage op = .installed channel → channel = 0) ∧
      ∀ first, world.channels[0]? = some first → first.channel.receiving = false →
        ∀ more last, Run (step requests) Unrestricted world more last →
        (∃ current, last.channels[0]? = some current ∧
          current.channel.commands <:+ first.channel.commands) ∧
        ∀ op, world.outcome op = none → issued (first.phase op) = false →
          last.outcome op = none ∨ last.outcome op = some (.error .channelClosed)) ∧
    ∀ actions world, Run (step requests) Unrestricted (init .server) actions world →
      ∀ op, world.stage op = .fresh ∨ world.stage op =
        .failed (.configuration "acquire_channel called on Server-mode MqttProtocol") := by
  constructor
  · intro actions world run
    have hinv : Inv world := run.invariant inv_init fun _ _ _ h _ hstep ↦ inv_step h hstep
    refine ⟨hinv.installed, fun first hfirst hdead more last hmore ↦ ?_⟩
    have hlost := hmore.invariant (Lost.init hinv hfirst hdead)
      fun _ _ _ h _ hstep ↦ lost_step h hstep
    constructor
    · obtain ⟨current, hcurrent, -, hcommands, -⟩ := hlost.stopped
      exact ⟨current, hcurrent, hcommands⟩
    · intro op houtcome hissued
      exact hlost.outcome ⟨houtcome, hissued⟩
  · intro actions world run
    have hunserved : Unserved world :=
      run.invariant ⟨rfl, fun _ ↦ .inl rfl⟩ fun _ _ _ h _ hstep ↦ unserved_step h hstep
    exact hunserved.stages

/-- A message that waits for its PUBREC when the connection breaks, and a subscription that is
requested after the instance was connected anew. -/
theorem first_channel_serves_all_reconnected :
    ∃ world last, Run (step Operations.twoRequests) Unrestricted (init .client)
        [.openChannel, .acquireChannel 0, .onChannel 0 (.start 0), .onChannel 0 (.register 0),
          .onChannel 0 (.send 0), .onChannel 0 .writerStops] world ∧
      Run (step Operations.twoRequests) Unrestricted world
        [.openChannel, .acquireChannel 1, .onChannel 0 (.start 1), .onChannel 0 (.register 1),
          .onChannel 0 (.send 1)] last ∧
      (last.outcome 1 = none ∨ last.outcome 1 = some (.error .channelClosed)) ∧
      last.outcome 1 ≠ none := by
  obtain ⟨world, first, run, hfirst, hdead, houtcome, hissued, last, hmore, hlast⟩ :
      ∃ world first, Run (step Operations.twoRequests) Unrestricted (init .client)
        [.openChannel, .acquireChannel 0, .onChannel 0 (.start 0), .onChannel 0 (.register 0),
          .onChannel 0 (.send 0), .onChannel 0 .writerStops] world ∧
      world.channels[0]? = some first ∧ first.channel.receiving = false ∧
      world.outcome 1 = none ∧ issued (first.phase 1) = false ∧
      ∃ last, Run (step Operations.twoRequests) Unrestricted world
        [.openChannel, .acquireChannel 1, .onChannel 0 (.start 1), .onChannel 0 (.register 1),
          .onChannel 0 (.send 1)] last ∧
      last.outcome 1 = some (.error .channelClosed) :=
    ⟨_, _, Run.of_foldlM rfl, rfl, rfl, rfl, rfl, _, Run.of_foldlM rfl, rfl⟩
  obtain ⟨-, hlost⟩ := (first_channel_serves_all Operations.twoRequests).1 _ world run
  refine ⟨world, last, run, hmore,
    (hlost first hfirst hdead _ last hmore).2 1 houtcome hissued, ?_⟩
  rw [hlast]
  exact Option.some_ne_none _

end Runs

end Instance

end HotaruMqtt

import HotaruMqtt.Library.Runs
import HotaruMqtt.Protocol.Dispatch

/-!
# The client handler

`handle_client` takes the reader of its channel, connects, subscribes to the filters of its
configuration and then serves the connection in a loop. Packets are read and dispatched by the
loop alone. Between the steps of the handler the peer may send anything, and anything may happen
to the channel: the writer, other operations and `close` run beside it. Time is not represented: a
timeout may strike whenever the handler waits.

The SUBACK of the initial subscriptions is awaited before the loop, so nobody can deliver it.
-/

namespace HotaruMqtt

structure Credentials where
  username : String
  password : Bytes

structure MqttClientConfig where
  clientId : String
  protocolVersion : ProtocolVersion := default
  cleanSession : Bool := true
  keepAliveSecs : UInt16 := 60
  credentials : Option Credentials := none
  initialSubscriptions : List TopicFilter := []
  will : Option WillMessage := none

namespace Client

open Library

def buildConnect (config : MqttClientConfig) : ConnectPacket :=
  { version := config.protocolVersion
    properties := {}
    clientId := config.clientId
    cleanSession := config.cleanSession
    keepAlive := config.keepAliveSecs
    username := config.credentials.map Credentials.username
    password := config.credentials.map Credentials.password
    will := config.will.map fun w ↦
      { properties := {}, topic := w.topic, payload := w.payload, qos := w.qos
        retain := w.retain } }

inductive Phase where
  | opening
  /-- The CONNECT is sent. -/
  | awaitingConnack
  /-- The CONNACK has accepted the connection. -/
  | bound
  /-- The initial SUBSCRIBE is sent. -/
  | waiting (id : PacketId)
  | looping
  /-- Behind the loop. -/
  | leaving
  | returned (result : Except Fault Unit)

structure World where
  channel : MqttChannel
  /-- The bytes of the peer that were not read yet. -/
  wire : Bytes
  phase : Phase
  /-- What was sent through the slot of the initial SUBSCRIBE. -/
  signal : Option (List SubackCode)

def init (channel : MqttChannel) (wire : Bytes) : World :=
  { channel, wire, phase := .opening, signal := none }

/-- What ends a wait in the loop. A tick drops the read in progress with the bytes it has taken. -/
inductive Event where
  | read
  | wireFails
  | ping (taken : ℕ)
  | shutdown

inductive Action where
  | connect
  /-- The wait for the CONNACK ends with a packet, or with the end of the stream. -/
  | connack
  | connackFails
  | connackTimeout
  | subscribe
  | wake
  | expire
  /-- One turn of the loop. -/
  | turn (event : Event)
  | disconnect
  /-- The peer sends something. -/
  | peer (bytes : Bytes)
  /-- Something else happens to the channel. -/
  | disturb (channel : MqttChannel)

/-- The operation behind the slot of the initial SUBSCRIBE. -/
def initialWaiter : Waiter := 0

def World.returning (world : World) (result : Except Fault Unit) : World :=
  { world with phase := .returned result }

def subscribePacket (id : PacketId) (filters : List TopicFilter) : Packet :=
  .subscribe
    { packetId := id, subscriptions := filters.map fun tf ↦ { topic := tf.filter, qos := tf.qos } }

/-- The initial subscriptions, if there are any. -/
def World.subscribe (world : World) (filters : List TopicFilter) : World :=
  if filters = [] then { world with phase := .looping }
  else
    let (id, session) := world.channel.session.allocatePacketId
    let channel := (world.channel.setSession session).insertSlot id (.suback initialWaiter)
    match channel.sendPacket (subscribePacket id filters) with
    | .ok channel => { world with channel, phase := .waiting id }
    | .error reason => { world with channel }.returning (.error (.error reason))

/-- Behind the read of a packet in the loop. -/
def World.dispatch (world : World) (packet : Packet) : World :=
  let dispatched := world.channel.dispatchClientInbound packet
  let signal := match packet with
    | .suback s =>
        if dispatched.answered = some initialWaiter then some s.returnCodes else world.signal
    | _ => world.signal
  let world := { world with channel := dispatched.channel, signal }
  match dispatched.result with
  | .ok true => { world with phase := .leaving }
  | .ok false => world
  | .error reason => world.returning (.error (.error reason))

/-- A turn of the loop on a channel that was found open. -/
def World.wait (world : World) : Event → Option World
  | .wireFails | .shutdown => some { world with phase := .leaving }
  | .ping taken =>
      match Codec.readPacket (world.wire.take taken) world.channel.version with
      | .error (.error .io) =>
          let world := { world with wire := world.wire.drop taken }
          match world.channel.sendPacket .pingreq with
          | .ok channel => some { world with channel }
          | .error _ => some { world with phase := .leaving }
      | _ => none
  | .read =>
      match Codec.readPacket world.wire world.channel.version with
      | .error (.error .io) => some { world with phase := .leaving }
      | .error fault => some (world.returning (.error fault))
      | .ok (packet, wire) => some ({ world with wire }.dispatch packet)

def step (config : MqttClientConfig) (world : World) : Action → Option World
  | .connect =>
      match world.phase with
      | .opening =>
          let connect := buildConnect config
          let channel := { world.channel with version := connect.version }
          match channel.sendPacket (.connect connect) with
          | .ok channel => some { world with channel, phase := .awaitingConnack }
          | .error reason => some ({ world with channel }.returning (.error (.error reason)))
      | _ => none
  | .connack =>
      match world.phase with
      | .awaitingConnack =>
          match Codec.readPacket world.wire config.protocolVersion with
          | .error fault => some (world.returning (.error fault))
          | .ok (.connack ack, wire) =>
              if ack.returnCode = .accepted then some { world with wire, phase := .bound }
              else some ({ world with wire }.returning
                (.error (.protocol (.connectionRefused ack.returnCode))))
          | .ok (_, wire) =>
              some ({ world with wire }.returning (.error (.protocol .expectedConnack)))
      | _ => none
  | .connackFails =>
      match world.phase with
      | .awaitingConnack => some (world.returning (.error (.error .io)))
      | _ => none
  | .connackTimeout =>
      match world.phase with
      | .awaitingConnack => some (world.returning (.error (.error (.timeout .connack))))
      | _ => none
  | .subscribe =>
      match world.phase with
      | .bound => some (world.subscribe config.initialSubscriptions)
      | _ => none
  | .wake =>
      match world.phase with
      | .waiting id =>
          if world.signal.isSome then some { world with phase := .looping }
          else if world.channel.session.pendingAcks.lookup id = some (.suback initialWaiter) then
            none
          else some (world.returning (.error (.error .channelClosed)))
      | _ => none
  | .expire =>
      match world.phase with
      | .waiting _ =>
          if world.signal.isSome then none
          else some (world.returning (.error (.error (.timeout .ack))))
      | _ => none
  | .turn event =>
      match world.phase with
      | .looping =>
          if world.channel.isOpen then world.wait event else some { world with phase := .leaving }
      | _ => none
  | .disconnect =>
      match world.phase with
      | .leaving =>
          let (channel, _) := world.channel.reply .disconnect
          some ({ world with channel }.returning (.ok ()))
      | _ => none
  | .peer bytes => some { world with wire := world.wire ++ bytes }
  | .disturb channel => some { world with channel }

/-- Nothing is dispatched before the loop. -/
def Quiet (world : World) : Prop :=
  match world.phase with
  | .opening | .awaitingConnack | .bound | .waiting _ => world.signal = none
  | .looping | .leaving | .returned _ => True

/-- A handler that has initial subscriptions waits without a signal, or has given up. -/
def Stuck (world : World) : Prop :=
  match world.phase with
  | .bound | .waiting _ => world.signal = none
  | .returned result => result = .error (.error (.timeout .ack)) ∨
      result = .error (.error .channelClosed)
  | .opening | .awaitingConnack | .looping | .leaving => False

theorem quiet_init (channel : MqttChannel) (wire : Bytes) : Quiet (init channel wire) := rfl

section Steps

variable {config : MqttClientConfig} {world next : World} {action : Action}

/-- A handler that waits for its SUBACK has nobody left to read it. -/
theorem stuck_subscribe {filters : List TopicFilter} (hfilters : filters ≠ [])
    (hsignal : world.signal = none) : Stuck (world.subscribe filters) := by
  unfold World.subscribe
  rw [if_neg hfilters]
  dsimp only
  split
  · exact hsignal
  · rename_i hsend
    rw [(MqttChannel.of_send_eq_error hsend).2]
    exact .inr rfl

theorem quiet_subscribe (filters : List TopicFilter) (hsignal : world.signal = none) :
    Quiet (world.subscribe filters) := by
  unfold World.subscribe
  split
  · trivial
  · dsimp only
    split
    · exact hsignal
    · trivial

theorem Quiet.of_looping (h : world.phase = .looping) : Quiet world := by
  simp only [Quiet, h]

theorem quiet_wait {event : Event} (hlooping : world.phase = .looping)
    (hwait : world.wait event = some next) : Quiet next := by
  cases event with
  | wireFails | shutdown =>
    obtain rfl := Option.some.inj hwait
    trivial
  | ping taken =>
    simp only [World.wait] at hwait
    split at hwait
    · split at hwait
      · obtain rfl := Option.some.inj hwait
        exact .of_looping hlooping
      · obtain rfl := Option.some.inj hwait
        trivial
    · cases hwait
  | read =>
    simp only [World.wait] at hwait
    split at hwait
    · obtain rfl := Option.some.inj hwait
      trivial
    · obtain rfl := Option.some.inj hwait
      trivial
    · obtain rfl := Option.some.inj hwait
      unfold World.dispatch
      dsimp only
      split
      · trivial
      · exact .of_looping hlooping
      · trivial

/-- Only a dispatch sends a signal, and a handler that waits does not dispatch. -/
theorem stuck_step (hfilters : config.initialSubscriptions ≠ []) (h : Stuck world)
    (hstep : step config world action = some next) : Stuck next := by
  unfold Stuck at h
  cases action with
  | peer bytes | disturb channel =>
    obtain rfl := Option.some.inj hstep
    exact h
  | subscribe =>
    simp only [step] at hstep
    split at hstep
    · rename_i hphase
      rw [hphase] at h
      obtain rfl := Option.some.inj hstep
      exact stuck_subscribe hfilters h
    · cases hstep
  | wake =>
    simp only [step] at hstep
    split at hstep
    · rename_i hphase
      rw [hphase] at h
      have hsignal : world.signal = none := h
      simp only [hsignal, Option.isSome_none, Bool.false_eq_true, if_false] at hstep
      split at hstep
      · cases hstep
      · obtain rfl := Option.some.inj hstep
        exact .inr rfl
    · cases hstep
  | expire =>
    simp only [step] at hstep
    split at hstep
    · split at hstep
      · cases hstep
      · obtain rfl := Option.some.inj hstep
        exact .inl rfl
    · cases hstep
  | connect | connack | connackFails | connackTimeout | turn | disconnect =>
    simp only [step] at hstep
    split at hstep
    · rename_i hphase
      rw [hphase] at h
      exact h.elim
    · cases hstep

/-- Nothing answers the handler before its own loop runs. -/
theorem quiet_step (h : Quiet world) (hstep : step config world action = some next) :
    Quiet next := by
  unfold Quiet at h
  cases action with
  | peer bytes | disturb channel =>
    obtain rfl := Option.some.inj hstep
    exact h
  | connect =>
    simp only [step] at hstep
    split at hstep
    · rename_i hphase
      rw [hphase] at h
      split at hstep
      · obtain rfl := Option.some.inj hstep
        exact h
      · obtain rfl := Option.some.inj hstep
        trivial
    · cases hstep
  | connack =>
    simp only [step] at hstep
    split at hstep
    · rename_i hphase
      rw [hphase] at h
      split at hstep
      · obtain rfl := Option.some.inj hstep
        trivial
      · split at hstep
        · obtain rfl := Option.some.inj hstep
          exact h
        · obtain rfl := Option.some.inj hstep
          trivial
      · obtain rfl := Option.some.inj hstep
        trivial
    · cases hstep
  | subscribe =>
    simp only [step] at hstep
    split at hstep
    · rename_i hphase
      rw [hphase] at h
      obtain rfl := Option.some.inj hstep
      exact quiet_subscribe config.initialSubscriptions h
    · cases hstep
  | turn event =>
    simp only [step] at hstep
    split at hstep
    · rename_i hphase
      split at hstep
      · exact quiet_wait hphase hstep
      · obtain rfl := Option.some.inj hstep
        trivial
    · cases hstep
  | wake =>
    simp only [step] at hstep
    split at hstep
    · split at hstep
      · obtain rfl := Option.some.inj hstep
        trivial
      · split at hstep
        · cases hstep
        · obtain rfl := Option.some.inj hstep
          trivial
    · cases hstep
  | expire =>
    simp only [step] at hstep
    split at hstep
    · split at hstep
      · cases hstep
      · obtain rfl := Option.some.inj hstep
        trivial
    · cases hstep
  | connackFails | connackTimeout | disconnect =>
    simp only [step] at hstep
    split at hstep
    · obtain rfl := Option.some.inj hstep
      trivial
    · cases hstep

end Steps

/-- From the state behind an accepting CONNACK, the loop can be reached if and only if there are no
initial subscriptions. With initial subscriptions the handler can only return one of two errors. -/
theorem loop_reachable_iff {config : MqttClientConfig} {channel : MqttChannel} {wire : Bytes}
    {actions : List Action} {world : World}
    (run : Run (step config) Unrestricted (init channel wire) actions world)
    (hbound : world.phase = .bound) :
    ((∃ more last, Run (step config) Unrestricted world more last ∧ last.phase = .looping) ↔
      config.initialSubscriptions = []) ∧
    (config.initialSubscriptions ≠ [] → ∀ more last result,
      Run (step config) Unrestricted world more last → last.phase = .returned result →
      result = .error (.error (.timeout .ack)) ∨ result = .error (.error .channelClosed)) := by
  have hquiet : Quiet world :=
    run.invariant (quiet_init channel wire) fun _ _ _ h _ hstep ↦ quiet_step h hstep
  have hsignal : world.signal = none := by
    simpa only [Quiet, hbound] using hquiet
  have hstuck (hfilters : config.initialSubscriptions ≠ []) {more : List Action} {last : World}
      (hmore : Run (step config) Unrestricted world more last) : Stuck last := by
    refine hmore.invariant ?_ fun _ _ _ h _ hstep ↦ stuck_step hfilters h hstep
    simpa only [Stuck, hbound] using hsignal
  refine ⟨⟨?_, ?_⟩, ?_⟩
  · rintro ⟨more, last, hmore, hlooping⟩
    by_contra hfilters
    have hlast := hstuck hfilters hmore
    simp only [Stuck, hlooping] at hlast
  · intro hfilters
    refine ⟨[.subscribe], _, .tail .refl trivial (by simp only [step, hbound]; rfl), ?_⟩
    simp only [World.subscribe, hfilters, if_true]
  · intro hfilters more last result hmore hreturned
    simpa only [Stuck, hreturned] using hstuck hfilters hmore

/-- A client without initial subscriptions enters its loop. -/
theorem loop_reachable_plain :
    ∃ world, Run (step { clientId := "a" }) Unrestricted (init .new [0x20, 2, 0, 0])
        [.connect, .connack] world ∧
      ∃ more last, Run (step { clientId := "a" }) Unrestricted world more last ∧
        last.phase = .looping := by
  obtain ⟨world, run, hbound⟩ : ∃ world,
      Run (step { clientId := "a" }) Unrestricted (init .new [0x20, 2, 0, 0])
        [.connect, .connack] world ∧ world.phase = .bound :=
    ⟨_, Run.of_foldlM rfl, rfl⟩
  exact ⟨world, run, (loop_reachable_iff run hbound).1.mpr rfl⟩

def subscribing : MqttClientConfig :=
  { clientId := "a", initialSubscriptions := [⟨"sensors/+/temp", .atLeastOnce⟩] }

/-- The peer accepts the connection and grants the subscription. The SUBACK is on the wire, its slot
waits for it, and the loop can no longer be reached: the handler runs into its timeout. -/
theorem initial_subscription_never_answered :
    ∃ world last, Run (step subscribing) Unrestricted (init .new [0x20, 2, 0, 0])
        [.connect, .connack, .subscribe, .peer [0x90, 3, 0, 1, 1]] world ∧
      world.phase = .waiting 1 ∧
      world.channel.session.pendingAcks.lookup 1 = some (.suback initialWaiter) ∧
      Codec.readPacket world.wire world.channel.version =
        .ok (.suback { packetId := 1, returnCodes := [.granted .atLeastOnce] }, []) ∧
      (¬ ∃ more final, Run (step subscribing) Unrestricted world more final ∧
        final.phase = .looping) ∧
      step subscribing world .expire = some last ∧
      last.phase = .returned (.error (.error (.timeout .ack))) := by
  refine ⟨_, _, Run.of_foldlM rfl, rfl, rfl, by decide, ?_, rfl, rfl⟩
  rintro ⟨more, last, hmore, hlooping⟩
  have hstuck : Stuck last := by
    refine hmore.invariant ?_ fun _ _ _ h _ hstep ↦ stuck_step (by decide) h hstep
    rfl
  simp only [Stuck, hlooping] at hstuck

end Client

end HotaruMqtt

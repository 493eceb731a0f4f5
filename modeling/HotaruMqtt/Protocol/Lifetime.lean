import HotaruMqtt.Library.Ranks
import HotaruMqtt.Protocol.Instance
import HotaruMqtt.Protocol.Server
import HotaruMqtt.Wire.Sequence

/-!
# The life of a server handler

A handler reads a CONNECT, registers a session, serves the packets of its peer one by one and
unregisters. Each packet takes two bytes at least off the wire, and wherever the handler waits it
can run into a timeout. So no handler hangs, and the number of its steps is bounded by what its peer
sends. A stream that does not begin like a CONNECT never gets as far as a session.
-/

namespace HotaruMqtt.Server

open Library

/-- The steps that the handler itself takes. -/
def Action.own : Action → Bool
  | .connect _ | .connectFails | .connectTimeout | .sendConnack | .turn _ | .unregister _ => true
  | .other _ | .disturb _ => false

/-- How many phases the handler has ahead of it. -/
def Phase.rank : Phase → ℕ
  | connecting => 4
  | registered _ _ => 3
  | looping _ => 2
  | leaving _ _ => 1
  | returned _ => 0

/-- The bytes on the wire, with two for each phase ahead. -/
def World.rank (world : World) : ℕ := 2 * world.phase.rank + world.wire.length

section Steps

variable {connection : ConnectionId} {world next : World}

/-- A packet that is read takes a byte for its kind and one for its length at least. -/
theorem length_of_readPacket {wire rest : Bytes} {version : ProtocolVersion} {packet : Packet}
    (h : Codec.readPacket wire version = .ok (packet, rest)) : rest.length + 2 ≤ wire.length := by
  obtain ⟨first, packetType, lengthBytes, body, rfl, -, hlength, -⟩ :=
    Codec.exists_frame_of_decode (Codec.readPacket_eq_ok_iff.mp h)
  have hne : lengthBytes ≠ [] := by
    rintro rfl
    cases hlength
  have hpos := List.length_pos_iff.mpr hne
  simp only [List.length_cons, List.length_append]
  omega

/-- What a step of the handler does to its rank. -/
inductive Ages (world next : World) : Prop where
  | advances (wire : next.wire = world.wire) (phase : next.phase.rank < world.phase.rank)
  | reads (wire : next.wire.length + 2 ≤ world.wire.length)
      (phase : next.phase.rank ≤ world.phase.rank)

theorem Ages.rank_le (h : Ages world next) : next.rank + 2 ≤ world.rank := by
  unfold World.rank
  cases h with
  | advances wire phase =>
    rw [wire]
    omega
  | reads wire phase => omega

theorem rank_accept (connection : ConnectionId) (hphase : world.phase = .connecting)
    (auth : AuthResult) (connect : ConnectPacket) :
    (world.accept connection auth connect).wire = world.wire ∧
      (world.accept connection auth connect).phase.rank ≤ world.phase.rank := by
  unfold World.accept
  dsimp only
  rw [hphase]
  split
  · exact ⟨rfl, Nat.le_succ 3⟩
  · exact ⟨rfl, Nat.zero_le 4⟩

theorem rank_serve {client : ClientId} {surroundings : Surroundings} {packet : Packet}
    (h : world.serve connection client surroundings packet = some next)
    (hphase : world.phase = .looping client) :
    next.wire = world.wire ∧ next.phase.rank ≤ world.phase.rank := by
  unfold World.serve at h
  split at h
  · obtain rfl := Option.some.inj h
    rw [hphase]
    exact ⟨rfl, Nat.le_succ 1⟩
  · obtain ⟨dispatched, -, rfl⟩ := Option.map_eq_some_iff.mp h
    split
    · exact ⟨rfl, Nat.le_refl _⟩
    · exact ⟨rfl, Nat.zero_le _⟩

theorem ages_connect {auth : AuthResult} (h : step connection world (.connect auth) = some next) :
    Ages world next := by
  simp only [step] at h
  split at h
  · rename_i hphase
    split at h
    · obtain rfl := Option.some.inj h
      refine .advances rfl ?_
      rw [hphase]
      exact Nat.succ_pos 3
    · rename_i connect wire hread
      obtain rfl := Option.some.inj h
      have hconnecting : { world with wire }.phase = .connecting := hphase
      obtain ⟨hwire, hrank⟩ := rank_accept connection hconnecting auth connect
      refine .reads ?_ hrank
      rw [hwire]
      exact length_of_readPacket hread
    · rename_i packet wire hread
      obtain rfl := Option.some.inj h
      exact .reads (length_of_readPacket hread) (Nat.zero_le _)
  · cases h

theorem ages_turn {event : Event} (h : step connection world (.turn event) = some next) :
    Ages world next := by
  simp only [step] at h
  split at h
  · rename_i client hphase
    -- The loop is left by `break`, or by an error.
    have hleaves (graceful : Bool) : (Phase.leaving client graceful).rank < world.phase.rank := by
      rw [hphase]
      exact Nat.lt_succ_self 1
    have hreturns (result : Except Fault Unit) :
        (Phase.returned result).rank < world.phase.rank := by
      rw [hphase]
      exact Nat.succ_pos 1
    split at h
    · cases event with
      | wireFails | timeout | shutdown =>
        obtain rfl := Option.some.inj h
        exact .advances rfl (hleaves false)
      | read surroundings =>
        simp only [World.wait] at h
        split at h
        · obtain rfl := Option.some.inj h
          exact .advances rfl (hleaves false)
        · rename_i fault _ _
          obtain rfl := Option.some.inj h
          exact .advances rfl (hreturns (.error fault))
        · rename_i packet wire hread
          obtain ⟨hwire, hrank⟩ := rank_serve h hphase
          refine .reads ?_ hrank
          rw [hwire]
          exact length_of_readPacket hread
    · obtain rfl := Option.some.inj h
      exact .advances rfl (hleaves false)
  · cases h

/-- Each step of the handler reads a packet or comes to a later phase. -/
theorem ages_of_own {action : Action} (h : step connection world action = some next)
    (hown : action.own = true) : Ages world next := by
  cases action with
  | other | disturb => cases hown
  | connect auth => exact ages_connect h
  | turn event => exact ages_turn h
  | connectFails | connectTimeout =>
    simp only [step] at h
    split at h
    · rename_i hphase
      obtain rfl := Option.some.inj h
      refine .advances rfl ?_
      rw [hphase]
      exact Nat.succ_pos 3
    · cases h
  | sendConnack =>
    simp only [step] at h
    split at h
    · rename_i hphase
      split at h
      · obtain rfl := Option.some.inj h
        refine .advances rfl ?_
        rw [hphase]
        exact Nat.lt_succ_self 2
      · obtain rfl := Option.some.inj h
        refine .advances rfl ?_
        rw [hphase]
        exact Nat.succ_pos 2
    · cases h
  | unregister order =>
    simp only [step] at h
    split at h
    · rename_i hphase
      obtain ⟨store, -, rfl⟩ := Option.map_eq_some_iff.mp h
      refine .advances rfl ?_
      rw [hphase]
      exact Nat.succ_pos 0
    · cases h

theorem ranked_handler (connection : ConnectionId) :
    Ranked (step connection) Action.own 2 World.rank where
  own_le _ _ _ h hown := (ages_of_own h hown).rank_le
  other_le world action next h hown := by
    cases action with
    | connect | connectFails | connectTimeout | sendConnack | turn | unregister => cases hown
    | other operation =>
      simp only [step, Option.ite_none_right_eq_some, Option.map_eq_some_iff] at h
      obtain ⟨-, store, -, rfl⟩ := h
      exact Nat.le_refl _
    | disturb channels =>
      obtain rfl := Option.some.inj h
      exact Nat.le_refl _

end Steps

/-- A fan-out meets the matching subscriptions in some order. -/
theorem exists_unregister (store : Store) (client : ClientId) (graceful : Bool) :
    ∃ order, (store.broker.unregisterSession client graceful order store.channels).isSome := by
  simp only [Broker.unregisterSession, Option.isSome_map]
  generalize (store.broker.removeSession client graceful).2 = broker
  cases (store.broker.removeSession client graceful).1 with
  | none => exact ⟨[], rfl⟩
  | some packet =>
    have horder : broker.IsOrder packet (broker.subscriptions.matching packet.topic).toList :=
      Multiset.coe_toList _
    exact ⟨_, by rw [Broker.publishOption, if_pos horder]; rfl⟩

/-- Wherever the handler stands, it can go on by itself. -/
theorem exists_own_step (connection : ConnectionId) {world : World}
    (h : ¬ ∃ result, world.phase = .returned result) :
    ∃ action, action.own = true ∧ (step connection world action).isSome := by
  cases hphase : world.phase with
  | connecting => exact ⟨.connectTimeout, rfl, by simp [step, hphase]⟩
  | registered client sessionPresent =>
    refine ⟨.sendConnack, rfl, ?_⟩
    simp only [step, hphase]
    split <;> rfl
  | looping client =>
    refine ⟨.turn .timeout, rfl, ?_⟩
    simp only [step, hphase]
    split <;> rfl
  | leaving client graceful =>
    obtain ⟨order, horder⟩ := exists_unregister world.store client graceful
    refine ⟨.unregister order, rfl, ?_⟩
    simp only [step, hphase, Option.isSome_map]
    exact horder
  | returned result => exact absurd ⟨result, hphase⟩ h

/-- No handler hangs. Whatever its peer, the other clients and the channels do, a handler takes at
most four steps and one for every two bytes of its peer; and at every point of every run it returns
within the rest of these steps, without a step of anybody else. -/
theorem handlers_end (connection : ConnectionId) (store : Store) (wire : Bytes)
    {actions : List Action} {world : World}
    (run : Run (step connection) Unrestricted (init store wire) actions world) :
    ∃ rest last result,
      Run (step connection) (fun _ action ↦ action.own = true) world rest last ∧
      last.phase = .returned result ∧
      2 * (actions.countP Action.own + rest.length) ≤ 8 + wire.length := by
  have hranked := ranked_handler connection
  have hcount := hranked.count_add_rank_le run
  have hstart : (init store wire).rank = 8 + wire.length := rfl
  have hgoesOn (state : World) (hany : True) (hdone : ¬ ∃ result, state.phase = .returned result) :
      ∃ action next, action.own = true ∧ step connection state action = some next ∧ True := by
    obtain ⟨action, hown, hsome⟩ := exists_own_step connection hdone
    obtain ⟨next, hnext⟩ := Option.isSome_iff_exists.mp hsome
    exact ⟨action, next, hown, hnext, hany⟩
  have hcompletion : ∃ rest last,
      Run (step connection) (fun _ action ↦ action.own = true) world rest last ∧
      (∃ result, last.phase = .returned result) ∧ 2 * rest.length ≤ world.rank :=
    hranked.exists_completion Nat.two_pos (fun _ hown ↦ hown) hgoesOn trivial
  obtain ⟨rest, last, hrest, ⟨result, hlast⟩, hlength⟩ := hcompletion
  exact ⟨rest, last, result, hrest, hlast, by omega⟩

/-- A client that has connected and asked for a ping. -/
theorem handlers_end_pinged :
    ∃ world, Run (step 0) Unrestricted (init emptyStore (connectBytes ++ [0xC0, 0]))
        [.connect acceptAll, .sendConnack, .turn (.read { endpoints := [], order := [] })] world ∧
      world.phase = .looping "a" ∧ ∃ rest last result,
        Run (step 0) (fun _ action ↦ action.own = true) world rest last ∧
        last.phase = .returned result ∧ 2 * (3 + rest.length) ≤ 8 + 23 := by
  obtain ⟨world, run, hphase⟩ : ∃ world,
      Run (step 0) Unrestricted (init emptyStore (connectBytes ++ [0xC0, 0]))
        [.connect acceptAll, .sendConnack, .turn (.read { endpoints := [], order := [] })] world ∧
      world.phase = .looping "a" :=
    ⟨_, Run.of_foldlM rfl, rfl⟩
  exact ⟨world, run, hphase, handlers_end 0 emptyStore _ run⟩

theorem detect_of_packetType {first : UInt8} (h : PacketType.tryFrom (first >>> 4) = some .connect)
    (more : Bytes) : MqttProtocol.detect (first :: more) = true := by
  have hfound := List.find?_some h
  rw [decide_eq_true_eq] at hfound
  rw [MqttProtocol.detect, List.head?_cons, Option.map_some, Option.getD_some, ← hfound]
  rfl

/-- A stream from which a CONNECT is read begins like one. -/
theorem detect_of_read {wire rest : Bytes} {version : ProtocolVersion} {connect : ConnectPacket}
    (h : Codec.readPacket wire version = .ok (.connect connect, rest)) :
    MqttProtocol.detect wire = true := by
  cases wire with
  | nil => cases h
  | cons first wire => exact detect_of_packetType (Codec.packetType_of_read h) wire

theorem detect_of_encode {connect : ConnectPacket} {version : ProtocolVersion} {bytes : Bytes}
    (h : Codec.encodePacket (.connect connect) version = .ok bytes) (more : Bytes) :
    MqttProtocol.detect (bytes ++ more) = true := by
  rw [Codec.encodePacket_eq] at h
  cases hbody : Codec.encodeBody (.connect connect) version with
  | error reason =>
    rw [hbody] at h
    cases h
  | ok body =>
    rw [hbody] at h
    obtain rfl := Except.ok.inj h
    exact detect_of_packetType (Codec.tryFrom_firstByte (.connect connect)) _

/-- A handler that has not come to a session. -/
structure Unregistered (wire : Bytes) (world : World) : Prop where
  registration : world.registration = none
  phase : world.phase = .connecting ∧ world.wire = wire ∨
    ∃ fault, world.phase = .returned (.error fault)

theorem unregistered_step {connection : ConnectionId} {wire : Bytes} {world next : World}
    {action : Action} (hundetected : MqttProtocol.detect wire = false)
    (h : Unregistered wire world) (hstep : step connection world action = some next) :
    Unregistered wire next := by
  cases action with
  | connect auth =>
    rcases h.phase with ⟨hphase, hwire⟩ | ⟨fault, hphase⟩ <;> simp only [step, hphase] at hstep
    · split at hstep
      · obtain rfl := Option.some.inj hstep
        exact ⟨h.registration, .inr ⟨_, rfl⟩⟩
      · rename_i hread
        rw [hwire] at hread
        rw [detect_of_read hread] at hundetected
        cases hundetected
      · obtain rfl := Option.some.inj hstep
        exact ⟨h.registration, .inr ⟨_, rfl⟩⟩
    · cases hstep
  | connectFails | connectTimeout =>
    rcases h.phase with ⟨hphase, hwire⟩ | ⟨fault, hphase⟩ <;> simp only [step, hphase] at hstep
    · obtain rfl := Option.some.inj hstep
      exact ⟨h.registration, .inr ⟨_, rfl⟩⟩
    · cases hstep
  | sendConnack | turn | unregister =>
    rcases h.phase with ⟨hphase, hwire⟩ | ⟨fault, hphase⟩ <;> simp only [step, hphase] at hstep
    · cases hstep
    · cases hstep
  | other operation =>
    simp only [step, Option.ite_none_right_eq_some, Option.map_eq_some_iff] at hstep
    obtain ⟨-, store, -, rfl⟩ := hstep
    exact ⟨h.registration, h.phase⟩
  | disturb channels =>
    obtain rfl := Option.some.inj hstep
    exact ⟨h.registration, h.phase⟩

/-- A stream that is not detected as MQTT never gets a session: its handler waits for a CONNECT or
has returned an error. Every CONNECT that a client writes is detected. -/
theorem undetected_streams_unregistered :
    (∀ connection store wire actions world, MqttProtocol.detect wire = false →
      Run (step connection) Unrestricted (init store wire) actions world →
      world.registration = none ∧
        (world.phase = .connecting ∨ ∃ fault, world.phase = .returned (.error fault))) ∧
    ∀ connect version bytes, Codec.encodePacket (.connect connect) version = .ok bytes →
      ∀ more, MqttProtocol.detect (bytes ++ more) = true := by
  constructor
  · intro connection store wire actions world hundetected run
    have hunregistered : Unregistered wire world :=
      run.invariant ⟨rfl, .inl ⟨rfl, rfl⟩⟩ fun _ _ _ h _ hstep ↦
        unregistered_step hundetected h hstep
    exact ⟨hunregistered.registration, hunregistered.phase.imp_left And.left⟩
  · intro connect version bytes hbytes more
    exact detect_of_encode hbytes more

def plainConnect : ConnectPacket :=
  { version := .v311, clientId := "a", cleanSession := true, keepAlive := 60, username := none
    password := none, will := none }

def plainConnectBytes : Bytes :=
  [0x10, 13, 0, 4, 0x4D, 0x51, 0x54, 0x54, 4, 0x02, 0, 60, 0, 1, 0x61]

/-- A peer that sends a PINGREQ in place of its CONNECT, and one that sends a CONNECT. -/
theorem undetected_streams_unregistered_pingreq :
    ∃ world, Run (step 0) Unrestricted (init emptyStore [0xC0, 0]) [.connect acceptAll] world ∧
      world.phase = .returned (.error (.protocol .expectedConnect)) ∧
      world.registration = none ∧
      Codec.encodePacket (.connect plainConnect) .v311 = .ok plainConnectBytes ∧
      ∀ more, MqttProtocol.detect (plainConnectBytes ++ more) = true := by
  obtain ⟨hstreams, hconnects⟩ := undetected_streams_unregistered
  obtain ⟨world, run, hphase⟩ : ∃ world,
      Run (step 0) Unrestricted (init emptyStore [0xC0, 0]) [.connect acceptAll] world ∧
      world.phase = .returned (.error (.protocol .expectedConnect)) :=
    ⟨_, Run.of_foldlM rfl, rfl⟩
  have hregistration := (hstreams 0 emptyStore [0xC0, 0] _ world (by decide) run).1
  have hbytes : Codec.encodePacket (.connect plainConnect) .v311 = .ok plainConnectBytes := by
    decide
  exact ⟨world, run, hphase, hregistration, hbytes, hconnects _ _ _ hbytes⟩

end HotaruMqtt.Server

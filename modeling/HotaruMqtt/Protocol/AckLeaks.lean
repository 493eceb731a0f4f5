import HotaruMqtt.Library.Runs
import HotaruMqtt.Protocol.AckNoise
import HotaruMqtt.Protocol.Client

/-!
# Slots of failed operations

Every operation inserts its slot before it hands its packet to the writer. A wait that times out
removes the slot again, and a wait whose sender is gone has no slot left. A packet that the queue
refuses ends the operation with the slot in place, and so does the timeout of the initial SUBSCRIBE
of `handle_client`. Apart from these two exits, and as long as nobody else registers a slot under
the same identifier, a failed operation leaves no slot behind. No operation ever changes a slot
under another identifier.
-/

namespace HotaruMqtt

open Library

namespace Operations

/-- The operation that takes a step; the dispatcher, the writer and `close` are none. -/
def Action.owner : Action → Option Waiter
  | .start op | .register op | .send op | .wake op | .expire op | .withdraw op | .cancel op =>
      some op
  | .receive _ | .abandon | .writerTakes | .writerStops => none

namespace Phase

/-- The identifier of an operation that has not ended. -/
def identifier : Phase → Option PacketId
  | allocated id | registered id _ | waiting id _ | released id | waitingComp id _ | expired id =>
      some id
  | idle | unnumbered | returned _ | cancelled => none

/-- The identifier under which the next slot is inserted. -/
def registers : Phase → Option PacketId
  | allocated id | released id => some id
  | _ => none

@[simp]
theorem identifier_deliver (answer : Answer) (phase : Phase) :
    (phase.deliver answer).identifier = phase.identifier := by
  unfold deliver
  split <;> rfl

end Phase

/-- What a step of an operation does to its phase, its identifier and the table. -/
inductive Moves (op : Waiter) (request : MqttRequest) (receiving : Bool) :
    Phase → Option PacketId → Table PacketId AckSlot →
    Phase → Option PacketId → Table PacketId AckSlot → Prop where
  | allocate {own acks} (id : PacketId) :
      Moves op request receiving .idle own acks (.allocated id) (some id) acks
  | skip {own acks} : Moves op request receiving .idle own acks .unnumbered own acks
  | register {own acks id} :
      Moves op request receiving (.allocated id) own acks (.registered id none) own
        (acks.insert id (firstSlot op request))
  | registerComp {own acks id} :
      Moves op request receiving (.released id) own acks (.waitingComp id none) own
        (acks.insert id (.pubcomp op))
  | sendUnnumbered {own acks} (result : Except MqttError MqttResponse) :
      Moves op request receiving .unnumbered own acks (.returned result) own acks
  | send {own acks id signal} :
      Moves op request receiving (.registered id signal) own acks (.waiting id signal) own acks
  | refuse {own acks id signal} (reason : MqttError) (h : receiving = false) :
      Moves op request receiving (.registered id signal) own acks
        (.returned (.error reason)) own acks
  | release {own acks id answer} :
      Moves op request receiving (.waiting id (some answer)) own acks (.released id) own acks
  | answer {own acks phase} (response : MqttResponse) :
      Moves op request receiving phase own acks (.returned (.ok response)) own acks
  | close {own acks id} (h : acks.lookup id ≠ some (firstSlot op request)) :
      Moves op request receiving (.waiting id none) own acks
        (.returned (.error .channelClosed)) own acks
  | closeComp {own acks id} (h : acks.lookup id ≠ some (.pubcomp op)) :
      Moves op request receiving (.waitingComp id none) own acks
        (.returned (.error .channelClosed)) own acks
  | expire {own acks phase id} (h : phase.identifier = some id) :
      Moves op request receiving phase own acks (.expired id) own acks
  | withdraw {own acks id} :
      Moves op request receiving (.expired id) own acks
        (.returned (.error (.timeout .ack))) own (acks.erase id)
  | cancel {own acks phase} : Moves op request receiving phase own acks .cancelled own acks

section Steps

variable {requests : Waiter → MqttRequest} {world next : World} {action : Action} {op : Waiter}

/-- A step as one operation sees it. -/
def World.Moves (requests : Waiter → MqttRequest) (op : Waiter) (world next : World) : Prop :=
  (∀ other, other ≠ op → next.operations other = world.operations other) ∧
    Operations.Moves op (requests op) world.channel.receiving (world.phase op)
      (world.operations op).id world.channel.pendingAcks (next.phase op) (next.operations op).id
      next.channel.pendingAcks

theorem World.moves_record {phase : Phase} (hphase : world.phase op = phase)
    {channel : MqttChannel} {operation : OperationState} {allocations : ℕ}
    (h : Operations.Moves op (requests op) world.channel.receiving phase (world.operations op).id
      world.channel.pendingAcks operation.phase operation.id channel.pendingAcks) :
    world.Moves requests op ({ world with channel, allocations }.record op operation) := by
  constructor
  · intro other hother
    simp [World.record, hother]
  · simpa [World.phase, World.record, ← hphase] using h

theorem moves_stepStart (h : stepStart requests world op = some next) :
    world.Moves requests op next := by
  unfold stepStart at h
  split at h
  · rename_i hphase
    split at h
    · obtain rfl := Option.some.inj h
      exact World.moves_record hphase (.allocate _)
    · obtain rfl := Option.some.inj h
      exact World.moves_record hphase .skip
  · cases h

theorem moves_stepRegister (h : stepRegister requests world op = some next) :
    world.Moves requests op next := by
  unfold stepRegister at h
  split at h
  · rename_i hphase
    obtain rfl := Option.some.inj h
    exact World.moves_record hphase .register
  · rename_i hphase
    obtain rfl := Option.some.inj h
    exact World.moves_record hphase .registerComp
  · cases h

theorem pendingAcks_of_send {channel sent : MqttChannel} {cmd : WriteCmd}
    (h : channel.send cmd = .ok sent) : sent.pendingAcks = channel.pendingAcks :=
  congrArg MqttSession.pendingAcks (MqttChannel.session_of_send h)

theorem moves_stepSend (h : stepSend requests world op = some next) :
    world.Moves requests op next := by
  unfold stepSend at h
  split at h
  · rename_i hphase _
    split at h
    · rename_i hsend
      obtain rfl := Option.some.inj h
      refine World.moves_record hphase ?_
      rw [pendingAcks_of_send hsend]
      exact .sendUnnumbered _
    · obtain rfl := Option.some.inj h
      exact World.moves_record hphase (.sendUnnumbered _)
  · rename_i hphase
    split at h
    · rename_i hsend
      obtain rfl := Option.some.inj h
      refine World.moves_record hphase ?_
      rw [pendingAcks_of_send hsend]
      exact .send
    · rename_i hsend
      obtain rfl := Option.some.inj h
      exact World.moves_record hphase (.refuse _ ((MqttChannel.of_send_eq_error hsend).1))
  · cases h

theorem moves_stepWake (h : stepWake requests world op = some next) :
    world.Moves requests op next := by
  unfold stepWake at h
  split at h
  · rename_i hphase
    obtain ⟨phase, hafter, rfl⟩ := Option.map_eq_some_iff.mp h
    rcases afterAnswer_cases hafter with rfl | ⟨response, rfl⟩
    · exact World.moves_record hphase .release
    · exact World.moves_record hphase (.answer response)
  · rename_i hphase
    split at h
    · cases h
    · rename_i hholds
      obtain rfl := Option.some.inj h
      exact World.moves_record hphase (.close (by simpa [MqttChannel.holdsSlot] using hholds))
  · rename_i hphase
    obtain rfl := Option.some.inj h
    exact World.moves_record hphase (.answer _)
  · rename_i hphase
    split at h
    · cases h
    · rename_i hholds
      obtain rfl := Option.some.inj h
      exact World.moves_record hphase (.closeComp (by simpa [MqttChannel.holdsSlot] using hholds))
  · cases h

theorem moves_stepExpire (h : stepExpire world op = some next) : world.Moves requests op next := by
  unfold stepExpire at h
  split at h
  · rename_i hphase
    obtain rfl := Option.some.inj h
    exact World.moves_record hphase (.expire rfl)
  · rename_i hphase
    obtain rfl := Option.some.inj h
    exact World.moves_record hphase (.expire rfl)
  · cases h

theorem moves_stepWithdraw (h : stepWithdraw world op = some next) :
    world.Moves requests op next := by
  unfold stepWithdraw at h
  split at h
  · rename_i hphase
    obtain rfl := Option.some.inj h
    exact World.moves_record hphase .withdraw
  · cases h

theorem moves_stepCancel (h : stepCancel world op = some next) : world.Moves requests op next := by
  unfold stepCancel at h
  split at h
  · rename_i hphase
    obtain rfl := Option.some.inj h
    exact World.moves_record hphase .cancel
  · rename_i hphase
    obtain rfl := Option.some.inj h
    exact World.moves_record hphase .cancel
  · cases h

/-- A step of an operation moves it along its phases and touches its own slot only. -/
theorem moves_of_step (h : step requests world action = some next)
    (howner : action.owner = some op) : world.Moves requests op next := by
  cases action with
  | receive | abandon | writerTakes | writerStops => cases howner
  | start => exact moves_stepStart (Option.some.inj howner ▸ h)
  | register => exact moves_stepRegister (Option.some.inj howner ▸ h)
  | send => exact moves_stepSend (Option.some.inj howner ▸ h)
  | wake => exact moves_stepWake (Option.some.inj howner ▸ h)
  | expire => exact moves_stepExpire (Option.some.inj howner ▸ h)
  | withdraw => exact moves_stepWithdraw (Option.some.inj howner ▸ h)
  | cancel => exact moves_stepCancel (Option.some.inj howner ▸ h)

/-- What the dispatcher, the writer and `close` do, as one operation sees it. -/
structure World.Endures (op : Waiter) (world next : World) : Prop where
  slots : ∀ id, next.channel.pendingAcks.lookup id = none ∨
    next.channel.pendingAcks.lookup id = world.channel.pendingAcks.lookup id
  id_eq : (next.operations op).id = (world.operations op).id
  phase_eq : next.phase op = world.phase op ∨
    ∃ answer, next.phase op = (world.phase op).deliver answer

theorem endures_stepReceive (world : World) (packet : Packet) (op : Waiter) :
    world.Endures op (stepReceive world packet) := by
  have hslots (id : PacketId) :
      (world.channel.dispatchClientInbound packet).channel.pendingAcks.lookup id = none ∨
        (world.channel.dispatchClientInbound packet).channel.pendingAcks.lookup id =
          world.channel.pendingAcks.lookup id := by
    rw [MqttChannel.lookup_dispatch]
    split
    · exact .inl rfl
    · exact .inr rfl
  unfold stepReceive
  dsimp only
  split
  · rename_i answered answer _ _
    by_cases hop : op = answered
    · subst hop
      exact ⟨hslots, by simp [World.setPhase, World.record],
        .inr ⟨answer, by simp [World.phase, World.setPhase, World.record]⟩⟩
    · exact ⟨hslots, by simp [World.setPhase, World.record, hop],
        .inl (by simp [World.phase, World.setPhase, World.record, hop])⟩
  · exact ⟨hslots, rfl, .inl rfl⟩

/-- A step of nobody leaves the phase of an operation or delivers an answer to it. -/
theorem endures_of_step (h : step requests world action = some next) (howner : action.owner = none)
    (op : Waiter) : world.Endures op next := by
  cases action with
  | start | register | send | wake | expire | withdraw | cancel => cases howner
  | receive packet =>
    obtain rfl := Option.some.inj h
    exact endures_stepReceive world packet op
  | abandon =>
    obtain rfl := Option.some.inj h
    exact ⟨fun _ ↦ .inl rfl, rfl, .inl rfl⟩
  | writerTakes | writerStops =>
    obtain rfl := Option.some.inj h
    exact ⟨fun _ ↦ .inr rfl, rfl, .inl rfl⟩

end Steps

/-- The identifier of an operation agrees with its phase. -/
structure Numbered (phase : Phase) (own : Option PacketId) : Prop where
  identifier : ∀ id, phase.identifier = some id → own = some id
  unstarted : phase = .idle ∨ phase = .unnumbered → own = none

/-- What may stand in the table under the identifier of an operation. -/
def Leaves (op : Waiter) (request : MqttRequest) : Phase → Option AckSlot → Prop
  | .registered _ _, slot | .waiting _ _, slot => slot = none ∨ slot = some (firstSlot op request)
  | .waitingComp _ _, slot => slot = none ∨ slot = some (.pubcomp op)
  | .returned (.error _), slot => slot = none
  | _, _ => True

theorem leaves_none (op : Waiter) (request : MqttRequest) (phase : Phase) :
    Leaves op request phase none := by
  unfold Leaves
  split
  · exact .inl rfl
  · exact .inl rfl
  · exact .inl rfl
  · rfl
  · trivial

@[simp]
theorem leaves_deliver (op : Waiter) (request : MqttRequest) (answer : Answer) (phase : Phase)
    (slot : Option AckSlot) :
    Leaves op request (phase.deliver answer) slot = Leaves op request phase slot := by
  unfold Phase.deliver
  split <;> rfl

theorem numbered_of_ended {phase : Phase} (own : Option PacketId)
    (h : phase = .cancelled ∨ ∃ result, phase = .returned result) : Numbered phase own where
  identifier id hid := by
    rcases h with rfl | ⟨result, rfl⟩ <;> cases hid
  unstarted hstart := by
    rcases h with rfl | ⟨result, rfl⟩ <;> rcases hstart with hstart | hstart <;> cases hstart

/-- An operation goes on under its identifier. -/
theorem Numbered.goesOn {phase phase' : Phase} {own : Option PacketId} (h : Numbered phase own)
    {id : PacketId} (hid : phase.identifier = some id) (hid' : phase'.identifier = some id) :
    Numbered phase' own where
  identifier id' hother := h.identifier id' (hid.trans (hid'.symm.trans hother))
  unstarted hstart := by rcases hstart with rfl | rfl <;> cases hid'

theorem Numbered.deliver {phase : Phase} {own : Option PacketId} (h : Numbered phase own)
    (answer : Answer) : Numbered (phase.deliver answer) own where
  identifier id hid := by
    rw [Phase.identifier_deliver] at hid
    exact h.identifier id hid
  unstarted hstart := by
    apply h.unstarted
    unfold Phase.deliver at hstart
    split at hstart
    · rcases hstart with hstart | hstart <;> cases hstart
    · rcases hstart with hstart | hstart <;> cases hstart
    · rcases hstart with hstart | hstart <;> cases hstart
    · exact hstart

namespace Moves

variable {op : Waiter} {request : MqttRequest} {receiving : Bool} {phase phase' : Phase}
  {own own' : Option PacketId} {acks acks' : Table PacketId AckSlot}

theorem numbered (h : Moves op request receiving phase own acks phase' own' acks')
    (hnumbered : Numbered phase own) : Numbered phase' own' := by
  cases h with
  | allocate id =>
    constructor
    · intro id' hid
      exact hid
    · intro hstart
      rcases hstart with hstart | hstart <;> cases hstart
  | skip =>
    constructor
    · intro id hid
      cases hid
    · intro _
      exact hnumbered.unstarted (.inl rfl)
  | register => exact hnumbered.goesOn rfl rfl
  | registerComp => exact hnumbered.goesOn rfl rfl
  | send => exact hnumbered.goesOn rfl rfl
  | release => exact hnumbered.goesOn rfl rfl
  | expire hid => exact hnumbered.goesOn hid rfl
  | sendUnnumbered | refuse | answer | close | closeComp | withdraw =>
    exact numbered_of_ended _ (.inr ⟨_, rfl⟩)
  | cancel => exact numbered_of_ended _ (.inl rfl)

/-- A step changes no slot under another identifier than that of its operation. -/
theorem lookup_of_ne (h : Moves op request receiving phase own acks phase' own' acks')
    (hnumbered : Numbered phase own) {other : PacketId} (hother : own' ≠ some other) :
    acks'.lookup other = acks.lookup other := by
  cases h with
  | @register _ _ id | @registerComp _ _ id =>
    have hne : other ≠ id := by
      rintro rfl
      exact hother (hnumbered.identifier _ rfl)
    rw [Table.lookup_insert_eq, if_neg hne]
  | @withdraw _ _ id =>
    have hne : other ≠ id := by
      rintro rfl
      exact hother (hnumbered.identifier _ rfl)
    rw [Table.lookup_erase_eq, if_neg hne]
  | allocate | skip | sendUnnumbered | send | refuse | release | answer | close | closeComp
  | expire | cancel => rfl

/-- A step puts a slot only under the identifier that it registers. -/
theorem lookup_of_not_registers (h : Moves op request receiving phase own acks phase' own' acks')
    {id : PacketId} (hid : phase.registers ≠ some id) :
    acks'.lookup id = none ∨ acks'.lookup id = acks.lookup id := by
  cases h with
  | @register _ _ id' | @registerComp _ _ id' =>
    have hne : id ≠ id' := by
      rintro rfl
      exact hid rfl
    rw [Table.lookup_insert_eq, if_neg hne]
    exact .inr rfl
  | withdraw =>
    rw [Table.lookup_erase_eq]
    split
    · exact .inl rfl
    · exact .inr rfl
  | allocate | skip | sendUnnumbered | send | refuse | release | answer | close | closeComp
  | expire | cancel => exact .inr rfl

/-- With an accepted packet, what an operation leaves behind is what its next phase allows. -/
theorem leaves (h : Moves op request receiving phase own acks phase' own' acks')
    (hnumbered : Numbered phase own)
    (hslot : ∀ id, own = some id → Leaves op request phase (acks.lookup id))
    (hreceiving : ∀ id signal, phase = .registered id signal → receiving = true) {id : PacketId}
    (hid : own' = some id) : Leaves op request phase' (acks'.lookup id) := by
  have hsame {id' : PacketId} (hphase : phase.identifier = some id') (hown : own' = own) :
      id = id' := by
    have hown' := hnumbered.identifier id' hphase
    rw [← hown, hid] at hown'
    exact Option.some.inj hown'
  cases h with
  | register =>
    rw [hsame rfl rfl, Table.lookup_insert_eq, if_pos rfl]
    exact .inr rfl
  | registerComp =>
    rw [hsame rfl rfl, Table.lookup_insert_eq, if_pos rfl]
    exact .inr rfl
  | sendUnnumbered =>
    rw [hnumbered.unstarted (.inr rfl)] at hid
    cases hid
  | send => exact hslot id hid
  | refuse reason hrefused =>
    rw [hreceiving _ _ rfl] at hrefused
    cases hrefused
  | close hgone | closeComp hgone =>
    rcases hslot id hid with hnone | hown
    · exact hnone
    · rw [hsame rfl rfl] at hown
      exact absurd hown hgone
  | withdraw =>
    rw [hsame rfl rfl, Table.lookup_erase_eq, if_pos rfl]
    rfl
  | allocate | skip | release | answer | expire | cancel => trivial

end Moves

/-- Until an operation ends, its packet is not refused and no other operation registers a slot under
its identifier. An operation that has registered its slot sends in its next step. -/
structure Considerate (op : Waiter) (world : World) (action : Action) : Prop where
  accepts : action.owner = some op → ∀ id signal, world.phase op = .registered id signal →
    world.channel.receiving = true
  foreign : ∀ other id, other ≠ op → action.owner = some other →
    (world.phase other).registers = some id → (world.operations op).id ≠ some id

section Runs

variable {requests : Waiter → MqttRequest} {world next : World} {action : Action} {op : Waiter}

/-- A phase with an identifier has the one that was allocated for the operation. -/
theorem numbered_step (h : Numbered (world.phase op) (world.operations op).id)
    (hstep : step requests world action = some next) :
    Numbered (next.phase op) (next.operations op).id := by
  cases howner : action.owner with
  | none =>
    have hendures := endures_of_step hstep howner op
    rw [hendures.id_eq]
    rcases hendures.phase_eq with hphase | ⟨answer, hphase⟩
    · rwa [hphase]
    · rw [hphase]
      exact h.deliver answer
  | some other =>
    have hmoves := moves_of_step hstep howner
    by_cases hother : other = op
    · subst hother
      exact hmoves.2.numbered h
    · rw [World.phase, hmoves.1 op (Ne.symm hother)]
      exact h

/-- What the table holds under the identifier of an operation. -/
def Tidy (requests : Waiter → MqttRequest) (op : Waiter) (world : World) : Prop :=
  Numbered (world.phase op) (world.operations op).id ∧
    ∀ id, (world.operations op).id = some id →
      Leaves op (requests op) (world.phase op) (world.channel.pendingAcks.lookup id)

theorem tidy_step (h : Tidy requests op world) (hconsiderate : Considerate op world action)
    (hstep : step requests world action = some next) : Tidy requests op next := by
  refine ⟨numbered_step h.1 hstep, ?_⟩
  intro id hid
  cases howner : action.owner with
  | none =>
    have hendures := endures_of_step hstep howner op
    rw [hendures.id_eq] at hid
    have hleaves : Leaves op (requests op) (world.phase op)
        (next.channel.pendingAcks.lookup id) := by
      rcases hendures.slots id with hnone | hsame
      · rw [hnone]
        exact leaves_none op (requests op) (world.phase op)
      · rw [hsame]
        exact h.2 id hid
    rcases hendures.phase_eq with hphase | ⟨answer, hphase⟩
    · rwa [hphase]
    · rwa [hphase, leaves_deliver]
  | some other =>
    have hmoves := moves_of_step hstep howner
    by_cases hother : other = op
    · subst hother
      exact hmoves.2.leaves h.1 h.2 (hconsiderate.accepts howner) hid
    · have hsame := hmoves.1 op (Ne.symm hother)
      rw [hsame] at hid
      have hforeign : (world.phase other).registers ≠ some id := fun hregisters ↦
        hconsiderate.foreign other id hother howner hregisters hid
      rw [World.phase, hsame]
      rcases hmoves.2.lookup_of_not_registers hforeign with hnone | hkept
      · rw [hnone]
        exact leaves_none op (requests op) _
      · rw [hkept]
        exact h.2 id hid

theorem numbered_new : Numbered OperationState.new.phase OperationState.new.id where
  identifier id hid := by cases hid
  unstarted _ := rfl

theorem tidy_of_new (requests : Waiter → MqttRequest) {world : World}
    (h : world.operations op = .new) : Tidy requests op world := by
  rw [Tidy, World.phase, h]
  refine ⟨numbered_new, ?_⟩
  intro id hid
  cases hid

variable {start last : World} {actions : List Action}

/-- An operation that failed has no slot under its identifier. -/
theorem lookup_of_failed (hstart : start.operations op = .new)
    (run : Run (step requests) (Considerate op) start actions last) {reason : MqttError}
    (hreturned : last.phase op = .returned (.error reason)) {own : PacketId}
    (hown : (last.operations op).id = some own) : last.channel.pendingAcks.lookup own = none := by
  have htidy : Tidy requests op last := by
    apply run.invariant (tidy_of_new requests hstart)
    intro _ _ _ h hallowed hstep
    exact tidy_step h hallowed hstep
  have hleaves := htidy.2 own hown
  rwa [hreturned] at hleaves

theorem numbered_of_run (hstart : start.operations op = .new)
    (run : Run (step requests) Unrestricted start actions last) :
    Numbered (last.phase op) (last.operations op).id := by
  apply run.invariant
  · exact (tidy_of_new requests hstart).1
  · intro _ _ _ h _ hstep
    exact numbered_step h hstep

end Runs

end Operations

/-! ## The initial SUBSCRIBE -/

namespace Client

/-- The wait does not time out, and what happens to the channel puts no other slot under the
identifier. -/
structure Considerate (id : PacketId) (world : World) (action : Action) : Prop where
  prompt : action ≠ .expire
  foreign : ∀ channel, action = .disturb channel → channel.pendingAcks.lookup id = none ∨
    channel.pendingAcks.lookup id = world.channel.pendingAcks.lookup id

/-- The handler waits with its own slot or none, or it has returned without a slot. -/
def Tidy (id : PacketId) (world : World) : Prop :=
  match world.phase with
  | .waiting own => own = id ∧ world.signal = none ∧
      (world.channel.pendingAcks.lookup id = none ∨
        world.channel.pendingAcks.lookup id = some (.suback initialWaiter))
  | .returned _ => world.channel.pendingAcks.lookup id = none
  | .opening | .awaitingConnack | .bound | .looping | .leaving => False

section Steps

variable {config : MqttClientConfig} {world next : World} {action : Action} {id : PacketId}

theorem lookup_subscribe (world : World) {filters : List TopicFilter} (hfilters : filters ≠ [])
    (id : PacketId) :
    (world.subscribe filters).channel.pendingAcks.lookup id =
      if id = world.channel.session.allocatePacketId.1 then some (.suback initialWaiter)
      else world.channel.pendingAcks.lookup id := by
  unfold World.subscribe
  rw [if_neg hfilters]
  dsimp only
  split
  · rename_i hsend
    rw [Operations.pendingAcks_of_send hsend]
    exact Table.lookup_insert_eq _ _ _ _
  · exact Table.lookup_insert_eq _ _ _ _

/-- The initial SUBSCRIBE has one slot of its own. -/
theorem tidy_subscribe {filters : List TopicFilter} (hfilters : filters ≠ [])
    (hsignal : world.signal = none) (hreceiving : world.channel.receiving = true) :
    Tidy world.channel.session.allocatePacketId.1 (world.subscribe filters) := by
  have hlookup := lookup_subscribe world hfilters world.channel.session.allocatePacketId.1
  have hwaits : (world.subscribe filters).phase =
        .waiting world.channel.session.allocatePacketId.1 ∧
      (world.subscribe filters).signal = none := by
    unfold World.subscribe
    rw [if_neg hfilters]
    dsimp only
    split
    · exact ⟨rfl, hsignal⟩
    · rename_i hsend
      have hdead : world.channel.receiving = false := (MqttChannel.of_send_eq_error hsend).1
      rw [hreceiving] at hdead
      cases hdead
  rw [if_pos rfl] at hlookup
  simp only [Tidy, hwaits.1]
  exact ⟨trivial, hwaits.2, .inr hlookup⟩

/-- Others may take the slot of the initial SUBSCRIBE but not put another there. -/
theorem tidy_disturb {channel : MqttChannel} (h : Tidy id world)
    (hforeign : channel.pendingAcks.lookup id = none ∨
      channel.pendingAcks.lookup id = world.channel.pendingAcks.lookup id) :
    Tidy id { world with channel } := by
  unfold Tidy at h ⊢
  dsimp only
  split
  · rename_i hphase
    rw [hphase] at h
    obtain ⟨hid, hsignal, hslot⟩ := h
    refine ⟨hid, hsignal, ?_⟩
    rcases hforeign with hnone | hsame
    · exact .inl hnone
    · rwa [hsame]
  · rename_i hphase
    rw [hphase] at h
    rcases hforeign with hnone | hsame
    · exact hnone
    · rwa [hsame]
  all_goals
    rename_i hphase
    rw [hphase] at h
    exact h

theorem tidy_step (h : Tidy id world) (hconsiderate : Considerate id world action)
    (hstep : step config world action = some next) : Tidy id next := by
  cases action with
  | peer bytes =>
    obtain rfl := Option.some.inj hstep
    exact h
  | disturb channel =>
    obtain rfl := Option.some.inj hstep
    exact tidy_disturb h (hconsiderate.foreign channel rfl)
  | wake =>
    simp only [step] at hstep
    split at hstep
    · rename_i hphase
      simp only [Tidy, hphase] at h
      obtain ⟨rfl, hsignal, hslot⟩ := h
      simp only [hsignal, Option.isSome_none, Bool.false_eq_true, if_false] at hstep
      split at hstep
      · cases hstep
      · rename_i hgone
        obtain rfl := Option.some.inj hstep
        exact hslot.resolve_right hgone
    · cases hstep
  | expire => exact absurd rfl hconsiderate.prompt
  | connect | connack | connackFails | connackTimeout | subscribe | turn | disconnect =>
    simp only [step] at hstep
    split at hstep
    · rename_i hphase
      simp only [Tidy, hphase] at h
    · cases hstep

/-- The end of the wait for the SUBACK does not touch the channel. -/
theorem channel_of_wait (h : step config world action = some next)
    (haction : action = .wake ∨ action = .expire) : next.channel = world.channel := by
  rcases haction with rfl | rfl
  · simp only [step] at h
    split at h
    · split at h
      · obtain rfl := Option.some.inj h
        rfl
      · split at h
        · cases h
        · obtain rfl := Option.some.inj h
          rfl
    · cases h
  · simp only [step] at h
    split at h
    · split at h
      · cases h
      · obtain rfl := Option.some.inj h
        rfl
    · cases h

/-- A handler that failed has no slot under the identifier of its SUBSCRIBE. -/
theorem lookup_of_failed {filters : List TopicFilter} (hfilters : filters ≠ [])
    (hsignal : world.signal = none) (hreceiving : world.channel.receiving = true)
    {actions : List Action} {last : World}
    (run : Run (step config) (Considerate world.channel.session.allocatePacketId.1)
      (world.subscribe filters) actions last) {result : Except Fault Unit}
    (hreturned : last.phase = .returned result) :
    last.channel.pendingAcks.lookup world.channel.session.allocatePacketId.1 = none := by
  have htidy : Tidy world.channel.session.allocatePacketId.1 last := by
    apply run.invariant (tidy_subscribe hfilters hsignal hreceiving)
    intro _ _ _ h hallowed hstep
    exact tidy_step h hallowed hstep
  simpa only [Tidy, hreturned] using htidy

end Steps

end Client

/-- Operations that fail leave no slot under their identifier, unless their packet was refused or
another slot was put there meanwhile, and so does the initial SUBSCRIBE unless its wait times out:
the timeout leaves the slot that it finds. No operation changes a slot under another identifier. -/
theorem failed_operations_leave_no_slot (requests : Waiter → MqttRequest) (op : Waiter)
    {start : Operations.World} (hstart : start.operations op = .new) {config : MqttClientConfig}
    (hfilters : config.initialSubscriptions ≠ []) {handler : Client.World}
    (hsignal : handler.signal = none) :
    let id := handler.channel.session.allocatePacketId.1
    let subscribed := handler.subscribe config.initialSubscriptions
    (∀ actions last reason own,
      Run (Operations.step requests) (Operations.Considerate op) start actions last →
      last.phase op = .returned (.error reason) → (last.operations op).id = some own →
        last.channel.pendingAcks.lookup own = none) ∧
    (∀ actions state action next other,
      Run (Operations.step requests) Unrestricted start actions state →
      action.owner = some op → Operations.step requests state action = some next →
      (next.operations op).id ≠ some other →
        next.channel.pendingAcks.lookup other = state.channel.pendingAcks.lookup other) ∧
    (handler.channel.receiving = true → ∀ actions last reason,
      Run (Client.step config) (Client.Considerate id) subscribed actions last →
      last.phase = .returned (.error reason) → last.channel.pendingAcks.lookup id = none) ∧
    (∀ other, other ≠ id →
      subscribed.channel.pendingAcks.lookup other = handler.channel.pendingAcks.lookup other) ∧
    ∀ (state next : Client.World) (action : Client.Action),
      (action = .wake ∨ action = .expire) → Client.step config state action = some next →
        next.channel = state.channel := by
  intro id subscribed
  refine ⟨?_, ?_, ?_, ?_, ?_⟩
  · intro actions last reason own run hreturned hown
    exact Operations.lookup_of_failed hstart run hreturned hown
  · intro actions state action next other run howner hstep hother
    have hnumbered := Operations.numbered_of_run hstart run
    exact (Operations.moves_of_step hstep howner).2.lookup_of_ne hnumbered hother
  · intro hreceiving actions last reason run hreturned
    exact Client.lookup_of_failed hfilters hsignal hreceiving run hreturned
  · intro other hother
    exact (Client.lookup_subscribe handler hfilters other).trans (if_neg hother)
  · intro state next action haction hstep
    exact Client.channel_of_wait hstep haction

/-- A PUBLISH that runs into its timeout, and an initial SUBSCRIBE on a session that is closed while
it waits. -/
theorem failed_operations_leave_no_slot_timeout :
    let handler : Client.World := { Client.init .new [] with phase := .bound }
    let subscribed := handler.subscribe Client.subscribing.initialSubscriptions
    (∃ last, Run (Operations.step Operations.publishing) (Operations.Considerate 0)
        (Operations.init .new) [.start 0, .register 0, .send 0, .expire 0, .withdraw 0] last ∧
      last.phase 0 = .returned (.error (.timeout .ack)) ∧
      last.channel.pendingAcks.lookup 1 = none) ∧
    ∃ last, Run (Client.step Client.subscribing) (Client.Considerate 1) subscribed
        [.disturb .new, .wake] last ∧
      last.phase = .returned (.error (.error .channelClosed)) ∧
      last.channel.pendingAcks.lookup 1 = none := by
  intro handler subscribed
  have hfilters : Client.subscribing.initialSubscriptions ≠ [] := by simp [Client.subscribing]
  have hstart : (Operations.init .new).operations 0 = .new := rfl
  have hsignal : handler.signal = none := rfl
  have h := failed_operations_leave_no_slot Operations.publishing 0 hstart hfilters hsignal
  have hcheck (world : Operations.World) (action : Operations.Action)
      (hcheck : (world.channel.receiving && action.owner = some 0) = true) :
      Operations.Considerate 0 world action := by
    rw [Bool.and_eq_true, decide_eq_true_eq] at hcheck
    refine ⟨fun _ _ _ _ ↦ hcheck.1, fun other id hother howner _ ↦ absurd ?_ hother⟩
    rw [hcheck.2] at howner
    exact (Option.some.inj howner).symm
  have hdisturb (world : Client.World) : Client.Considerate 1 world (.disturb .new) := by
    constructor
    · intro hexpires
      cases hexpires
    · intro channel haction
      cases haction
      exact .inl rfl
  have hwake (world : Client.World) : Client.Considerate 1 world .wake := by
    constructor
    · intro hexpires
      cases hexpires
    · intro channel haction
      cases haction
  obtain ⟨last, run, hphase, hown⟩ : ∃ last,
      Run (Operations.step Operations.publishing) (Operations.Considerate 0)
        (Operations.init .new) [.start 0, .register 0, .send 0, .expire 0, .withdraw 0] last ∧
      last.phase 0 = .returned (.error (.timeout .ack)) ∧ (last.operations 0).id = some 1 :=
    ⟨_, Run.of_guarded hcheck rfl, rfl, rfl⟩
  obtain ⟨last', run', hphase'⟩ : ∃ last,
      Run (Client.step Client.subscribing) (Client.Considerate 1) subscribed
        [.disturb .new, .wake] last ∧
      last.phase = .returned (.error (.error .channelClosed)) :=
    ⟨_, .tail (.tail .refl (hdisturb _) rfl) (hwake _) rfl, rfl⟩
  exact ⟨⟨last, run, hphase, h.1 _ _ _ _ run hphase hown⟩,
    last', run', hphase', h.2.2.1 rfl _ _ _ run' hphase'⟩

/-- A refused packet leaves the slot of every kind of operation in the table, and so do a refused
initial SUBSCRIBE and its timeout. -/
theorem refused_send_leaves_slot :
    let refused (request : MqttRequest) : Option Operations.World :=
      [.start 0, .register 0, .writerStops, .send 0].foldlM
        (Operations.step fun _ ↦ request) (Operations.init .new)
    let handler : Client.World := { Client.init .new [] with phase := .bound }
    let stopped := { MqttChannel.new with receiving := false }
    (∀ request ∈ [Operations.publishing 0, .subscribe [⟨"a", .atMostOnce⟩], .unsubscribe ["a"]],
      (refused request).map (·.phase 0) = some (.returned (.error .channelClosed)) ∧
      (refused request).map (·.channel.pendingAcks.lookup 1) =
        some (some (Operations.firstSlot 0 request))) ∧
    (([.disturb stopped, .subscribe].foldlM (Client.step Client.subscribing) handler).map
      fun last ↦ (last.phase, last.channel.pendingAcks.lookup 1)) =
        some (.returned (.error (.error .channelClosed)), some (.suback Client.initialWaiter)) ∧
    (([.subscribe, .expire].foldlM (Client.step Client.subscribing) handler).map
      fun last ↦ (last.phase, last.channel.pendingAcks.lookup 1)) =
        some (.returned (.error (.error (.timeout .ack))),
          some (.suback Client.initialWaiter)) := by
  refine ⟨?_, rfl, rfl⟩
  intro request hmem
  simp only [List.mem_cons, List.not_mem_nil, or_false] at hmem
  rcases hmem with rfl | rfl | rfl
  · exact ⟨rfl, rfl⟩
  · exact ⟨rfl, rfl⟩
  · exact ⟨rfl, rfl⟩

end HotaruMqtt

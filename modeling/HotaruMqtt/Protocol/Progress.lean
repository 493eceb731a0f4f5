import HotaruMqtt.Library.Ranks
import HotaruMqtt.Protocol.Acknowledgements
import HotaruMqtt.Protocol.AckLeaks

/-!
# Operations end

An operation takes a few steps of its own, and it never has to wait for anybody to take the next
one: a wait that nobody answers runs into its timeout. So no operation hangs, whatever the peer, the
writer, the other operations and `close` do. An operation that has not handed its packet to the
writer when the writer stops can only fail.
-/

namespace HotaruMqtt.Operations

open Library

def Inserts (op : Waiter) (request : MqttRequest) (phase : Phase) (slot : AckSlot) : Prop :=
  slot = firstSlot op request ∨ slot = .pubcomp op ∧ ∃ id, phase = .released id

/-- What a step of an operation does to its phase. -/
inductive Advances (op : Waiter) (request : MqttRequest) (receiving : Bool) :
    Action → Phase → Phase → Prop where
  | allocate (id : PacketId) : Advances op request receiving (.start op) .idle (.allocated id)
  | skip (req : PublishRequest) (h : request = .publish req) :
      Advances op request receiving (.start op) .idle .unnumbered
  | register {id : PacketId} :
      Advances op request receiving (.register op) (.allocated id) (.registered id none)
  | registerComp {id : PacketId} :
      Advances op request receiving (.register op) (.released id) (.waitingComp id none)
  | sendUnnumbered (h : receiving = true) :
      Advances op request receiving (.send op) .unnumbered (.returned (.ok (.published .sent)))
  | send {id : PacketId} {signal : Option Answer} (h : receiving = true) :
      Advances op request receiving (.send op) (.registered id signal) (.waiting id signal)
  | refuse {phase : Phase} (h : receiving = false)
      (unsent : phase = .unnumbered ∨ ∃ id signal, phase = .registered id signal) :
      Advances op request receiving (.send op) phase (.returned (.error .channelClosed))
  | answer {id : PacketId} {answer : Answer} {phase : Phase}
      (h : afterAnswer id request answer = some phase) :
      Advances op request receiving (.wake op) (.waiting id (some answer)) phase
  | complete {id compId : PacketId} :
      Advances op request receiving (.wake op) (.waitingComp id (some (.acked compId)))
        (.returned (.ok (.published (.completed compId))))
  | close {id : PacketId} :
      Advances op request receiving (.wake op) (.waiting id none)
        (.returned (.error .channelClosed))
  | closeComp {id : PacketId} :
      Advances op request receiving (.wake op) (.waitingComp id none)
        (.returned (.error .channelClosed))
  | expire {id : PacketId} :
      Advances op request receiving (.expire op) (.waiting id none) (.expired id)
  | expireComp {id : PacketId} :
      Advances op request receiving (.expire op) (.waitingComp id none) (.expired id)
  | withdraw {id : PacketId} :
      Advances op request receiving (.withdraw op) (.expired id)
        (.returned (.error (.timeout .ack)))
  | cancel {id : PacketId} {signal : Option Answer} :
      Advances op request receiving (.cancel op) (.waiting id signal) .cancelled
  | cancelComp {id : PacketId} {signal : Option Answer} :
      Advances op request receiving (.cancel op) (.waitingComp id signal) .cancelled

structure Advance (requests : Waiter → MqttRequest) (op : Waiter) (action : Action)
    (world next : World) : Prop where
  others : ∀ other, other ≠ op → next.phase other = world.phase other
  moves : Advances op (requests op) world.channel.receiving action (world.phase op)
    (next.phase op)
  slots : ∀ id slot, next.channel.session.pendingAcks.lookup id = some slot →
    world.channel.session.pendingAcks.lookup id = some slot ∨
      Inserts op (requests op) (world.phase op) slot
  receiving : next.channel.receiving = world.channel.receiving
  commands : world.channel.receiving = false →
    next.channel.commands = world.channel.commands

section Inversion

variable {requests : Waiter → MqttRequest} {world next : World} {action : Action} {op : Waiter}

theorem phase_record {channel : MqttChannel} {operation : OperationState} {allocations : ℕ}
    (other : Waiter) :
    ({ world with channel, allocations }.record op operation).phase other =
      if other = op then operation.phase else world.phase other := by
  by_cases hother : other = op
  · subst hother
    simp [World.phase, World.record]
  · simp [World.phase, World.record, hother]

/-- The operation moves on, on a channel that has enqueued something at most. -/
theorem Advance.record {phase : Phase} {channel : MqttChannel} {operation : OperationState}
    {allocations : ℕ} (hphase : world.phase op = phase)
    (hmoves : Advances op (requests op) world.channel.receiving action phase operation.phase)
    (hslots : ∀ id slot, channel.session.pendingAcks.lookup id = some slot →
      world.channel.session.pendingAcks.lookup id = some slot ∨
        Inserts op (requests op) phase slot)
    (hreceiving : channel.receiving = world.channel.receiving)
    (hcommands : world.channel.receiving = false → channel.commands = world.channel.commands) :
    Advance requests op action world
      ({ world with channel, allocations }.record op operation) where
  others other hother := by rw [phase_record, if_neg hother]
  moves := by
    rw [phase_record, if_pos rfl, hphase]
    exact hmoves
  slots := by
    rw [hphase]
    exact hslots
  receiving := hreceiving
  commands := hcommands

/-- The operation moves on and leaves the channel alone. -/
theorem Advance.setPhase {phase phase' : Phase} (hphase : world.phase op = phase)
    (hmoves : Advances op (requests op) world.channel.receiving action phase phase') :
    Advance requests op action world (world.setPhase op phase') :=
  .record hphase hmoves (fun _ _ hslot ↦ .inl hslot) rfl fun _ ↦ rfl

/-- The operation hands something to the writer. -/
theorem Advance.send {phase : Phase} {cmd : WriteCmd} {channel : MqttChannel}
    {operation : OperationState} (hphase : world.phase op = phase)
    (hsend : world.channel.send cmd = .ok channel)
    (hmoves : world.channel.receiving = true →
      Advances op (requests op) world.channel.receiving action phase operation.phase) :
    Advance requests op action world ({ world with channel }.record op operation) := by
  obtain ⟨hlive, rfl⟩ := MqttChannel.of_send_eq_ok hsend
  refine .record hphase (hmoves hlive) (fun _ _ hslot ↦ .inl hslot) rfl ?_
  intro hdead
  rw [hlive] at hdead
  cases hdead

/-- The operation puts a slot into the table. -/
theorem Advance.insert {phase : Phase} {id : PacketId} {slot : AckSlot}
    {operation : OperationState} (hphase : world.phase op = phase)
    (hmoves : Advances op (requests op) world.channel.receiving action phase operation.phase)
    (hslot : Inserts op (requests op) phase slot) :
    Advance requests op action world
      ({ world with channel := world.channel.insertSlot id slot }.record op operation) := by
  refine .record hphase hmoves ?_ rfl fun _ ↦ rfl
  intro id' slot' hslot'
  rw [MqttChannel.lookup_insertSlot] at hslot'
  split at hslot'
  · obtain rfl := Option.some.inj hslot'
    exact .inr hslot
  · exact .inl hslot'

theorem needsId_eq_false {request : MqttRequest} (h : ¬ needsId request = true) :
    ∃ req, request = .publish req := by
  cases request with
  | publish req => exact ⟨req, rfl⟩
  | subscribe | unsubscribe => exact absurd rfl h

theorem advance_stepStart (h : stepStart requests world op = some next) :
    Advance requests op (.start op) world next := by
  unfold stepStart at h
  split at h
  · rename_i hphase
    split at h
    · obtain rfl := Option.some.inj h
      exact .record hphase (.allocate _) (fun _ _ hslot ↦ .inl hslot) rfl fun _ ↦ rfl
    · rename_i hneeds
      obtain rfl := Option.some.inj h
      obtain ⟨req, hreq⟩ := needsId_eq_false hneeds
      exact .setPhase hphase (.skip req hreq)
  · cases h

theorem advance_stepRegister (h : stepRegister requests world op = some next) :
    Advance requests op (.register op) world next := by
  unfold stepRegister at h
  split at h
  · rename_i hphase
    obtain rfl := Option.some.inj h
    exact .insert hphase .register (.inl rfl)
  · rename_i id hphase
    obtain rfl := Option.some.inj h
    exact .insert hphase .registerComp (.inr ⟨rfl, id, rfl⟩)
  · cases h

theorem advance_stepSend (h : stepSend requests world op = some next) :
    Advance requests op (.send op) world next := by
  unfold stepSend at h
  split at h
  · rename_i hphase _
    split at h
    · rename_i hsend
      obtain rfl := Option.some.inj h
      exact .send hphase hsend .sendUnnumbered
    · rename_i hsend
      obtain rfl := Option.some.inj h
      obtain ⟨hdead, rfl⟩ := MqttChannel.of_send_eq_error hsend
      exact .setPhase hphase (.refuse hdead (.inl rfl))
  · rename_i id signal hphase
    split at h
    · rename_i hsend
      obtain rfl := Option.some.inj h
      exact .send hphase hsend .send
    · rename_i hsend
      obtain rfl := Option.some.inj h
      obtain ⟨hdead, rfl⟩ := MqttChannel.of_send_eq_error hsend
      exact .setPhase hphase (.refuse hdead (.inr ⟨id, signal, rfl⟩))
  · cases h

theorem advance_stepWake (h : stepWake requests world op = some next) :
    Advance requests op (.wake op) world next := by
  unfold stepWake at h
  split at h
  · rename_i hphase
    obtain ⟨phase, hafter, rfl⟩ := Option.map_eq_some_iff.mp h
    exact .setPhase hphase (.answer hafter)
  · rename_i hphase
    split at h
    · cases h
    · obtain rfl := Option.some.inj h
      exact .setPhase hphase .close
  · rename_i hphase
    obtain rfl := Option.some.inj h
    exact .setPhase hphase .complete
  · rename_i hphase
    split at h
    · cases h
    · obtain rfl := Option.some.inj h
      exact .setPhase hphase .closeComp
  · cases h

theorem advance_stepExpire (h : stepExpire world op = some next) :
    Advance requests op (.expire op) world next := by
  unfold stepExpire at h
  split at h
  · rename_i hphase
    obtain rfl := Option.some.inj h
    exact .setPhase hphase .expire
  · rename_i hphase
    obtain rfl := Option.some.inj h
    exact .setPhase hphase .expireComp
  · cases h

theorem advance_stepWithdraw (h : stepWithdraw world op = some next) :
    Advance requests op (.withdraw op) world next := by
  unfold stepWithdraw at h
  split at h
  · rename_i hphase
    obtain rfl := Option.some.inj h
    refine .record hphase .withdraw ?_ rfl fun _ ↦ rfl
    intro id slot hslot
    rw [MqttChannel.lookup_eraseSlot] at hslot
    split at hslot
    · cases hslot
    · exact .inl hslot
  · cases h

theorem advance_stepCancel (h : stepCancel world op = some next) :
    Advance requests op (.cancel op) world next := by
  unfold stepCancel at h
  split at h
  · rename_i hphase
    obtain rfl := Option.some.inj h
    exact .setPhase hphase .cancel
  · rename_i hphase
    obtain rfl := Option.some.inj h
    exact .setPhase hphase .cancelComp
  · cases h

theorem advance_of_step (h : step requests world action = some next)
    (howner : action.owner = some op) : Advance requests op action world next := by
  cases action with
  | receive | abandon | writerTakes | writerStops => cases howner
  | start op => cases howner; exact advance_stepStart h
  | register op => cases howner; exact advance_stepRegister h
  | send op => cases howner; exact advance_stepSend h
  | wake op => cases howner; exact advance_stepWake h
  | expire op => cases howner; exact advance_stepExpire h
  | withdraw op => cases howner; exact advance_stepWithdraw h
  | cancel op => cases howner; exact advance_stepCancel h

end Inversion

/-! ## Readiness -/

/-- An answer of the type that the first wait of an operation expects. -/
def Suits : MqttRequest → Answer → Prop
  | .publish _, .acked _ | .subscribe _, .granted _ | .unsubscribe _, .done => True
  | _, _ => False

theorem exists_afterAnswer {request : MqttRequest} {answer : Answer} (id : PacketId)
    (h : Suits request answer) : ∃ phase, afterAnswer id request answer = some phase := by
  cases request <;> cases answer <;> simp only [Suits] at h
  · simp only [afterAnswer]
    split
    · exact ⟨_, rfl⟩
    · exact ⟨_, rfl⟩
  · exact ⟨_, rfl⟩
  · exact ⟨_, rfl⟩

/-- Whatever acknowledges a slot suits the operation behind it. -/
def SlotSuits (request : MqttRequest) (slot : AckSlot) : Prop :=
  ∀ packet id answer, Acknowledges packet id slot → answerOf packet = some answer →
    Suits request answer

/-- What an operation has received suits it, and only a PUBLISH takes some of the phases. -/
def PhaseSuits (request : MqttRequest) : Phase → Prop
  | .unnumbered | .released _ => ∃ req, request = .publish req
  | .registered _ signal | .waiting _ signal => ∀ answer ∈ signal, Suits request answer
  | .waitingComp _ signal =>
      (∃ req, request = .publish req) ∧ ∀ answer ∈ signal, Suits request answer
  | _ => True

structure Ready (requests : Waiter → MqttRequest) (world : World) : Prop where
  slots : ∀ id slot, world.channel.session.pendingAcks.lookup id = some slot →
    SlotSuits (requests slot.waiter) slot
  phases : ∀ op, PhaseSuits (requests op) (world.phase op)

section Readiness

variable {requests : Waiter → MqttRequest} {world next : World} {action : Action} {op : Waiter}

theorem slotSuits_firstSlot (op : Waiter) (request : MqttRequest) :
    SlotSuits request (firstSlot op request) := by
  intro packet id answer hack hanswer
  unfold firstSlot at hack
  split at hack
  · split at hack <;> cases hack <;> cases hanswer <;> trivial
  · cases hack; cases hanswer; trivial
  · cases hack; cases hanswer; trivial

theorem slotSuits_pubcomp (op : Waiter) (req : PublishRequest) :
    SlotSuits (.publish req) (.pubcomp op) := by
  intro packet id answer hack hanswer
  cases hack
  cases hanswer
  trivial

theorem phaseSuits_deliver {request : MqttRequest} {phase : Phase} {answer : Answer}
    (h : PhaseSuits request phase) (hsuits : Suits request answer) :
    PhaseSuits request (phase.deliver answer) := by
  have hnew : ∀ new ∈ some answer, Suits request new := by
    intro new hmem
    cases hmem
    exact hsuits
  unfold Phase.deliver
  split
  · exact hnew
  · exact hnew
  · exact ⟨h.1, hnew⟩
  · exact h

theorem phaseSuits_afterAnswer {request : MqttRequest} {id : PacketId} {answer : Answer}
    {phase : Phase} (h : afterAnswer id request answer = some phase) :
    PhaseSuits request phase := by
  unfold afterAnswer at h
  split at h
  · split at h <;> cases h
    · exact ⟨_, rfl⟩
    · trivial
  · cases h; trivial
  · cases h; trivial
  · cases h

theorem Advances.phaseSuits {request : MqttRequest} {receiving : Bool} {phase phase' : Phase}
    (h : Advances op request receiving action phase phase') (hsuits : PhaseSuits request phase) :
    PhaseSuits request phase' := by
  have hnone : ∀ answer ∈ (none : Option Answer), Suits request answer := by simp
  cases h with
  | skip req hreq => exact ⟨req, hreq⟩
  | register => exact hnone
  | registerComp => exact ⟨hsuits, hnone⟩
  | send => exact hsuits
  | answer hafter => exact phaseSuits_afterAnswer hafter
  | allocate | sendUnnumbered | refuse | complete | close | closeComp | expire | expireComp
  | withdraw | cancel | cancelComp => trivial

theorem ready_of_advance (h : Ready requests world)
    (hadvance : Advance requests op action world next) : Ready requests next where
  slots id slot hslot := by
    rcases hadvance.slots id slot hslot with hold | rfl | ⟨rfl, id', hreleased⟩
    · exact h.slots id slot hold
    · rw [waiter_firstSlot]
      exact slotSuits_firstSlot op (requests op)
    · have hphase := h.phases op
      rw [hreleased] at hphase
      obtain ⟨req, hreq⟩ := hphase
      rw [AckSlot.waiter, hreq]
      exact slotSuits_pubcomp op req
  phases other := by
    by_cases hother : other = op
    · subst hother
      exact hadvance.moves.phaseSuits (h.phases other)
    · rw [hadvance.others other hother]
      exact h.phases other

/-- Only acknowledgements answer, and they are of the type of the slot. -/
theorem ready_stepReceive (h : Ready requests world) (packet : Packet) :
    Ready requests (stepReceive world packet) := by
  have hacks := world.channel.dispatchesAcks_dispatchClientInbound packet
  unfold stepReceive
  dsimp only
  split
  · rename_i answered answer hanswered hanswer
    refine ⟨fun id slot hslot ↦ h.slots id slot (hacks.kept id slot hslot), fun other ↦ ?_⟩
    obtain ⟨id, slot, hslot, rfl, hack⟩ := hacks.acknowledged answered hanswered
    have hsuits := h.slots id slot hslot packet id answer hack hanswer
    by_cases hother : other = slot.waiter
    · subst hother
      simpa [World.phase, World.setPhase, World.record] using
        phaseSuits_deliver (h.phases slot.waiter) hsuits
    · simpa [World.phase, World.setPhase, World.record, hother] using h.phases other
  · exact ⟨fun id slot hslot ↦ h.slots id slot (hacks.kept id slot hslot), h.phases⟩

theorem ready_step (h : Ready requests world) (hstep : step requests world action = some next) :
    Ready requests next := by
  cases howner : action.owner with
  | some op => exact ready_of_advance h (advance_of_step hstep howner)
  | none =>
    cases action with
    | start | register | send | wake | expire | withdraw | cancel => cases howner
    | receive packet =>
      obtain rfl := Option.some.inj hstep
      exact ready_stepReceive h packet
    | abandon =>
      obtain rfl := Option.some.inj hstep
      refine ⟨fun id slot hslot ↦ ?_, h.phases⟩
      cases hslot
    | writerTakes | writerStops =>
      obtain rfl := Option.some.inj hstep
      exact ⟨h.slots, h.phases⟩

theorem ready_init (requests : Waiter → MqttRequest) (channel : MqttChannel) :
    Ready requests (init channel) where
  slots id slot hslot := by cases hslot
  phases op := trivial

end Readiness

/-- How many steps of its own an operation takes at most before it ends. -/
def Phase.rank : Phase → ℕ
  | idle => 7
  | allocated _ => 6
  | registered _ _ => 5
  | waiting _ _ => 4
  | released _ => 3
  | waitingComp _ _ => 2
  | unnumbered | expired _ => 1
  | returned _ | cancelled => 0

@[simp]
theorem Phase.rank_deliver (phase : Phase) (answer : Answer) :
    (phase.deliver answer).rank = phase.rank := by
  unfold deliver
  split <;> rfl

/-- The steps that an operation takes, its cancellation apart. -/
def Action.Proceeds (op : Waiter) (action : Action) : Prop :=
  action.owner = some op ∧ action ≠ .cancel op

section Ranks

variable {requests : Waiter → MqttRequest} {world next : World} {action : Action} {op : Waiter}

theorem Advances.rank_lt {request : MqttRequest} {receiving : Bool} {phase phase' : Phase}
    (h : Advances op request receiving action phase phase') : phase'.rank < phase.rank := by
  cases h with
  | refuse hdead unsent => rcases unsent with rfl | ⟨id, signal, rfl⟩ <;> simp [Phase.rank]
  | answer hafter =>
    rcases afterAnswer_cases hafter with rfl | ⟨response, rfl⟩ <;> simp [Phase.rank]
  | allocate | skip | register | registerComp | sendUnnumbered | send | complete | close
  | closeComp | expire | expireComp | withdraw | cancel | cancelComp => simp [Phase.rank]

/-- Nobody but the operation changes its rank. -/
theorem rank_of_step_other (h : step requests world action = some next)
    (howner : action.owner ≠ some op) : (next.phase op).rank = (world.phase op).rank := by
  cases hother : action.owner with
  | some other =>
    have hne : op ≠ other := by
      rintro rfl
      exact howner hother
    rw [(advance_of_step h hother).others op hne]
  | none =>
    rcases (endures_of_step h hother op).phase_eq with hphase | ⟨answer, hphase⟩
    · rw [hphase]
    · rw [hphase, Phase.rank_deliver]

/-- The steps that an operation takes count against its rank. -/
theorem ranked_operation (requests : Waiter → MqttRequest) (op : Waiter) :
    Ranked (step requests) (fun action ↦ action.owner = some op) 1
      (fun world ↦ (world.phase op).rank) where
  own_le _ _ _ h hown := (advance_of_step h (of_decide_eq_true hown)).moves.rank_lt
  other_le _ _ _ h hown := (rank_of_step_other h (of_decide_eq_false hown)).le

end Ranks

/-- A step that an operation can take from a phase without waiting for anybody. -/
def Phase.proceed (op : Waiter) : Phase → Action
  | idle => .start op
  | allocated _ | released _ => .register op
  | unnumbered | registered _ _ => .send op
  | waiting _ (some _) | waitingComp _ (some _) => .wake op
  | waiting _ none | waitingComp _ none => .expire op
  | expired _ | returned _ | cancelled => .withdraw op

theorem Phase.proceeds_proceed (op : Waiter) (phase : Phase) :
    (phase.proceed op).Proceeds op := by
  unfold proceed
  split <;> exact ⟨rfl, Action.noConfusion⟩

section Completion

variable {requests : Waiter → MqttRequest} {world next : World} {action : Action} {op : Waiter}

theorem isSome_stepSend (h : PhaseSuits (requests op) (world.phase op))
    (hphase : world.phase op = .unnumbered ∨ ∃ id signal, world.phase op = .registered id signal) :
    (stepSend requests world op).isSome := by
  unfold stepSend
  rcases hphase with hphase | ⟨id, signal, hphase⟩
  · rw [hphase] at h
    obtain ⟨req, hreq⟩ := h
    simp only [hphase, hreq]
    split <;> rfl
  · simp only [hphase]
    split <;> rfl

theorem isSome_stepWake {id : PacketId} {answer : Answer}
    (h : PhaseSuits (requests op) (world.phase op))
    (hphase : world.phase op = .waiting id (some answer) ∨
      world.phase op = .waitingComp id (some answer)) :
    (stepWake requests world op).isSome := by
  unfold stepWake
  rcases hphase with hphase | hphase
  · rw [hphase] at h
    obtain ⟨phase, hafter⟩ := exists_afterAnswer id (h answer rfl)
    simp [hphase, hafter]
  · rw [hphase] at h
    obtain ⟨⟨req, hreq⟩, hanswer⟩ := h
    have hsuits := hanswer answer rfl
    rw [hreq] at hsuits
    cases answer with
    | acked compId => simp [hphase]
    | granted | done => cases hsuits

/-- An operation that has not ended can take a step of its own. -/
theorem isSome_step_proceed (h : Ready requests world) (hrank : (world.phase op).rank ≠ 0) :
    (step requests world ((world.phase op).proceed op)).isSome := by
  have hsuits := h.phases op
  cases hphase : world.phase op with
  | idle =>
    simp only [Phase.proceed, step, stepStart, hphase]
    split <;> rfl
  | unnumbered => exact isSome_stepSend hsuits (.inl hphase)
  | allocated id => simp [Phase.proceed, step, stepRegister, hphase]
  | registered id signal => exact isSome_stepSend hsuits (.inr ⟨id, signal, hphase⟩)
  | waiting id signal =>
    cases signal with
    | none => simp [Phase.proceed, step, stepExpire, hphase]
    | some answer => exact isSome_stepWake hsuits (.inl hphase)
  | released id => simp [Phase.proceed, step, stepRegister, hphase]
  | waitingComp id signal =>
    cases signal with
    | none => simp [Phase.proceed, step, stepExpire, hphase]
    | some answer => exact isSome_stepWake hsuits (.inr hphase)
  | expired id => simp [Phase.proceed, step, stepWithdraw, hphase]
  | returned | cancelled =>
    rw [hphase] at hrank
    exact absurd rfl hrank

theorem Advances.not_cancelled {request : MqttRequest} {receiving : Bool} {phase phase' : Phase}
    (h : Advances op request receiving action phase phase') (hproceeds : action.Proceeds op) :
    phase' ≠ .cancelled := by
  rintro rfl
  cases h with
  | answer hafter =>
    rcases afterAnswer_cases hafter with hphase | ⟨response, hphase⟩ <;> cases hphase
  | cancel | cancelComp => exact hproceeds.2 rfl

/-- An operation that is neither cancelled nor done goes on by itself. -/
theorem exists_proceeding_step (h : Ready requests world) (hlive : world.phase op ≠ .cancelled)
    (hdone : ¬ ∃ result, world.phase op = .returned result) :
    ∃ action next, action.Proceeds op ∧ step requests world action = some next ∧
      Ready requests next ∧ next.phase op ≠ .cancelled := by
  have hrank : (world.phase op).rank ≠ 0 := by
    intro hzero
    cases hphase : world.phase op with
    | returned result => exact hdone ⟨result, hphase⟩
    | cancelled => exact hlive hphase
    | _ => rw [hphase] at hzero; cases hzero
  obtain ⟨next, hnext⟩ := Option.isSome_iff_exists.mp (isSome_step_proceed h hrank)
  have hproceeds := (world.phase op).proceeds_proceed op
  have hadvance := advance_of_step hnext hproceeds.1
  exact ⟨_, next, hproceeds, hnext, ready_step h hnext, hadvance.moves.not_cancelled hproceeds⟩

/-- No operation hangs. Whatever the peer, the writer, `close` and the other operations do, an
operation takes at most seven steps of its own; and at every point of every run, one that was not
cancelled returns after the rest of these seven steps, without a step of anybody else. -/
theorem operations_end (requests : Waiter → MqttRequest) (channel : MqttChannel) (op : Waiter)
    {actions : List Action} {world : World}
    (run : Run (step requests) Unrestricted (init channel) actions world) :
    actions.countP (fun action ↦ action.owner = some op) ≤ 7 ∧
    (world.phase op = .cancelled ∨ ∃ rest last result,
      Run (step requests) (fun _ action ↦ action.Proceeds op) world rest last ∧
      last.phase op = .returned result ∧
      actions.countP (fun action ↦ action.owner = some op) + rest.length ≤ 7) := by
  have hready : Ready requests world :=
    run.invariant (ready_init requests channel) fun _ _ _ h _ hstep ↦ ready_step h hstep
  have hranked := ranked_operation requests op
  have hcount := hranked.count_add_rank_le run
  rw [Nat.one_mul] at hcount
  have hseven : ((init channel).phase op).rank = 7 := rfl
  refine ⟨by omega, ?_⟩
  by_cases hlive : world.phase op = .cancelled
  · exact .inl hlive
  · obtain ⟨rest, last, hrest, ⟨result, hlast⟩, hlength⟩ :=
      hranked.exists_completion Nat.one_pos (fun action hproceeds ↦ decide_eq_true hproceeds.1)
        (fun state hstate hdone ↦ exists_proceeding_step hstate.1 hstate.2 hdone) ⟨hready, hlive⟩
    rw [Nat.one_mul] at hlength
    exact .inr ⟨rest, last, result, hrest, hlast, by omega⟩

/-- A QoS 2 message whose connection breaks between its PUBREC and its PUBCOMP returns after two
more steps. -/
theorem operations_end_broken :
    ∃ world, Run (step twoRequests) Unrestricted (init .new)
        [.start 0, .register 0, .send 0, .receive (.pubrec 1), .wake 0, .writerStops, .abandon,
          .register 0] world ∧
      ∃ rest last result,
        Run (step twoRequests) (fun _ action ↦ action.Proceeds 0) world rest last ∧
        last.phase 0 = .returned result ∧ rest.length ≤ 2 := by
  obtain ⟨world, run, hphase⟩ : ∃ world,
      Run (step twoRequests) Unrestricted (init .new)
        [.start 0, .register 0, .send 0, .receive (.pubrec 1), .wake 0, .writerStops, .abandon,
          .register 0] world ∧
      world.phase 0 = .waitingComp 1 none :=
    ⟨_, Run.of_foldlM rfl, rfl⟩
  rcases (operations_end twoRequests .new 0 run).2 with hcancelled | hend
  · rw [hphase] at hcancelled
    cases hcancelled
  · obtain ⟨rest, last, result, hrest, hlast, hlength⟩ := hend
    exact ⟨world, run, rest, last, result, hrest, hlast, Nat.le_of_add_le_add_left hlength⟩

end Completion

end HotaruMqtt.Operations

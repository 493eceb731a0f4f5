import HotaruMqtt.Library.Runs
import HotaruMqtt.Protocol.Operations
import HotaruMqtt.Session.PacketId

/-!
# Acknowledged results of a client

An operation that returns an acknowledged result does so because of packets which the dispatcher
received after the operation had registered its slot, and which carry its identifier. Slots are
taken out of the table by acknowledgements of any kind, by timeouts and when the session is
abandoned, and the second half of a QoS 2 handshake puts a new one in. What survives all of this
is that a slot stands under the identifier of its own operation and is of the kind that the
operation waits for.
-/

namespace HotaruMqtt.Operations

open Library

/-- The packet was received at position `k`, after the slot had been registered. -/
def Seen (received : List Packet) (since k : ℕ) (packet : Packet) : Prop :=
  since ≤ k ∧ received[k]? = some packet

/-- The packet at position `k` completes an operation with the given result. -/
inductive Completes (received : List Packet) (since : ℕ) (id : PacketId) :
    MqttResponse → ℕ → Prop where
  | acknowledged {k : ℕ} (h : Seen received since k (.puback id)) :
      Completes received since id (.published (.acknowledged id)) k
  | completed {j k : ℕ} (hrec : Seen received since j (.pubrec id)) (hlt : j < k)
      (hcomp : Seen received since k (.pubcomp id)) :
      Completes received since id (.published (.completed id)) k
  | subscribed {codes : List SubackCode} {k : ℕ}
      (h : Seen received since k (.suback { packetId := id, returnCodes := codes })) :
      Completes received since id (.subscribed codes) k
  | unsubscribed {reasonCodes : Bytes} {k : ℕ}
      (h : Seen received since k (.unsuback { packetId := id, reasonCodes })) :
      Completes received since id .unsubscribed k

/-- The packet at position `k` completes an operation that has sent its own identifier. -/
def CompletedBy (requests : Waiter → MqttRequest) (world : World) (op : Waiter)
    (response : MqttResponse) (k : ℕ) : Prop :=
  ∃ id, (world.operations op).id = some id ∧
    (world.operations op).sent = some (command id (requests op)) ∧
    Completes world.received (world.operations op).since id response k

/-- A slot with a receiver is of the kind that its operation waits for. -/
def Fits (op : Waiter) (request : MqttRequest) : Phase → AckSlot → Prop
  | .registered _ _, slot | .waiting _ _, slot => slot = firstSlot op request
  | .waitingComp _ _, slot => slot = .pubcomp op
  | _, _ => True

/-- An answer to the first wait comes from a packet that acknowledges the first slot. -/
def Answered (op : Waiter) (request : MqttRequest) (received : List Packet) (since : ℕ)
    (id : PacketId) (answer : Answer) : Prop :=
  ∃ k packet, Seen received since k packet ∧ Acknowledges packet id (firstSlot op request) ∧
    answerOf packet = some answer

/-- What the phase of an operation says about its record and about what was received. -/
def Sound (op : Waiter) (request : MqttRequest) (received : List Packet)
    (operation : OperationState) : Prop :=
  match operation.phase with
  | .idle => operation.id = none
  | .unnumbered | .cancelled | .returned (.error _) => True
  | .allocated id | .expired id => operation.id = some id
  | .registered id signal =>
      operation.id = some id ∧ operation.since ≤ received.length ∧
      ∀ answer ∈ signal, Answered op request received operation.since id answer
  | .waiting id signal =>
      operation.id = some id ∧ operation.since ≤ received.length ∧
      operation.sent = some (command id request) ∧
      ∀ answer ∈ signal, Answered op request received operation.since id answer
  | .released id =>
      operation.id = some id ∧ operation.sent = some (command id request) ∧
      ∃ j, Seen received operation.since j (.pubrec id)
  | .waitingComp id signal =>
      operation.id = some id ∧ operation.sent = some (command id request) ∧
      ∃ j, Seen received operation.since j (.pubrec id) ∧
        ∀ answer ∈ signal, answer = .acked id ∧
          ∃ k, j < k ∧ Seen received operation.since k (.pubcomp id)
  | .returned (.ok response) =>
      response = .published .sent ∨
      ∃ id k, operation.id = some id ∧ operation.sent = some (command id request) ∧
        Completes received operation.since id response k

structure Inv (requests : Waiter → MqttRequest) (world : World) : Prop where
  counter : world.channel.session.pktCounter.toNat = world.allocations
  id_le : ∀ op id, (world.operations op).id = some id → id.toNat ≤ world.allocations
  id_inj : ∀ op op' id, (world.operations op).id = some id →
    (world.operations op').id = some id → op = op'
  slot : ∀ id slot, world.channel.session.pendingAcks.lookup id = some slot →
    (world.operations slot.waiter).id = some id ∧
      Fits slot.waiter (requests slot.waiter) (world.phase slot.waiter) slot
  operation : ∀ op, Sound op (requests op) world.received (world.operations op)

section Received

variable {received : List Packet} {since k : ℕ} {packet : Packet}

theorem Seen.append (h : Seen received since k packet) (more : Packet) :
    Seen (received ++ [more]) since k packet :=
  ⟨h.1, by rw [List.getElem?_append_left (List.getElem?_eq_some_iff.mp h.2).1]; exact h.2⟩

theorem Seen.lt_length (h : Seen received since k packet) : k < received.length :=
  (List.getElem?_eq_some_iff.mp h.2).1

/-- The packet that is received now comes behind everything before. -/
theorem seen_length (h : since ≤ received.length) :
    Seen (received ++ [packet]) since received.length packet :=
  ⟨h, by simp⟩

theorem Completes.append {id : PacketId} {response : MqttResponse}
    (h : Completes received since id response k) (more : Packet) :
    Completes (received ++ [more]) since id response k := by
  cases h with
  | acknowledged h => exact .acknowledged (h.append more)
  | completed hrec hlt hcomp => exact .completed (hrec.append more) hlt (hcomp.append more)
  | subscribed h => exact .subscribed (h.append more)
  | unsubscribed h => exact .unsubscribed (h.append more)

theorem Answered.append {op : Waiter} {request : MqttRequest} {id : PacketId} {answer : Answer}
    (h : Answered op request received since id answer) (more : Packet) :
    Answered op request (received ++ [more]) since id answer := by
  obtain ⟨k, packet, hseen, hacks, hanswer⟩ := h
  exact ⟨k, packet, hseen.append more, hacks, hanswer⟩

end Received

/-- Further packets leave the grounds of a result in place. -/
theorem Sound.append {op : Waiter} {request : MqttRequest} {received : List Packet}
    {operation : OperationState} (h : Sound op request received operation) (more : Packet) :
    Sound op request (received ++ [more]) operation := by
  have hlength : received.length ≤ (received ++ [more]).length := by simp
  unfold Sound at h ⊢
  split at h
  · exact h
  · trivial
  · trivial
  · trivial
  · exact h
  · exact h
  · obtain ⟨hid, hsince, hsignal⟩ := h
    exact ⟨hid, hsince.trans hlength, fun answer hmem ↦ (hsignal answer hmem).append more⟩
  · obtain ⟨hid, hsince, hsent, hsignal⟩ := h
    exact ⟨hid, hsince.trans hlength, hsent, fun answer hmem ↦ (hsignal answer hmem).append more⟩
  · obtain ⟨hid, hsent, j, hrec⟩ := h
    exact ⟨hid, hsent, j, hrec.append more⟩
  · obtain ⟨hid, hsent, j, hrec, hsignal⟩ := h
    refine ⟨hid, hsent, j, hrec.append more, fun answer hmem ↦ ?_⟩
    obtain ⟨hanswer, k, hlt, hcomp⟩ := hsignal answer hmem
    exact ⟨hanswer, k, hlt, hcomp.append more⟩
  · rcases h with hsent | ⟨id, k, hid, hsent, hcompletes⟩
    · exact .inl hsent
    · exact .inr ⟨id, k, hid, hsent, hcompletes.append more⟩

section Preservation

variable {requests : Waiter → MqttRequest} {world next : World} {op : Waiter}

theorem inv_init (requests : Waiter → MqttRequest) (channel : MqttChannel) :
    Inv requests (init channel) where
  counter := rfl
  id_le op id hid := by cases hid
  id_inj op op' id hid := by cases hid
  slot id slot hslot := by cases hslot
  operation op := rfl

/-- The table of pending acknowledgements may lose slots at any time. -/
theorem Inv.setChannel (h : Inv requests world) {channel : MqttChannel}
    (hcounter : channel.session.pktCounter = world.channel.session.pktCounter)
    (hkept : ∀ id slot, channel.session.pendingAcks.lookup id = some slot →
      world.channel.session.pendingAcks.lookup id = some slot) :
    Inv requests { world with channel } where
  counter := (congrArg UInt16.toNat hcounter).trans h.counter
  id_le := h.id_le
  id_inj := h.id_inj
  slot id slot hslot := h.slot id slot (hkept id slot hslot)
  operation := h.operation

/-- An operation moves on and keeps its identifier. Its slots stand under that identifier and fit
its new phase, and no slot of another operation is new. -/
theorem Inv.update (h : Inv requests world) {channel : MqttChannel} {operation : OperationState}
    (hcounter : channel.session.pktCounter = world.channel.session.pktCounter)
    (hid : operation.id = (world.operations op).id)
    (hslots : ∀ id slot, channel.session.pendingAcks.lookup id = some slot →
      (slot.waiter ≠ op ∧ world.channel.session.pendingAcks.lookup id = some slot) ∨
      (slot.waiter = op ∧ (world.operations op).id = some id ∧
        Fits op (requests op) operation.phase slot))
    (hsound : Sound op (requests op) world.received operation) :
    Inv requests ({ world with channel }.record op operation) := by
  have hids (other : Waiter) :
      (({ world with channel }.record op operation).operations other).id =
        (world.operations other).id := by
    by_cases hother : other = op
    · subst hother
      simpa [World.record] using hid
    · simp [World.record, hother]
  refine ⟨(congrArg UInt16.toNat hcounter).trans h.counter, ?_, ?_, ?_, ?_⟩
  · intro other id
    rw [hids]
    exact h.id_le other id
  · intro other other' id
    rw [hids, hids]
    exact h.id_inj other other' id
  · intro id slot hslot
    rw [hids]
    rcases hslots id slot hslot with ⟨hne, hold⟩ | ⟨heq, howner, hfits⟩
    · obtain ⟨howner, hfits⟩ := h.slot id slot hold
      refine ⟨howner, ?_⟩
      simpa [World.phase, World.record, hne] using hfits
    · rw [heq]
      refine ⟨howner, ?_⟩
      simpa [World.phase, World.record] using hfits
  · intro other
    by_cases hother : other = op
    · subst hother
      simpa [World.record] using hsound
    · simpa [World.record, hother] using h.operation other

/-- An operation moves on without a new slot. -/
theorem Inv.move (h : Inv requests world) {channel : MqttChannel} {operation : OperationState}
    (hcounter : channel.session.pktCounter = world.channel.session.pktCounter)
    (hkept : ∀ id slot, channel.session.pendingAcks.lookup id = some slot →
      world.channel.session.pendingAcks.lookup id = some slot)
    (hid : operation.id = (world.operations op).id)
    (hfits : ∀ slot, Fits op (requests op) (world.phase op) slot →
      Fits op (requests op) operation.phase slot)
    (hsound : Sound op (requests op) world.received operation) :
    Inv requests ({ world with channel }.record op operation) := by
  refine h.update hcounter hid (fun id slot hslot ↦ ?_) hsound
  have hold := hkept id slot hslot
  by_cases hwaiter : slot.waiter = op
  · obtain ⟨howner, hfit⟩ := h.slot id slot hold
    rw [hwaiter] at howner hfit
    exact .inr ⟨hwaiter, howner, hfits slot hfit⟩
  · exact .inl ⟨hwaiter, hold⟩

/-- An operation moves on with a slot under its identifier. -/
theorem Inv.insert (h : Inv requests world) {id : PacketId} {slot : AckSlot}
    {operation : OperationState} (howner : (world.operations op).id = some id)
    (hid : operation.id = (world.operations op).id) (hwaiter : slot.waiter = op)
    (hfits : Fits op (requests op) operation.phase slot)
    (hsound : Sound op (requests op) world.received operation) :
    Inv requests ({ world with channel := world.channel.insertSlot id slot }.record op
      operation) := by
  refine h.update rfl hid (fun id' slot' hslot ↦ ?_) hsound
  rw [MqttChannel.lookup_insertSlot] at hslot
  split at hslot
  · rename_i heq
    obtain rfl := Option.some.inj hslot
    exact .inr ⟨hwaiter, heq ▸ howner, hfits⟩
  · rename_i hne
    refine .inl ⟨fun hop ↦ hne ?_, hslot⟩
    have howner' := (h.slot id' slot' hslot).1
    rw [hop, howner] at howner'
    exact (Option.some.inj howner').symm

/-- Nothing is asked of the slots of an operation that no longer waits. -/
theorem Inv.setPhase (h : Inv requests world) {phase : Phase}
    (hfits : ∀ slot, Fits op (requests op) phase slot)
    (hsound : Sound op (requests op) world.received { world.operations op with phase }) :
    Inv requests (world.setPhase op phase) :=
  h.move rfl (fun _ _ hslot ↦ hslot) rfl (fun slot _ ↦ hfits slot) hsound

theorem waiter_firstSlot (op : Waiter) (request : MqttRequest) :
    (firstSlot op request).waiter = op := by
  unfold firstSlot
  split
  · split <;> rfl
  · rfl
  · rfl

/-- A fresh identifier is held by no other operation. -/
theorem inv_allocate (h : Inv requests world) (hidle : world.phase op = .idle)
    (hbound : world.allocations + 1 ≤ 65535) :
    Inv requests
      ({ world with
          channel := world.channel.setSession world.channel.session.allocatePacketId.2
          allocations := world.allocations + 1 }.record op
        { world.operations op with
          phase := .allocated world.channel.session.allocatePacketId.1
          id := some world.channel.session.allocatePacketId.1 }) := by
  obtain ⟨hnew, hcounter⟩ := MqttSession.toNat_allocate (by rw [h.counter]; exact hbound)
  rw [h.counter] at hnew hcounter
  have hnone : (world.operations op).id = none := by
    have hsound := h.operation op
    rw [World.phase] at hidle
    simpa only [Sound, hidle] using hsound
  have hids (other : Waiter) (hother : other ≠ op) (id : PacketId)
      (hid : (world.operations other).id = some id) :
      id ≠ world.channel.session.allocatePacketId.1 := by
    rintro rfl
    have := h.id_le other _ hid
    omega
  refine ⟨hcounter, ?_, ?_, ?_, ?_⟩
  · intro other id hid
    by_cases hother : other = op
    · subst hother
      simp only [World.record, Function.update_self, Option.some.injEq] at hid
      exact (hid ▸ hnew).le
    · simp only [World.record, Function.update_of_ne hother] at hid
      exact (h.id_le other id hid).trans (Nat.le_succ _)
  · intro other other' id hid hid'
    by_cases hother : other = op <;> by_cases hother' : other' = op
    · rw [hother, hother']
    · subst hother
      simp only [World.record, Function.update_self, Function.update_of_ne hother',
        Option.some.injEq] at hid hid'
      exact absurd hid.symm (hids other' hother' id hid')
    · subst hother'
      simp only [World.record, Function.update_self, Function.update_of_ne hother,
        Option.some.injEq] at hid hid'
      exact absurd hid'.symm (hids other hother id hid)
    · simp only [World.record, Function.update_of_ne hother, Function.update_of_ne hother']
        at hid hid'
      exact h.id_inj other other' id hid hid'
  · intro id slot hslot
    obtain ⟨howner, hfits⟩ := h.slot id slot hslot
    have hwaiter : slot.waiter ≠ op := by
      intro hop
      rw [hop, hnone] at howner
      cases howner
    simp only [World.phase, World.record, Function.update_of_ne hwaiter]
    exact ⟨howner, hfits⟩
  · intro other
    by_cases hother : other = op
    · subst hother
      simp [World.record, Sound]
    · simp only [World.record, Function.update_of_ne hother]
      exact h.operation other

theorem inv_start (h : Inv requests world) (hbound : next.allocations ≤ 65535)
    (hstep : stepStart requests world op = some next) : Inv requests next := by
  unfold stepStart at hstep
  split at hstep
  · rename_i hidle
    split at hstep
    · obtain rfl := Option.some.inj hstep
      exact inv_allocate h hidle hbound
    · obtain rfl := Option.some.inj hstep
      exact h.setPhase (fun _ ↦ trivial) trivial
  · cases hstep

/-- What the phase of an operation says, once the phase is known. -/
theorem Inv.sound (h : Inv requests world) {phase : Phase} (hphase : world.phase op = phase) :
    Sound op (requests op) world.received { world.operations op with phase } := by
  have hsound := h.operation op
  subst hphase
  exact hsound

theorem inv_register (h : Inv requests world)
    (hstep : stepRegister requests world op = some next) : Inv requests next := by
  unfold stepRegister at hstep
  split at hstep
  · rename_i id hphase
    obtain rfl := Option.some.inj hstep
    have hid : (world.operations op).id = some id := h.sound hphase
    refine h.insert hid rfl (waiter_firstSlot op _) rfl ⟨hid, Nat.le_refl _, ?_⟩
    intro answer hanswer
    cases hanswer
  · rename_i id hphase
    obtain rfl := Option.some.inj hstep
    obtain ⟨hid, hsent, j, hrec⟩ := h.sound hphase
    refine h.insert hid rfl rfl rfl ⟨hid, hsent, j, hrec, ?_⟩
    intro answer hanswer
    cases hanswer
  · cases hstep

theorem inv_send (h : Inv requests world) (hstep : stepSend requests world op = some next) :
    Inv requests next := by
  unfold stepSend at hstep
  split at hstep
  · split at hstep
    · rename_i hsend
      obtain rfl := Option.some.inj hstep
      have hsession := MqttChannel.session_of_send hsend
      refine h.move (congrArg _ hsession) (fun _ _ ↦ ?_) rfl (fun _ _ ↦ trivial) (.inl rfl)
      rw [hsession]
      exact fun hslot ↦ hslot
    · obtain rfl := Option.some.inj hstep
      exact h.setPhase (fun _ ↦ trivial) trivial
  · rename_i id signal hphase
    obtain ⟨hid, hsince, hsignal⟩ := h.sound hphase
    split at hstep
    · rename_i hsend
      obtain rfl := Option.some.inj hstep
      have hsession := MqttChannel.session_of_send hsend
      refine h.move (congrArg _ hsession) (fun _ _ ↦ ?_) rfl (fun slot ↦ ?_)
        ⟨hid, hsince, rfl, hsignal⟩
      · rw [hsession]
        exact fun hslot ↦ hslot
      · rw [hphase]
        exact fun hfits ↦ hfits
    · obtain rfl := Option.some.inj hstep
      exact h.setPhase (fun _ ↦ trivial) trivial
  · cases hstep

/-- An answer to the first wait lets an operation return, or starts the second half of the
handshake. -/
theorem sound_afterAnswer {request : MqttRequest} {received : List Packet} {id : PacketId}
    {answer : Answer} {operation : OperationState} {phase : Phase}
    (hid : operation.id = some id) (hsent : operation.sent = some (command id request))
    (hanswered : Answered op request received operation.since id answer)
    (hphase : afterAnswer id request answer = some phase) :
    (∀ slot, Fits op request phase slot) ∧ Sound op request received { operation with phase } := by
  obtain ⟨k, packet, hseen, hacks, hanswer⟩ := hanswered
  cases request with
  | publish req =>
    simp only [firstSlot] at hacks
    by_cases hqos : req.qos = .exactlyOnce
    · rw [if_pos hqos] at hacks
      cases hacks
      cases hanswer
      simp only [afterAnswer, if_pos hqos] at hphase
      obtain rfl := Option.some.inj hphase
      exact ⟨fun _ ↦ trivial, hid, hsent, k, hseen⟩
    · rw [if_neg hqos] at hacks
      cases hacks
      cases hanswer
      simp only [afterAnswer, if_neg hqos] at hphase
      obtain rfl := Option.some.inj hphase
      exact ⟨fun _ ↦ trivial, .inr ⟨id, k, hid, hsent, .acknowledged hseen⟩⟩
  | subscribe filters =>
    cases hacks
    cases hanswer
    obtain rfl := Option.some.inj hphase
    exact ⟨fun _ ↦ trivial, .inr ⟨_, k, hid, hsent, .subscribed hseen⟩⟩
  | unsubscribe topics =>
    cases hacks
    cases hanswer
    obtain rfl := Option.some.inj hphase
    exact ⟨fun _ ↦ trivial, .inr ⟨_, k, hid, hsent, .unsubscribed hseen⟩⟩

theorem inv_wake (h : Inv requests world) (hstep : stepWake requests world op = some next) :
    Inv requests next := by
  unfold stepWake at hstep
  split at hstep
  · rename_i id answer hphase
    obtain ⟨hid, -, hsent, hsignal⟩ := h.sound hphase
    obtain ⟨phase, hafter, rfl⟩ := Option.map_eq_some_iff.mp hstep
    obtain ⟨hfits, hsound⟩ := sound_afterAnswer hid hsent (hsignal answer rfl) hafter
    exact h.setPhase hfits hsound
  · split at hstep
    · cases hstep
    · obtain rfl := Option.some.inj hstep
      exact h.setPhase (fun _ ↦ trivial) trivial
  · rename_i id compId hphase
    obtain rfl := Option.some.inj hstep
    obtain ⟨hid, hsent, j, hrec, hsignal⟩ := h.sound hphase
    obtain ⟨hanswer, k, hlt, hcomp⟩ := hsignal _ rfl
    cases hanswer
    exact h.setPhase (fun _ ↦ trivial) (.inr ⟨id, k, hid, hsent, .completed hrec hlt hcomp⟩)
  · split at hstep
    · cases hstep
    · obtain rfl := Option.some.inj hstep
      exact h.setPhase (fun _ ↦ trivial) trivial
  · cases hstep

theorem inv_expire (h : Inv requests world) (hstep : stepExpire world op = some next) :
    Inv requests next := by
  unfold stepExpire at hstep
  split at hstep
  · rename_i hphase
    obtain rfl := Option.some.inj hstep
    exact h.setPhase (fun _ ↦ trivial) (h.sound hphase).1
  · rename_i hphase
    obtain rfl := Option.some.inj hstep
    exact h.setPhase (fun _ ↦ trivial) (h.sound hphase).1
  · cases hstep

theorem inv_withdraw (h : Inv requests world) (hstep : stepWithdraw world op = some next) :
    Inv requests next := by
  unfold stepWithdraw at hstep
  split at hstep
  · obtain rfl := Option.some.inj hstep
    refine h.move rfl (fun id slot hslot ↦ ?_) rfl (fun _ _ ↦ trivial) trivial
    rw [MqttChannel.lookup_eraseSlot] at hslot
    split at hslot
    · cases hslot
    · exact hslot
  · cases hstep

theorem inv_cancel (h : Inv requests world) (hstep : stepCancel world op = some next) :
    Inv requests next := by
  unfold stepCancel at hstep
  split at hstep
  · obtain rfl := Option.some.inj hstep
    exact h.setPhase (fun _ ↦ trivial) trivial
  · obtain rfl := Option.some.inj hstep
    exact h.setPhase (fun _ ↦ trivial) trivial
  · cases hstep

/-- A packet that is received answers the operation whose slot it acknowledges. -/
theorem sound_deliver {request : MqttRequest} {received : List Packet}
    {operation : OperationState} {id : PacketId} {slot : AckSlot} {packet : Packet}
    {answer : Answer} (hsound : Sound op request received operation)
    (hid : operation.id = some id) (hfits : Fits op request operation.phase slot)
    (hacks : Acknowledges packet id slot) (hanswer : answerOf packet = some answer) :
    Sound op request (received ++ [packet])
      { operation with phase := operation.phase.deliver answer } := by
  have hgrown := hsound.append packet
  have hnow (since : ℕ) (hsince : since ≤ received.length)
      (hslot : slot = firstSlot op request) : ∀ answer' ∈ some answer,
      Answered op request (received ++ [packet]) since id answer' := by
    intro answer' hmem
    obtain rfl := Option.some.inj hmem
    exact ⟨received.length, packet, seen_length hsince, hslot ▸ hacks, hanswer⟩
  unfold Phase.deliver
  split
  · rename_i id' hphase
    simp only [Sound, hphase] at hsound hgrown
    simp only [Fits, hphase] at hfits
    obtain rfl : id' = id := Option.some.inj (hsound.1.symm.trans hid)
    exact ⟨hid, hgrown.2.1, hnow _ hsound.2.1 hfits⟩
  · rename_i id' hphase
    simp only [Sound, hphase] at hsound hgrown
    simp only [Fits, hphase] at hfits
    obtain rfl : id' = id := Option.some.inj (hsound.1.symm.trans hid)
    exact ⟨hid, hgrown.2.1, hsound.2.2.1, hnow _ hsound.2.1 hfits⟩
  · rename_i id' hphase
    simp only [Sound, hphase] at hsound hgrown
    simp only [Fits, hphase] at hfits
    obtain ⟨hid', hsent, j, hrec, -⟩ := hsound
    obtain rfl : id' = id := Option.some.inj (hid'.symm.trans hid)
    subst hfits
    cases hacks
    refine ⟨hid, hsent, j, hrec.append _, fun answer' hmem ↦ ?_⟩
    obtain rfl := Option.some.inj hmem
    refine ⟨(Option.some.inj hanswer).symm, received.length, hrec.lt_length, seen_length ?_⟩
    exact hrec.1.trans hrec.lt_length.le
  · exact hgrown

/-- A packet that is received answers the operation its slot belongs to. -/
theorem inv_receive (h : Inv requests world) (packet : Packet) :
    Inv requests (stepReceive world packet) := by
  have hacks := world.channel.dispatchesAcks_dispatchClientInbound packet
  have hgrown : Inv requests { world with
      channel := (world.channel.dispatchClientInbound packet).channel
      received := world.received ++ [packet] } :=
    { h.setChannel hacks.counter hacks.kept with
      operation := fun op ↦ (h.operation op).append packet }
  unfold stepReceive
  dsimp only
  split
  · rename_i op answer hanswered hanswer
    obtain ⟨id, slot, hslot, hwaiter, hack⟩ := hacks.acknowledged op hanswered
    obtain ⟨howner, hfits⟩ := h.slot id slot hslot
    rw [hwaiter] at howner hfits
    refine hgrown.move rfl (fun _ _ hslot ↦ hslot) rfl (fun slot' ↦ ?_)
      (sound_deliver (h.operation op) howner hfits hack hanswer)
    simp only [World.phase, Phase.deliver]
    split <;> simp [Fits, *]
  · exact hgrown

/-- Every step keeps the invariant as long as the identifiers do not wrap. -/
theorem inv_step {action : Action} (h : Inv requests world) (hbound : next.allocations ≤ 65535)
    (hstep : step requests world action = some next) : Inv requests next := by
  cases action with
  | start op => exact inv_start h hbound hstep
  | register op => exact inv_register h hstep
  | send op => exact inv_send h hstep
  | wake op => exact inv_wake h hstep
  | expire op => exact inv_expire h hstep
  | withdraw op => exact inv_withdraw h hstep
  | cancel op => exact inv_cancel h hstep
  | receive packet =>
    obtain rfl := Option.some.inj hstep
    exact inv_receive h packet
  | abandon =>
    obtain rfl := Option.some.inj hstep
    exact h.setChannel rfl (fun id slot hslot ↦ by cases hslot)
  | writerTakes | writerStops =>
    obtain rfl := Option.some.inj hstep
    exact h.setChannel rfl (fun _ _ hslot ↦ hslot)

/-- Identifiers are allocated and never given back. -/
theorem allocations_le_of_step {action : Action} (hstep : step requests world action = some next) :
    world.allocations ≤ next.allocations := by
  cases action with
  | start op =>
    simp only [step, stepStart] at hstep
    split at hstep
    · split at hstep
      · cases hstep
        exact Nat.le_succ _
      · cases hstep
        exact Nat.le_refl _
    · cases hstep
  | register op =>
    simp only [step, stepRegister] at hstep
    split at hstep <;> cases hstep <;> exact Nat.le_refl _
  | send op =>
    simp only [step, stepSend] at hstep
    split at hstep
    · split at hstep <;> cases hstep <;> exact Nat.le_refl _
    · split at hstep <;> cases hstep <;> exact Nat.le_refl _
    · cases hstep
  | wake op =>
    simp only [step, stepWake] at hstep
    split at hstep
    · obtain ⟨phase, -, rfl⟩ := Option.map_eq_some_iff.mp hstep
      exact Nat.le_refl _
    · split at hstep <;> cases hstep
      exact Nat.le_refl _
    · cases hstep
      exact Nat.le_refl _
    · split at hstep <;> cases hstep
      exact Nat.le_refl _
    · cases hstep
  | expire op =>
    simp only [step, stepExpire] at hstep
    split at hstep <;> cases hstep <;> exact Nat.le_refl _
  | withdraw op =>
    simp only [step, stepWithdraw] at hstep
    split at hstep <;> cases hstep
    exact Nat.le_refl _
  | cancel op =>
    simp only [step, stepCancel] at hstep
    split at hstep <;> cases hstep <;> exact Nat.le_refl _
  | receive packet =>
    obtain rfl := Option.some.inj hstep
    simp only [stepReceive]
    split <;> exact Nat.le_refl _
  | abandon | writerTakes | writerStops =>
    obtain rfl := Option.some.inj hstep
    exact Nat.le_refl _

end Preservation

/-- The invariant holds as long as identifiers have not come round. -/
theorem inv_of_run {requests : Waiter → MqttRequest} {channel : MqttChannel}
    {actions : List Action} {world : World}
    (run : Run (step requests) Unrestricted (init channel) actions world)
    (hbound : world.allocations ≤ 65535) : Inv requests world := by
  induction run with
  | refl => exact inv_init requests channel
  | tail _ _ enabled ih =>
    exact inv_step (ih ((allocations_le_of_step enabled).trans hbound)) hbound enabled

/-- The packet that completes an operation carries its identifier. -/
theorem Completes.exists_acknowledges {received : List Packet} {since k : ℕ} {id : PacketId}
    {response : MqttResponse} (h : Completes received since id response k) :
    ∃ packet slot, received[k]? = some packet ∧ Acknowledges packet id slot := by
  cases h with
  | acknowledged h => exact ⟨_, _, h.2, .puback id 0⟩
  | completed _ _ h => exact ⟨_, _, h.2, .pubcomp id 0⟩
  | subscribed h => exact ⟨_, _, h.2, .suback _ 0⟩
  | unsubscribed h => exact ⟨_, _, h.2, .unsuback _ 0⟩

/-- As long as the session has allocated at most 65535 identifiers, every operation that returns
an acknowledged result was completed by packets which were received after it registered its slot
and which carry the identifier it allocated and sent. No packet completes two operations. -/
theorem acknowledgements_sound (requests : Waiter → MqttRequest) {channel : MqttChannel}
    {actions : List Action} {world : World}
    (run : Run (step requests) Unrestricted (init channel) actions world)
    (hbound : world.allocations ≤ 65535) :
    (∀ op response, world.phase op = .returned (.ok response) → response ≠ .published .sent →
      ∃ k, CompletedBy requests world op response k) ∧
    (∀ op op' response response' k, CompletedBy requests world op response k →
      CompletedBy requests world op' response' k → op = op') := by
  have hinv := inv_of_run run hbound
  constructor
  · intro op response hphase hresponse
    rcases hinv.sound hphase with hsent | ⟨id, k, hid, hsent, hcompletes⟩
    · exact absurd hsent hresponse
    · exact ⟨k, id, hid, hsent, hcompletes⟩
  · rintro op op' response response' k ⟨id, hid, -, hcompletes⟩ ⟨id', hid', -, hcompletes'⟩
    obtain ⟨packet, slot, hpacket, hacks⟩ := hcompletes.exists_acknowledges
    obtain ⟨packet', slot', hpacket', hacks'⟩ := hcompletes'.exists_acknowledges
    obtain rfl := Option.some.inj (hpacket.symm.trans hpacket')
    obtain rfl := hacks.id_unique hacks'
    exact hinv.id_inj op op' id hid hid'

def twoRequests : Waiter → MqttRequest
  | 0 => .publish { topic := "t", payload := [1], qos := .exactlyOnce, retain := false }
  | _ => .subscribe [⟨"s", .atLeastOnce⟩]

/-- Both operations complete, with their acknowledgements interleaved and a stray one between. -/
theorem acknowledgements_sound_interleaved :
    ∃ world, Run (step twoRequests) Unrestricted (init .new)
        [.start 0, .start 1, .register 1, .register 0, .send 0, .send 1, .receive (.puback 9),
          .receive (.pubrec 1), .wake 0,
          .receive (.suback { packetId := 2, returnCodes := [.granted .atLeastOnce] }),
          .register 0, .wake 1, .receive (.pubcomp 1), .wake 0] world ∧
      (∃ k, CompletedBy twoRequests world 0 (.published (.completed 1)) k) ∧
      ∃ k, CompletedBy twoRequests world 1 (.subscribed [.granted .atLeastOnce]) k := by
  obtain ⟨world, run, hbound, hpublished, hsubscribed⟩ : ∃ world,
      Run (step twoRequests) Unrestricted (init .new)
        [.start 0, .start 1, .register 1, .register 0, .send 0, .send 1, .receive (.puback 9),
          .receive (.pubrec 1), .wake 0,
          .receive (.suback { packetId := 2, returnCodes := [.granted .atLeastOnce] }),
          .register 0, .wake 1, .receive (.pubcomp 1), .wake 0] world ∧
      world.allocations ≤ 65535 ∧
      world.phase 0 = .returned (.ok (.published (.completed 1))) ∧
      world.phase 1 = .returned (.ok (.subscribed [.granted .atLeastOnce])) :=
    ⟨_, Run.of_foldlM rfl, by decide, rfl, rfl⟩
  have hsound := (acknowledgements_sound twoRequests run hbound).1
  exact ⟨world, run, hsound 0 _ hpublished (by decide), hsound 1 _ hsubscribed (by decide)⟩

end HotaruMqtt.Operations

import HotaruMqtt.Protocol.Operations

/-!
# Acknowledgements that nobody waits for

An inbound acknowledgement takes the slot under its identifier out of the table before its kind is
compared with the kind of the slot. Slots under other identifiers are left alone and nobody is
answered by mistake, but a slot of another kind is lost: the acknowledgement its operation waits for
finds nothing, and the operation ends with a closed channel.
-/

namespace HotaruMqtt

open Library

/-- The identifier an acknowledgement carries. -/
def ackId : Packet → Option PacketId
  | .puback id | .pubrec id | .pubcomp id => some id
  | .suback s => some s.packetId
  | .unsuback u => some u.packetId
  | _ => none

theorem Acknowledges.ackId_eq {packet : Packet} {id : PacketId} {slot : AckSlot}
    (h : Acknowledges packet id slot) : ackId packet = some id := by
  cases h <;> rfl

namespace MqttChannel

abbrev pendingAcks (channel : MqttChannel) : Table PacketId AckSlot := channel.session.pendingAcks

/-- An acknowledgement takes out the slot under its identifier, whatever its kind. -/
theorem pendingAcks_dispatch (channel : MqttChannel) (packet : Packet) :
    (channel.dispatchClientInbound packet).channel.pendingAcks =
      (ackId packet).elim channel.pendingAcks channel.pendingAcks.erase := by
  cases packet with
  | publish publish =>
    obtain ⟨-, hacks, -⟩ := ackInboundPublishPreChain_frame channel publish
    simp only [dispatchClientInbound]
    split
    · exact hacks
    · split <;> exact hacks
  | pubrec id =>
    simp only [pendingAcks, dispatchClientInbound, session_answer]
    rfl
  | pubrel id =>
    simp only [pendingAcks, dispatchClientInbound]
    split
    · rw [session_answer]
      rfl
    · rw [session_answer]
      rfl
  | puback | pubcomp | suback | unsuback | pingresp | connect | connack | subscribe | unsubscribe
  | pingreq | disconnect => rfl

/-- An acknowledgement empties its own identifier and no other. -/
theorem lookup_dispatch (channel : MqttChannel) (packet : Packet) (id : PacketId) :
    (channel.dispatchClientInbound packet).channel.pendingAcks.lookup id =
      if ackId packet = some id then none else channel.pendingAcks.lookup id := by
  rw [pendingAcks_dispatch]
  cases ackId packet with
  | none => simp
  | some erased => simp [Table.lookup_erase_eq, eq_comm]

/-- An acknowledgement of the kind that is waited for answers the waiter. -/
theorem answered_of_acknowledges {channel : MqttChannel} {packet : Packet} {id : PacketId}
    {slot : AckSlot} (hslot : channel.pendingAcks.lookup id = some slot)
    (hacks : Acknowledges packet id slot) :
    (channel.dispatchClientInbound packet).answered = some slot.waiter := by
  cases hacks with
  | puback | pubrec | pubcomp | suback | unsuback =>
    exact MqttSession.takeSlot_of_expected hslot rfl

/-- One of another kind answers nobody. -/
theorem answered_eq_none {channel : MqttChannel} {packet : Packet} {id : PacketId}
    (hack : ackId packet = some id)
    (h : ∀ slot, channel.pendingAcks.lookup id = some slot → ¬ Acknowledges packet id slot) :
    (channel.dispatchClientInbound packet).answered = none := by
  by_contra hanswered
  obtain ⟨op, hop⟩ := Option.ne_none_iff_exists'.mp hanswered
  obtain ⟨id', slot, hslot, -, hacks⟩ :=
    (dispatchesAcks_dispatchClientInbound channel packet).acknowledged op hop
  obtain rfl : id' = id := Option.some.inj (hacks.ackId_eq.symm.trans hack)
  exact h slot hslot hacks

/-- The channel after the packets, whatever the dispatch of each returns. -/
def receiveAll (channel : MqttChannel) (packets : List Packet) : MqttChannel :=
  packets.foldl (fun channel packet ↦ (channel.dispatchClientInbound packet).channel) channel

/-- A slot stays until the first acknowledgement under its identifier. -/
theorem lookup_receiveAll (channel : MqttChannel) (packets : List Packet) (id : PacketId) :
    (channel.receiveAll packets).pendingAcks.lookup id =
      if ∃ packet ∈ packets, ackId packet = some id then none
      else channel.pendingAcks.lookup id := by
  induction packets generalizing channel with
  | nil => simp [receiveAll]
  | cons packet packets ih =>
    have hrest := ih (channel.dispatchClientInbound packet).channel
    rw [lookup_dispatch] at hrest
    rw [receiveAll, List.foldl_cons]
    refine hrest.trans ?_
    simp only [List.exists_mem_cons_iff]
    by_cases hack : ackId packet = some id <;> simp [hack]

section Noise

variable {channel : MqttChannel} {packet : Packet} {id : PacketId} {slot : AckSlot}
  {noise : List Packet}

/-- Behind packets that leave its identifier alone, a slot waits and is answered. -/
theorem answered_receiveAll (hslot : channel.pendingAcks.lookup id = some slot)
    (hnoise : ∀ other ∈ noise, ackId other ≠ some id) :
    (channel.receiveAll noise).pendingAcks.lookup id = some slot ∧
      (Acknowledges packet id slot →
        ((channel.receiveAll noise).dispatchClientInbound packet).answered = some slot.waiter) := by
  have hnone : ¬ ∃ other ∈ noise, ackId other = some id := by
    rintro ⟨other, hmem, hother⟩
    exact hnoise other hmem hother
  have hkept : (channel.receiveAll noise).pendingAcks.lookup id = some slot := by
    rw [lookup_receiveAll, if_neg hnone, hslot]
  exact ⟨hkept, answered_of_acknowledges hkept⟩

/-- Behind an acknowledgement under its identifier, nothing is left to answer. -/
theorem answered_receiveAll_eq_none (hack : ackId packet = some id)
    (hnoise : ∃ other ∈ noise, ackId other = some id) :
    (channel.receiveAll noise).pendingAcks.lookup id = none ∧
      ((channel.receiveAll noise).dispatchClientInbound packet).answered = none := by
  have hgone : (channel.receiveAll noise).pendingAcks.lookup id = none := by
    rw [lookup_receiveAll, if_pos hnoise]
  refine ⟨hgone, answered_eq_none hack ?_⟩
  intro slot hslot
  rw [hgone] at hslot
  cases hslot

end Noise

/-- The table keeps its entries exactly if there is none under the identifier. -/
theorem pendingAcks_dispatch_eq_iff (channel : MqttChannel) {packet : Packet} {id : PacketId}
    (hack : ackId packet = some id) :
    (channel.dispatchClientInbound packet).channel.pendingAcks = channel.pendingAcks ↔
      channel.pendingAcks.lookup id = none := by
  rw [pendingAcks_dispatch, hack, Option.elim_some]
  constructor
  · intro hsame
    rw [← hsame, Table.lookup_erase_eq, if_pos rfl]
  · intro hempty
    apply Finmap.ext_lookup
    intro other
    rw [Table.lookup_erase_eq]
    split
    · rename_i hother
      rw [hother, hempty]
    · rfl

end MqttChannel

namespace Operations

variable {requests : Waiter → MqttRequest} {world : World} {id : PacketId}

/-- An operation waits for what is sent through a slot. -/
inductive WaitsOn (requests : Waiter → MqttRequest) (world : World) (op : Waiter) (id : PacketId) :
    AckSlot → Prop where
  | first (h : world.phase op = .waiting id none) :
      WaitsOn requests world op id (firstSlot op (requests op))
  | comp (h : world.phase op = .waitingComp id none) : WaitsOn requests world op id (.pubcomp op)

/-- As long as its slot is in the table, an operation waits. -/
theorem WaitsOn.stepWake_eq_none {op : Waiter} {slot : AckSlot}
    (h : WaitsOn requests world op id slot)
    (hslot : world.channel.pendingAcks.lookup id = some slot) :
    stepWake requests world op = none := by
  have hholds : world.channel.holdsSlot id slot = true := decide_eq_true hslot
  cases h with
  | first hphase | comp hphase =>
    simp only [stepWake, hphase]
    rw [if_pos hholds]

/-- Without its slot, an operation wakes up and finds its channel closed. -/
theorem WaitsOn.stepWake_eq_some {op : Waiter} {slot : AckSlot}
    (h : WaitsOn requests world op id slot)
    (hgone : world.channel.pendingAcks.lookup id = none) :
    stepWake requests world op =
      some (world.setPhase op (.returned (.error .channelClosed))) := by
  have hnot (slot : AckSlot) : ¬ world.channel.holdsSlot id slot = true := by
    rw [MqttChannel.holdsSlot, decide_eq_true_eq, hgone]
    exact Option.some_ne_none slot ∘ Eq.symm
  cases h with
  | first hphase | comp hphase =>
    simp only [stepWake, hphase]
    rw [if_neg (hnot _)]

theorem WaitsOn.congr {next : World} {op : Waiter} {slot : AckSlot}
    (h : WaitsOn requests world op id slot) (hsame : next.operations = world.operations) :
    WaitsOn requests next op id slot := by
  have hphase : next.phase op = world.phase op := by
    rw [World.phase, World.phase, hsame]
  cases h with
  | first h => exact .first (hphase.trans h)
  | comp h => exact .comp (hphase.trans h)

/-- Behind an acknowledgement that took its slot, no acknowledgement under the identifier reaches
an operation. -/
theorem receive_of_gone (hgone : world.channel.pendingAcks.lookup id = none) {later : List Packet}
    (hlater : ∀ ack ∈ later, ackId ack = some id) :
    (later.foldl stepReceive world).operations = world.operations ∧
      (later.foldl stepReceive world).channel.pendingAcks.lookup id = none := by
  induction later generalizing world with
  | nil => exact ⟨rfl, hgone⟩
  | cons ack later ih =>
    rw [List.forall_mem_cons] at hlater
    have hnone : (world.channel.dispatchClientInbound ack).answered = none := by
      apply MqttChannel.answered_eq_none hlater.1
      intro slot hslot
      rw [hgone] at hslot
      cases hslot
    have hstill : (stepReceive world ack).channel.pendingAcks.lookup id = none := by
      rw [(stepReceive_frame world ack).1, MqttChannel.lookup_dispatch, if_pos hlater.1]
    obtain ⟨hoperations, hlast⟩ := ih hstill hlater.2
    exact ⟨hoperations.trans (stepReceive_operations hnone), hlast⟩

/-- An inbound acknowledgement touches no slot under another identifier. If the slot under its own
identifier is of another kind, the slot is gone and nobody is answered: the operation, which waited,
now wakes up with a closed channel, also behind any later acknowledgements under the identifier. The
table is left as it was exactly if it holds no slot under the identifier. Over any number of
packets, a slot stays exactly if none of them acknowledges its identifier; then the acknowledgement
it waits for answers its operation, and otherwise nothing answers it any more. -/
theorem acks_disturb_own_identifier (requests : Waiter → MqttRequest) (world : World)
    {packet : Packet} {id : PacketId} (hack : ackId packet = some id) :
    let acks := world.channel.pendingAcks
    let next := stepReceive world packet
    (∀ other, other ≠ id → next.channel.pendingAcks.lookup other = acks.lookup other) ∧
    (∀ slot, acks.lookup id = some slot → ¬ Acknowledges packet id slot →
      ∀ later : List Packet, (∀ ack ∈ later, ackId ack = some id) →
        let last := later.foldl stepReceive next
        last.channel.pendingAcks.lookup id = none ∧ last.operations = world.operations ∧
        ∀ op, WaitsOn requests world op id slot →
          step requests world (.wake op) = none ∧
          step requests last (.wake op) =
            some (last.setPhase op (.returned (.error .channelClosed)))) ∧
    (next.channel.pendingAcks = acks ↔ acks.lookup id = none) ∧
    ∀ slot noise, acks.lookup id = some slot →
      ((∀ other ∈ noise, ackId other ≠ some id) →
        (world.channel.receiveAll noise).pendingAcks.lookup id = some slot ∧
        (Acknowledges packet id slot →
          ((world.channel.receiveAll noise).dispatchClientInbound packet).answered =
            some slot.waiter)) ∧
      ((∃ other ∈ noise, ackId other = some id) →
        (world.channel.receiveAll noise).pendingAcks.lookup id = none ∧
        ((world.channel.receiveAll noise).dispatchClientInbound packet).answered = none) := by
  intro acks next
  have hchannel : next.channel = (world.channel.dispatchClientInbound packet).channel :=
    (stepReceive_frame world packet).1
  have hnext := MqttChannel.lookup_dispatch world.channel packet
  rw [hack, ← hchannel] at hnext
  refine ⟨?_, ?_, ?_, ?_⟩
  · intro other hother
    exact (hnext other).trans (if_neg fun heq ↦ hother (Option.some.inj heq).symm)
  · intro slot hslot hacks later hlater
    have hnone : (world.channel.dispatchClientInbound packet).answered = none := by
      apply MqttChannel.answered_eq_none hack
      intro slot' hslot'
      rwa [Option.some.inj (hslot'.symm.trans hslot)]
    obtain ⟨hoperations, hgone⟩ := receive_of_gone ((hnext id).trans (if_pos rfl)) hlater
    have hsame := hoperations.trans (stepReceive_operations hnone)
    refine ⟨hgone, hsame, ?_⟩
    intro op hwaits
    exact ⟨hwaits.stepWake_eq_none hslot, (hwaits.congr hsame).stepWake_eq_some hgone⟩
  · rw [hchannel]
    exact MqttChannel.pendingAcks_dispatch_eq_iff world.channel hack
  · intro slot noise hslot
    exact ⟨MqttChannel.answered_receiveAll hslot, MqttChannel.answered_receiveAll_eq_none hack⟩

def publishing : Waiter → MqttRequest :=
  fun _ ↦ .publish { topic := "a", payload := [], qos := .atLeastOnce, retain := false }

/-- A SUBACK with the identifier of a PUBLISH takes its slot. The operation ends with a closed
channel, and the PUBACK that arrives before it wakes up does not help. -/
theorem stray_suback_ends_publish :
    let stray : Packet := .suback { packetId := 1, returnCodes := [] }
    let run (actions : List Action) : Option World :=
      (Action.start 0 :: .register 0 :: .send 0 :: actions).foldlM (step publishing) (init .new)
    ¬ Acknowledges stray 1 (.puback 0) ∧
    (run []).map (·.channel.pendingAcks.lookup 1) = some (some (.puback 0)) ∧
    (run [.receive stray]).map (·.channel.pendingAcks.lookup 1) = some none ∧
    (run [.receive stray, .wake 0]).map (·.phase 0) = some (.returned (.error .channelClosed)) ∧
    (run [.receive stray, .receive (.puback 1), .wake 0]).map (·.phase 0) =
      some (.returned (.error .channelClosed)) := by
  refine ⟨?_, rfl, rfl, rfl, rfl⟩
  intro h
  change Acknowledges (.suback _) _ _ at h
  cases h

/-- An operation that waits for its PUBACK: the one behind a SUBACK under another identifier answers
it, and the one behind a SUBACK under its own does not. -/
theorem acks_disturb_own_identifier_puback :
    ∃ world last, [Action.start 0, .register 0, .send 0].foldlM (step publishing) (init .new) =
        some world ∧
      ((world.channel.receiveAll
        [.suback { packetId := 2, returnCodes := [] }]).dispatchClientInbound
          (.puback 1)).answered = some 0 ∧
      [Packet.suback { packetId := 1, returnCodes := [] }, .puback 1].foldl stepReceive world =
        last ∧
      step publishing last (.wake 0) =
        some (last.setPhase 0 (.returned (.error .channelClosed))) := by
  obtain ⟨world, hrun, hslot, hphase⟩ : ∃ world,
      [Action.start 0, .register 0, .send 0].foldlM (step publishing) (init .new) = some world ∧
      world.channel.pendingAcks.lookup 1 = some (.puback 0) ∧ world.phase 0 = .waiting 1 none :=
    ⟨_, rfl, rfl, rfl⟩
  have hwaits : WaitsOn publishing world 0 1 (.puback 0) := .first hphase
  have hother : ¬ Acknowledges (.suback { packetId := 1, returnCodes := [] }) 1 (.puback 0) := by
    intro h
    cases h
  have hack : ackId (.puback 1) = some 1 := rfl
  have hstrayAck : ackId (.suback { packetId := 1, returnCodes := [] }) = some 1 := rfl
  obtain ⟨-, -, -, hnoise⟩ := acks_disturb_own_identifier publishing world hack
  obtain ⟨hkept, -⟩ := hnoise _ [.suback { packetId := 2, returnCodes := [] }] hslot
  obtain ⟨-, hstray, -, -⟩ := acks_disturb_own_identifier publishing world hstrayAck
  obtain ⟨-, -, hwakes⟩ := hstray _ hslot hother [.puback 1] (by decide)
  exact ⟨world, _, hrun, (hkept (by decide)).2 (.puback 1 0), rfl, (hwakes 0 hwaits).2⟩

end Operations

end HotaruMqtt

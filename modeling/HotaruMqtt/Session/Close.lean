import HotaruMqtt.Library.Runs
import HotaruMqtt.Session.Channel

/-!
# Closing a channel

The parties are the writer actor, the operations that put entries into the tables of the session
and take them out again, and any number of calls of `close`. They take turns in any order. Every
insertion and every call carries the time at which it happened, so that the entries made before a
call can be told from later ones under the same identifier.

The flag `open` is cleared both by the writer actor and by `close`, and `close` abandons the
session only if it found the flag set.
-/

namespace HotaruMqtt.Close

open Library

/-- The tables that `abandon` clears, in this order. -/
inductive TableName where
  | pendingAcks
  | qos2Recv
  | outboundInflight
  deriving DecidableEq

def keys (session : MqttSession) : TableName → Finset PacketId
  | .pendingAcks => session.pendingAcks.keys
  | .qos2Recv => session.qos2Recv.keys
  | .outboundInflight => session.outboundInflight.keys

def clear (session : MqttSession) : TableName → MqttSession
  | .pendingAcks => { session with pendingAcks := ∅ }
  | .qos2Recv => { session with qos2Recv := ∅ }
  | .outboundInflight => { session with outboundInflight := ∅ }

def remove (session : MqttSession) (id : PacketId) : TableName → MqttSession
  | .pendingAcks => { session with pendingAcks := session.pendingAcks.erase id }
  | .qos2Recv => { session with qos2Recv := session.qos2Recv.erase id }
  | .outboundInflight => { session with outboundInflight := session.outboundInflight.erase id }

/-- The three steps of `abandon`. -/
theorem abandon_eq_clear (session : MqttSession) :
    session.abandon =
      clear (clear (clear session .pendingAcks) .qos2Recv) .outboundInflight := rfl

/-- What a call of `close` has done last. -/
inductive ClosePhase where
  | called
  | swapped
  | notified
  | clearedAcks
  | clearedRecv
  | returned
  deriving DecidableEq

/-- The tables that a call which does not return early has cleared. -/
def ClosePhase.hasCleared : ClosePhase → TableName → Bool
  | clearedAcks, .pendingAcks => true
  | clearedRecv, .pendingAcks | clearedRecv, .qos2Recv => true
  | returned, _ => true
  | _, _ => false

structure CloseCall where
  began : ℕ
  phase : ClosePhase
  deriving DecidableEq

structure World where
  channel : MqttChannel
  writer : WriterPhase
  /-- Some call of `close` has notified the waiters of the shutdown signal. -/
  notified : Bool
  calls : Table ℕ CloseCall
  time : ℕ
  /-- When the entry under an identifier was inserted. -/
  born : TableName → PacketId → ℕ
  /-- When an operation inserted its slot. -/
  issued : Table Waiter ℕ
  answered : List Waiter
  gaveUp : List Waiter

def init : World :=
  { channel := .new, writer := .looping, notified := false, calls := ∅, time := 0
    born := fun _ _ ↦ 0, issued := ∅, answered := [], gaveUp := [] }

/-- Whether the slot of an operation is still in the table. -/
def holdsSlot (session : MqttSession) (waiter : Waiter) : Bool :=
  decide (∃ id ∈ session.pendingAcks.keys,
    (session.pendingAcks.lookup id).any fun slot ↦ slot.waiter = waiter)

/-- How the receiving half of a slot resolves: with the acknowledgement that was sent, with the
time limit, or, once the sender is gone, with `ChannelClosed`. -/
def World.outcome (world : World) (waiter : Waiter) : Option (Except MqttError Unit) :=
  if waiter ∈ world.answered then some (.ok ())
  else if waiter ∈ world.gaveUp then some (.error (.timeout .ack))
  else if holdsSlot world.channel.session waiter then none
  else (world.issued.lookup waiter).map fun _ ↦ .error .channelClosed

inductive Action where
  | send (cmd : WriteCmd)
  | writerTakes (wireFails : Bool)
  | writerNotified
  | writerMarks
  | writerDrops
  | insertAck (id : PacketId) (slot : AckSlot)
  | insertRecv (id : PacketId) (incoming : IncomingPublish)
  | insertInflight (id : PacketId) (packet : PublishPacket)
  | fireAck (id : PacketId) (kind : AckKind)
  | fireSuback (id : PacketId)
  | fireUnsuback (id : PacketId)
  | giveUp (waiter : Waiter) (id : PacketId)
  | remove (table : TableName) (id : PacketId)
  | call (number : ℕ)
  | advance (number : ℕ)

namespace World

def withSession (world : World) (session : MqttSession) : World :=
  { world with channel := { world.channel with session } }

/-- Record that an entry is inserted now. -/
def stamp (world : World) (table : TableName) (id : PacketId) : World :=
  { world with
    time := world.time + 1
    born := fun table' id' ↦
      if table' = table ∧ id' = id then world.time else world.born table' id' }

/-- The state after an acknowledgement was delivered to the slot of an identifier. -/
def fired (world : World) (result : Option Waiter × MqttSession) : World :=
  { world.withSession result.2 with answered := world.answered ++ result.1.toList }

def setPhase (world : World) (number : ℕ) (call : CloseCall) (phase : ClosePhase) : World :=
  { world with calls := world.calls.insert number { call with phase } }

/-- The next step of a call of `close`. -/
def advance (world : World) (number : ℕ) (call : CloseCall) : Option World :=
  match call.phase with
  | .called =>
      if world.channel.isOpen then
        some ({ world with channel := { world.channel with isOpen := false } }.setPhase number call
          .swapped)
      else some (world.setPhase number call .returned)
  | .swapped => some ({ world with notified := true }.setPhase number call .notified)
  | .notified =>
      some ((world.withSession (clear world.channel.session .pendingAcks)).setPhase number call
        .clearedAcks)
  | .clearedAcks =>
      some ((world.withSession (clear world.channel.session .qos2Recv)).setPhase number call
        .clearedRecv)
  | .clearedRecv =>
      some ((world.withSession (clear world.channel.session .outboundInflight)).setPhase number call
        .returned)
  | .returned => none

end World

/-- One step of one party; `none` if the party cannot take it. -/
def step (world : World) : Action → Option World
  | .send cmd =>
      match world.channel.send cmd with
      | .ok channel => some { world with channel }
      | .error _ => none
  | .writerTakes wireFails =>
      match world.writer, world.channel.commands with
      | .looping, cmd :: commands =>
          some { world with
            channel := { world.channel with commands }
            writer := if cmd.endsLoop world.channel.version wireFails then .left else .looping }
      | _, _ => none
  | .writerNotified =>
      if world.writer = .looping ∧ world.notified then some { world with writer := .left } else none
  | .writerMarks =>
      if world.writer = .left then
        some { world with writer := .marked, channel := { world.channel with isOpen := false } }
      else none
  | .writerDrops =>
      if world.writer = .marked then
        some { world with writer := .gone, channel := { world.channel with receiving := false } }
      else none
  | .insertAck id slot =>
      if (world.issued.lookup slot.waiter).isSome then none
      else
        let session := world.channel.session
        some { (world.withSession
            { session with pendingAcks := session.pendingAcks.insert id slot }).stamp
              .pendingAcks id with
          issued := world.issued.insert slot.waiter world.time }
  | .insertRecv id incoming =>
      let session := world.channel.session
      some ((world.withSession
        { session with qos2Recv := session.qos2Recv.insert id incoming }).stamp .qos2Recv id)
  | .insertInflight id packet =>
      let session := world.channel.session
      some ((world.withSession
        { session with outboundInflight := session.outboundInflight.insert id packet }).stamp
          .outboundInflight id)
  | .fireAck id kind => some (world.fired (world.channel.session.fireAck id kind))
  | .fireSuback id => some (world.fired (world.channel.session.fireSuback id))
  | .fireUnsuback id => some (world.fired (world.channel.session.fireUnsuback id))
  | .giveUp waiter id =>
      if world.outcome waiter = none ∧ (world.issued.lookup waiter).isSome then
        some { world.withSession (remove world.channel.session id .pendingAcks) with
          gaveUp := world.gaveUp ++ [waiter] }
      else none
  | .remove table id => some (world.withSession (remove world.channel.session id table))
  | .call number =>
      if (world.calls.lookup number).isSome then none
      else some { world with calls := world.calls.insert number ⟨world.time, .called⟩ }
  | .advance number => (world.calls.lookup number).bind (world.advance number)

/-! ## What a returned call has released -/

/-- No table holds an entry made before a time. -/
def NoneBefore (world : World) (began : ℕ) : Prop :=
  ∀ table, ∀ id ∈ keys world.channel.session table, began ≤ world.born table id

/-- No entry made before a time is left, and every operation that awaited an acknowledgement then
has resolved, to `ChannelClosed` unless it was answered or gave up. -/
structure Released (world : World) (began : ℕ) : Prop where
  tables : NoneBefore world began
  waiters : ∀ waiter at', world.issued.lookup waiter = some at' → at' < began →
    world.outcome waiter = some (.error .channelClosed) ∨ waiter ∈ world.answered ∨
      waiter ∈ world.gaveUp

/-- A call of `close` may test the flag only while it is set, or when there is nothing left for
the call to release. -/
def Effective (world : World) : Action → Prop
  | .advance number => ∀ call, world.calls.lookup number = some call → call.phase = .called →
      world.channel.isOpen = true ∨ NoneBefore world call.began
  | _ => True

structure Inv (world : World) : Prop where
  born_lt : ∀ table, ∀ id ∈ keys world.channel.session table, world.born table id < world.time
  began_le : ∀ number call, world.calls.lookup number = some call → call.began ≤ world.time
  cleared : ∀ number call, world.calls.lookup number = some call →
    ∀ table, call.phase.hasCleared table = true →
      ∀ id ∈ keys world.channel.session table, call.began ≤ world.born table id
  slots : ∀ id slot, world.channel.session.pendingAcks.lookup id = some slot →
    world.issued.lookup slot.waiter = some (world.born .pendingAcks id)

/-- A session with no entries but those of another. -/
structure Within (session session' : MqttSession) : Prop where
  keys_subset : ∀ table, keys session table ⊆ keys session' table
  slots : ∀ id slot, session.pendingAcks.lookup id = some slot →
    session'.pendingAcks.lookup id = some slot

theorem within_refl (session : MqttSession) : Within session session :=
  ⟨fun _ ↦ Finset.Subset.refl _, fun _ _ h ↦ h⟩

theorem within_remove (session : MqttSession) (id : PacketId) (table : TableName) :
    Within (remove session id table) session := by
  constructor
  · intro table'
    cases table <;> cases table' <;>
      first | exact Finset.Subset.refl _ | exact Table.keys_erase_subset _ _
  · intro id' slot h
    cases table with
    | pendingAcks => exact Table.lookup_of_lookup_erase h
    | qos2Recv | outboundInflight => exact h

theorem keys_clear_self (session : MqttSession) (table : TableName) :
    keys (clear session table) table = ∅ := by
  cases table <;> rfl

theorem within_clear (session : MqttSession) (table : TableName) :
    Within (clear session table) session := by
  constructor
  · intro table'
    by_cases htable : table' = table
    · rw [htable, keys_clear_self]
      exact Finset.empty_subset _
    · cases table <;> cases table' <;>
        first | exact absurd rfl htable | exact Finset.Subset.refl _
  · intro id slot h
    cases table with
    | pendingAcks => cases h
    | qos2Recv | outboundInflight => exact h

/-- Removing entries keeps the invariant, whatever else happens to the flag and the queue. -/
theorem Inv.shrink {world world' : World} (h : Inv world)
    (hsession : Within world'.channel.session world.channel.session)
    (htime : world'.time = world.time) (hborn : world'.born = world.born)
    (hcalls : world'.calls = world.calls) (hissued : world'.issued = world.issued) :
    Inv world' where
  born_lt table id hid := by
    rw [htime, hborn]
    exact h.born_lt table id (hsession.keys_subset table hid)
  began_le number call hcall := by
    rw [htime]
    exact h.began_le number call (hcalls ▸ hcall)
  cleared number call hcall table hcleared id hid := by
    rw [hborn]
    exact h.cleared number call (hcalls ▸ hcall) table hcleared id (hsession.keys_subset table hid)
  slots id slot hslot := by
    rw [hissued, hborn]
    exact h.slots id slot (hsession.slots id slot hslot)

/-- An insertion is made now, after the beginning of every call. -/
theorem Inv.insert {world world' : World} (h : Inv world) (table : TableName) (id : PacketId)
    (hkeys : ∀ table' id', id' ∈ keys world'.channel.session table' →
      (table' = table ∧ id' = id) ∨ id' ∈ keys world.channel.session table')
    (htime : world'.time = world.time + 1) (hborn : world'.born = (world.stamp table id).born)
    (hcalls : world'.calls = world.calls)
    (hslots : ∀ id' slot, world'.channel.session.pendingAcks.lookup id' = some slot →
      world'.issued.lookup slot.waiter = some (world'.born .pendingAcks id')) :
    Inv world' where
  born_lt table' id' hid := by
    rw [htime, hborn]
    simp only [World.stamp]
    split
    · omega
    · rename_i hother
      have hold := (hkeys table' id' hid).resolve_left hother
      have := h.born_lt table' id' hold
      omega
  began_le number call hcall := by
    have := h.began_le number call (hcalls ▸ hcall)
    omega
  cleared number call hcall table' hcleared id' hid := by
    rw [hborn]
    simp only [World.stamp]
    split
    · exact h.began_le number call (hcalls ▸ hcall)
    · rename_i hother
      have hold := (hkeys table' id' hid).resolve_left hother
      exact h.cleared number call (hcalls ▸ hcall) table' hcleared id' hold
  slots := hslots

/-- A call may move on if the tables it has cleared hold later entries only. -/
theorem Inv.setCall {world : World} (h : Inv world) (number : ℕ) (call : CloseCall)
    (hbegan : call.began ≤ world.time)
    (hcleared : ∀ table, call.phase.hasCleared table = true →
      ∀ id ∈ keys world.channel.session table, call.began ≤ world.born table id) :
    Inv { world with calls := world.calls.insert number call } where
  born_lt := h.born_lt
  began_le number' call' hcall' := by
    by_cases hnumber : number' = number
    · subst hnumber
      rw [Finmap.lookup_insert] at hcall'
      obtain rfl := Option.some.inj hcall'
      exact hbegan
    · rw [Finmap.lookup_insert_of_ne _ hnumber] at hcall'
      exact h.began_le number' call' hcall'
  cleared number' call' hcall' := by
    by_cases hnumber : number' = number
    · subst hnumber
      rw [Finmap.lookup_insert] at hcall'
      obtain rfl := Option.some.inj hcall'
      exact hcleared
    · rw [Finmap.lookup_insert_of_ne _ hnumber] at hcall'
      exact h.cleared number' call' hcall'
  slots := h.slots

/-- A session that loses entries keeps the invariant. -/
theorem Inv.withSession {world : World} (h : Inv world) {session : MqttSession}
    (hsession : Within session world.channel.session) : Inv (world.withSession session) :=
  h.shrink hsession rfl rfl rfl rfl

/-- One of the three clearing steps. -/
theorem Inv.clear {world : World} (h : Inv world) {number : ℕ} {call : CloseCall}
    (hcall : world.calls.lookup number = some call) (table : TableName) (phase : ClosePhase)
    (hphase : ∀ table', phase.hasCleared table' = true →
      table' = table ∨ call.phase.hasCleared table' = true) :
    Inv ((world.withSession (clear world.channel.session table)).setPhase number call phase) := by
  have hwithin := within_clear world.channel.session table
  refine (h.withSession hwithin).setCall number { call with phase } (h.began_le number call hcall)
    fun table' hcleared id hid ↦ ?_
  rcases hphase table' hcleared with rfl | hbefore
  · change id ∈ keys (Close.clear world.channel.session table') table' at hid
    rw [keys_clear_self] at hid
    exact absurd hid (Finset.notMem_empty id)
  · exact h.cleared number call hcall table' hbefore id (hwithin.keys_subset table' hid)

/-- A step of a call clears its next table or returns. -/
theorem Inv.advance {world next : World} (h : Inv world) {number : ℕ} {call : CloseCall}
    (hcall : world.calls.lookup number = some call)
    (hallowed : Effective world (.advance number))
    (hstep : world.advance number call = some next) : Inv next := by
  have hbegan := h.began_le number call hcall
  unfold World.advance at hstep
  cases hphase : call.phase with
  | called =>
    rw [hphase] at hstep
    simp only at hstep
    split at hstep
    · obtain rfl := Option.some.inj hstep
      have hclosed : Inv { world with channel := { world.channel with isOpen := false } } :=
        h.shrink (within_refl _) rfl rfl rfl rfl
      exact hclosed.setCall number { call with phase := .swapped } hbegan nofun
    · rename_i hclosed
      obtain rfl := Option.some.inj hstep
      have hnone := (hallowed call hcall hphase).resolve_left hclosed
      exact h.setCall number { call with phase := .returned } hbegan fun table _ ↦ hnone table
  | swapped =>
    rw [hphase] at hstep
    obtain rfl := Option.some.inj hstep
    have hnotified : Inv { world with notified := true } :=
      h.shrink (within_refl _) rfl rfl rfl rfl
    exact hnotified.setCall number { call with phase := .notified } hbegan nofun
  | notified | clearedAcks | clearedRecv =>
    rw [hphase] at hstep
    obtain rfl := Option.some.inj hstep
    refine h.clear hcall _ _ ?_
    rw [hphase]
    rintro (_ | _ | _) <;> decide
  | returned =>
    rw [hphase] at hstep
    cases hstep

/-- A slot is inserted by an operation that has not inserted one before. -/
theorem slots_insertAck {world : World} (h : Inv world) {id : PacketId} {slot : AckSlot}
    (hfresh : world.issued.lookup slot.waiter = none) (id' : PacketId) (slot' : AckSlot)
    (hslot : (world.channel.session.pendingAcks.insert id slot).lookup id' = some slot') :
    (world.issued.insert slot.waiter world.time).lookup slot'.waiter =
      some ((world.stamp .pendingAcks id).born .pendingAcks id') := by
  by_cases hid : id' = id
  · subst hid
    rw [Finmap.lookup_insert] at hslot
    obtain rfl := Option.some.inj hslot
    rw [Finmap.lookup_insert]
    simp [World.stamp]
  · rw [Finmap.lookup_insert_of_ne _ hid] at hslot
    have hissued := h.slots id' slot' hslot
    have hne : slot'.waiter ≠ slot.waiter := by
      intro heq
      rw [heq, hfresh] at hissued
      cases hissued
    rw [Finmap.lookup_insert_of_ne _ hne, hissued]
    simp [World.stamp, hid]

/-- Every step that finds the channel open keeps the invariant. -/
theorem step_inv {world next : World} {action : Action} (h : Inv world)
    (hallowed : Effective world action) (hstep : step world action = some next) : Inv next := by
  cases action with
  | send cmd =>
    simp only [step, MqttChannel.send] at hstep
    split at hstep
    · rename_i channel hsend
      obtain rfl := Option.some.inj hstep
      split at hsend
      · obtain rfl := Except.ok.inj hsend
        exact h.shrink (within_refl _) rfl rfl rfl rfl
      · cases hsend
    · cases hstep
  | writerTakes wireFails =>
    simp only [step] at hstep
    split at hstep
    · obtain rfl := Option.some.inj hstep
      exact h.shrink (within_refl _) rfl rfl rfl rfl
    · cases hstep
  | writerNotified | writerMarks | writerDrops =>
    simp only [step, Option.ite_none_right_eq_some] at hstep
    obtain ⟨-, hnext⟩ := hstep
    obtain rfl := Option.some.inj hnext
    exact h.shrink (within_refl _) rfl rfl rfl rfl
  | insertAck id slot =>
    simp only [step, Option.ite_none_left_eq_some, Option.isSome_iff_ne_none, not_not] at hstep
    obtain ⟨hfresh, hnext⟩ := hstep
    obtain rfl := Option.some.inj hnext
    refine h.insert .pendingAcks id ?_ rfl rfl rfl (slots_insertAck h hfresh)
    rintro (_ | _ | _) id' hid
    · exact (Table.mem_keys_insert hid).imp_left fun heq ↦ ⟨rfl, heq⟩
    · exact .inr hid
    · exact .inr hid
  | insertRecv id incoming =>
    obtain rfl := Option.some.inj hstep
    refine h.insert .qos2Recv id ?_ rfl rfl rfl ?_
    · rintro (_ | _ | _) id' hid
      · exact .inr hid
      · exact (Table.mem_keys_insert hid).imp_left fun heq ↦ ⟨rfl, heq⟩
      · exact .inr hid
    · intro id' slot hslot
      exact h.slots id' slot hslot
  | insertInflight id packet =>
    obtain rfl := Option.some.inj hstep
    refine h.insert .outboundInflight id ?_ rfl rfl rfl ?_
    · rintro (_ | _ | _) id' hid
      · exact .inr hid
      · exact .inr hid
      · exact (Table.mem_keys_insert hid).imp_left fun heq ↦ ⟨rfl, heq⟩
    · intro id' slot hslot
      exact h.slots id' slot hslot
  | fireAck id kind | fireSuback id | fireUnsuback id =>
    obtain rfl := Option.some.inj hstep
    exact h.shrink (within_remove _ id .pendingAcks) rfl rfl rfl rfl
  | giveUp waiter id =>
    simp only [step, Option.ite_none_right_eq_some] at hstep
    obtain ⟨-, hnext⟩ := hstep
    obtain rfl := Option.some.inj hnext
    exact h.shrink (within_remove _ id .pendingAcks) rfl rfl rfl rfl
  | remove table id =>
    obtain rfl := Option.some.inj hstep
    exact h.withSession (within_remove _ id table)
  | call number =>
    simp only [step, Option.ite_none_left_eq_some] at hstep
    obtain ⟨-, hnext⟩ := hstep
    obtain rfl := Option.some.inj hnext
    exact h.setCall number ⟨world.time, .called⟩ (Nat.le_refl _) nofun
  | advance number =>
    obtain ⟨call, hcall, hnext⟩ := Option.bind_eq_some_iff.mp hstep
    exact h.advance hcall hallowed hnext

theorem inv_init : Inv init where
  born_lt := by rintro (_ | _ | _) id hid <;> exact absurd hid (Finset.notMem_empty id)
  began_le number call hcall := by cases hcall
  cleared number call hcall := by cases hcall
  slots id slot hslot := by cases hslot

/-- A waiter that is held has a slot in the table. -/
theorem exists_slot_of_holdsSlot {session : MqttSession} {waiter : Waiter}
    (h : holdsSlot session waiter = true) :
    ∃ id slot, session.pendingAcks.lookup id = some slot ∧ slot.waiter = waiter := by
  simp only [holdsSlot, decide_eq_true_iff, Option.any_eq_true] at h
  obtain ⟨id, -, slot, hslot, hwaiter⟩ := h
  exact ⟨id, slot, hslot, hwaiter⟩

/-- When a call has returned, every entry is younger than the call. -/
theorem Inv.released {world : World} (h : Inv world) {number : ℕ} {call : CloseCall}
    (hcall : world.calls.lookup number = some call) (hreturned : call.phase = .returned) :
    Released world call.began where
  tables table id hid := by
    refine h.cleared number call hcall table ?_ id hid
    rw [hreturned]
    rfl
  waiters waiter at' hissued hearlier := by
    unfold World.outcome
    split
    · rename_i hanswered
      exact .inr (.inl hanswered)
    · split
      · rename_i hgaveUp
        exact .inr (.inr hgaveUp)
      · split
        · rename_i hholds
          obtain ⟨id, slot, hslot, rfl⟩ := exists_slot_of_holdsSlot hholds
          have hborn := Option.some.inj (hissued.symm.trans (h.slots id slot hslot))
          have hlate := h.cleared number call hcall .pendingAcks (by rw [hreturned]; rfl) id
            (Finmap.mem_keys.mpr (Finmap.mem_of_lookup_eq_some hslot))
          omega
        · rw [hissued]
          exact .inl rfl

/-- A call that finds the flag cleared by someone else returns without abandoning the session. -/
theorem not_released_of_not_effective {world next : World} {action : Action}
    (hstep : step world action = some next) (h : ¬ Effective world action) :
    ∃ number call, next.calls.lookup number = some call ∧ call.phase = .returned ∧
      ¬ Released next call.began := by
  cases action with
  | advance number =>
    simp only [Effective, not_forall, not_or] at h
    obtain ⟨call, hcall, hphase, hclosed, hleft⟩ := h
    rw [step, hcall, Option.bind_some, World.advance, hphase] at hstep
    simp only [if_neg hclosed] at hstep
    obtain rfl := Option.some.inj hstep
    exact ⟨number, _, Finmap.lookup_insert _, rfl, fun hreleased ↦ hleft hreleased.tables⟩
  | _ => exact absurd trivial h

/-- After every run in which each call of `close` tests the flag while it is set, or when nothing is
left to release, a call that has returned has released everything made before it. A call that
tests the flag otherwise returns with entries left. -/
theorem close_releases_waiters {actions : List Action} {world : World}
    (run : Run step Effective init actions world) :
    (∀ number call, world.calls.lookup number = some call → call.phase = .returned →
      Released world call.began) ∧
    (∀ action next, step world action = some next → ¬ Effective world action →
      ∃ number call, next.calls.lookup number = some call ∧ call.phase = .returned ∧
        ¬ Released next call.began) := by
  have hinv := run.invariant inv_init fun _ _ _ hinv hallowed hstep ↦ step_inv hinv hallowed hstep
  constructor
  · intro number call hcall hreturned
    exact hinv.released hcall hreturned
  · intro action next hstep heffective
    exact not_released_of_not_effective hstep heffective

/-- A sufficient check: a call tests the flag while it is set. -/
def findsOpen (world : World) : Action → Bool
  | .advance number =>
      world.channel.isOpen || (world.calls.lookup number).all fun call ↦ call.phase ≠ .called
  | _ => true

theorem effective_of_findsOpen (world : World) (action : Action)
    (h : findsOpen world action = true) : Effective world action := by
  cases action with
  | advance number =>
    intro call hcall hcalled
    simp only [findsOpen, hcall, Option.all_some, hcalled] at h
    exact .inl (by simpa using h)
  | _ => trivial

/-- A call that finds the flag set releases the operation that awaits a PUBACK. -/
theorem close_releases_waiter :
    ∃ world, Run step Effective init
        [.insertAck 1 (.puback 0), .call 0, .advance 0, .advance 0, .advance 0, .advance 0,
          .advance 0] world ∧
      Released world 1 ∧ world.outcome 0 = some (.error .channelClosed) := by
  obtain ⟨world, hrun, hcall, houtcome⟩ : ∃ world, Run step Effective init
      [.insertAck 1 (.puback 0), .call 0, .advance 0, .advance 0, .advance 0, .advance 0,
        .advance 0] world ∧
      world.calls.lookup 0 = some ⟨1, .returned⟩ ∧
      world.outcome 0 = some (.error .channelClosed) :=
    ⟨_, Run.of_guarded effective_of_findsOpen rfl, rfl, by decide⟩
  exact ⟨world, hrun, (close_releases_waiters hrun).1 0 _ hcall rfl, houtcome⟩

/-- The writer fails on a PINGREQ and clears the flag. The call of `close` that follows returns
at once, and the operation that awaits a PUBACK is left waiting. -/
theorem close_leaves_waiter :
    ∃ world, Run step Unrestricted init
        [.insertAck 1 (.puback 0), .send (.packet .pingreq), .writerTakes true, .writerMarks,
          .call 0, .advance 0] world ∧
      world.calls.lookup 0 = some ⟨1, .returned⟩ ∧
      world.channel.session.pendingAcks.lookup 1 = some (.puback 0) ∧
      world.outcome 0 = none ∧ ¬ Released world 1 := by
  refine ⟨_, Run.of_foldlM rfl, rfl, rfl, by decide, fun hreleased ↦ ?_⟩
  have hborn := hreleased.tables .pendingAcks 1 (by decide)
  exact absurd hborn (by decide)

end HotaruMqtt.Close

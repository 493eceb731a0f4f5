import HotaruMqtt.Protocol.Connections

/-!
# Identifiers that the server makes up

A CONNECT without a client identifier is given one that ends in the number of its connection. The
server does not keep such identifiers apart from those that clients choose, and it does not ask for
a clean session. While clients leave the made up identifiers to the connections they are made for,
the session of a connection with such an identifier replaces no other one.
-/

namespace HotaruMqtt.Connections

open Library
open Server (madeUpId)

/-- Two connections are given different identifiers. -/
theorem madeUpId_injective {connection connection' : ConnectionId}
    (h : madeUpId connection = madeUpId connection') : connection = connection' := by
  have hdigits := (String.append_right_inj _).mp h
  rw [Nat.toString_eq_ofList_toDigits, Nat.toString_eq_ofList_toDigits] at hdigits
  rw [← @Nat.ofDigitChars_ten_toDigits connection, String.ofList_injective hdigits,
    Nat.ofDigitChars_ten_toDigits]

/-- The identifier is made up for no other connection. -/
def LeftTo (connection : ConnectionId) (client : ClientId) : Prop :=
  ∀ number, client = madeUpId number → number = connection

theorem leftTo_madeUpId (connection : ConnectionId) : LeftTo connection (madeUpId connection) :=
  fun _ h ↦ (madeUpId_injective h).symm

/-- A client that is let in asks for a clean session if it chooses no identifier, and chooses none
that is made up for another connection. The bound stands for the counter of the connections, which
has 64 bits: below it, a connection has its number to itself. -/
def Considerate (_ : World) : Action → Prop
  | .connect connection auth connect =>
      auth.accepted = true → connection < 2 ^ 64 ∧
        (connect.clientId = "" → connect.cleanSession = true) ∧ LeftTo connection connect.clientId
  | _ => True

/-- The registration that a handler is in the middle of. -/
def Phase.pending : Phase → Option Registration
  | .removing registration | .wiping registration _ | .inserting registration _ =>
      some registration
  | _ => none

/-- The handler is behind its registration, or has none. -/
def Phase.settled : Phase → Bool
  | .connecting | .removing _ | .wiping _ _ | .inserting _ _ => false
  | _ => true

theorem Phase.pending_of_settled {phase : Phase} (h : phase.settled = true) :
    phase.pending = none := by
  cases phase <;> first
    | rfl
    | cases h

/-- No session and no registration comes up. -/
structure AddsNone (world next : World) : Prop where
  pending : ∀ connection registration, (next.phase connection).pending = some registration →
    (world.phase connection).pending = some registration
  settled : ∀ connection, (world.phase connection).settled = true →
    (next.phase connection).settled = true
  owners : ∀ client owner, next.broker.ownerOf client = some owner →
    world.broker.ownerOf client = some owner

section Step

variable {world next last : World} {connection : ConnectionId}

theorem AddsNone.trans (h : AddsNone world next) (h' : AddsNone next last) :
    AddsNone world last where
  pending connection registration hpending :=
    h.pending connection registration (h'.pending connection registration hpending)
  settled connection hsettled := h'.settled connection (h.settled connection hsettled)
  owners client owner howner := h.owners client owner (h'.owners client owner howner)

theorem addsNone_of_frame (hphase : next.phase = world.phase)
    (howners : ∀ client owner, next.broker.ownerOf client = some owner →
      world.broker.ownerOf client = some owner) : AddsNone world next where
  pending connection registration hpending := by rwa [hphase] at hpending
  settled connection hsettled := by rwa [hphase]
  owners := howners

theorem addsNone_of_store (hphase : next.phase = world.phase)
    (hbroker : next.broker.ownerOf = world.broker.ownerOf) : AddsNone world next :=
  addsNone_of_frame hphase fun client owner howner ↦ by rwa [hbroker] at howner

theorem addsNone_setChannel (channel : MqttChannel) :
    AddsNone world (world.setChannel connection channel) :=
  addsNone_of_store rfl rfl

theorem addsNone_setBroker {broker : Broker}
    (h : ∀ client owner, broker.ownerOf client = some owner →
      world.broker.ownerOf client = some owner) : AddsNone world (world.setBroker broker) :=
  addsNone_of_frame rfl h

theorem addsNone_eraseSession (client : ClientId) :
    AddsNone world (world.setBroker
      { world.broker with sessions := world.broker.sessions.erase client }) :=
  addsNone_setBroker fun client' _ howner ↦
    world.broker.ownerOf_of_ownerOf_erase client' howner

theorem addsNone_setSubscriptions (subscriptions : SubscriptionTree) :
    AddsNone world (world.setBroker { world.broker with subscriptions }) :=
  addsNone_setBroker fun _ _ ↦ id

theorem addsNone_setPhase {phase : Phase}
    (hpending : ∀ registration, phase.pending = some registration →
      (world.phase connection).pending = some registration)
    (hsettled : (world.phase connection).settled = true → phase.settled = true) :
    AddsNone world (world.setPhase connection phase) where
  pending other registration := by
    rw [World.phase_setPhase]
    split
    · rename_i hother
      rw [hother]
      exact hpending registration
    · exact id
  settled other := by
    rw [World.phase_setPhase]
    split
    · rename_i hother
      rw [hother]
      exact hsettled
    · exact id
  owners client owner := id

theorem addsNone_setPhase_of_settled {phase : Phase} (h : phase.settled = true) :
    AddsNone world (world.setPhase connection phase) := by
  refine addsNone_setPhase (fun registration hpending ↦ ?_) fun _ ↦ h
  rw [Phase.pending_of_settled h] at hpending
  cases hpending

/-- The handler stays in the middle of the same registration. -/
theorem addsNone_setPhase_of_pending {phase : Phase}
    (hpending : phase.pending = (world.phase connection).pending)
    (hsettled : (world.phase connection).settled = false) :
    AddsNone world (world.setPhase connection phase) := by
  refine addsNone_setPhase (fun registration h ↦ hpending.symm.trans h) fun h ↦ ?_
  rw [hsettled] at h
  cases h

theorem addsNone_reply (packet : Packet) {phase : Phase} (h : phase.settled = true) :
    AddsNone world (world.reply connection packet phase) := by
  rw [World.reply_eq]
  refine (addsNone_setChannel _).trans (addsNone_setPhase_of_settled ?_)
  split
  · exact h
  · rfl

theorem addsNone_handOn (client : ClientId) (endpoints : List Endpoint) (publish : PublishPacket) :
    AddsNone world (world.handOn client endpoints publish) := by
  obtain ⟨hstore, hphase, -⟩ := world.handOn_frame client endpoints publish
  refine addsNone_of_store hphase ?_
  rw [World.broker, hstore]
  rfl

/-- A dispatch registers nobody. -/
theorem addsNone_dispatch (client : ClientId) (endpoints : List Endpoint) (packet : Packet) :
    AddsNone world (world.dispatch connection client endpoints packet) := by
  cases packet with
  | publish publish =>
    simp only [World.dispatch]
    split
    · exact (addsNone_setChannel _).trans (addsNone_setPhase_of_settled rfl)
    · split
      · exact addsNone_setChannel _
      · exact (addsNone_setChannel _).trans (addsNone_handOn client endpoints publish)
  | subscribe s =>
    refine (addsNone_setBroker fun client' owner howner ↦ ?_).trans (addsNone_reply _ rfl)
    exact (congrFun (Broker.ownerOf_subscribe ..) client').symm.trans howner
  | unsubscribe u =>
    refine (addsNone_setBroker fun client' owner howner ↦ ?_).trans (addsNone_reply _ rfl)
    exact (congrFun (Broker.ownerOf_unsubscribe ..) client').symm.trans howner
  | pubrel id =>
    simp only [World.dispatch]
    split
    · exact addsNone_reply _ rfl
    · refine AddsNone.trans ?_ (addsNone_setPhase_of_settled rfl)
      exact (addsNone_setChannel _).trans (addsNone_handOn client endpoints _)
  | pingreq | pubrec id => exact addsNone_reply _ rfl
  | connect connect => exact addsNone_setPhase_of_settled rfl
  | puback | pubcomp | connack | suback | unsuback | pingresp | disconnect =>
    exact addsNone_of_store rfl rfl

/-- A turn of a handler that does not insert a session. -/
theorem addsNone_advance
    (hphase : ∀ registration present, world.phase connection ≠ .inserting registration present)
    (hstep : world.advance connection = some next) : AddsNone world next := by
  unfold World.advance at hstep
  split at hstep
  · rename_i registration hremoving
    obtain rfl := Option.some.inj hstep
    refine (addsNone_eraseSession registration.client).trans (addsNone_setPhase_of_pending ?_ ?_)
    · exact (congrArg Phase.pending hremoving).symm
    · exact congrArg Phase.settled hremoving
  · rename_i registration present hwiping
    obtain rfl := Option.some.inj hstep
    refine (addsNone_setSubscriptions _).trans (addsNone_setPhase_of_pending ?_ ?_)
    · exact (congrArg Phase.pending hwiping).symm
    · exact congrArg Phase.settled hwiping
  · rename_i registration present hinserting
    exact absurd hinserting (hphase registration present)
  · obtain rfl := Option.some.inj hstep
    exact addsNone_reply _ rfl
  · obtain rfl := Option.some.inj hstep
    exact addsNone_reply _ rfl
  · split at hstep
    · obtain rfl := Option.some.inj hstep
      exact addsNone_setPhase_of_settled rfl
    · obtain rfl := Option.some.inj hstep
      exact (addsNone_eraseSession _).trans (addsNone_setPhase_of_settled rfl)
  · rename_i client will _
    obtain rfl := Option.some.inj hstep
    have hwiped : AddsNone world ((world.setBroker { world.broker with
        subscriptions := world.broker.subscriptions.removeClient client }).setPhase connection
          .returned) :=
      (addsNone_setSubscriptions _).trans (addsNone_setPhase_of_settled rfl)
    cases will with
    | none => exact hwiped
    | some will => exact hwiped.trans (addsNone_of_store rfl rfl)
  · cases hstep
  · cases hstep
  · cases hstep

theorem addsNone_deliver {number : ℕ} (hstep : stepDeliver world number = some next) :
    AddsNone world next := by
  obtain ⟨fanout, client, subQos, matched, -, -, rfl⟩ := exists_of_stepDeliver hstep
  cases hrecipient : world.broker.recipient fanout.source client with
  | none =>
    rw [turn_of_recipient_eq_none hrecipient]
    exact addsNone_of_store rfl rfl
  | some entry =>
    rw [turn_of_recipient_eq_some hrecipient]
    exact addsNone_of_store rfl rfl

/-- Whoever holds or registers an identifier may, and whoever holds one is behind its
registration. -/
structure AssignedInv (world : World) : Prop where
  pending : ∀ connection registration, (world.phase connection).pending = some registration →
    LeftTo connection registration.client
  owners : ∀ client connection will, world.broker.ownerOf client = some (connection, will) →
    LeftTo connection client ∧ (world.phase connection).settled = true

theorem assignedInv_init : AssignedInv init where
  pending _ _ hpending := by cases hpending
  owners _ _ _ howner := by cases howner

theorem AssignedInv.of_addsNone (h : AssignedInv world) (hadds : AddsNone world next) :
    AssignedInv next where
  pending connection registration hpending :=
    h.pending connection registration (hadds.pending connection registration hpending)
  owners client connection will howner := by
    obtain ⟨hleft, hsettled⟩ := h.owners client connection will (hadds.owners client _ howner)
    exact ⟨hleft, hadds.settled connection hsettled⟩

/-- A handler starts a registration. -/
theorem AssignedInv.removing (h : AssignedInv world) (hphase : world.phase connection = .connecting)
    {registration : Registration} (hleft : LeftTo connection registration.client) :
    AssignedInv (world.setPhase connection (.removing registration)) where
  pending other registration' hpending := by
    rw [World.phase_setPhase] at hpending
    split at hpending
    · rename_i hother
      obtain rfl := Option.some.inj hpending
      rw [hother]
      exact hleft
    · exact h.pending other registration' hpending
  owners client other will howner := by
    obtain ⟨hleft', hsettled⟩ := h.owners client other will howner
    refine ⟨hleft', ?_⟩
    rw [World.phase_setPhase]
    split
    · rename_i hother
      rw [hother, hphase] at hsettled
      cases hsettled
    · exact hsettled

/-- A CONNECT that is accepted names itself or is given the identifier of its connection. -/
theorem assignedInv_connect (h : AssignedInv world) (hphase : world.phase connection = .connecting)
    {auth : Server.AuthResult} {connect : ConnectPacket}
    (hconsiderate : Considerate world (.connect connection auth connect)) :
    AssignedInv (world.accept connection auth connect) := by
  have hversion : AssignedInv (world.setChannel connection
      { world.channel connection with version := connect.version }) :=
    h.of_addsNone (addsNone_setChannel _)
  simp only [World.accept]
  split
  · rename_i haccepted
    refine hversion.removing hphase ?_
    unfold Server.assignedClientId
    split
    · exact leftTo_madeUpId connection
    · exact (hconsiderate haccepted).2.2
  · exact hversion.of_addsNone (addsNone_reply _ rfl)

theorem AssignedInv.insertSession (h : AssignedInv world) {client : ClientId}
    {entry : SubscriberEntry} (hleft : LeftTo entry.channel client)
    (hsettled : (world.phase entry.channel).settled = true) :
    AssignedInv (world.setBroker
      { world.broker with sessions := world.broker.sessions.insert client entry }) where
  pending := h.pending
  owners client' other will howner := by
    have howner' := (world.broker.ownerOf_insert_eq client' client entry).symm.trans howner
    split at howner'
    · rename_i hclient
      obtain ⟨rfl, -⟩ := Prod.mk.inj (Option.some.inj howner')
      rw [hclient]
      exact ⟨hleft, hsettled⟩
    · exact h.owners client' other will howner'

/-- A session is inserted for the registration of a handler. -/
theorem assignedInv_inserting (h : AssignedInv world) {registration : Registration} {present : Bool}
    (hphase : world.phase connection = .inserting registration present)
    (hstep : world.advance connection = some next) : AssignedInv next := by
  simp only [World.advance, hphase] at hstep
  obtain rfl := Option.some.inj hstep
  have hregistered : AssignedInv
      (world.setPhase connection (.registered registration.client present)) :=
    h.of_addsNone (addsNone_setPhase_of_settled rfl)
  refine hregistered.insertSession ?_ ?_
  · exact h.pending connection registration (congrArg Phase.pending hphase)
  · rw [World.phase_setPhase, if_pos rfl]
    rfl

/-- Every considerate step keeps made-up identifiers with their connections. -/
theorem assignedInv_step {action : Action} (h : AssignedInv world)
    (hconsiderate : Considerate world action) (hstep : step world action = some next) :
    AssignedInv next := by
  cases action with
  | connect connection auth connect =>
    obtain ⟨hphase, rfl⟩ := of_step_connect hstep
    exact assignedInv_connect h hphase hconsiderate
  | advance connection =>
    by_cases hinserting : ∃ registration present,
        world.phase connection = .inserting registration present
    · obtain ⟨registration, present, hphase⟩ := hinserting
      exact assignedInv_inserting h hphase hstep
    · refine h.of_addsNone (addsNone_advance (fun registration present hphase ↦ ?_) hstep)
      exact hinserting ⟨registration, present, hphase⟩
  | serve connection endpoints packet =>
    obtain ⟨client, -, rfl⟩ := exists_of_step_serve hstep
    unfold World.serve
    split
    · exact h.of_addsNone (addsNone_setPhase_of_settled rfl)
    · exact h.of_addsNone (addsNone_dispatch client endpoints packet)
  | leave connection =>
    obtain ⟨client, rfl⟩ := exists_of_step_leave hstep
    exact h.of_addsNone (addsNone_setPhase_of_settled rfl)
  | fail connection =>
    obtain rfl := of_step_fail hstep
    exact h.of_addsNone (addsNone_setPhase_of_settled rfl)
  | collect number filter client =>
    obtain ⟨fanout, qos, -, -, rfl⟩ := exists_of_stepCollect hstep
    exact h.of_addsNone (addsNone_of_store rfl rfl)
  | collected number =>
    obtain ⟨fanout, -, rfl⟩ := exists_of_step_collected hstep
    exact h.of_addsNone (addsNone_of_store rfl rfl)
  | deliver number => exact h.of_addsNone (addsNone_deliver hstep)
  | close connection | writerMarks connection | writerDrops connection =>
    obtain rfl := Option.some.inj hstep
    exact h.of_addsNone (addsNone_of_store rfl rfl)

end Step

/-- Nobody holds the identifier that is made up for a connection which is not registered yet. -/
theorem AssignedInv.lookup_eq_none {world : World} (h : AssignedInv world)
    {connection : ConnectionId} (hphase : (world.phase connection).settled = false) :
    world.broker.sessions.lookup (madeUpId connection) = none := by
  cases hentry : world.broker.sessions.lookup (madeUpId connection) with
  | none => rfl
  | some entry =>
    have howner :
        world.broker.ownerOf (madeUpId connection) = some (entry.channel, entry.will) := by
      rw [Broker.ownerOf, hentry]
      rfl
    obtain ⟨hleft, hsettled⟩ := h.owners _ _ _ howner
    rw [← hleft connection rfl, hphase] at hsettled
    cases hsettled

/-- In every run of considerate clients, a CONNECT that is let in without an identifier asks for a
clean session, no session has the identifier that is made up for it, and none has it until its own
session is inserted. -/
theorem assigned_ids_unique {actions : List Action} {world : World}
    (run : Run step Considerate init actions world) (connection : ConnectionId) :
    (∀ auth connect next, Considerate world (.connect connection auth connect) →
      step world (.connect connection auth connect) = some next →
      auth.accepted = true → connect.clientId = "" →
      connect.cleanSession = true ∧
        world.broker.sessions.lookup (Server.assignedClientId connection connect) = none ∧
        ∃ will, next.phase connection =
          .removing { client := madeUpId connection, will, cleanSession := true }) ∧
    ∀ registration, (world.phase connection).pending = some registration →
      registration.client = madeUpId connection →
      world.broker.sessions.lookup registration.client = none := by
  have hinv : AssignedInv world :=
    run.invariant assignedInv_init fun _ _ _ h hconsiderate hstep ↦
      assignedInv_step h hconsiderate hstep
  constructor
  · intro auth connect next hconsiderate hstep haccepted hempty
    obtain ⟨hphase, rfl⟩ := of_step_connect hstep
    have hassigned : Server.assignedClientId connection connect = madeUpId connection :=
      if_pos hempty
    have hclean := (hconsiderate haccepted).2.1 hempty
    refine ⟨hclean, ?_, Server.connectWill connect, ?_⟩
    · rw [hassigned]
      exact hinv.lookup_eq_none (by rw [hphase]; rfl)
    · simp only [World.accept, haccepted, if_true, hassigned, hclean]
      rw [World.phase_setPhase, if_pos rfl]
  · intro registration hpending hclient
    rw [hclient]
    refine hinv.lookup_eq_none ?_
    cases hphase : world.phase connection with
    | removing | wiping | inserting => rfl
    | _ =>
      rw [hphase] at hpending
      cases hpending

/-- A check of considerate clients that chooses no identifier which starts like a made up one. -/
def isConsiderate (_ : World) : Action → Bool
  | .connect connection _ connect =>
      connection < 2 ^ 64 && (connect.clientId ≠ "" || connect.cleanSession) &&
        connect.clientId.toList.take 12 ≠ "hotaru-auto-".toList
  | _ => true

theorem leftTo_of_take {client : ClientId}
    (h : client.toList.take 12 ≠ "hotaru-auto-".toList) (connection : ConnectionId) :
    LeftTo connection client := by
  rintro number rfl
  refine absurd ?_ h
  rw [madeUpId, String.toList_append]
  exact List.take_left' rfl

theorem considerate_of_isConsiderate (world : World) (action : Action)
    (h : isConsiderate world action = true) : Considerate world action := by
  cases action with
  | connect connection auth connect =>
    simp only [isConsiderate, Bool.and_eq_true, Bool.or_eq_true, decide_eq_true_iff] at h
    obtain ⟨⟨hcount, hclean⟩, hstart⟩ := h
    exact fun _ ↦ ⟨hcount, fun hempty ↦ hclean.resolve_left (absurd hempty),
      leftTo_of_take hstart connection⟩
  | _ => trivial

theorem assigned_ids_unique_second :
    ∃ world, Run step Considerate init (welcome 1 (connectAs "a" true none)) world ∧
      (world.broker.sessions.lookup "a").isSome = true ∧
      world.broker.sessions.lookup "hotaru-auto-2" = none := by
  obtain ⟨world, run, hlookup, next, hstep⟩ : ∃ world,
      Run step Considerate init (welcome 1 (connectAs "a" true none)) world ∧
      (world.broker.sessions.lookup "a").isSome = true ∧
      ∃ next, step world (.connect 2 { accepted := true, returnCode := .accepted }
        (connectAs "" true none)) = some next :=
    ⟨_, Run.of_guarded considerate_of_isConsiderate rfl, rfl, _, rfl⟩
  have hunique := (assigned_ids_unique run 2).1 _ _ _
    (considerate_of_isConsiderate _ _ rfl) hstep rfl rfl
  exact ⟨world, run, hlookup, hunique.2.1⟩

/-- An identifier is made up without a clean session, and one that is made up is already taken, so
that the session of another client is replaced. -/
theorem assigned_id_taken :
    (∃ world, Run step Unrestricted init (register 1 (connectAs "" false none)) world ∧
      world.phase 1 = .registered "hotaru-auto-1" false) ∧
    ∃ world last,
      Run step Unrestricted init (welcome 1 (connectAs "hotaru-auto-2" true none)) world ∧
      world.broker.ownerOf "hotaru-auto-2" = some (1, none) ∧
      world.phase 1 = .looping "hotaru-auto-2" ∧
      (register 2 (connectAs "" true none)).foldlM step world = some last ∧
      last.broker.ownerOf "hotaru-auto-2" = some (2, none) ∧
      last.phase 1 = .looping "hotaru-auto-2" :=
  ⟨⟨_, Run.of_foldlM rfl, rfl⟩, _, _, Run.of_foldlM rfl, rfl, rfl, rfl, rfl, rfl⟩

end HotaruMqtt.Connections

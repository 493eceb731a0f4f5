import HotaruMqtt.Library.Keys
import HotaruMqtt.Protocol.Connections

/-!
# Wills

A handler registers the will of its CONNECT with the session. A handler that leaves removes the
session under its client identifier, which another connection may have registered meanwhile, and
publishes the will that it finds there unless the peer has disconnected. Whatever connections take
over from each other, each session is removed by one handler at most, so that no will is published
twice and none after a disconnect. A will that is replaced by a later registration is not
published at all.
-/

namespace HotaruMqtt.Connections

open Library

inductive Notice where
  /-- A CONNECT was accepted. -/
  | announced (connection : ConnectionId) (will : Option WillMessage)
  /-- The handler of `ending` has removed the session that `owner` had registered. -/
  | removed (ending owner : ConnectionId) (graceful : Bool)
  | published (ending : ConnectionId) (will : WillMessage)
  deriving DecidableEq

def notices (world : World) : Action → List Notice
  | .connect connection auth connect =>
      if auth.accepted then [.announced connection (Server.connectWill connect)] else []
  | .advance connection =>
      match world.phase connection with
      | .leaving client graceful =>
          match world.broker.sessions.lookup client with
          | some entry => [.removed connection entry.channel graceful]
          | none => []
      | .unregistering _ (some will) => [.published connection will]
      | _ => []
  | _ => []

inductive Stage where
  | connecting
  | registering (will : Option WillMessage)
  | serving
  | unregistering (will : Option WillMessage)
  | returned

def Phase.stage : Phase → Stage
  | connecting => .connecting
  | removing registration | wiping registration _ | inserting registration _ =>
      .registering registration.will
  | registered _ _ | looping _ | completing _ _ | leaving _ _ => .serving
  | unregistering _ will => .unregistering will
  | returned => .returned

def World.stage (world : World) (connection : ConnectionId) : Stage :=
  (world.phase connection).stage

/-- What a step does to the wills, with what is seen of it. -/
inductive Course (world next : World) : List Notice → Prop where
  | keeps (stages : next.stage = world.stage)
      (owners : ∀ client owner, next.broker.ownerOf client = some owner →
        world.broker.ownerOf client = some owner) : Course world next []
  | returns (connection : ConnectionId)
      (stages : next.stage = Function.update world.stage connection .returned)
      (owners : next.broker.ownerOf = world.broker.ownerOf) : Course world next []
  | announces (connection : ConnectionId) (will : Option WillMessage)
      (before : world.stage connection = .connecting)
      (stages : next.stage = Function.update world.stage connection (.registering will))
      (owners : next.broker.ownerOf = world.broker.ownerOf) :
      Course world next [.announced connection will]
  | registers (connection : ConnectionId) (client : ClientId) (will : Option WillMessage)
      (before : world.stage connection = .registering will)
      (stages : next.stage = Function.update world.stage connection .serving)
      (owners : next.broker.ownerOf =
        Function.update world.broker.ownerOf client (some (connection, will))) :
      Course world next []
  | removes (connection owner : ConnectionId) (client : ClientId) (will : Option WillMessage)
      (graceful : Bool) (before : world.stage connection = .serving)
      (owned : world.broker.ownerOf client = some (owner, will))
      (stages : next.stage = Function.update world.stage connection
        (.unregistering (if graceful then none else will)))
      (owners : next.broker.ownerOf = Function.update world.broker.ownerOf client none) :
      Course world next [.removed connection owner graceful]
  | publishes (connection : ConnectionId) (will : WillMessage)
      (before : world.stage connection = .unregistering (some will))
      (stages : next.stage = Function.update world.stage connection .returned)
      (owners : next.broker.ownerOf = world.broker.ownerOf) :
      Course world next [.published connection will]

section Steps

variable {world next : World} {connection : ConnectionId}

theorem World.stage_update (phase : Phase)
    (h : next.phase = Function.update world.phase connection phase) :
    next.stage = Function.update world.stage connection phase.stage := by
  funext other
  rw [World.stage, h, Function.update_apply, Function.update_apply]
  split <;> rfl

theorem World.stage_eq {phase : Phase} (h : world.phase connection = phase) :
    world.stage connection = phase.stage := by
  rw [World.stage, h]

theorem course_of_frame (hphase : next.phase = world.phase)
    (howners : next.broker.ownerOf = world.broker.ownerOf) : Course world next [] := by
  refine .keeps ?_ ?_
  · funext other
    rw [World.stage, hphase, World.stage]
  · rw [howners]
    exact fun _ _ howner ↦ howner

/-- The handler goes on in the same stage. -/
theorem course_goesOn {before phase : Phase}
    (hphase : next.phase = Function.update world.phase connection phase)
    (hbefore : world.phase connection = before) (hstage : before.stage = phase.stage)
    (howners : ∀ client owner, next.broker.ownerOf client = some owner →
      world.broker.ownerOf client = some owner) : Course world next [] := by
  refine .keeps ?_ howners
  rw [World.stage_update phase hphase, ← hstage, ← World.stage_eq hbefore,
    Function.update_eq_self]

/-- The handler of a session goes on or returns. -/
theorem course_serving {phase : Phase} (hserving : world.stage connection = .serving)
    (hstage : phase.stage = .serving ∨ phase = .returned)
    (hphase : next.phase = Function.update world.phase connection phase)
    (howners : next.broker.ownerOf = world.broker.ownerOf) : Course world next [] := by
  rcases hstage with hstage | rfl
  · refine course_goesOn hphase rfl (hserving.trans hstage.symm) ?_
    rw [howners]
    exact fun _ _ howner ↦ howner
  · exact .returns connection (World.stage_update .returned hphase) howners

theorem course_reply {between : World} (packet : Packet) {phase : Phase}
    (hserving : world.stage connection = .serving) (hstage : phase.stage = .serving)
    (hphase : between.phase = world.phase)
    (howners : between.broker.ownerOf = world.broker.ownerOf) :
    Course world (between.reply connection packet phase) [] := by
  rw [World.reply_eq]
  refine course_serving hserving ?_ (congrArg (Function.update · connection _) hphase) howners
  split
  · exact .inl hstage
  · exact .inr rfl

theorem course_handOn {between : World} (client : ClientId) (endpoints : List Endpoint)
    (publish : PublishPacket) (hphase : between.phase = world.phase)
    (howners : between.broker.ownerOf = world.broker.ownerOf) :
    Course world (between.handOn client endpoints publish) [] := by
  obtain ⟨hstore, hphases, -⟩ := between.handOn_frame client endpoints publish
  refine course_of_frame (hphases.trans hphase) ?_
  rw [World.broker, hstore]
  exact howners

theorem course_dispatch {client : ClientId} (hlooping : world.phase connection = .looping client)
    (endpoints : List Endpoint) (packet : Packet) :
    Course world (world.dispatch connection client endpoints packet) [] := by
  have hserving : world.stage connection = .serving := World.stage_eq hlooping
  cases packet with
  | publish publish =>
    simp only [World.dispatch]
    split
    · exact course_serving hserving (.inr rfl) rfl rfl
    · split
      · exact course_of_frame rfl rfl
      · exact course_handOn client endpoints publish rfl rfl
  | subscribe s =>
    exact course_reply _ hserving rfl rfl (world.broker.ownerOf_subscribe client _)
  | unsubscribe u =>
    exact course_reply _ hserving rfl rfl (world.broker.ownerOf_unsubscribe client _)
  | pingreq | pubrec => exact course_reply _ hserving rfl rfl rfl
  | puback | pubcomp => exact course_of_frame rfl rfl
  | pubrel id =>
    simp only [World.dispatch]
    split
    · exact course_reply _ hserving rfl rfl rfl
    · rename_i stored _
      obtain ⟨hstore, hphases, -⟩ :=
        (world.setChannel connection ((world.channel connection).takeStored id)).handOn_frame client
          endpoints (Store.rebuildPublish stored id)
      refine course_serving hserving (.inl rfl) (congrArg (Function.update · connection _) hphases)
        ?_
      simp only [World.broker, World.setPhase, hstore]
      rfl
  | connect => exact course_serving hserving (.inr rfl) rfl rfl
  | connack | suback | unsuback | pingresp | disconnect => exact course_of_frame rfl rfl

theorem course_advance (h : world.advance connection = some next) :
    Course world next (notices world (.advance connection)) := by
  cases hphase : world.phase connection with
  | connecting | looping | returned =>
    simp only [World.advance, hphase] at h
    cases h
  | removing registration =>
    simp only [World.advance, hphase] at h
    obtain rfl := Option.some.inj h
    simp only [notices, hphase]
    refine course_goesOn rfl hphase rfl fun client owner howner ↦ ?_
    exact world.broker.ownerOf_of_ownerOf_erase client howner
  | wiping registration present =>
    simp only [World.advance, hphase] at h
    obtain rfl := Option.some.inj h
    simp only [notices, hphase]
    exact course_goesOn rfl hphase rfl fun _ _ howner ↦ howner
  | inserting registration present =>
    simp only [World.advance, hphase] at h
    obtain rfl := Option.some.inj h
    simp only [notices, hphase]
    refine .registers connection registration.client registration.will (World.stage_eq hphase)
      (World.stage_update (.registered registration.client present) rfl) ?_
    funext client
    rw [Function.update_apply]
    exact world.broker.ownerOf_insert_eq client registration.client _
  | registered client present =>
    simp only [World.advance, hphase] at h
    obtain rfl := Option.some.inj h
    simp only [notices, hphase]
    exact course_reply _ (World.stage_eq hphase) rfl rfl rfl
  | completing client id =>
    simp only [World.advance, hphase] at h
    obtain rfl := Option.some.inj h
    simp only [notices, hphase]
    exact course_reply _ (World.stage_eq hphase) rfl rfl rfl
  | leaving client graceful =>
    simp only [World.advance, hphase] at h
    cases hentry : world.broker.sessions.lookup client with
    | none =>
      rw [hentry] at h
      obtain rfl := Option.some.inj h
      simp only [notices, hphase, hentry]
      exact .returns connection (World.stage_update .returned rfl) rfl
    | some entry =>
      rw [hentry] at h
      obtain rfl := Option.some.inj h
      simp only [notices, hphase, hentry]
      refine .removes connection entry.channel client entry.will graceful (World.stage_eq hphase)
        ?_ (World.stage_update (.unregistering client (if graceful then none else entry.will)) rfl)
        ?_
      · rw [Broker.ownerOf, hentry]
        rfl
      · exact world.broker.ownerOf_erase client
  | unregistering client will =>
    simp only [World.advance, hphase] at h
    obtain rfl := Option.some.inj h
    cases will with
    | none =>
      simp only [notices, hphase]
      exact .returns connection (World.stage_update .returned rfl) rfl
    | some will =>
      simp only [notices, hphase]
      exact .publishes connection will (World.stage_eq hphase) (World.stage_update .returned rfl)
        rfl

theorem course_of_step {action : Action} (h : step world action = some next) :
    Course world next (notices world action) := by
  cases action with
  | connect connection auth connect =>
    obtain ⟨hphase, rfl⟩ := of_step_connect h
    simp only [notices, World.accept]
    split
    · refine .announces connection _ (World.stage_eq hphase) ?_ rfl
      exact World.stage_update (.removing ⟨Server.assignedClientId connection connect,
        Server.connectWill connect, connect.cleanSession⟩) rfl
    · rw [World.reply_eq, ite_self]
      exact .returns connection (World.stage_update .returned rfl) rfl
  | advance connection => exact course_advance h
  | serve connection endpoints packet =>
    obtain ⟨client, hphase, rfl⟩ := exists_of_step_serve h
    unfold World.serve
    split
    · exact course_serving (World.stage_eq hphase) (.inl rfl) rfl rfl
    · exact course_dispatch hphase endpoints packet
  | leave connection =>
    simp only [step] at h
    split at h
    · rename_i client hphase
      obtain rfl := Option.some.inj h
      exact course_serving (World.stage_eq hphase) (.inl rfl) rfl rfl
    · cases h
  | fail connection =>
    rw [of_step_fail h]
    exact .returns connection (World.stage_update .returned rfl) rfl
  | collect number filter client =>
    obtain ⟨fanout, qos, -, -, rfl⟩ := exists_of_stepCollect h
    exact course_of_frame rfl rfl
  | collected number =>
    obtain ⟨fanout, -, rfl⟩ := exists_of_step_collected h
    exact course_of_frame rfl rfl
  | deliver number =>
    obtain ⟨fanout, client, subQos, matched, -, -, rfl⟩ := exists_of_stepDeliver h
    unfold World.turn
    split <;> exact course_of_frame rfl rfl
  | close | writerMarks | writerDrops =>
    obtain rfl := Option.some.inj h
    exact course_of_frame rfl rfl

end Steps

/-- The fan-out of a will that is seen to be published. -/
def Notice.fanout : Notice → Option Fanout
  | published _ will => some (.fresh "" (Broker.willPacket will))
  | announced _ _ | removed _ _ _ => none

/-- Where a handler does not wait for a packet, the fan-outs that it starts are those of the wills
that are seen to be published. -/
theorem fanouts_advance {world next : World} {connection : ConnectionId}
    (h : world.advance connection = some next) :
    next.fanouts =
      world.fanouts ++ (notices world (.advance connection)).filterMap Notice.fanout := by
  cases hphase : world.phase connection with
  | connecting | looping | returned =>
    simp only [World.advance, hphase] at h
    cases h
  | removing | wiping | inserting =>
    simp only [World.advance, hphase] at h
    obtain rfl := Option.some.inj h
    simp only [notices, hphase]
    exact (List.append_nil _).symm
  | registered | completing =>
    simp only [World.advance, hphase] at h
    obtain rfl := Option.some.inj h
    simp only [notices, hphase, World.reply_eq]
    exact (List.append_nil _).symm
  | leaving client graceful =>
    simp only [World.advance, hphase] at h
    simp only [notices, hphase]
    split at h
    · rename_i hentry
      obtain rfl := Option.some.inj h
      rw [hentry]
      exact (List.append_nil _).symm
    · rename_i entry hentry
      obtain rfl := Option.some.inj h
      rw [hentry]
      exact (List.append_nil _).symm
  | unregistering client will =>
    simp only [World.advance, hphase] at h
    obtain rfl := Option.some.inj h
    cases will with
    | none =>
      simp only [notices, hphase]
      exact (List.append_nil _).symm
    | some will =>
      simp only [notices, hphase]
      rfl

/-! ## Invariant -/

/-- Handlers go through the stages in this order. -/
def Stage.rank : Stage → ℕ
  | connecting => 0
  | registering _ => 1
  | serving => 2
  | unregistering _ => 3
  | returned => 4

namespace Notice

def handler : Notice → ConnectionId
  | announced connection _ | removed connection _ _ | published connection _ => connection

/-- The rank that the handler comes to. -/
def rank : Notice → ℕ
  | announced _ _ => 1
  | removed _ _ _ => 3
  | published _ _ => 4

def owner : Notice → Option ConnectionId
  | removed _ owner _ => some owner
  | announced _ _ | published _ _ => none

end Notice

/-- The will was given by the connection whose session the handler has removed. -/
def Traced (seen : List Notice) (ending : ConnectionId) (will : WillMessage) : Prop :=
  ∃ owner, .removed ending owner false ∈ seen ∧ .announced owner (some will) ∈ seen

/-- The connection has given its will, and nobody has removed its session. -/
structure Holds (seen : List Notice) (connection : ConnectionId) (will : Option WillMessage) :
    Prop where
  announced : .announced connection will ∈ seen
  unremoved : connection ∉ seen.filterMap Notice.owner

structure WillsInv (current : Observed World Notice) : Prop where
  /-- What was seen of a handler lies behind it. -/
  past : ∀ notice ∈ current.seen, notice.rank ≤ (current.state.stage notice.handler).rank
  handlers : (current.seen.map fun notice ↦ (notice.handler, notice.rank)).Nodup
  owners : (current.seen.filterMap Notice.owner).Nodup
  announced : ∀ owner ∈ current.seen.filterMap Notice.owner,
    ∃ will, .announced owner will ∈ current.seen
  registering : ∀ connection will, current.state.stage connection = .registering will →
    Holds current.seen connection will ∧
      ∀ client will', current.state.broker.ownerOf client ≠ some (connection, will')
  owned : ∀ client connection will,
    current.state.broker.ownerOf client = some (connection, will) →
    Holds current.seen connection will
  distinct : ∀ client client' connection will will',
    current.state.broker.ownerOf client = some (connection, will) →
    current.state.broker.ownerOf client' = some (connection, will') → client = client'
  unregistering : ∀ connection will,
    current.state.stage connection = .unregistering (some will) →
    Traced current.seen connection will
  published : ∀ connection will, .published connection will ∈ current.seen →
    Traced current.seen connection will

namespace Course

variable {world next : World} {added : List Notice}

/-- No handler goes back. -/
theorem rank_le (h : Course world next added) (connection : ConnectionId) :
    (world.stage connection).rank ≤ (next.stage connection).rank := by
  have hupdate {mover : ConnectionId} {stage : Stage}
      (hstages : next.stage = Function.update world.stage mover stage)
      (hrank : (world.stage mover).rank ≤ stage.rank) :
      (world.stage connection).rank ≤ (next.stage connection).rank := by
    rw [hstages, Function.update_apply]
    split
    · rename_i heq
      rw [heq]
      exact hrank
    · exact Nat.le_refl _
  cases h with
  | keeps stages => rw [stages]
  | returns mover stages =>
    refine hupdate stages ?_
    cases world.stage mover <;> simp [Stage.rank]
  | announces mover will before stages | registers mover client will before stages
  | removes mover owner client will graceful before owned stages
  | publishes mover will before stages =>
    refine hupdate stages ?_
    rw [before]
    simp [Stage.rank]

/-- What is seen of a handler is its coming to a new stage. -/
theorem rank_of_added (h : Course world next added) {notice : Notice} (hnotice : notice ∈ added) :
    (world.stage notice.handler).rank < notice.rank ∧
      notice.rank ≤ (next.stage notice.handler).rank := by
  cases h with
  | keeps | returns | registers => cases hnotice
  | announces mover will before stages
  | removes mover owner client will graceful before owned stages
  | publishes mover will before stages =>
    obtain rfl := List.mem_singleton.mp hnotice
    rw [stages]
    simp only [Notice.handler, before, Function.update_self]
    simp [Stage.rank, Notice.rank]

theorem length_le_one (h : Course world next added) : added.length ≤ 1 := by
  cases h <;> simp

/-- Sessions come up only where handlers register. -/
theorem owners_cases (h : Course world next added) :
    (∀ client owner, next.broker.ownerOf client = some owner →
      world.broker.ownerOf client = some owner) ∨
    ∃ connection client will, world.stage connection = .registering will ∧ added = [] ∧
      next.stage connection = .serving ∧ next.broker.ownerOf =
        Function.update world.broker.ownerOf client (some (connection, will)) := by
  cases h with
  | keeps _ owners => exact .inl owners
  | returns _ _ owners | announces _ _ _ _ owners | publishes _ _ _ _ owners =>
    rw [owners]
    exact .inl fun _ _ howner ↦ howner
  | registers connection client will before stages owners =>
    refine .inr ⟨connection, client, will, before, rfl, ?_, owners⟩
    rw [stages, Function.update_self]
  | removes _ _ client _ _ _ _ _ owners =>
    refine .inl fun client' owner howner ↦ ?_
    rw [owners, Function.update_apply] at howner
    split at howner
    · cases howner
    · exact howner

theorem removed_of_added (h : Course world next added) {owner : ConnectionId}
    (howner : owner ∈ added.filterMap Notice.owner) :
    ∃ client will, world.broker.ownerOf client = some (owner, will) ∧
      next.broker.ownerOf client = none := by
  cases h with
  | keeps | returns | registers | announces | publishes => cases howner
  | removes connection owner' client will graceful before owned stages owners =>
    obtain rfl : owner = owner' := by simpa [Notice.owner] using howner
    refine ⟨client, will, owned, ?_⟩
    rw [owners, Function.update_self]

/-- A session that is still found was not removed. -/
theorem not_removed (h : Course world next added) {connection : ConnectionId}
    (howned : ∀ client will, world.broker.ownerOf client = some (connection, will) →
      next.broker.ownerOf client ≠ none) : connection ∉ added.filterMap Notice.owner := by
  intro hmem
  obtain ⟨client, will, howner, hnone⟩ := h.removed_of_added hmem
  exact howned client will howner hnone

/-- A handler that is not in the stage to which one has moved has not moved. -/
theorem stage_of_update {mover connection : ConnectionId} {stage stage' : Stage}
    (hstages : next.stage = Function.update world.stage mover stage)
    (hstage : next.stage connection = stage') (hne : stage ≠ stage') :
    world.stage connection = stage' := by
  rw [hstages, Function.update_apply] at hstage
  split at hstage
  · exact absurd hstage hne
  · exact hstage

theorem of_registering (h : Course world next added) {connection : ConnectionId}
    {will : Option WillMessage} (hstage : next.stage connection = .registering will) :
    world.stage connection = .registering will ∨
      world.stage connection = .connecting ∧ .announced connection will ∈ added := by
  cases h with
  | keeps stages =>
    rw [stages] at hstage
    exact .inl hstage
  | returns mover stages => exact .inl (stage_of_update stages hstage Stage.noConfusion)
  | announces mover will' before stages owners =>
    rw [stages, Function.update_apply] at hstage
    split at hstage
    · rename_i heq
      obtain rfl := Stage.registering.inj hstage
      rw [heq]
      exact .inr ⟨before, List.mem_singleton_self _⟩
    · exact .inl hstage
  | registers mover client will' before stages =>
    exact .inl (stage_of_update stages hstage Stage.noConfusion)
  | removes mover owner client will' graceful before owned stages =>
    exact .inl (stage_of_update stages hstage Stage.noConfusion)
  | publishes mover will' before stages =>
    exact .inl (stage_of_update stages hstage Stage.noConfusion)

theorem of_unregistering (h : Course world next added) {connection : ConnectionId}
    {will : WillMessage} (hstage : next.stage connection = .unregistering (some will)) :
    world.stage connection = .unregistering (some will) ∨
      ∃ owner client, .removed connection owner false ∈ added ∧
        world.broker.ownerOf client = some (owner, some will) := by
  cases h with
  | keeps stages =>
    rw [stages] at hstage
    exact .inl hstage
  | returns mover stages => exact .inl (stage_of_update stages hstage Stage.noConfusion)
  | announces mover will' before stages =>
    exact .inl (stage_of_update stages hstage Stage.noConfusion)
  | registers mover client will' before stages =>
    exact .inl (stage_of_update stages hstage Stage.noConfusion)
  | removes mover owner client will' graceful before owned stages =>
    rw [stages, Function.update_apply] at hstage
    split at hstage
    · rename_i heq
      cases graceful with
      | true => cases hstage
      | false =>
        obtain rfl := Stage.unregistering.inj hstage
        rw [heq]
        exact .inr ⟨owner, client, List.mem_singleton_self _, owned⟩
    · exact .inl hstage
  | publishes mover will' before stages =>
    exact .inl (stage_of_update stages hstage Stage.noConfusion)

theorem of_published (h : Course world next added) {connection : ConnectionId} {will : WillMessage}
    (hpublished : .published connection will ∈ added) :
    world.stage connection = .unregistering (some will) := by
  cases h with
  | keeps | returns | registers => cases hpublished
  | announces | removes => simp at hpublished
  | publishes mover will' before stages owners =>
    obtain ⟨rfl, rfl⟩ := Notice.published.inj (List.mem_singleton.mp hpublished)
    exact before

end Course

section Invariant

variable {seen added : List Notice} {world next : World}

theorem Traced.append {ending : ConnectionId} {will : WillMessage} (h : Traced seen ending will)
    (added : List Notice) : Traced (seen ++ added) ending will := by
  obtain ⟨owner, hremoved, hannounced⟩ := h
  exact ⟨owner, List.mem_append_left added hremoved, List.mem_append_left added hannounced⟩

theorem Holds.append {connection : ConnectionId} {will : Option WillMessage}
    (h : Holds seen connection will) (hadded : connection ∉ added.filterMap Notice.owner) :
    Holds (seen ++ added) connection will where
  announced := List.mem_append_left added h.announced
  unremoved := by
    rw [List.filterMap_append, List.mem_append, not_or]
    exact ⟨h.unremoved, hadded⟩

theorem willsInv_init : WillsInv ⟨init, []⟩ where
  past _ hmem := by cases hmem
  handlers := List.nodup_nil
  owners := List.nodup_nil
  announced _ hmem := by cases hmem
  registering _ _ hstage := by cases hstage
  owned _ _ _ howner := by cases howner
  distinct _ _ _ _ _ howner := by cases howner
  unregistering _ _ hstage := by cases hstage
  published _ _ hmem := by cases hmem

/-- Nothing is known of a connection before its CONNECT is accepted. -/
theorem WillsInv.not_announced (h : WillsInv ⟨world, seen⟩) {connection : ConnectionId}
    (hstage : world.stage connection = .connecting) (will : Option WillMessage) :
    .announced connection will ∉ seen := by
  intro hmem
  have hrank := h.past _ hmem
  simp only [Notice.handler, hstage] at hrank
  cases hrank

theorem WillsInv.registering_step (h : WillsInv ⟨world, seen⟩) (hcourse : Course world next added)
    {connection : ConnectionId} {will : Option WillMessage}
    (hstage : next.stage connection = .registering will) :
    Holds (seen ++ added) connection will ∧
      ∀ client will', next.broker.ownerOf client ≠ some (connection, will') := by
  -- A handler that is about to register owns no session, neither before nor behind the step.
  have hunowned (hnone : ∀ client will', world.broker.ownerOf client ≠ some (connection, will'))
      (client : ClientId) (will' : Option WillMessage) :
      next.broker.ownerOf client ≠ some (connection, will') := by
    intro howner
    rcases hcourse.owners_cases with howners | ⟨mover, client', will'', -, -, hmover, howners⟩
    · exact hnone client will' (howners client _ howner)
    · rw [howners, Function.update_apply] at howner
      split at howner
      · obtain ⟨rfl, -⟩ := Prod.mk.inj (Option.some.inj howner)
        rw [hstage] at hmover
        cases hmover
      · exact hnone client will' howner
  rcases hcourse.of_registering hstage with hbefore | ⟨hbefore, hannounced⟩
  · obtain ⟨hholds, hnone⟩ := h.registering connection will hbefore
    refine ⟨hholds.append (hcourse.not_removed ?_), hunowned hnone⟩
    exact fun client will' howner ↦ absurd howner (hnone client will')
  · have hnone (client : ClientId) (will' : Option WillMessage) :
        world.broker.ownerOf client ≠ some (connection, will') := fun howner ↦
      h.not_announced hbefore will' (h.owned client connection will' howner).announced
    refine ⟨⟨List.mem_append_right seen hannounced, ?_⟩, hunowned hnone⟩
    rw [List.filterMap_append, List.mem_append, not_or]
    constructor
    · intro hmem
      obtain ⟨will', hannounced'⟩ := h.announced connection hmem
      exact h.not_announced hbefore will' hannounced'
    · apply hcourse.not_removed
      exact fun client will' howner ↦ absurd howner (hnone client will')

theorem WillsInv.owned_step (h : WillsInv ⟨world, seen⟩) (hcourse : Course world next added)
    {client : ClientId} {connection : ConnectionId} {will : Option WillMessage}
    (howner : next.broker.ownerOf client = some (connection, will)) :
    Holds (seen ++ added) connection will := by
  have hkept (howner' : world.broker.ownerOf client = some (connection, will)) :
      Holds (seen ++ added) connection will := by
    refine (h.owned client connection will howner').append (hcourse.not_removed ?_)
    intro client' will' hother
    rw [h.distinct client' client connection will' will hother howner', howner]
    exact Option.some_ne_none _
  rcases hcourse.owners_cases with howners | ⟨mover, client', will', hbefore, rfl, -, howners⟩
  · exact hkept (howners client _ howner)
  · rw [howners, Function.update_apply] at howner
    split at howner
    · obtain ⟨rfl, rfl⟩ := Prod.mk.inj (Option.some.inj howner)
      rw [List.append_nil]
      exact (h.registering mover will' hbefore).1
    · rw [List.append_nil]
      exact h.owned client connection will howner

theorem WillsInv.distinct_step (h : WillsInv ⟨world, seen⟩) (hcourse : Course world next added)
    {client client' : ClientId} {connection : ConnectionId} {will will' : Option WillMessage}
    (howner : next.broker.ownerOf client = some (connection, will))
    (howner' : next.broker.ownerOf client' = some (connection, will')) : client = client' := by
  rcases hcourse.owners_cases with howners | ⟨mover, new, will'', hbefore, -, -, howners⟩
  · exact h.distinct client client' connection will will' (howners _ _ howner) (howners _ _ howner')
  · have hnone := (h.registering mover will'' hbefore).2
    rw [howners, Function.update_apply] at howner howner'
    split at howner <;> split at howner'
    · rename_i heq heq'
      exact heq.trans heq'.symm
    · obtain ⟨rfl, -⟩ := Prod.mk.inj (Option.some.inj howner)
      exact absurd howner' (hnone client' will')
    · obtain ⟨rfl, -⟩ := Prod.mk.inj (Option.some.inj howner')
      exact absurd howner (hnone client will)
    · exact h.distinct client client' connection will will' howner howner'

theorem willsInv_of_course (h : WillsInv ⟨world, seen⟩) (hcourse : Course world next added) :
    WillsInv ⟨next, seen ++ added⟩ where
  past notice hmem := by
    rcases List.mem_append.mp hmem with hold | hnew
    · exact (h.past notice hold).trans (hcourse.rank_le notice.handler)
    · exact (hcourse.rank_of_added hnew).2
  handlers := by
    rw [List.map_append, List.nodup_append]
    refine ⟨h.handlers, ?_, ?_⟩
    · apply nodup_of_length_le_one
      rw [List.length_map]
      exact hcourse.length_le_one
    · rintro _ hold _ hnew rfl
      obtain ⟨earlier, hearlier, heq⟩ := List.mem_map.mp hold
      obtain ⟨notice, hnotice, rfl⟩ := List.mem_map.mp hnew
      obtain ⟨hhandler, hrank⟩ := Prod.mk.inj heq
      have hpast := h.past earlier hearlier
      have hlt := (hcourse.rank_of_added hnotice).1
      rw [hhandler, hrank] at hpast
      exact Nat.lt_irrefl _ (hlt.trans_le hpast)
  owners := by
    rw [List.filterMap_append, List.nodup_append]
    refine ⟨h.owners, ?_, ?_⟩
    · exact nodup_of_length_le_one ((List.length_filterMap_le _ _).trans hcourse.length_le_one)
    · rintro owner hold _ hnew rfl
      obtain ⟨client, will, howner, -⟩ := hcourse.removed_of_added hnew
      exact (h.owned client owner will howner).unremoved hold
  announced owner hmem := by
    rw [List.filterMap_append, List.mem_append] at hmem
    rcases hmem with hold | hnew
    · obtain ⟨will, hannounced⟩ := h.announced owner hold
      exact ⟨will, List.mem_append_left added hannounced⟩
    · obtain ⟨client, will, howner, -⟩ := hcourse.removed_of_added hnew
      exact ⟨will, List.mem_append_left added (h.owned client owner will howner).announced⟩
  registering _ _ hstage := h.registering_step hcourse hstage
  owned _ _ _ howner := h.owned_step hcourse howner
  distinct _ _ _ _ _ howner howner' := h.distinct_step hcourse howner howner'
  unregistering connection will hstage := by
    rcases hcourse.of_unregistering hstage with hbefore | ⟨owner, client, hremoved, howner⟩
    · exact (h.unregistering connection will hbefore).append added
    · exact ⟨owner, List.mem_append_right seen hremoved,
        List.mem_append_left added (h.owned client owner (some will) howner).announced⟩
  published connection will hmem := by
    rcases List.mem_append.mp hmem with hold | hnew
    · exact (h.published connection will hold).append added
    · exact (h.unregistering connection will (hcourse.of_published hnew)).append added

end Invariant

/-- The wills that were published when the session of a connection was removed. -/
def willsOf (owner : ConnectionId) (seen : List Notice) : List WillMessage :=
  seen.filterMap fun notice ↦ match notice with
    | .published ending will => if .removed ending owner false ∈ seen then some will else none
    | .announced _ _ | .removed _ _ _ => none

section Runs

variable {current next : Observed World Notice}

theorem willsInv_step {action : Action} (h : WillsInv current)
    (hstep : observed notices step current action = some next) : WillsInv next := by
  obtain ⟨hstep, hseen⟩ := of_observed hstep
  obtain ⟨state, seen⟩ := next
  dsimp only at hstep hseen
  rw [hseen]
  exact willsInv_of_course h (course_of_step hstep)

theorem mem_willsOf {owner : ConnectionId} {seen : List Notice} {will : WillMessage} :
    will ∈ willsOf owner seen ↔
      ∃ ending, .published ending will ∈ seen ∧ .removed ending owner false ∈ seen := by
  rw [willsOf, List.mem_filterMap]
  constructor
  · rintro ⟨notice, hmem, hwill⟩
    split at hwill
    · rename_i ending will'
      rw [Option.ite_none_right_eq_some] at hwill
      obtain ⟨hremoved, hsome⟩ := hwill
      obtain rfl := Option.some.inj hsome
      exact ⟨ending, hmem, hremoved⟩
    · cases hwill
    · cases hwill
  · rintro ⟨ending, hpublished, hremoved⟩
    exact ⟨_, hpublished, if_pos hremoved⟩

/-- A session is removed once. -/
theorem WillsInv.removed_unique (h : WillsInv current) {owner ending ending' : ConnectionId}
    {graceful graceful' : Bool} (hremoved : .removed ending owner graceful ∈ current.seen)
    (hremoved' : .removed ending' owner graceful' ∈ current.seen) :
    ending = ending' ∧ graceful = graceful' := by
  obtain ⟨hending, -, hgraceful⟩ :=
    Notice.removed.inj (eq_of_key_eq h.owners hremoved hremoved' rfl rfl)
  exact ⟨hending, hgraceful⟩

theorem WillsInv.length_willsOf (h : WillsInv current) (owner : ConnectionId) :
    (willsOf owner current.seen).length ≤ 1 := by
  refine length_filterMap_le_one h.handlers.of_map fun notice hmem notice' hmem' htaken htaken' ↦ ?_
  split at htaken
  · split at htaken'
    · rename_i ending will ending' will'
      have hremoved := (ite_ne_right_iff.mp htaken).1
      have hremoved' := (ite_ne_right_iff.mp htaken').1
      obtain ⟨rfl, -⟩ := h.removed_unique hremoved hremoved'
      exact List.inj_on_of_nodup_map h.handlers hmem hmem' rfl
    · exact absurd rfl htaken'
    · exact absurd rfl htaken'
  · exact absurd rfl htaken
  · exact absurd rfl htaken

/-- Every will that is published was given by the connection whose session is removed then. Whatever
sessions the connections take over from each other, the will of a connection is published at most
once, and never if a disconnect has removed its session. A handler that does not wait for a packet
starts the fan-outs of the wills that it is seen to publish, and no others. -/
theorem wills_at_most_once {actions : List Action} {current : Observed World Notice}
    (run : Run (observed notices step) Unrestricted ⟨init, []⟩ actions current) :
    (∀ ending will, .published ending will ∈ current.seen →
      ∃ owner, will ∈ willsOf owner current.seen) ∧
    (∀ owner, (willsOf owner current.seen).length ≤ 1 ∧
      ∀ will ∈ willsOf owner current.seen,
        (∀ announced, .announced owner announced ∈ current.seen ↔ announced = some will) ∧
        ∀ ending, .removed ending owner true ∉ current.seen) ∧
    ∀ connection next, observed notices step current (.advance connection) = some next →
      next.state.fanouts = current.state.fanouts ++
        (notices current.state (.advance connection)).filterMap Notice.fanout := by
  have hinv : WillsInv current :=
    run.invariant willsInv_init fun _ _ _ h _ hstep ↦ willsInv_step h hstep
  refine ⟨?_, ?_, fun connection next hstep ↦ fanouts_advance (of_observed hstep).1⟩
  · intro ending will hpublished
    obtain ⟨owner, hremoved, -⟩ := hinv.published ending will hpublished
    exact ⟨owner, mem_willsOf.mpr ⟨ending, hpublished, hremoved⟩⟩
  · refine fun owner ↦ ⟨hinv.length_willsOf owner, fun will hwill ↦ ?_⟩
    obtain ⟨ending, hpublished, hremoved⟩ := mem_willsOf.mp hwill
    obtain ⟨owner', hremoved', hannounced⟩ := hinv.published ending will hpublished
    have heq := List.inj_on_of_nodup_map hinv.handlers hremoved hremoved' rfl
    obtain ⟨-, rfl, -⟩ := Notice.removed.inj heq
    refine ⟨fun announced ↦ ⟨fun hother ↦ ?_, fun hsome ↦ hsome ▸ hannounced⟩, ?_⟩
    · have heq := List.inj_on_of_nodup_map hinv.handlers hother hannounced rfl
      exact (Notice.announced.inj heq).2
    · intro ending' hgraceful
      cases (hinv.removed_unique hremoved hgraceful).2

def farewell (topic : String) : WillMessage :=
  { topic, payload := [1], qos := .atMostOnce, retain := false }

def mortal (topic : String) : ConnectPacket :=
  connectAs "c" true (some { topic, payload := [1], qos := .atMostOnce, retain := false })

/-- A second connection takes over a client identifier. The first one breaks, removes the session of
the second and publishes its will; the second breaks and publishes nothing any more. -/
theorem wills_at_most_once_takeover :
    ∃ current, Run (observed notices step) Unrestricted ⟨init, []⟩
        (welcome 1 (mortal "first") ++ welcome 2 (mortal "second") ++
          [.leave 1, .advance 1, .advance 1, .leave 2, .advance 2]) current ∧
      current.seen = [.announced 1 (some (farewell "first")),
        .announced 2 (some (farewell "second")), .removed 1 2 false,
        .published 1 (farewell "second")] ∧
      (willsOf 2 current.seen).length ≤ 1 ∧ farewell "second" ∈ willsOf 2 current.seen ∧
      ∀ ending, .removed ending 2 true ∉ current.seen := by
  obtain ⟨current, run, hseen⟩ :
      ∃ current, Run (observed notices step) Unrestricted ⟨init, []⟩
        (welcome 1 (mortal "first") ++ welcome 2 (mortal "second") ++
          [.leave 1, .advance 1, .advance 1, .leave 2, .advance 2]) current ∧
      current.seen = [.announced 1 (some (farewell "first")),
        .announced 2 (some (farewell "second")), .removed 1 2 false,
        .published 1 (farewell "second")] :=
    ⟨_, Run.of_foldlM rfl, rfl⟩
  have hwill : farewell "second" ∈ willsOf 2 current.seen := by
    rw [mem_willsOf, hseen]
    exact ⟨1, by simp, by simp⟩
  obtain ⟨hlength, hwills⟩ := (wills_at_most_once run).2.1 2
  exact ⟨current, run, hseen, hlength, hwill, (hwills _ hwill).2⟩

end Runs

end HotaruMqtt.Connections

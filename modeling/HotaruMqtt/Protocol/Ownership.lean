import HotaruMqtt.Protocol.Connections

/-!
# Ownership of sessions

A connection may register under a client identifier that another connection still uses. The end of
a handler is keyed by the identifier alone. In one turn it removes the session that it finds there,
in a later turn it wipes the subscriptions of the identifier and publishes the will of the session.
Whose session, subscriptions and will these are depends on what the other handlers do before and
between the two turns.
-/

namespace HotaruMqtt.Connections

open Library

inductive Mark where
  | registered (connection : ConnectionId) (client : ClientId) (will : Option WillMessage)
  | subscribed (connection : ConnectionId) (client : ClientId) (filter : String)
  /-- The handler has looked for the session under its identifier. -/
  | unregistered (connection : ConnectionId)
  deriving DecidableEq

/-- The connection that has registered last under an identifier, with its will. -/
def latest (seen : List Mark) (client : ClientId) : Option (ConnectionId × Option WillMessage) :=
  seen.reverse.findSome? fun mark ↦ match mark with
    | .registered connection client' will =>
        if client' = client then some (connection, will) else none
    | .subscribed _ _ _ | .unregistered _ => none

/-- The identifier for which a handler stands in `register_session`, behind the first access. -/
def Phase.registering : Phase → Option ClientId
  | wiping registration _ | inserting registration _ => some registration.client
  | _ => none

/-- The identifier for which a handler stands in `unregister_session`. -/
def Phase.ending : Phase → Option ClientId
  | leaving client _ | unregistering client _ => some client
  | _ => none

/-- A session belongs to the connection that registered last under its identifier. That connection
has a session until it unregisters, except while another one registers. -/
def Owned (current : Observed World Mark) : Prop :=
  ∀ client owner,
    (current.state.broker.ownerOf client = some owner →
      latest current.seen client = some owner) ∧
    (latest current.seen client = some owner → .unregistered owner.1 ∉ current.seen →
      (∀ other, (current.state.phase other).registering ≠ some client) →
      current.state.broker.ownerOf client = some owner)

inductive Role where
  | outside
  | registering (client : ClientId) (will : Option WillMessage)
  | serving (client : ClientId)
  | unregistering (client : ClientId) (will : Option WillMessage)
  | returned

def Phase.role : Phase → Role
  | connecting | removing _ => .outside
  | wiping registration _ | inserting registration _ =>
      .registering registration.client registration.will
  | registered client _ | looping client | completing client _ | leaving client _ =>
      .serving client
  | unregistering client will => .unregistering client will
  | returned => .returned

def World.role (world : World) (connection : ConnectionId) : Role := (world.phase connection).role

/-- Subscriptions do not matter for who owns a session. -/
def Mark.isSubscribed : Mark → Bool
  | subscribed _ _ _ => true
  | registered _ _ _ | unregistered _ => false

section Steps

variable {world next : World} {connection : ConnectionId} {added : List Mark}

end Steps

/-! ## Invariant -/

section Latest

variable {seen added : List Mark} {client : ClientId}

theorem latest_append (seen : List Mark) (connection : ConnectionId) (client' client : ClientId)
    (will : Option WillMessage) :
    latest (seen ++ [.registered connection client' will]) client =
      if client' = client then some (connection, will) else latest seen client := by
  rw [latest, List.reverse_append, List.reverse_singleton, List.singleton_append,
    List.findSome?_cons]
  by_cases hclient : client' = client
  · simp only [hclient, if_true]
  · simp only [hclient, if_false]
    rfl

/-- Only registrations count. -/
theorem latest_append_of_quiet
    (h : ∀ mark ∈ added, ∀ connection client will, mark ≠ .registered connection client will) :
    latest (seen ++ added) client = latest seen client := by
  rw [latest, List.reverse_append, List.findSome?_append, List.findSome?_eq_none_iff.mpr]
  · rfl
  · intro mark hmark
    cases mark with
    | registered connection client will =>
      exact absurd rfl (h _ (List.mem_reverse.mp hmark) connection client will)
    | subscribed | unregistered => rfl

theorem mem_of_latest {owner : ConnectionId × Option WillMessage}
    (h : latest seen client = some owner) : .registered owner.1 client owner.2 ∈ seen := by
  obtain ⟨mark, hmark, howner⟩ := List.exists_of_findSome?_eq_some h
  rw [List.mem_reverse] at hmark
  cases mark with
  | registered connection client' will =>
    obtain ⟨rfl, hsame⟩ := Option.ite_none_right_eq_some.mp howner
    obtain rfl := Option.some.inj hsame
    exact hmark
  | subscribed | unregistered => cases howner

end Latest

/-- Nothing is seen of a connection that has not registered. -/
structure Unseen (seen : List Mark) (connection : ConnectionId) : Prop where
  registered : ∀ client will, .registered connection client will ∉ seen
  unregistered : .unregistered connection ∉ seen

structure OwnershipInv (current : Observed World Mark) : Prop where
  latest : ∀ client owner, current.state.broker.ownerOf client = some owner →
    Connections.latest current.seen client = some owner ∧ .unregistered owner.1 ∉ current.seen
  owner : ∀ client owner, Connections.latest current.seen client = some owner →
    .unregistered owner.1 ∉ current.seen →
    current.state.broker.ownerOf client = some owner ∨
      ∃ other will, current.state.role other = .registering client will
  outside : ∀ connection, current.state.role connection = .outside →
    Unseen current.seen connection
  registering : ∀ connection client will,
    current.state.role connection = .registering client will → Unseen current.seen connection
  serving : ∀ connection client, current.state.role connection = .serving client →
    (∃ will, .registered connection client will ∈ current.seen) ∧
      .unregistered connection ∉ current.seen
  once : ∀ connection client will client' will',
    .registered connection client will ∈ current.seen →
    .registered connection client' will' ∈ current.seen → client = client'
  unregistering : ∀ connection client will,
    current.state.role connection = .unregistering client (some will) →
    .registered connection client (some will) ∈ current.seen

section Invariant

variable {world next : World} {seen added : List Mark} {connection : ConnectionId}
  {client : ClientId}

theorem Unseen.append (h : Unseen seen connection) (hadded : Unseen added connection) :
    Unseen (seen ++ added) connection where
  registered client will := by
    rw [List.mem_append, not_or]
    exact ⟨h.registered client will, hadded.registered client will⟩
  unregistered := by
    rw [List.mem_append, not_or]
    exact ⟨h.unregistered, hadded.unregistered⟩

/-- Subscriptions say nothing of any connection. -/
theorem unseen_of_quiet (quiet : ∀ mark ∈ added, mark.isSubscribed = true)
    (connection : ConnectionId) : Unseen added connection where
  registered client will hmem := by cases quiet _ hmem
  unregistered hmem := by cases quiet _ hmem

/-- A handler that is not in the role to which one has moved has not moved. -/
theorem role_of_update {mover : ConnectionId} {role role' : Role}
    (hroles : next.role = Function.update world.role mover role)
    (hrole : next.role connection = role') (hne : role ≠ role') :
    connection ≠ mover ∧ world.role connection = role' := by
  rw [hroles, Function.update_apply] at hrole
  split at hrole
  · exact absurd hrole hne
  · rename_i hmover
    exact ⟨hmover, hrole⟩

/-- A handler that was not in a role still is in it if another one has moved. -/
theorem role_update_of_ne {mover : ConnectionId} {role role' : Role}
    (hroles : next.role = Function.update world.role mover role)
    (hrole : world.role connection = role') (hne : world.role mover ≠ role') :
    next.role connection = role' := by
  rw [hroles, Function.update_of_ne]
  · exact hrole
  · rintro rfl
    exact hne hrole

/-- The sessions stay as they are. -/
theorem OwnershipInv.quiet (h : OwnershipInv ⟨world, seen⟩)
    (quiet : ∀ mark ∈ added, mark.isSubscribed = true)
    (owners : next.broker.ownerOf = world.broker.ownerOf)
    (roles : ∀ connection, next.role connection = world.role connection ∨
      next.role connection = .returned)
    (registering : ∀ connection client will, world.role connection = .registering client will →
      next.role connection = .registering client will) :
    OwnershipInv ⟨next, seen ++ added⟩ := by
  have hrole {connection : ConnectionId} {role : Role} (hnext : next.role connection = role)
      (hne : role ≠ .returned) : world.role connection = role := by
    rcases roles connection with hsame | hreturned
    · exact hsame.symm.trans hnext
    · exact absurd (hnext.symm.trans hreturned) hne
  have hlatest (client : ClientId) : Connections.latest (seen ++ added) client =
      Connections.latest seen client := by
    apply latest_append_of_quiet
    rintro mark hmark connection client will rfl
    cases quiet _ hmark
  have hunregistered (connection : ConnectionId) : .unregistered connection ∈ seen ++ added ↔
      .unregistered connection ∈ seen := by
    rw [List.mem_append, or_iff_left (unseen_of_quiet quiet connection).unregistered]
  have hregistered (connection : ConnectionId) (client : ClientId) (will : Option WillMessage) :
      .registered connection client will ∈ seen ++ added ↔
        .registered connection client will ∈ seen := by
    rw [List.mem_append, or_iff_left ((unseen_of_quiet quiet connection).registered client will)]
  constructor
  · intro client owner howner
    dsimp only at howner ⊢
    rw [hlatest, hunregistered]
    rw [owners] at howner
    exact h.latest client owner howner
  · intro client owner howner hstill
    dsimp only at howner hstill ⊢
    rw [hlatest] at howner
    rw [hunregistered] at hstill
    rw [owners]
    refine (h.owner client owner howner hstill).imp_right ?_
    rintro ⟨other, will, hother⟩
    exact ⟨other, will, registering other client will hother⟩
  · intro connection hnext
    exact (h.outside connection (hrole hnext Role.noConfusion)).append
      (unseen_of_quiet quiet connection)
  · intro connection client will hnext
    exact (h.registering connection client will (hrole hnext Role.noConfusion)).append
      (unseen_of_quiet quiet connection)
  · intro connection client hnext
    dsimp only
    simp only [hunregistered, hregistered]
    exact h.serving connection client (hrole hnext Role.noConfusion)
  · intro connection client will client' will' hmem hmem'
    exact h.once connection client will client' will' ((hregistered ..).mp hmem)
      ((hregistered ..).mp hmem')
  · intro connection client will hnext
    exact (hregistered ..).mpr
      (h.unregistering connection client will (hrole hnext Role.noConfusion))

theorem OwnershipInv.start (h : OwnershipInv ⟨world, seen⟩) {will : Option WillMessage}
    (before : world.role connection = .outside)
    (roles : next.role = Function.update world.role connection (.registering client will))
    (owners : next.broker.ownerOf = Function.update world.broker.ownerOf client none) :
    OwnershipInv ⟨next, seen⟩ := by
  constructor
  · intro client' owner howner
    dsimp only at howner
    rw [owners, Function.update_apply] at howner
    split at howner
    · cases howner
    · exact h.latest client' owner howner
  · intro client' owner hlatest hstill
    dsimp only
    rw [owners, Function.update_apply]
    split
    · rename_i heq
      refine .inr ⟨connection, will, ?_⟩
      rw [roles, Function.update_self, heq]
    · refine (h.owner client' owner hlatest hstill).imp_right ?_
      rintro ⟨other, will', hother⟩
      refine ⟨other, will', role_update_of_ne roles hother ?_⟩
      rw [before]
      exact Role.noConfusion
  · intro other hrole
    exact h.outside other (role_of_update roles hrole Role.noConfusion).2
  · intro other client' will' hrole
    dsimp only at hrole
    rw [roles, Function.update_apply] at hrole
    split at hrole
    · rename_i heq
      rw [heq]
      exact h.outside connection before
    · exact h.registering other client' will' hrole
  · intro other client' hrole
    exact h.serving other client' (role_of_update roles hrole Role.noConfusion).2
  · exact h.once
  · intro other client' will' hrole
    exact h.unregistering other client' will' (role_of_update roles hrole Role.noConfusion).2

theorem OwnershipInv.register (h : OwnershipInv ⟨world, seen⟩) {will : Option WillMessage}
    (before : world.role connection = .registering client will)
    (roles : next.role = Function.update world.role connection (.serving client))
    (owners : next.broker.ownerOf =
      Function.update world.broker.ownerOf client (some (connection, will))) :
    OwnershipInv ⟨next, seen ++ [.registered connection client will]⟩ := by
  have hunseen := h.registering connection client will before
  have hunregistered (other : ConnectionId) :
      .unregistered other ∈ seen ++ [.registered connection client will] ↔
        .unregistered other ∈ seen := by
    simp
  have hother {other : ConnectionId} (hne : other ≠ connection) :
      Unseen [.registered connection client will] other := by
    constructor
    · intro client' will' hmem
      exact hne (Mark.registered.inj (List.mem_singleton.mp hmem)).1
    · simp
  constructor
  · intro client' owner howner
    dsimp only at howner ⊢
    rw [owners, Function.update_apply] at howner
    rw [latest_append, hunregistered]
    split at howner
    · rename_i heq
      obtain rfl := Option.some.inj howner
      rw [if_pos heq.symm]
      exact ⟨rfl, hunseen.unregistered⟩
    · rename_i hne
      rw [if_neg (Ne.symm hne)]
      exact h.latest client' owner howner
  · intro client' owner hlatest hstill
    dsimp only at hlatest hstill ⊢
    rw [latest_append] at hlatest
    rw [hunregistered] at hstill
    rw [owners, Function.update_apply]
    split at hlatest
    · rename_i heq
      rw [if_pos heq.symm]
      exact .inl hlatest
    · rename_i hne
      rw [if_neg (Ne.symm hne)]
      refine (h.owner client' owner hlatest hstill).imp_right ?_
      rintro ⟨other, will', hrole⟩
      refine ⟨other, will', role_update_of_ne roles hrole ?_⟩
      rw [before]
      exact fun heq ↦ hne (Role.registering.inj heq).1
  · intro other hrole
    obtain ⟨hne, hrole⟩ := role_of_update roles hrole Role.noConfusion
    exact (h.outside other hrole).append (hother hne)
  · intro other client' will' hrole
    obtain ⟨hne, hrole⟩ := role_of_update roles hrole Role.noConfusion
    exact (h.registering other client' will' hrole).append (hother hne)
  · intro other client' hrole
    dsimp only at hrole ⊢
    rw [hunregistered]
    rw [roles, Function.update_apply] at hrole
    split at hrole
    · rename_i heq
      obtain rfl := Role.serving.inj hrole
      rw [heq]
      exact ⟨⟨will, List.mem_append_right seen (List.mem_singleton_self _)⟩,
        hunseen.unregistered⟩
    · obtain ⟨⟨will', hmem⟩, hstill⟩ := h.serving other client' hrole
      exact ⟨⟨will', List.mem_append_left _ hmem⟩, hstill⟩
  · intro other client' will' client'' will'' hmem hmem'
    by_cases hne : other = connection
    · subst hne
      have hnew {client' : ClientId} {will' : Option WillMessage}
          (hmem : .registered other client' will' ∈ seen ++ [.registered other client will]) :
          client' = client := by
        rcases List.mem_append.mp hmem with hold | hnew
        · exact absurd hold (hunseen.registered client' will')
        · exact (Mark.registered.inj (List.mem_singleton.mp hnew)).2.1
      exact (hnew hmem).trans (hnew hmem').symm
    · have hold {client' : ClientId} {will' : Option WillMessage}
          (hmem : .registered other client' will' ∈ seen ++ [.registered connection client will]) :
          .registered other client' will' ∈ seen :=
        (List.mem_append.mp hmem).resolve_right ((hother hne).registered client' will')
      exact h.once other client' will' client'' will'' (hold hmem) (hold hmem')
  · intro other client' will' hrole
    exact List.mem_append_left _
      (h.unregistering other client' will' (role_of_update roles hrole Role.noConfusion).2)

/-- The end of a connection touches no session of another one. -/
theorem OwnershipInv.unregister (h : OwnershipInv ⟨world, seen⟩) {role : Role}
    (before : world.role connection = .serving client)
    (own : ∀ owner, world.broker.ownerOf client = some owner → owner.1 = connection)
    (roles : next.role = Function.update world.role connection role)
    (behind : role = .returned ∨ ∃ (graceful : Bool) (will : Option WillMessage),
      role = .unregistering client (if graceful then none else will) ∧
        world.broker.ownerOf client = some (connection, will))
    (owners : next.broker.ownerOf = Function.update world.broker.ownerOf client none) :
    OwnershipInv ⟨next, seen ++ [.unregistered connection]⟩ := by
  obtain ⟨⟨will, hregistered⟩, -⟩ := h.serving connection client before
  have hlatest (client : ClientId) :
      Connections.latest (seen ++ [.unregistered connection]) client =
        Connections.latest seen client := by
    apply latest_append_of_quiet
    intro mark hmark
    rw [List.mem_singleton.mp hmark]
    exact fun _ _ _ ↦ Mark.noConfusion
  have hother {other : ConnectionId} (hne : other ≠ connection) :
      Unseen [.unregistered connection] other := by
    constructor
    · simp
    · intro hmem
      exact hne (Mark.unregistered.inj (List.mem_singleton.mp hmem))
  have hmoved {other : ConnectionId} {role' : Role} (hrole : next.role other = role')
      (hne : role ≠ role') := role_of_update roles hrole hne
  have hregisteredIff (other : ConnectionId) (client' : ClientId) (will' : Option WillMessage) :
      .registered other client' will' ∈ seen ++ [.unregistered connection] ↔
        .registered other client' will' ∈ seen := by
    simp
  constructor
  · intro client' owner howner
    dsimp only at howner ⊢
    rw [owners, Function.update_apply] at howner
    split at howner
    · cases howner
    · rename_i hne
      obtain ⟨howned, hstill⟩ := h.latest client' owner howner
      have hconnection : owner.1 ≠ connection := by
        rintro rfl
        exact hne (h.once _ _ _ _ _ (mem_of_latest howned) hregistered)
      rw [hlatest, List.mem_append, not_or]
      exact ⟨howned, hstill, (hother hconnection).unregistered⟩
  · intro client' owner howned hstill
    dsimp only at howned hstill ⊢
    rw [hlatest] at howned
    rw [List.mem_append, not_or] at hstill
    obtain ⟨hstill, hconnection⟩ := hstill
    rcases h.owner client' owner howned hstill with howner | ⟨other, will', hrole⟩
    · left
      rw [owners, Function.update_of_ne]
      · exact howner
      · rintro rfl
        rw [own owner howner] at hconnection
        exact hconnection (List.mem_singleton_self _)
    · refine .inr ⟨other, will', role_update_of_ne roles hrole ?_⟩
      rw [before]
      exact Role.noConfusion
  · intro other hrole
    have hne : role ≠ .outside := by
      rcases behind with rfl | ⟨graceful, will, rfl, -⟩ <;> exact Role.noConfusion
    obtain ⟨hne, hrole⟩ := hmoved hrole hne
    exact (h.outside other hrole).append (hother hne)
  · intro other client' will' hrole
    have hne : role ≠ .registering client' will' := by
      rcases behind with rfl | ⟨graceful, will, rfl, -⟩ <;> exact Role.noConfusion
    obtain ⟨hne, hrole⟩ := hmoved hrole hne
    exact (h.registering other client' will' hrole).append (hother hne)
  · intro other client' hrole
    have hne : role ≠ .serving client' := by
      rcases behind with rfl | ⟨graceful, will, rfl, -⟩ <;> exact Role.noConfusion
    obtain ⟨hne, hrole⟩ := hmoved hrole hne
    obtain ⟨⟨will', hmem⟩, hstill⟩ := h.serving other client' hrole
    refine ⟨⟨will', (hregisteredIff ..).mpr hmem⟩, ?_⟩
    rw [List.mem_append, not_or]
    exact ⟨hstill, (hother hne).unregistered⟩
  · intro other client' will' client'' will'' hmem hmem'
    exact h.once other client' will' client'' will'' ((hregisteredIff ..).mp hmem)
      ((hregisteredIff ..).mp hmem')
  · intro other client' will' hrole
    apply (hregisteredIff ..).mpr
    dsimp only at hrole
    rw [roles, Function.update_apply] at hrole
    split at hrole
    · rename_i heq
      rw [heq]
      rcases behind with rfl | ⟨graceful, will'', rfl, howner⟩
      · cases hrole
      · obtain ⟨rfl, hwill⟩ := Role.unregistering.inj hrole
        cases graceful with
        | true => cases hwill
        | false =>
          obtain rfl : will'' = some will' := hwill
          exact mem_of_latest (h.latest client (connection, some will') howner).1
    · exact h.unregistering other client' will' hrole

end Invariant

section Runs

variable {current next : Observed World Mark} {connection : ConnectionId} {client : ClientId}

theorem OwnershipInv.owned (h : OwnershipInv current) : Owned current := by
  intro client owner
  refine ⟨fun howner ↦ (h.latest client owner howner).1, ?_⟩
  intro hlatest hstill hnone
  refine (h.owner client owner hlatest hstill).resolve_right ?_
  rintro ⟨other, will, hrole⟩
  refine hnone other ?_
  unfold World.role at hrole
  cases hphase : current.state.phase other with
  | wiping | inserting =>
    rw [hphase] at hrole
    exact congrArg some (Role.registering.inj hrole).1
  | connecting | removing | registered | looping | completing | leaving | unregistering
  | returned =>
    rw [hphase] at hrole
    cases hrole

end Runs

end HotaruMqtt.Connections

import HotaruMqtt.Protocol.Fanouts

/-!
# Messages of one publisher

A handler waits for its fan-out before it goes on, so the messages of one connection come to every
queue in the order in which its handler has handed them on. Fan-outs of different connections may
overtake each other.
-/

namespace HotaruMqtt.Connections

open Library

/-- The fan-out has served everything that it has collected. -/
def World.Done (world : World) (number : ℕ) : Prop :=
  ∀ fanout, world.fanouts[number]? = some fanout →
    fanout.collecting = false ∧ fanout.matched = []

/-- A handler goes on only behind its fan-outs. -/
def Awaits (current : Observed World Sighting) : Action → Prop
  | .serve connection _ _ | .advance connection =>
      ∀ number ∈ starts connection current.seen, current.state.Done number
  | _ => True

/-- The numbers of the fan-outs of a publisher that have delivered to a connection, in the order of
the deliveries. -/
def arrivals (publisher connection : ConnectionId) (seen : List Sighting) : List ℕ :=
  ((deliveries connection seen).map Prod.fst).filter (· ∈ starts publisher seen)

/-- The fan-outs of a publisher follow one another. -/
structure Sequenced (publisher : ConnectionId) (current : Observed World Sighting) : Prop where
  started_lt : ∀ number ∈ starts publisher current.seen, number < current.state.fanouts.length
  ascending : (starts publisher current.seen).Pairwise (· < ·)
  done : ∀ number ∈ starts publisher current.seen, ∀ later ∈ starts publisher current.seen,
    number < later → current.state.Done number
  arrivals : ∀ connection, (arrivals publisher connection current.seen).Pairwise (· ≤ ·)

section Sequenced

variable {publisher : ConnectionId} {current next : Observed World Sighting} {action : Action}

/-- A fan-out that is done stays so. -/
theorem done_set {world : World} {number : ℕ} {fanouts : List Fanout} (h : world.Done number)
    {changed : ℕ} {fanout served : Fanout} (hfound : world.fanouts[changed]? = some fanout)
    (hfanouts : fanouts = world.fanouts.set changed served)
    (hserved : fanout.collecting = false → fanout.matched = [] →
      served.collecting = false ∧ served.matched = []) (other : Fanout)
    (hother : fanouts[number]? = some other) : other.collecting = false ∧ other.matched = [] := by
  rw [hfanouts] at hother
  by_cases hnumber : number = changed
  · subst hnumber
    obtain ⟨hlt, hget⟩ := List.getElem?_eq_some_iff.mp hother
    rw [List.getElem_set_self] at hget
    obtain ⟨hcollecting, hmatched⟩ := h fanout hfound
    rw [← hget]
    exact hserved hcollecting hmatched
  · rw [List.getElem?_set_ne (Ne.symm hnumber)] at hother
    exact h other hother

theorem sequenced_init (publisher : ConnectionId) :
    Sequenced publisher { state := init, seen := [] } where
  started_lt number hmem := by cases hmem
  ascending := List.Pairwise.nil
  done number hmem := by cases hmem
  arrivals connection := List.Pairwise.nil

/-- No fan-out of the publisher is called, and nothing is delivered. -/
theorem Sequenced.quiet (h : Sequenced publisher current)
    (hstarts : starts publisher next.seen = starts publisher current.seen)
    (hdeliveries : ∀ connection,
      deliveries connection next.seen = deliveries connection current.seen)
    (hlength : current.state.fanouts.length ≤ next.state.fanouts.length)
    (hdone : ∀ number, number < current.state.fanouts.length → current.state.Done number →
      next.state.Done number) : Sequenced publisher next where
  started_lt number hmem := by
    rw [hstarts] at hmem
    exact (h.started_lt number hmem).trans_le hlength
  ascending := by
    rw [hstarts]
    exact h.ascending
  done number hmem later hlater hlt := by
    rw [hstarts] at hmem hlater
    exact hdone number (h.started_lt number hmem) (h.done number hmem later hlater hlt)
  arrivals connection := by
    unfold Connections.arrivals
    rw [hstarts, hdeliveries]
    exact h.arrivals connection

/-- The publisher calls `publish`, behind all of its fan-outs. -/
theorem Sequenced.start (h : Sequenced publisher current) (hinv : FanoutsInv current)
    (hawaits : ∀ number ∈ starts publisher current.seen, current.state.Done number)
    (hdone : ∀ number, number < current.state.fanouts.length → current.state.Done number →
      next.state.Done number)
    (hlength : current.state.fanouts.length < next.state.fanouts.length)
    (hseen : next.seen = current.seen ++ [.started publisher current.state.fanouts.length]) :
    Sequenced publisher next := by
  have hstarts : starts publisher next.seen =
      starts publisher current.seen ++ [current.state.fanouts.length] := by
    rw [hseen, starts_append]
    simp [starts]
  have hmem (number : ℕ) (hnumber : number ∈ starts publisher next.seen) :
      number ∈ starts publisher current.seen ∨ number = current.state.fanouts.length := by
    rw [hstarts, List.mem_append, List.mem_singleton] at hnumber
    exact hnumber
  constructor
  · intro number hnumber
    obtain hnumber | rfl := hmem number hnumber
    · exact (h.started_lt number hnumber).trans hlength
    · exact hlength
  · rw [hstarts, List.pairwise_append]
    refine ⟨h.ascending, List.pairwise_singleton _ _, ?_⟩
    rintro number hnumber _ hlast
    rw [List.mem_singleton.mp hlast]
    exact h.started_lt number hnumber
  · intro number hnumber later hlater hlt
    obtain hnumber | rfl := hmem number hnumber
    · exact hdone number (h.started_lt number hnumber) (hawaits number hnumber)
    · obtain hlater | rfl := hmem later hlater
      · exact absurd (h.started_lt later hlater) (Nat.not_lt.mpr hlt.le)
      · exact absurd hlt (Nat.lt_irrefl _)
  · intro connection
    have hdeliveries : deliveries connection next.seen = deliveries connection current.seen := by
      rw [hseen, deliveries_append]
      exact List.append_nil _
    have hsame : Connections.arrivals publisher connection next.seen =
        Connections.arrivals publisher connection current.seen := by
      unfold Connections.arrivals
      rw [hdeliveries, hstarts]
      apply List.filter_congr
      intro number hnumber
      have hlt : number < current.state.fanouts.length := by
        obtain ⟨⟨number, packet⟩, hdelivered, rfl⟩ := List.mem_map.mp hnumber
        obtain ⟨client, hserved⟩ := exists_served_of_delivery hdelivered
        exact hinv.unseen number client _ hserved
      simp [List.mem_append, hlt.ne]
    rw [hsame]
    exact h.arrivals connection

/-- A subscription has its turn. If the fan-out is one of the publisher, it is the last. -/
theorem Sequenced.serve (h : Sequenced publisher current) {number : ℕ} {fanout : Fanout}
    {client : ClientId} {subQos : QoS} {matched : List (ClientId × QoS)}
    (hfound : current.state.fanouts[number]? = some fanout)
    (hfirst : fanout.matched = (client, subQos) :: matched) :
    Sequenced publisher
      { state := current.state.turn number fanout client subQos matched
        seen := current.seen ++
          [.served number client (current.state.delivery fanout client subQos)] } := by
  have hstarts (seen : List Sighting) (delivery : Option (ConnectionId × PublishPacket)) :
      starts publisher (seen ++ [.served number client delivery]) = starts publisher seen := by
    rw [starts_append]
    exact List.append_nil _
  constructor
  · dsimp only
    rw [hstarts, fanouts_turn, List.length_set]
    exact h.started_lt
  · rw [hstarts]
    exact h.ascending
  · intro other hother later hlater hlt
    rw [hstarts] at hother hlater
    refine done_set (h.done other hother later hlater hlt) hfound fanouts_turn ?_
    intro _ hmatched
    rw [hfirst] at hmatched
    cases hmatched
  · intro connection
    unfold Connections.arrivals
    rw [hstarts, deliveries_append, List.map_append, List.filter_append, List.pairwise_append]
    refine ⟨h.arrivals connection, ?_, ?_⟩
    · cases current.state.delivery fanout client subQos with
      | none => exact List.Pairwise.nil
      | some delivery =>
        apply List.Pairwise.filter
        by_cases hconnection : delivery.1 = connection <;> simp [deliveries, hconnection]
    · intro earlier hearlier last hlast
      obtain ⟨-, hearlier⟩ := List.mem_filter.mp hearlier
      obtain ⟨hlast, hstarted⟩ := List.mem_filter.mp hlast
      obtain rfl : last = number := by
        obtain ⟨⟨last, packet⟩, hdelivered, rfl⟩ := List.mem_map.mp hlast
        obtain ⟨client', hserved⟩ := exists_served_of_delivery hdelivered
        exact (Sighting.served.inj (List.mem_singleton.mp hserved)).1
      apply Nat.le_of_not_lt
      intro hlt
      have hdone :=
        h.done last (of_decide_eq_true hstarted) earlier (of_decide_eq_true hearlier) hlt
      have hmatched := (hdone fanout hfound).2
      rw [hfirst] at hmatched
      cases hmatched

theorem sequenced_step (h : Sequenced publisher current) (hinv : FanoutsInv current)
    (hawaits : Awaits current action)
    (hstep : observed observe step current action = some next) : Sequenced publisher next := by
  obtain ⟨state, seen⟩ := next
  obtain ⟨hstate, rfl⟩ := of_observed hstep
  have hturn := turn_of_step hstate
  generalize observe current.state action = sightings at hturn
  cases hturn with
  | aside still fanouts =>
    rw [List.append_nil]
    refine h.quiet rfl (fun _ ↦ rfl) (by rw [fanouts]) ?_
    intro number _ hdone fanout hfanout
    dsimp only at hfanout
    rw [fanouts] at hfanout
    exact hdone fanout hfanout
  | starts connection source packet still fanouts acts =>
    have hlength : current.state.fanouts.length < state.fanouts.length := by
      rw [fanouts, List.length_append, List.length_singleton]
      exact Nat.lt_succ_self _
    have hdone (number : ℕ) (hlt : number < current.state.fanouts.length)
        (hdone : current.state.Done number) : state.Done number := by
      intro fanout hfanout
      rw [fanouts, List.getElem?_append_left hlt] at hfanout
      exact hdone fanout hfanout
    by_cases hconnection : connection = publisher
    · subst hconnection
      refine h.start hinv ?_ hdone hlength rfl
      obtain rfl | ⟨endpoints, packet, rfl⟩ := acts
      · exact hawaits
      · exact hawaits
    · refine h.quiet ?_ ?_ hlength.le hdone
      · dsimp only
        rw [starts_append]
        simp [Connections.starts, hconnection]
      · intro other
        dsimp only
        rw [deliveries_append]
        exact List.append_nil _
  | collects number fanout filter client qos found collecting matching unmet =>
    rw [List.append_nil]
    refine h.quiet rfl (fun _ ↦ rfl) (List.length_set ..).ge ?_
    intro other _ hdone
    refine done_set hdone found rfl ?_
    intro hcollected _
    rw [collecting] at hcollected
    cases hcollected
  | collected number fanout found =>
    rw [List.append_nil]
    refine h.quiet rfl (fun _ ↦ rfl) (List.length_set ..).ge ?_
    intro other _ hdone
    exact done_set hdone found rfl fun _ hmatched ↦ ⟨rfl, hmatched⟩
  | serves number fanout client subQos matched found first => exact h.serve found first

/-- The messages of one publisher come to a queue in the order in which its handler has called
`publish` for them, however the steps of all handlers and fan-outs come. -/
theorem publishers_in_order {actions : List Action} {last : Observed World Sighting}
    (run : Run (observed observe step) Awaits { state := init, seen := [] } actions last)
    (publisher connection : ConnectionId) :
    (starts publisher last.seen).Pairwise (· < ·) ∧
      (arrivals publisher connection last.seen).Pairwise (· ≤ ·) ∧
      last.state.queued connection <+: (deliveries connection last.seen).map Prod.snd := by
  have hinv : FanoutsInv last ∧ Sequenced publisher last := by
    induction run with
    | refl => exact ⟨fanoutsInv_init, sequenced_init publisher⟩
    | tail _ hawaits hstep ih =>
      exact ⟨fanoutsInv_step ih.1 hstep, sequenced_step ih.2 ih.1 hawaits hstep⟩
  exact ⟨hinv.2.ascending, hinv.2.arrivals connection, hinv.1.queued connection⟩

end Sequenced

/-- The check behind `Awaits`. -/
def awaits (current : Observed World Sighting) : Action → Bool
  | .serve connection _ _ | .advance connection =>
      (starts connection current.seen).all fun number ↦
        current.state.fanouts[number]?.all fun fanout ↦
          !fanout.collecting && fanout.matched.isEmpty
  | _ => true

theorem awaits_of_check (current : Observed World Sighting) (action : Action)
    (h : awaits current action = true) : Awaits current action := by
  cases action with
  | serve | advance =>
    intro number hnumber fanout hfanout
    have hdone := List.all_eq_true.mp h number hnumber
    simpa [hfanout] using hdone
  | _ => trivial

set_option maxRecDepth 8000 in
/-- Two messages of one publisher. -/
theorem publishers_in_order_remarks :
    ∃ last, Run (observed observe step) Awaits { state := init, seen := [] }
        (audience ++ [.serve 1 [] (.publish (remark [1]))] ++ reach 0 "t" "a" ++
          [.serve 1 [] (.publish (remark [2]))] ++ reach 1 "t" "a") last ∧
      arrivals 1 0 last.seen = [0, 1] ∧ (arrivals 1 0 last.seen).Pairwise (· ≤ ·) ∧
      last.state.queued 0 = [remark [1], remark [2]] := by
  obtain ⟨last, run, harrivals, hqueued⟩ : ∃ last,
      Run (observed observe step) Awaits { state := init, seen := [] }
        (audience ++ [.serve 1 [] (.publish (remark [1]))] ++ reach 0 "t" "a" ++
          [.serve 1 [] (.publish (remark [2]))] ++ reach 1 "t" "a") last ∧
      arrivals 1 0 last.seen = [0, 1] ∧ last.state.queued 0 = [remark [1], remark [2]] :=
    ⟨_, Run.of_guarded awaits_of_check rfl, rfl, rfl⟩
  exact ⟨last, run, harrivals, (publishers_in_order run 1 0).2.1, hqueued⟩

end HotaruMqtt.Connections

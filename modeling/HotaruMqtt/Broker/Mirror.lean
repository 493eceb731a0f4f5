import HotaruMqtt.Broker.Store
import HotaruMqtt.Library.Runs

/-!
# The filters of a session and the tree of subscriptions

The subscriptions of a client are stored twice: in the tree, where the fan-out finds them, and in
the entry of its session. Subscribing and unsubscribing update both. Registering over an existing
session starts with an empty entry, but wipes the tree only for a clean session.
-/

namespace HotaruMqtt.Mirror

open Library

/-- A table of filters lists the subscriptions of a client in the tree. -/
def Lists (filters : Table String QoS) (tree : SubscriptionTree) (client : ClientId) : Prop :=
  ∀ filter qos, filters.lookup filter = some qos ↔ Index.get tree filter client = some qos

/-- Every session lists the subscriptions of its client. -/
def Mirrors (broker : Broker) : Prop :=
  ∀ client entry, broker.sessions.lookup client = some entry →
    Lists entry.filters broker.subscriptions client

/-- A session that is not clean is registered only for a client without subscriptions. -/
def Unburdened (store : Store) : Operation → Prop
  | .register client _ _ cleanSession =>
      cleanSession = true ∨ ∀ filter, store.broker.subscriptionsOf client filter = none
  | _ => True

section Lists

variable {filters : Table String QoS} {tree : SubscriptionTree} {client : ClientId}

/-- A subscription is noted in the session and in the tree. -/
theorem lists_subscribe (h : Lists filters tree client) (filter : String) (qos : QoS) :
    Lists (filters.insert filter qos) (tree.subscribe client filter qos) client := by
  intro filter' qos'
  rw [SubscriptionTree.subscribe, Index.get_put, Table.lookup_insert_eq]
  by_cases hfilter : filter' = filter
  · simp [hfilter]
  · simp only [hfilter, if_false, false_and]
    exact h filter' qos'

/-- It is taken back in both as well. -/
theorem lists_unsubscribe (h : Lists filters tree client) (filter : String) :
    Lists (filters.erase filter) (tree.unsubscribe client filter) client := by
  intro filter' qos'
  rw [SubscriptionTree.unsubscribe, Index.get_remove, Table.lookup_erase_eq]
  by_cases hfilter : filter' = filter
  · simp [hfilter]
  · simp only [hfilter, if_false, false_and]
    exact h filter' qos'

theorem lists_subscribeFilters (requested : List TopicFilter) (h : Lists filters tree client) :
    Lists (Broker.subscribeFilters client requested (filters, tree)).2.1
      (Broker.subscribeFilters client requested (filters, tree)).2.2 client := by
  induction requested generalizing filters tree with
  | nil => exact h
  | cons tf requested ih =>
    cases hvalid : Topic.validateSubscribeFilter tf.filter with
    | ok accepted =>
      simp only [Broker.subscribeFilters, hvalid]
      exact ih (lists_subscribe h tf.filter tf.qos)
    | error rejected =>
      simp only [Broker.subscribeFilters, hvalid]
      exact ih h

theorem lists_unsubscribeTopics (topics : List String) (h : Lists filters tree client) :
    Lists (Broker.unsubscribeTopics client topics (filters, tree)).1
      (Broker.unsubscribeTopics client topics (filters, tree)).2 client := by
  induction topics generalizing filters tree with
  | nil => exact h
  | cons topic topics ih => exact ih (lists_unsubscribe h topic)

/-- An empty table lists the subscriptions of a client that has none. -/
theorem lists_empty_iff :
    Lists ∅ tree client ↔ ∀ filter, Index.get tree filter client = none := by
  constructor
  · intro h filter
    rw [Option.eq_none_iff_forall_ne_some]
    intro qos hqos
    have hempty := (h filter qos).mpr hqos
    cases hempty
  · intro h filter qos
    rw [h]
    exact iff_of_false nofun nofun

end Lists

section Operations

variable {broker next : Broker} {client : ClientId}

/-- An operation on one client is judged by that client's session. -/
theorem Mirrors.of_frame (h : Mirrors broker) (client : ClientId)
    (hsessions : ∀ other, other ≠ client →
      next.sessions.lookup other = broker.sessions.lookup other)
    (hsubscriptions : ∀ other, other ≠ client →
      next.subscriptionsOf other = broker.subscriptionsOf other)
    (hclient : ∀ entry, next.sessions.lookup client = some entry →
      Lists entry.filters next.subscriptions client) : Mirrors next := by
  intro other entry hentry
  by_cases hother : other = client
  · subst hother
    exact hclient entry hentry
  · rw [hsessions other hother] at hentry
    intro filter qos
    change _ ↔ next.subscriptionsOf other filter = some qos
    rw [hsubscriptions other hother]
    exact h other entry hentry filter qos

/-- A registration keeps the tree in line exactly if it is clean or the client had no filters. -/
theorem mirrors_registerSession_iff (h : Mirrors broker) (channel : ConnectionId)
    (will : Option WillMessage) (cleanSession : Bool) :
    Mirrors (broker.registerSession client channel will cleanSession).2 ↔
      (cleanSession = true ∨ ∀ filter, broker.subscriptionsOf client filter = none) := by
  have hself : (broker.registerSession client channel will cleanSession).2.sessions.lookup client =
      some { channel, filters := ∅, will, cleanSession } := by
    simp [Broker.registerSession]
  have htree : (∀ filter, Index.get
        (broker.registerSession client channel will cleanSession).2.subscriptions filter client =
          none) ↔
      (cleanSession = true ∨ ∀ filter, broker.subscriptionsOf client filter = none) := by
    cases cleanSession with
    | true =>
      refine iff_of_true (fun filter ↦ ?_) (.inl rfl)
      exact (Index.get_removeAll ..).trans (if_pos rfl)
    | false => simp [Broker.registerSession, Broker.subscriptionsOf]
  rw [← htree, ← lists_empty_iff]
  constructor
  · intro hmirrors
    exact hmirrors client _ hself
  · intro hempty
    refine h.of_frame client (fun other hother ↦ ?_) (fun other hother ↦ ?_) fun entry hentry ↦ ?_
    · simp [Broker.registerSession, hother]
    · exact broker.subscriptionsOf_registerSession_of_ne hother channel will cleanSession
    · rw [hself] at hentry
      obtain rfl := Option.some.inj hentry
      exact hempty

/-- A removed session takes its subscriptions out of the tree. -/
theorem mirrors_removeSession (h : Mirrors broker) (graceful : Bool) :
    Mirrors (broker.removeSession client graceful).2 := by
  have hlookup (other : ClientId) :
      (broker.removeSession client graceful).2.sessions.lookup other =
        if other = client then none else broker.sessions.lookup other := by
    unfold Broker.removeSession
    split
    · rename_i hnone
      split
      · rename_i hother
        rw [hother, hnone]
      · rfl
    · exact Table.lookup_erase_eq ..
  refine h.of_frame client (fun other hother ↦ ?_) (fun other hother ↦ ?_) fun entry hentry ↦ ?_
  · rw [hlookup, if_neg hother]
  · exact broker.subscriptionsOf_removeSession_of_ne hother graceful
  · rw [hlookup, if_pos rfl] at hentry
    cases hentry

/-- Changing the filters of a session together with the tree. -/
theorem mirrors_insert (h : Mirrors broker) (entry : SubscriberEntry)
    {filters : Table String QoS} {tree : SubscriptionTree}
    (hother : ∀ other, other ≠ client → ∀ filter,
      Index.get tree filter other = Index.get broker.subscriptions filter other)
    (hlists : Lists filters tree client) :
    Mirrors
      { sessions := broker.sessions.insert client { entry with filters }
        subscriptions := tree } := by
  refine h.of_frame client (fun other hne ↦ ?_) (fun other hne ↦ ?_) fun entry' hentry ↦ ?_
  · rw [Table.lookup_insert_eq, if_neg hne]
  · funext filter
    exact hother other hne filter
  · rw [Table.lookup_insert_eq, if_pos rfl] at hentry
    obtain rfl := Option.some.inj hentry
    exact hlists

theorem mirrors_subscribe (h : Mirrors broker) (requested : List TopicFilter) :
    Mirrors (broker.subscribe client requested).2 := by
  unfold Broker.subscribe
  split
  · exact h
  · rename_i entry hentry
    refine mirrors_insert h entry (fun other hne filter ↦ ?_) ?_
    · exact Broker.get_subscribeFilters_of_ne hne requested _ _ filter
    · exact lists_subscribeFilters requested (h client entry hentry)

theorem mirrors_unsubscribe (h : Mirrors broker) (topics : List String) :
    Mirrors (broker.unsubscribe client topics) := by
  unfold Broker.unsubscribe
  split
  · exact h
  · rename_i entry hentry
    refine mirrors_insert h entry (fun other hne filter ↦ ?_) ?_
    · exact Broker.get_unsubscribeTopics_of_ne hne topics _ _ filter
    · exact lists_unsubscribeTopics topics (h client entry hentry)

end Operations

/-- An operation keeps the sessions and the tree in step if and only if it is unburdened. -/
theorem mirrors_step_iff {store next : Store} {operation : Operation}
    (h : Mirrors store.broker) (hstep : store.step operation = some next) :
    Mirrors next.broker ↔ Unburdened store operation := by
  cases operation with
  | register client channel will cleanSession =>
    obtain rfl := Option.some.inj hstep
    exact mirrors_registerSession_iff h channel will cleanSession
  | unregister client graceful order =>
    rw [Store.broker_of_unregister hstep]
    exact iff_of_true (mirrors_removeSession h graceful) trivial
  | subscribe client filters =>
    obtain rfl := Option.some.inj hstep
    exact iff_of_true (mirrors_subscribe h filters) trivial
  | unsubscribe client topics =>
    obtain rfl := Option.some.inj hstep
    exact iff_of_true (mirrors_unsubscribe h topics) trivial
  | publish source packet order =>
    rw [Store.broker_of_publish hstep]
    exact iff_of_true h trivial
  | ackOutbound client id =>
    obtain rfl := Option.some.inj hstep
    exact iff_of_true h trivial

theorem mirrors_new : Mirrors .new := by
  intro client entry hentry
  cases hentry

/-- Runs without a registration that inherits subscriptions keep the tree in line. -/
theorem mirrors_of_run {channels : Channels} {operations : List Operation} {store : Store}
    (run : Run Store.step Unburdened { broker := .new, channels } operations store) :
    Mirrors store.broker := by
  change (Mirrors ∘ Store.broker) store
  refine run.invariant ?_ ?_
  · exact mirrors_new
  · intro state operation next h hallowed hstep
    exact (mirrors_step_iff h hstep).mpr hallowed

/-- In every sequence of unburdened operations the sessions and the tree stay in step. The first
operation that is not unburdened breaks them apart. -/
theorem filters_mirror_tree (channels : Channels) :
    (∀ operations store, Run Store.step Unburdened { broker := .new, channels } operations store →
      Mirrors store.broker) ∧
    (∀ operations store operation next,
      Run Store.step Unburdened { broker := .new, channels } operations store →
      store.step operation = some next → (Mirrors next.broker ↔ Unburdened store operation)) := by
  constructor
  · intro operations store run
    exact mirrors_of_run run
  · intro operations store operation next run hstep
    exact mirrors_step_iff (mirrors_of_run run) hstep

/-- A client registers without a clean session, subscribes and registers again, now clean. -/
theorem filters_mirror_tree_of_clean :
    ∃ store, Run Store.step Unburdened { broker := .new, channels := fun _ ↦ .new }
        [.register "a" 0 none false, .subscribe "a" [⟨"t", .atLeastOnce⟩],
          .register "a" 1 none true] store ∧
      Mirrors store.broker ∧
      ∃ next, store.step (.register "a" 2 none false) = some next ∧ Mirrors next.broker := by
  obtain ⟨store, run, hwiped⟩ : ∃ store,
      Run Store.step Unburdened { broker := .new, channels := fun _ ↦ .new }
        [.register "a" 0 none false, .subscribe "a" [⟨"t", .atLeastOnce⟩],
          .register "a" 1 none true] store ∧
      ∀ filter, store.broker.subscriptionsOf "a" filter = none :=
    ⟨_, .tail (.tail (.tail .refl (.inr fun _ ↦ rfl) rfl) trivial rfl) (.inl rfl) rfl,
      fun _ ↦ (Index.get_removeAll ..).trans (if_pos rfl)⟩
  refine ⟨store, run, (filters_mirror_tree _).1 _ _ run, _, rfl, ?_⟩
  exact ((filters_mirror_tree _).2 _ _ (.register "a" 2 none false) _ run rfl).mpr (.inr hwiped)

/-- A client that reconnects without a clean session keeps its subscription in the tree, while its
session lists nothing. -/
theorem reconnect_loses_filters :
    ∃ store entry, Run Store.step Unrestricted { broker := .new, channels := fun _ ↦ .new }
        [.register "a" 0 none true, .subscribe "a" [⟨"t", .atLeastOnce⟩],
          .register "a" 1 none false] store ∧
      store.broker.sessions.lookup "a" = some entry ∧ entry.filters.lookup "t" = none ∧
      store.broker.subscriptionsOf "a" "t" = some .atLeastOnce ∧ ¬ Mirrors store.broker := by
  refine ⟨_, _, Run.of_foldlM rfl, rfl, rfl, rfl, ?_⟩
  intro h
  cases (h "a" _ rfl "t" .atLeastOnce).mpr rfl

end HotaruMqtt.Mirror

import HotaruMqtt.Library.Runs
import HotaruMqtt.Protocol.Dispatch

/-!
# The outbound QoS 2 handshake of a client

A task runs `send_publish` for a message of QoS 2, and the dispatcher handles what comes in. They
share the table of pending acknowledgements and take turns in any order. The peer answers the
PUBLISH with a PUBREC, and the PUBREL with a PUBCOMP. The dispatcher sends the PUBREL, while the
task inserts the slot for the PUBCOMP, after it was woken.
-/

namespace HotaruMqtt.Handshake

open Library

inductive Task where
  | starting
  /-- The slot for the PUBREC is inserted. -/
  | inserted
  | waitingRec
  /-- The PUBREC was signalled and the slot for the PUBCOMP is not inserted yet. -/
  | woken
  | waitingComp
  | ended (result : Except MqttError PacketId)

def Task.hasEnded : Task → Bool
  | ended _ => true
  | _ => false

/-- Where the dispatcher stands. Behind the delivery of an acknowledgement it has a PUBREL to send,
or a packet in flight to settle. -/
inductive Dispatcher where
  | idle
  | sendingPubrel
  | settling
  | stopped
  deriving DecidableEq

inductive Peer where
  | awaitingPublish
  | sentPubrec
  | sentPubcomp
  deriving DecidableEq

structure World where
  channel : MqttChannel
  task : Task
  dispatcher : Dispatcher
  peer : Peer
  /-- What the peer has sent and the dispatcher has not taken. -/
  inbound : List Packet
  /-- The PUBLISH, and later the PUBREL, was handed to the writer. -/
  published : Bool
  released : Bool
  /-- The dispatcher has taken the PUBREC, and later the PUBCOMP. -/
  recTaken : Bool
  compTaken : Bool
  /-- The task has its signal for the PUBREC, and later for the PUBCOMP. -/
  recSignal : Bool
  compSignal : Bool

def init (channel : MqttChannel) : World :=
  { channel, task := .starting, dispatcher := .idle, peer := .awaitingPublish, inbound := []
    published := false, released := false, recTaken := false, compTaken := false
    recSignal := false, compSignal := false }

inductive Action where
  | task
  /-- The wait of the task runs into its timeout. -/
  | expire
  | dispatch
  | proceed
  | peer

/-- The operation that awaits the PUBREC and the one that awaits the PUBCOMP. -/
def recWaiter : Waiter := 0
def compWaiter : Waiter := 1

/-- `send_publish` for a packet of QoS 2 with its identifier. -/
def stepTask (id : PacketId) (packet : PublishPacket) (world : World) : Option World :=
  match world.task with
  | .starting => some { world with
      channel := world.channel.insertSlot id (.pubrec recWaiter), task := .inserted }
  | .inserted =>
      match world.channel.sendPublish packet with
      | .ok channel => some { world with channel, task := .waitingRec, published := true }
      | .error reason => some { world with task := .ended (.error reason) }
  | .waitingRec =>
      if world.recSignal then some { world with task := .woken }
      else if world.channel.holdsSlot id (.pubrec recWaiter) then none
      else some { world with task := .ended (.error .channelClosed) }
  | .woken => some { world with
      channel := world.channel.insertSlot id (.pubcomp compWaiter), task := .waitingComp }
  | .waitingComp =>
      if world.compSignal then some { world with task := .ended (.ok id) }
      else if world.channel.holdsSlot id (.pubcomp compWaiter) then none
      else some { world with task := .ended (.error .channelClosed) }
  | .ended _ => none

/-- The timeout of a wait. It loses against a signal that is there. -/
def stepExpire (id : PacketId) (world : World) : Option World :=
  match world.task with
  | .waitingRec =>
      if world.recSignal then none
      else some { world with
        channel := world.channel.eraseSlot id, task := .ended (.error (.timeout .ack)) }
  | .waitingComp =>
      if world.compSignal then none
      else some { world with
        channel := world.channel.eraseSlot id, task := .ended (.error (.timeout .ack)) }
  | _ => none

/-- The first half of a dispatch: the acknowledgement is delivered. -/
def stepDispatch (world : World) : Option World :=
  match world.dispatcher, world.inbound with
  | .idle, .pubrec id :: inbound =>
      let (answered, session) := world.channel.session.fireAck id .pubrec
      some { world with
        channel := world.channel.setSession session
        dispatcher := .sendingPubrel, inbound, recTaken := true
        recSignal := world.recSignal || answered = some recWaiter }
  | .idle, .pubcomp id :: inbound =>
      let (answered, session) := world.channel.session.fireAck id .pubcomp
      some { world with
        channel := world.channel.setSession session
        dispatcher := .settling, inbound, compTaken := true
        compSignal := world.compSignal || answered = some compWaiter }
  | _, _ => none

/-- The second half of a dispatch. -/
def stepProceed (id : PacketId) (world : World) : Option World :=
  match world.dispatcher with
  | .sendingPubrel =>
      let (channel, result) := world.channel.reply (.pubrel id)
      match result with
      | .ok () => some { world with channel, dispatcher := .idle, released := true }
      | .error _ => some { world with channel, dispatcher := .stopped }
  | .settling =>
      some { world with
        channel := world.channel.setSession
          { world.channel.session with
            outboundInflight := world.channel.session.outboundInflight.erase id }
        dispatcher := .idle }
  | _ => none

def stepPeer (id : PacketId) (world : World) : Option World :=
  match world.peer with
  | .awaitingPublish =>
      if world.published then
        some { world with peer := .sentPubrec, inbound := world.inbound ++ [.pubrec id] }
      else none
  | .sentPubrec =>
      if world.released then
        some { world with peer := .sentPubcomp, inbound := world.inbound ++ [.pubcomp id] }
      else none
  | .sentPubcomp => none

def step (id : PacketId) (packet : PublishPacket) (world : World) : Action → Option World
  | .task => stepTask id packet world
  | .expire => stepExpire id world
  | .dispatch => stepDispatch world
  | .proceed => stepProceed id world
  | .peer => stepPeer id world

/-- The two halves of a dispatch together are the dispatch of the client. -/
theorem dispatch_proceed {id : PacketId} {world next last : World} {packet : Packet}
    {inbound : List Packet} (hpacket : packet = .pubrec id ∨ packet = .pubcomp id)
    (hinbound : world.inbound = packet :: inbound) (hnext : stepDispatch world = some next)
    (hlast : stepProceed id next = some last) :
    last.channel = (world.channel.dispatchClientInbound packet).channel := by
  obtain rfl | rfl := hpacket
  · unfold stepDispatch at hnext
    rw [hinbound] at hnext
    split at hnext
    · rename_i heq
      cases heq
      obtain rfl := Option.some.inj hnext
      simp only [stepProceed] at hlast
      split at hlast <;>
      · obtain rfl := Option.some.inj hlast
        rfl
    · rename_i heq
      cases heq
    · cases hnext
  · unfold stepDispatch at hnext
    rw [hinbound] at hnext
    split at hnext
    · rename_i heq
      cases heq
    · rename_i heq
      cases heq
      obtain rfl := Option.some.inj hnext
      obtain rfl := Option.some.inj hlast
      rfl
    · cases hnext

/-- The dispatcher is done with the PUBCOMP, and the task waits for it, or is about to, without its
signal. -/
def Lost (world : World) : Prop :=
  world.compTaken = true ∧ world.dispatcher = .idle ∧ world.compSignal = false ∧
    match world.task with
    | .waitingRec => world.recSignal = true
    | .woken | .waitingComp => True
    | _ => False

/-- The dispatcher takes the PUBCOMP only when the task has inserted its slot, or has ended. -/
def Prompt (world : World) : Action → Prop
  | .dispatch => ∀ id inbound, world.inbound = .pubcomp id :: inbound →
      match world.task with
      | .waitingComp | .ended _ => True
      | _ => False
  | _ => True

/-- What the peer has sent is what the dispatcher has taken or is about to take. -/
def PeerInv (id : PacketId) (world : World) : Prop :=
  match world.peer with
  | .awaitingPublish =>
      world.inbound = [] ∧ world.recTaken = false ∧ world.compTaken = false
  | .sentPubrec => world.published = true ∧ world.compTaken = false ∧
      world.inbound = if world.recTaken then [] else [.pubrec id]
  | .sentPubcomp => world.published = true ∧ world.recTaken = true ∧
      world.inbound = if world.compTaken then [] else [.pubcomp id]

/-- What the place of the task says about the slot of the identifier and about the signals. -/
def TaskInv (world : World) (slot : Option AckSlot) : Prop :=
  match world.task with
  | .starting => world.published = false
  | .inserted => slot = some (.pubrec recWaiter) ∧ world.published = false
  | .waitingRec => if world.recSignal then slot = none else slot = some (.pubrec recWaiter)
  | .woken => slot = none ∧ world.recSignal = true
  | .waitingComp => world.recSignal = true ∧
      (world.compSignal = false → slot = some (.pubcomp compWaiter))
  | .ended _ => True

structure Inv (id : PacketId) (world : World) : Prop where
  peer : PeerInv id world
  task : TaskInv world (world.channel.session.pendingAcks.lookup id)
  recSignal : world.recSignal = true → world.recTaken = true
  recTaken : world.recTaken = true → world.recSignal = true ∨ world.task.hasEnded = true
  released : world.released = true ∨ world.dispatcher = .sendingPubrel → world.recTaken = true
  compSignal : world.compSignal = true → world.compTaken = true
  compTaken : world.compTaken = true → world.compSignal = true ∨ world.task.hasEnded = true

theorem inv_init (id : PacketId) (channel : MqttChannel) : Inv id (init channel) where
  peer := ⟨rfl, rfl, rfl⟩
  task := rfl
  recSignal h := by cases h
  recTaken h := by cases h
  released h := by
    rcases h with h | h <;> cases h
  compSignal h := by cases h
  compTaken h := by cases h

section Steps

variable {id : PacketId} {packet : PublishPacket} {world next : World}

/-- A step of the task changes nothing that the dispatcher and the peer keep. -/
theorem Inv.move (h : Inv id world) (channel : MqttChannel) (task : Task) (published : Bool)
    (hpublished : world.published = true → published = true)
    (hended : world.task.hasEnded = true → task.hasEnded = true)
    (htask : TaskInv { world with channel, task, published }
      (channel.session.pendingAcks.lookup id)) :
    Inv id { world with channel, task, published } where
  peer := by
    have hpeer := h.peer
    unfold PeerInv at hpeer ⊢
    cases hphase : world.peer with
    | awaitingPublish =>
      rw [hphase] at hpeer
      exact hpeer
    | sentPubrec | sentPubcomp =>
      rw [hphase] at hpeer
      exact ⟨hpublished hpeer.1, hpeer.2⟩
  task := htask
  recSignal := h.recSignal
  recTaken htaken := (h.recTaken htaken).imp_right hended
  released := h.released
  compSignal := h.compSignal
  compTaken htaken := (h.compTaken htaken).imp_right hended

/-- A task that has not ended moves on. -/
theorem Inv.advance (h : Inv id world) (channel : MqttChannel) (task : Task)
    (hrunning : world.task.hasEnded = false)
    (htask : TaskInv { world with channel, task } (channel.session.pendingAcks.lookup id)) :
    Inv id { world with channel, task } := by
  refine h.move channel task world.published (fun hpublished ↦ hpublished) ?_ htask
  rw [hrunning]
  intro hended
  cases hended

/-- Nothing is asked of the slot of a task that ends. -/
theorem Inv.finish (h : Inv id world) (channel : MqttChannel) (result : Except MqttError PacketId) :
    Inv id { world with channel, task := .ended result } :=
  h.move channel (.ended result) world.published (fun hpublished ↦ hpublished) (fun _ ↦ rfl) trivial

theorem Inv.recSignal_eq_false (h : Inv id world) (htaken : world.recTaken = false) :
    world.recSignal = false := by
  cases hsignal : world.recSignal with
  | false => rfl
  | true => exact (h.recSignal hsignal).symm.trans htaken

theorem Inv.compSignal_eq_false (h : Inv id world) (htaken : world.compTaken = false) :
    world.compSignal = false := by
  cases hsignal : world.compSignal with
  | false => rfl
  | true => exact (h.compSignal hsignal).symm.trans htaken

theorem Inv.recSignal_of_not_published (h : Inv id world) (hpublished : world.published = false) :
    world.recSignal = false := by
  have hpeer := h.peer
  unfold PeerInv at hpeer
  cases hphase : world.peer with
  | awaitingPublish =>
    rw [hphase] at hpeer
    exact h.recSignal_eq_false hpeer.2.1
  | sentPubrec | sentPubcomp =>
    rw [hphase, hpublished] at hpeer
    cases hpeer.1

theorem inv_task (h : Inv id world) (hstep : stepTask id packet world = some next) :
    Inv id next := by
  have htask := h.task
  unfold stepTask at hstep
  unfold TaskInv at htask
  split at hstep
  · rename_i hphase
    rw [hphase] at htask
    obtain rfl := Option.some.inj hstep
    exact h.advance _ _ (by rw [hphase]; rfl) ⟨Finmap.lookup_insert _, htask⟩
  · rename_i hphase
    rw [hphase] at htask
    split at hstep
    · rename_i channel hsend
      obtain rfl := Option.some.inj hstep
      apply h.move _ _ _ (fun _ ↦ rfl)
      · rw [hphase]
        intro hended
        cases hended
      · simp only [TaskInv, h.recSignal_of_not_published htask.2, MqttChannel.session_of_send hsend]
        exact htask.1
    · obtain rfl := Option.some.inj hstep
      exact h.finish _ _
  · rename_i hphase
    rw [hphase] at htask
    split at hstep
    · rename_i hsignal
      obtain rfl := Option.some.inj hstep
      rw [hsignal] at htask
      exact h.advance _ _ (by rw [hphase]; rfl) ⟨htask, hsignal⟩
    · split at hstep
      · cases hstep
      · obtain rfl := Option.some.inj hstep
        exact h.finish _ _
  · rename_i hphase
    rw [hphase] at htask
    obtain rfl := Option.some.inj hstep
    exact h.advance _ _ (by rw [hphase]; rfl) ⟨htask.2, fun _ ↦ Finmap.lookup_insert _⟩
  · split at hstep
    · obtain rfl := Option.some.inj hstep
      exact h.finish _ _
    · split at hstep
      · cases hstep
      · obtain rfl := Option.some.inj hstep
        exact h.finish _ _
  · cases hstep

theorem inv_expire (h : Inv id world) (hstep : stepExpire id world = some next) : Inv id next := by
  unfold stepExpire at hstep
  split at hstep
  · split at hstep
    · cases hstep
    · obtain rfl := Option.some.inj hstep
      exact h.finish _ _
  · split at hstep
    · cases hstep
    · obtain rfl := Option.some.inj hstep
      exact h.finish _ _
  · cases hstep

theorem inv_peer (h : Inv id world) (hstep : stepPeer id world = some next) : Inv id next := by
  have hpeer := h.peer
  unfold stepPeer at hstep
  unfold PeerInv at hpeer
  split at hstep
  · rename_i hphase
    rw [hphase] at hpeer
    split at hstep
    · rename_i hpublished
      obtain rfl := Option.some.inj hstep
      refine ⟨⟨hpublished, hpeer.2.2, ?_⟩, h.task, h.recSignal, h.recTaken, h.released,
        h.compSignal, h.compTaken⟩
      dsimp only
      rw [hpeer.1, hpeer.2.1]
      rfl
    · cases hstep
  · rename_i hphase
    rw [hphase] at hpeer
    split at hstep
    · rename_i hreleased
      obtain rfl := Option.some.inj hstep
      have htaken := h.released (.inl hreleased)
      refine ⟨⟨hpeer.1, htaken, ?_⟩, h.task, h.recSignal, h.recTaken, h.released,
        h.compSignal, h.compTaken⟩
      dsimp only
      rw [hpeer.2.2, hpeer.2.1, htaken]
      rfl
    · cases hstep
  · cases hstep

theorem inv_proceed (h : Inv id world) (hstep : stepProceed id world = some next) :
    Inv id next := by
  unfold stepProceed at hstep
  split at hstep
  · rename_i hphase
    have htaken := h.released (.inr hphase)
    have htask := h.task
    rw [← MqttChannel.session_reply world.channel (.pubrel id)] at htask
    dsimp only at hstep
    split at hstep <;>
    · obtain rfl := Option.some.inj hstep
      exact ⟨h.peer, htask, h.recSignal, h.recTaken, fun _ ↦ htaken, h.compSignal, h.compTaken⟩
  · obtain rfl := Option.some.inj hstep
    refine ⟨h.peer, h.task, h.recSignal, h.recTaken, fun hreleased ↦ ?_, h.compSignal, h.compTaken⟩
    rcases hreleased with hreleased | hreleased
    · exact h.released (.inl hreleased)
    · cases hreleased
  · cases hstep

/-- A PUBREC that waits to be taken is the first one. -/
theorem Inv.of_pubrec (h : Inv id world) {id' : PacketId} {inbound : List Packet}
    (hinbound : world.inbound = .pubrec id' :: inbound) :
    world.peer = .sentPubrec ∧ world.published = true ∧ world.recTaken = false ∧
      world.compTaken = false ∧ id' = id ∧ inbound = [] := by
  have hpeer := h.peer
  unfold PeerInv at hpeer
  rw [hinbound] at hpeer
  cases hphase : world.peer with
  | awaitingPublish =>
    rw [hphase] at hpeer
    cases hpeer.1
  | sentPubrec =>
    rw [hphase] at hpeer
    obtain ⟨hpublished, hcomp, heq⟩ := hpeer
    cases htaken : world.recTaken with
    | true => simp [htaken] at heq
    | false =>
      simp only [htaken, Bool.false_eq_true, if_false, List.cons.injEq, Packet.pubrec.injEq] at heq
      exact ⟨rfl, hpublished, rfl, hcomp, heq⟩
  | sentPubcomp =>
    rw [hphase] at hpeer
    obtain ⟨_, _, heq⟩ := hpeer
    cases htaken : world.compTaken <;> simp [htaken] at heq

/-- A PUBCOMP that waits to be taken is the first one, and the PUBREC was taken before. -/
theorem Inv.of_pubcomp (h : Inv id world) {id' : PacketId} {inbound : List Packet}
    (hinbound : world.inbound = .pubcomp id' :: inbound) :
    world.peer = .sentPubcomp ∧ world.published = true ∧ world.recTaken = true ∧
      world.compTaken = false ∧ id' = id ∧ inbound = [] := by
  have hpeer := h.peer
  unfold PeerInv at hpeer
  rw [hinbound] at hpeer
  cases hphase : world.peer with
  | awaitingPublish =>
    rw [hphase] at hpeer
    cases hpeer.1
  | sentPubrec =>
    rw [hphase] at hpeer
    obtain ⟨_, _, heq⟩ := hpeer
    cases htaken : world.recTaken <;> simp [htaken] at heq
  | sentPubcomp =>
    rw [hphase] at hpeer
    obtain ⟨hpublished, hrec, heq⟩ := hpeer
    cases htaken : world.compTaken with
    | true => simp [htaken] at heq
    | false =>
      simp only [htaken, Bool.false_eq_true, if_false, List.cons.injEq, Packet.pubcomp.injEq] at heq
      exact ⟨rfl, hpublished, hrec, rfl, heq⟩

/-- The PUBREC finds its slot, unless the task has ended. -/
theorem Inv.slot_of_pubrec (h : Inv id world) (hpublished : world.published = true)
    (hrec : world.recTaken = false) :
    world.task.hasEnded = true ∨ world.task = .waitingRec ∧
      world.channel.session.pendingAcks.lookup id = some (.pubrec recWaiter) := by
  have htask := h.task
  have hsignal := h.recSignal_eq_false hrec
  unfold TaskInv at htask
  cases hphase : world.task with
  | starting =>
    rw [hphase, hpublished] at htask
    cases htask
  | inserted =>
    rw [hphase, hpublished] at htask
    cases htask.2
  | waitingRec =>
    rw [hphase, hsignal] at htask
    exact .inr ⟨rfl, htask⟩
  | woken =>
    rw [hphase, hsignal] at htask
    cases htask.2
  | waitingComp =>
    rw [hphase, hsignal] at htask
    cases htask.1
  | ended result => exact .inl rfl

theorem inv_dispatch_pubrec (h : Inv id world) {id' : PacketId} {inbound : List Packet}
    (hidle : world.dispatcher = .idle) (hinbound : world.inbound = .pubrec id' :: inbound)
    (hstep : stepDispatch world = some next) : Inv id next := by
  obtain ⟨hphase, hpublished, hrec, hcomp, rfl, rfl⟩ := h.of_pubrec hinbound
  simp only [stepDispatch, hidle, hinbound] at hstep
  obtain rfl := Option.some.inj hstep
  have hpeer : PeerInv id' { world with inbound := [], recTaken := true } := by
    simp only [PeerInv, hphase]
    exact ⟨hpublished, hcomp, rfl⟩
  obtain hended | ⟨hwaiting, hslot⟩ := h.slot_of_pubrec hpublished hrec
  · refine ⟨hpeer, ?_, fun _ ↦ rfl, fun _ ↦ .inr hended, fun _ ↦ rfl, h.compSignal, h.compTaken⟩
    cases htask : world.task with
    | ended result => trivial
    | _ =>
      rw [htask] at hended
      cases hended
  · have hanswered : (world.channel.session.fireAck id' .pubrec).1 = some recWaiter :=
      MqttSession.takeSlot_of_expected hslot rfl
    refine ⟨hpeer, ?_, fun _ ↦ rfl, fun _ ↦ .inl ?_, fun _ ↦ rfl, h.compSignal, h.compTaken⟩
    · simp only [TaskInv, hwaiting, hanswered, decide_true, Bool.or_true, if_true]
      exact Finmap.lookup_erase id' _
    · simp only [hanswered, decide_true, Bool.or_true]

/-- The PUBCOMP finds its slot if the task has inserted it. -/
theorem inv_dispatch_pubcomp (h : Inv id world) {id' : PacketId} {inbound : List Packet}
    (hidle : world.dispatcher = .idle) (hinbound : world.inbound = .pubcomp id' :: inbound)
    (hprompt : Prompt world .dispatch) (hstep : stepDispatch world = some next) : Inv id next := by
  obtain ⟨hphase, hpublished, hrec, hcomp, rfl, rfl⟩ := h.of_pubcomp hinbound
  have hwaits := hprompt id' [] hinbound
  have htask := h.task
  have hrecTaken := h.recTaken
  simp only [stepDispatch, hidle, hinbound] at hstep
  obtain rfl := Option.some.inj hstep
  have hpeer : PeerInv id' { world with inbound := [], compTaken := true } := by
    simp only [PeerInv, hphase]
    exact ⟨hpublished, hrec, rfl⟩
  have hreleased (hreleased : world.released = true ∨ Dispatcher.settling = .sendingPubrel) :
      world.recTaken = true := hrec
  cases hplace : world.task with
  | waitingComp =>
    rw [hplace] at hrecTaken
    have hsignal := h.compSignal_eq_false hcomp
    simp only [TaskInv, hplace] at htask
    have hanswered : (world.channel.session.fireAck id' .pubcomp).1 = some compWaiter :=
      MqttSession.takeSlot_of_expected (htask.2 hsignal) rfl
    refine ⟨hpeer, ?_, h.recSignal, hrecTaken, hreleased, fun _ ↦ rfl, fun _ ↦ .inl ?_⟩
    · simp only [TaskInv, hanswered, decide_true, Bool.or_true]
      exact ⟨htask.1, fun hfalse ↦ by cases hfalse⟩
    · simp only [hanswered, decide_true, Bool.or_true]
  | ended result =>
    rw [hplace] at hrecTaken
    exact ⟨hpeer, trivial, h.recSignal, hrecTaken, hreleased, fun _ ↦ rfl, fun _ ↦ .inr rfl⟩
  | starting | inserted | waitingRec | woken =>
    rw [hplace] at hwaits
    exact hwaits.elim

theorem inv_step {action : Action} (h : Inv id world) (hprompt : Prompt world action)
    (hstep : step id packet world action = some next) : Inv id next := by
  cases action with
  | task => exact inv_task h hstep
  | expire => exact inv_expire h hstep
  | proceed => exact inv_proceed h hstep
  | peer => exact inv_peer h hstep
  | dispatch =>
    have hdispatch : stepDispatch world = some next := hstep
    unfold stepDispatch at hdispatch
    split at hdispatch
    · rename_i hidle hinbound
      exact inv_dispatch_pubrec h hidle hinbound hstep
    · rename_i hidle hinbound
      exact inv_dispatch_pubcomp h hidle hinbound hprompt hstep
    · cases hdispatch

theorem Inv.not_lost (h : Inv id world) : ¬ Lost world := by
  rintro ⟨htaken, _, hsignal, hplace⟩
  rcases h.compTaken htaken with hcomp | hended
  · rw [hcomp] at hsignal
    cases hsignal
  · cases htask : world.task with
    | ended result =>
      rw [htask] at hplace
      exact hplace
    | _ =>
      rw [htask] at hended
      cases hended

/-- A task that the PUBCOMP finds before its slot is inserted has been signalled the PUBREC, and
the table holds nothing under the identifier. -/
theorem Inv.slot_of_not_prompt (h : Inv id world) (hpublished : world.published = true)
    (hrec : world.recTaken = true)
    (hplace : ¬ match world.task with | .waitingComp | .ended _ => True | _ => False) :
    world.channel.session.pendingAcks.lookup id = none ∧
      (world.task = .waitingRec ∧ world.recSignal = true ∨ world.task = .woken) := by
  have htask := h.task
  unfold TaskInv at htask
  cases hphase : world.task with
  | starting =>
    rw [hphase, hpublished] at htask
    cases htask
  | inserted =>
    rw [hphase, hpublished] at htask
    cases htask.2
  | waitingRec =>
    have hsignal : world.recSignal = true := by
      rcases h.recTaken hrec with hsignal | hended
      · exact hsignal
      · rw [hphase] at hended
        cases hended
    rw [hphase, hsignal] at htask
    exact ⟨htask, .inl ⟨rfl, hsignal⟩⟩
  | woken =>
    rw [hphase] at htask
    exact ⟨htask.1, .inr rfl⟩
  | waitingComp | ended =>
    rw [hphase] at hplace
    exact absurd trivial hplace

/-- A PUBCOMP that is taken too early is lost as soon as the dispatcher is done with it. -/
theorem lost_of_not_prompt {action : Action} (h : Inv id world)
    (hstep : step id packet world action = some next) (hprompt : ¬ Prompt world action) :
    ∃ last, step id packet next .proceed = some last ∧ Lost last := by
  cases action with
  | dispatch =>
    simp only [Prompt, not_forall] at hprompt
    obtain ⟨id', inbound, hinbound, hplace⟩ := hprompt
    obtain ⟨_, hpublished, hrec, hcomp, rfl, rfl⟩ := h.of_pubcomp hinbound
    obtain ⟨hslot, hwaits⟩ := h.slot_of_not_prompt hpublished hrec hplace
    have hsignal := h.compSignal_eq_false hcomp
    have hanswered : (world.channel.session.fireAck id' .pubcomp).1 = none :=
      MqttSession.takeSlot_of_empty hslot
    simp only [step, stepDispatch, hinbound] at hstep
    split at hstep
    · rename_i heq
      cases heq
    · rename_i heq
      cases heq
      obtain rfl := Option.some.inj hstep
      refine ⟨_, rfl, rfl, rfl, ?_, ?_⟩
      · simp [hsignal, hanswered]
      · rcases hwaits with ⟨hwaiting, hrecSignal⟩ | hwoken
        · simp [hwaiting, hrecSignal]
        · simp [hwoken]
    · cases hstep
  | task | expire | proceed | peer => exact absurd trivial hprompt

end Steps

/-- In every run in which the dispatcher takes the PUBCOMP only after the task has inserted its
slot, no PUBCOMP is lost. Taken earlier, it is lost. -/
theorem pubcomp_not_lost_of_prompt (id : PacketId) (packet : PublishPacket)
    (channel : MqttChannel) :
    (∀ actions world, Run (step id packet) Prompt (init channel) actions world → ¬ Lost world) ∧
    (∀ actions world action next,
      Run (step id packet) Prompt (init channel) actions world →
      step id packet world action = some next → ¬ Prompt world action →
      ∃ last, step id packet next .proceed = some last ∧ Lost last) := by
  have hinv (actions : List Action) (world : World)
      (run : Run (step id packet) Prompt (init channel) actions world) : Inv id world :=
    run.invariant (inv_init id channel) fun _ _ _ hinv hprompt hstep ↦ inv_step hinv hprompt hstep
  constructor
  · intro actions world run
    exact (hinv actions world run).not_lost
  · intro actions world action next run hstep hprompt
    exact lost_of_not_prompt (hinv actions world run) hstep hprompt

def isPrompt (world : World) : Action → Bool
  | .dispatch =>
      match world.inbound, world.task with
      | .pubcomp _ :: _, .waitingComp | .pubcomp _ :: _, .ended _ => true
      | .pubcomp _ :: _, _ => false
      | _, _ => true
  | _ => true

theorem prompt_of_isPrompt (world : World) (action : Action) (h : isPrompt world action = true) :
    Prompt world action := by
  cases action with
  | dispatch =>
    intro id inbound hinbound
    simp only [isPrompt, hinbound] at h
    cases htask : world.task with
    | waitingComp | ended => trivial
    | _ =>
      rw [htask] at h
      cases h
  | _ => trivial

def messageOne : PublishPacket :=
  { topic := "t", payload := [], dup := false, qos := .exactlyOnce, retain := false
    packetId := some 1 }

/-- The task is woken and inserts its slot before the PUBCOMP arrives, and completes. -/
theorem pubcomp_not_lost_completed :
    ∃ world, Run (step 1 messageOne) Prompt (init .new)
        [.task, .task, .peer, .dispatch, .task, .task, .proceed, .peer, .dispatch, .proceed, .task]
        world ∧
      world.task = .ended (.ok 1) ∧ ¬ Lost world := by
  obtain ⟨world, hrun, hended⟩ : ∃ world, Run (step 1 messageOne) Prompt (init .new)
      [.task, .task, .peer, .dispatch, .task, .task, .proceed, .peer, .dispatch, .proceed, .task]
      world ∧ world.task = .ended (.ok 1) :=
    ⟨_, Run.of_guarded prompt_of_isPrompt rfl, rfl⟩
  exact ⟨world, hrun, hended, (pubcomp_not_lost_of_prompt 1 messageOne .new).1 _ _ hrun⟩

/-- The PUBCOMP overtakes the task. It fires nothing, and the task then waits on a slot that no
packet will fire. -/
theorem pubcomp_lost :
    ∃ world, Run (step 1 messageOne) Unrestricted (init .new)
        [.task, .task, .peer, .dispatch, .proceed, .peer, .dispatch, .proceed, .task, .task]
        world ∧
      world.task = .waitingComp ∧ world.inbound = [] ∧ world.peer = .sentPubcomp ∧
      world.channel.holdsSlot 1 (.pubcomp compWaiter) = true ∧ Lost world :=
  ⟨_, Run.of_foldlM rfl, rfl, rfl, rfl, by decide, rfl, rfl, rfl, trivial⟩

end HotaruMqtt.Handshake

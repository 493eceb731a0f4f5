import HotaruMqtt.Library.Runs
import HotaruMqtt.Session.Channel

/-!
# What a closed channel still writes

The holders of a channel put commands into its queue, and the writer actor takes them out one at a
time. Its select waits for a command and for the notification of `close` at once, and may take
either branch when both are ready. The notification reaches the actor only while it waits in the
select: it is not kept for an actor in the middle of a write, which then goes on until the queue is
empty and every handle of the channel is dropped.

What was enqueued before `close` was called is written as long as the select does not prefer the
notification to it.
-/

namespace HotaruMqtt.Drain

open Library

inductive Stop where
  /-- A packet could not be encoded or the wire failed. -/
  | failed
  | shutdownCommand
  | notified
  /-- The queue is empty and has no senders. -/
  | disconnected
  deriving DecidableEq

inductive Writer where
  /-- In the select, and whether `close` has notified it there. -/
  | selecting (notified : Bool)
  | writing (cmd : WriteCmd) (version : ProtocolVersion)
  | stopped (reason : Stop)
  deriving DecidableEq

structure World where
  channel : MqttChannel
  writer : Writer
  /-- Some handle of the channel is alive. -/
  senders : Bool
  /-- Everything that was ever enqueued. -/
  enqueued : List WriteCmd
  /-- What had been enqueued when `close` was called. -/
  before : Option (List WriteCmd)
  /-- The call of `close` has cleared the flag and has not notified yet. -/
  notifying : Bool
  /-- The bytes on the wire. -/
  output : Bytes
  /-- The commands whose writes are complete, with their bytes. -/
  written : List (WriteCmd × Bytes)

/-- A new channel, of any version and with any session. -/
def init (session : MqttSession) (version : ProtocolVersion) : World :=
  { channel := { MqttChannel.new with session, version }, writer := .selecting false
    senders := true, enqueued := [], before := none, notifying := false, output := []
    written := [] }

/-- The bytes of a command, if it can be written. -/
def encodeCmd (version : ProtocolVersion) : WriteCmd → Option Bytes
  | .packet p => (Codec.encodePacket p version).toOption
  | .publish p => (Codec.writePublishPacket p version).toOption.map List.flatten
  | .flush => some []
  | .shutdown => none

inductive Action where
  | send (cmd : WriteCmd)
  | setVersion (version : ProtocolVersion)
  | dropHandles
  /-- The first step of `close`. -/
  | close
  | notify
  /-- The select takes the branch of the queue. -/
  | take
  /-- The write in progress ends, with what the wire has accepted if it fails. -/
  | finish
  | fail (accepted : Bytes)
  /-- The select takes the branch of the notification. -/
  | notice
  /-- The queue reports that it has no senders. -/
  | disconnect
  /-- Behind the loop the flag is cleared, and the queue is dropped. -/
  | markClosed
  | dropQueue

def World.enqueue (world : World) (cmd : WriteCmd) : World :=
  match world.channel.send cmd with
  | .ok channel => { world with channel, enqueued := world.enqueued ++ [cmd] }
  | .error _ => world

/-- The call of `close` returns early if the flag is already cleared. -/
def World.close (world : World) : World :=
  if world.channel.isOpen then
    { world with
      channel := { world.channel with isOpen := false }
      before := some world.enqueued, notifying := true }
  else { world with before := some world.enqueued }

/-- A notification is lost outside of the select. -/
def Writer.notify : Writer → Writer
  | selecting _ => selecting true
  | writer => writer

/-- `notify_waiters` and `abandon`. -/
def World.notify (world : World) : World :=
  { world with
    channel := { world.channel with session := world.channel.session.abandon }
    notifying := false
    writer := world.writer.notify }

/-- Behind the write of a command. -/
def World.finish (world : World) (cmd : WriteCmd) (version : ProtocolVersion) : World :=
  match encodeCmd version cmd with
  | some bytes =>
      { world with
        writer := .selecting false
        output := world.output ++ bytes
        written := world.written ++ [(cmd, bytes)] }
  | none => { world with writer := .stopped .failed }

def step (world : World) : Action → Option World
  | .send cmd => if world.senders then some (world.enqueue cmd) else none
  | .setVersion version => some { world with channel := { world.channel with version } }
  | .dropHandles =>
      if world.notifying then none else some { world with senders := false }
  | .close => if world.senders ∧ world.before = none then some world.close else none
  | .notify => if world.notifying then some world.notify else none
  | .take =>
      match world.writer, world.channel.commands with
      | .selecting _, .shutdown :: commands =>
          some { world with
            channel := { world.channel with commands }, writer := .stopped .shutdownCommand }
      | .selecting _, cmd :: commands =>
          some { world with
            channel := { world.channel with commands }
            writer := .writing cmd world.channel.version }
      | _, _ => none
  | .finish =>
      match world.writer with
      | .writing cmd version => some (world.finish cmd version)
      | _ => none
  | .fail accepted =>
      match world.writer with
      | .writing _ _ =>
          some { world with writer := .stopped .failed, output := world.output ++ accepted }
      | _ => none
  | .notice =>
      match world.writer with
      | .selecting true => some { world with writer := .stopped .notified }
      | _ => none
  | .disconnect =>
      match world.writer, world.channel.commands, world.senders with
      | .selecting _, [], false => some { world with writer := .stopped .disconnected }
      | _, _, _ => none
  | .markClosed =>
      match world.writer with
      | .stopped _ => some { world with channel := { world.channel with isOpen := false } }
      | _ => none
  | .dropQueue =>
      match world.writer with
      | .stopped _ => some { world with channel := { world.channel with receiving := false } }
      | _ => none

/-- The bytes are the encoding of the command, in the version of its time. -/
def Encodes (entry : WriteCmd × Bytes) : Prop :=
  ∃ version, encodeCmd version entry.1 = some entry.2

/-- An actor that has stopped without a failure and without a `Shutdown` has written, before
anything else, every command enqueued before `close` was called. -/
def Drains (world : World) : Prop :=
  ∀ before reason, world.before = some before → world.writer = .stopped reason →
    reason = .notified ∨ reason = .disconnected →
    ∃ first rest, world.written = first ++ rest ∧ first.map Prod.fst = before ∧
      world.output = (world.written.map Prod.snd).flatten ∧ ∀ entry ∈ world.written, Encodes entry

/-- What was enqueued before `close` was called and is still in the queue. -/
def World.overdue (world : World) : List WriteCmd :=
  (world.before.getD []).drop (world.enqueued.length - world.channel.commands.length)

/-- The select takes the branch of the notification only if nothing in the queue is overdue. -/
def Patient (world : World) : Action → Prop
  | .notice => world.overdue = []
  | _ => True

/-! ## Invariant -/

/-- What was enqueued is what is written, what the actor has in hand, and what is in the queue. -/
structure Intact (world : World) (hand : List WriteCmd) : Prop where
  enqueued : world.enqueued = world.written.map Prod.fst ++ (hand ++ world.channel.commands)
  output : world.output = (world.written.map Prod.snd).flatten

/-- Everything enqueued before `close` was called is written. -/
def Settled (world : World) : Prop :=
  ∀ before, world.before = some before → before <+: world.written.map Prod.fst

def WriterInv (world : World) : Prop :=
  match world.writer with
  | .selecting notified => Intact world [] ∧ (notified = true → world.before.isSome)
  | .writing cmd _ => Intact world [cmd]
  | .stopped .notified => Intact world [] ∧ Settled world ∧ world.before.isSome
  | .stopped .disconnected => Intact world [] ∧ Settled world ∧ world.senders = false
  | .stopped .failed | .stopped .shutdownCommand => True

structure Inv (world : World) : Prop where
  encodes : ∀ entry ∈ world.written, Encodes entry
  before : ∀ before, world.before = some before → before <+: world.enqueued
  notifying : world.notifying = true → world.before.isSome
  writer : WriterInv world

theorem inv_init (session : MqttSession) (version : ProtocolVersion) :
    Inv (init session version) where
  encodes entry hentry := by cases hentry
  before before hbefore := by cases hbefore
  notifying h := by cases h
  writer := ⟨⟨rfl, rfl⟩, fun h ↦ by cases h⟩

section Steps

variable {world next : World}

/-- With nothing overdue, what was enqueued before the close has been written. -/
theorem Intact.settled_of_overdue (h : Intact world []) (hbefore : ∀ before,
      world.before = some before → before <+: world.enqueued)
    (hoverdue : world.overdue = []) : Settled world := by
  intro before hsome
  have hlength : world.enqueued.length - world.channel.commands.length =
      (world.written.map Prod.fst).length := by
    rw [h.enqueued, List.nil_append, List.length_append, Nat.add_sub_cancel]
  rw [World.overdue, hsome, Option.getD_some, hlength, List.drop_eq_nil_iff] at hoverdue
  refine List.prefix_of_prefix_length_le (hbefore before hsome) ?_ hoverdue
  rw [h.enqueued]
  exact List.prefix_append _ _

/-- With an empty queue nothing is overdue. -/
theorem Intact.settled_of_empty (h : Intact world [])
    (hbefore : ∀ before, world.before = some before → before <+: world.enqueued)
    (hcommands : world.channel.commands = []) : Settled world := by
  intro before hsome
  have hall := h.enqueued
  rw [hcommands, List.append_nil, List.append_nil] at hall
  rw [← hall]
  exact hbefore before hsome

/-- A step beside the actor keeps what is known about it. An actor that was notified has seen the
call of `close`, and a disconnected one has no senders. -/
theorem WriterInv.of_frame (h : WriterInv world) (hwriter : next.writer = world.writer)
    (hintact : ∀ hand, Intact world hand → Intact next hand)
    (hbefore : world.before.isSome → next.before.isSome)
    (hnotified : Settled world → world.before.isSome → Settled next)
    (hdisconnected : Settled world → world.senders = false →
      Settled next ∧ next.senders = false) : WriterInv next := by
  unfold WriterInv at h ⊢
  rw [hwriter]
  split at h
  · exact ⟨hintact [] h.1, fun hseen ↦ hbefore (h.2 hseen)⟩
  · exact hintact _ h
  · exact ⟨hintact [] h.1, hnotified h.2.1 h.2.2, hbefore h.2.2⟩
  · exact ⟨hintact [] h.1, hdisconnected h.2.1 h.2.2⟩
  · trivial
  · trivial

/-- A sent command joins the queue, wherever the actor stands. -/
theorem Intact.enqueue {hand : List WriteCmd} (h : Intact world hand) (cmd : WriteCmd) :
    Intact
      { world with
        channel := { world.channel with commands := world.channel.commands ++ [cmd] }
        enqueued := world.enqueued ++ [cmd] } hand where
  enqueued := by
    rw [h.enqueued]
    simp only [List.append_assoc]
  output := h.output

theorem inv_enqueue (h : Inv world) (hsenders : world.senders = true) (cmd : WriteCmd) :
    Inv (world.enqueue cmd) := by
  unfold World.enqueue MqttChannel.send
  split
  · rename_i heq
    split at heq
    · cases heq
      refine ⟨h.encodes, fun before hbefore ↦ ?_, h.notifying, ?_⟩
      · exact (h.before before hbefore).trans (List.prefix_append _ _)
      · refine h.writer.of_frame rfl (fun _ hintact ↦ hintact.enqueue cmd) (fun hseen ↦ hseen)
          (fun hsettled _ ↦ hsettled) fun _ hnone ↦ ?_
        rw [hsenders] at hnone
        cases hnone
    · cases heq
  · exact h

theorem Inv.setChannel (h : Inv world) {channel : MqttChannel}
    (hcommands : channel.commands = world.channel.commands) : Inv { world with channel } := by
  refine ⟨h.encodes, h.before, h.notifying, h.writer.of_frame rfl (fun hand hintact ↦ ?_)
    (fun hseen ↦ hseen) (fun hsettled _ ↦ hsettled) fun hsettled hnone ↦ ⟨hsettled, hnone⟩⟩
  refine ⟨?_, hintact.output⟩
  rw [hcommands]
  exact hintact.enqueued

/-- The first call of `close` comes before the actor can have stopped in an orderly way. -/
theorem inv_called (h : Inv world) (hsenders : world.senders = true)
    (hfirst : world.before = none) (notifying : Bool) :
    Inv { world with before := some world.enqueued, notifying } := by
  refine ⟨h.encodes, fun before hsome ↦ ?_, fun _ ↦ rfl, ?_⟩
  · obtain rfl := Option.some.inj hsome
    exact List.prefix_refl _
  · refine h.writer.of_frame rfl (fun _ hintact ↦ ⟨hintact.enqueued, hintact.output⟩) (fun _ ↦ rfl)
      (fun _ hseen ↦ ?_) fun _ hnone ↦ ?_
    · rw [hfirst] at hseen
      cases hseen
    · rw [hsenders] at hnone
      cases hnone

/-- Only the first close records what was enqueued before it. -/
theorem inv_close (h : Inv world) (hsenders : world.senders = true)
    (hfirst : world.before = none) : Inv world.close := by
  unfold World.close
  split
  · exact (inv_called h hsenders hfirst true).setChannel rfl
  · exact inv_called h hsenders hfirst world.notifying

theorem inv_notified (h : Inv world) (hbefore : world.before.isSome) :
    Inv { world with notifying := false, writer := world.writer.notify } := by
  refine ⟨h.encodes, h.before, fun _ ↦ hbefore, ?_⟩
  have hwriter := h.writer
  unfold WriterInv at hwriter ⊢
  dsimp only
  cases hphase : world.writer with
  | selecting notified =>
    rw [hphase] at hwriter
    exact ⟨⟨hwriter.1.enqueued, hwriter.1.output⟩, fun _ ↦ hbefore⟩
  | writing cmd version =>
    rw [hphase] at hwriter
    exact ⟨hwriter.enqueued, hwriter.output⟩
  | stopped reason =>
    rw [hphase] at hwriter
    cases reason with
    | failed | shutdownCommand => trivial
    | notified | disconnected => exact ⟨⟨hwriter.1.enqueued, hwriter.1.output⟩, hwriter.2⟩

theorem inv_notify (h : Inv world) (hnotifying : world.notifying = true) : Inv world.notify :=
  (inv_notified h (h.notifying hnotifying)).setChannel rfl

/-- The writer takes the first command of the queue. -/
theorem inv_take (h : Inv world) (hstep : step world .take = some next) : Inv next := by
  have hwriter := h.writer
  simp only [step] at hstep
  split at hstep
  · obtain rfl := Option.some.inj hstep
    exact ⟨h.encodes, h.before, h.notifying, trivial⟩
  · rename_i hphase hcommands
    obtain rfl := Option.some.inj hstep
    simp only [WriterInv, hphase] at hwriter
    refine ⟨h.encodes, h.before, h.notifying, ?_, hwriter.1.output⟩
    have hall := hwriter.1.enqueued
    rw [hcommands] at hall
    exact hall
  · cases hstep

/-- A frame that is written in full leaves the overdue part of the queue. -/
theorem inv_finish (h : Inv world) {cmd : WriteCmd} {version : ProtocolVersion}
    (hphase : world.writer = .writing cmd version) : Inv (world.finish cmd version) := by
  have hwriter := h.writer
  simp only [WriterInv, hphase] at hwriter
  unfold World.finish
  split
  · rename_i bytes hbytes
    refine ⟨fun entry hentry ↦ ?_, h.before, h.notifying, ⟨?_, ?_⟩, fun hfalse ↦ ?_⟩
    · rcases List.mem_append.mp hentry with hold | hnew
      · exact h.encodes entry hold
      · obtain rfl := List.mem_singleton.mp hnew
        exact ⟨version, hbytes⟩
    · rw [hwriter.enqueued]
      simp
    · rw [hwriter.output]
      simp
    · cases hfalse
  · exact ⟨h.encodes, h.before, h.notifying, trivial⟩

/-- The writer drains the queue when it notices the close. -/
theorem inv_notice (h : Inv world) (hpatient : Patient world .notice)
    (hstep : step world .notice = some next) : Inv next := by
  have hwriter := h.writer
  simp only [step] at hstep
  split at hstep
  · rename_i hphase
    obtain rfl := Option.some.inj hstep
    simp only [WriterInv, hphase] at hwriter
    have hsettled := hwriter.1.settled_of_overdue h.before hpatient
    exact ⟨h.encodes, h.before, h.notifying, ⟨hwriter.1.enqueued, hwriter.1.output⟩, hsettled,
      hwriter.2 trivial⟩
  · cases hstep

theorem inv_disconnect (h : Inv world) (hstep : step world .disconnect = some next) :
    Inv next := by
  have hwriter := h.writer
  simp only [step] at hstep
  split at hstep
  · rename_i hphase hcommands hsenders
    obtain rfl := Option.some.inj hstep
    simp only [WriterInv, hphase] at hwriter
    have hsettled := hwriter.1.settled_of_empty h.before hcommands
    exact ⟨h.encodes, h.before, h.notifying, ⟨hwriter.1.enqueued, hwriter.1.output⟩, hsettled,
      hsenders⟩
  · cases hstep

theorem inv_dropHandles (h : Inv world) : Inv { world with senders := false } := by
  refine ⟨h.encodes, h.before, h.notifying, ?_⟩
  exact h.writer.of_frame rfl (fun _ hintact ↦ ⟨hintact.enqueued, hintact.output⟩)
    (fun hseen ↦ hseen) (fun hsettled _ ↦ hsettled) fun hsettled _ ↦ ⟨hsettled, rfl⟩

/-- Every step with a patient drain keeps the invariant. -/
theorem inv_step {action : Action} (h : Inv world) (hpatient : Patient world action)
    (hstep : step world action = some next) : Inv next := by
  cases action with
  | send cmd =>
    simp only [step] at hstep
    split at hstep
    · rename_i hsenders
      obtain rfl := Option.some.inj hstep
      exact inv_enqueue h hsenders cmd
    · cases hstep
  | setVersion version =>
    obtain rfl := Option.some.inj hstep
    exact h.setChannel rfl
  | dropHandles =>
    simp only [step] at hstep
    split at hstep
    · cases hstep
    · obtain rfl := Option.some.inj hstep
      exact inv_dropHandles h
  | close =>
    simp only [step] at hstep
    split at hstep
    · rename_i hcall
      obtain rfl := Option.some.inj hstep
      exact inv_close h hcall.1 hcall.2
    · cases hstep
  | notify =>
    simp only [step] at hstep
    split at hstep
    · rename_i hnotifying
      obtain rfl := Option.some.inj hstep
      exact inv_notify h hnotifying
    · cases hstep
  | take => exact inv_take h hstep
  | finish =>
    simp only [step] at hstep
    split at hstep
    · rename_i hphase
      obtain rfl := Option.some.inj hstep
      exact inv_finish h hphase
    · cases hstep
  | fail accepted =>
    simp only [step] at hstep
    split at hstep
    · obtain rfl := Option.some.inj hstep
      exact ⟨h.encodes, h.before, h.notifying, trivial⟩
    · cases hstep
  | notice => exact inv_notice h hpatient hstep
  | disconnect => exact inv_disconnect h hstep
  | markClosed | dropQueue =>
    simp only [step] at hstep
    split at hstep
    · obtain rfl := Option.some.inj hstep
      exact h.setChannel rfl
    · cases hstep

/-- The invariant gives what a drain promises. -/
theorem Inv.drains (h : Inv world) : Drains world := by
  intro before reason hbefore hphase hreason
  have hwriter := h.writer
  obtain ⟨hintact, hsettled⟩ : Intact world [] ∧ Settled world := by
    rcases hreason with rfl | rfl
    · simp only [WriterInv, hphase] at hwriter
      exact ⟨hwriter.1, hwriter.2.1⟩
    · simp only [WriterInv, hphase] at hwriter
      exact ⟨hwriter.1, hwriter.2.1⟩
  obtain ⟨rest, hrest⟩ := hsettled before hbefore
  refine ⟨world.written.take before.length, world.written.drop before.length,
    (List.take_append_drop _ _).symm, ?_, hintact.output, h.encodes⟩
  rw [List.map_take, ← hrest, List.take_left]

/-- An impatient select stops the actor with overdue commands in the queue. -/
theorem not_drains_of_not_patient {action : Action} (h : Inv world)
    (hstep : step world action = some next) (hpatient : ¬ Patient world action) :
    ¬ Drains next := by
  cases action with
  | notice =>
    have hwriter := h.writer
    simp only [step] at hstep
    split at hstep
    · rename_i hphase
      obtain rfl := Option.some.inj hstep
      simp only [WriterInv, hphase] at hwriter
      obtain ⟨before, hbefore⟩ := Option.isSome_iff_exists.mp (hwriter.2 trivial)
      intro hdrains
      obtain ⟨first, rest, hwritten, rfl, -⟩ := hdrains before .notified hbefore rfl (.inl rfl)
      have hwritten : world.written = first ++ rest := hwritten
      apply hpatient
      change world.overdue = []
      rw [World.overdue, hbefore, Option.getD_some, List.drop_eq_nil_iff, hwriter.1.enqueued,
        hwritten]
      simp
      omega
    · cases hstep
  | _ => exact absurd trivial hpatient

end Steps

/-- In every run in which the select is patient, an actor that stops in an orderly way has written
what was enqueued before `close` was called. A select that is not patient breaks this. -/
theorem close_drains_queue (session : MqttSession) (version : ProtocolVersion) :
    (∀ actions world, Run step Patient (init session version) actions world → Drains world) ∧
    (∀ actions world action next, Run step Patient (init session version) actions world →
      step world action = some next → ¬ Patient world action → ¬ Drains next) := by
  have hinv (actions : List Action) (world : World)
      (run : Run step Patient (init session version) actions world) : Inv world :=
    run.invariant (inv_init session version) fun _ _ _ h hpatient hstep ↦ inv_step h hpatient hstep
  constructor
  · intro actions world run
    exact (hinv actions world run).drains
  · intro actions world action next run hstep hpatient
    exact not_drains_of_not_patient (hinv actions world run) hstep hpatient

def isPatient (world : World) : Action → Bool
  | .notice => world.overdue = []
  | _ => true

theorem patient_of_isPatient (world : World) (action : Action)
    (h : isPatient world action = true) : Patient world action := by
  cases action with
  | notice => exact (decide_eq_true_iff (p := world.overdue = [])).mp h
  | _ => trivial

/-- The CONNACK of a server that refuses a connection. -/
def refusal : Packet := .connack { sessionPresent := false, returnCode := .notAuthorized }

/-- The notification of `close` reaches the actor after it has written the refusal. -/
theorem close_drains_refusal :
    ∃ world, Run step Patient (init .new .v311)
        [.send (.packet refusal), .take, .close, .finish, .notify, .notice] world ∧
      world.output = [0x20, 2, 0, 5] ∧ Drains world := by
  obtain ⟨world, run, houtput⟩ : ∃ world, Run step Patient (init .new .v311)
      [.send (.packet refusal), .take, .close, .finish, .notify, .notice] world ∧
      world.output = [0x20, 2, 0, 5] :=
    ⟨_, Run.of_guarded patient_of_isPatient rfl, rfl⟩
  exact ⟨world, run, houtput, (close_drains_queue .new .v311).1 _ _ run⟩

/-- The select takes the notification although the refusal is in the queue. The refusal never
reaches the wire. -/
theorem close_drops_refusal :
    ∃ world, Run step Unrestricted (init .new .v311)
        [.send (.packet refusal), .close, .notify, .notice] world ∧
      world.before = some [.packet refusal] ∧ world.writer = .stopped .notified ∧
      world.output = [] ∧ ¬ Drains world := by
  refine ⟨_, Run.of_foldlM rfl, rfl, rfl, rfl, ?_⟩
  intro hdrains
  obtain ⟨first, rest, hwritten, hfirst, -⟩ := hdrains _ .notified rfl rfl (.inl rfl)
  obtain ⟨rfl, rfl⟩ := List.append_eq_nil_iff.mp hwritten.symm
  cases hfirst

end HotaruMqtt.Drain

import HotaruMqtt.Session.Drain
import HotaruMqtt.Wire.Sequence

/-!
# What the peer of a channel reads

The bytes that the writer actor puts on the wire reach the peer in order, in chunks of any size, and
may break off anywhere. The version of a channel is fixed before its first command, and a write that
fails leaves a part of its frame behind. Whatever the holders of the channel do, and however the
actor stops, the peer reads the first packets that were enqueued: none is lost in between, none
comes twice, none is made up and none overtakes another.
-/

namespace HotaruMqtt

open Library

/-- The packet that a command puts on the wire. -/
def WriteCmd.carried : WriteCmd → Option Packet
  | packet p => some p
  | publish p => some (.publish p)
  | flush | shutdown => none

/-- The packet of the command, without what the version drops, is representable in the version. -/
def WriteCmd.Sendable (version : ProtocolVersion) (cmd : WriteCmd) : Prop :=
  ∀ packet ∈ cmd.carried, Codec.Sendable version packet

namespace Drain

open Codec

/-- What a peer of the version reads of a list of commands. -/
def seen (version : ProtocolVersion) (cmds : List WriteCmd) : List Packet :=
  (cmds.filterMap WriteCmd.carried).map (Packet.seenIn version)

theorem seen_cons (version : ProtocolVersion) (cmd : WriteCmd) (cmds : List WriteCmd) :
    seen version (cmd :: cmds) = seen version [cmd] ++ seen version cmds := by
  rw [seen, seen, seen, ← List.map_append, ← List.filterMap_append, List.singleton_append]

/-- Commands that are enqueued one after another are seen one after another. -/
theorem seen_append (version : ProtocolVersion) (cmds more : List WriteCmd) :
    seen version (cmds ++ more) = seen version cmds ++ seen version more := by
  rw [seen, seen, seen, ← List.map_append, ← List.filterMap_append]

section Frames

variable {version : ProtocolVersion} {cmd : WriteCmd} {packet : Packet} {bytes : Bytes}

/-- Both arms of the writer put the encoding of the packet on the wire. -/
theorem encodeCmd_of_carried (hcarried : cmd.carried = some packet)
    (h : Codec.Sendable version packet) :
    encodeCmd version cmd = (encodePacket packet version).toOption := by
  cases cmd with
  | packet p =>
    obtain rfl := Option.some.inj hcarried
    rfl
  | publish p =>
    obtain rfl := Option.some.inj hcarried
    have hid : p.qos ≠ .atMostOnce → p.packetId.isSome := h.shape.1.mpr
    have hwrite := writePublishOn_eq hid version []
    unfold writePublishOn writePacketOn at hwrite
    simp only [encodeCmd]
    cases hchunks : writePublishPacket p version with
    | error reason =>
      cases hencoded : encodePacket (.publish p) version with
      | error reason' => rfl
      | ok bytes =>
        rw [hchunks, hencoded] at hwrite
        cases hwrite
    | ok chunks =>
      cases hencoded : encodePacket (.publish p) version with
      | error reason =>
        rw [hchunks, hencoded] at hwrite
        cases hwrite
      | ok bytes =>
        rw [hchunks, hencoded] at hwrite
        have hbytes : chunks.foldl (· ++ ·) [] = [] ++ bytes := congrArg Prod.snd hwrite
        rw [List.foldl_append_eq_append] at hbytes
        simpa [Except.toOption] using hbytes
  | flush | shutdown => cases hcarried

/-- The bytes of a command in front of a stream are read as the packet it carries. -/
theorem decodeWhole_append (h : cmd.Sendable version) (hbytes : encodeCmd version cmd = some bytes)
    (rest : Bytes) :
    decodeWhole version (bytes ++ rest) =
      { decodeWhole version rest with
        items := seen version [cmd] ++ (decodeWhole version rest).items } := by
  cases hcarried : cmd.carried with
  | some packet =>
    have hsendable := h packet hcarried
    obtain ⟨frame, hframe, hdecode⟩ := hsendable.exists_frame
    rw [encodeCmd_of_carried hcarried hsendable, hframe] at hbytes
    obtain rfl : frame = bytes := Option.some.inj hbytes
    have hseen : seen version [cmd] = [packet.seenIn version] := by
      simp [seen, hcarried]
    rw [hseen]
    exact Incremental.drain_append_of_item (settled_decodePacketFromBytes version) hdecode rest
  | none =>
    have hseen : seen version [cmd] = [] := by
      simp [seen, hcarried]
    obtain rfl : bytes = [] := by
      cases cmd with
      | packet | publish => cases hcarried
      | flush => exact (Option.some.inj hbytes).symm
      | shutdown => cases hbytes
    rw [hseen]
    rfl

/-- Written commands in front of a stream are read one after the other. -/
theorem decodeWhole_written {written : List (WriteCmd × Bytes)}
    (h : ∀ entry ∈ written, entry.1.Sendable version ∧
      encodeCmd version entry.1 = some entry.2) (rest : Bytes) :
    decodeWhole version ((written.map Prod.snd).flatten ++ rest) =
      { decodeWhole version rest with
        items := seen version (written.map Prod.fst) ++ (decodeWhole version rest).items } := by
  induction written with
  | nil => rfl
  | cons entry written ih =>
    obtain ⟨hsendable, hbytes⟩ := h entry List.mem_cons_self
    have hrest := ih fun later hlater ↦ h later (List.mem_cons_of_mem entry hlater)
    rw [List.map_cons, List.flatten_cons, List.append_assoc, decodeWhole_append hsendable hbytes,
      hrest]
    simp only [List.map_cons, seen_cons version entry.1 (written.map Prod.fst), List.append_assoc]

/-- A part of the bytes of a command is not read as a packet. -/
theorem decodeWhole_part {part more : Bytes} (h : cmd.Sendable version)
    (hbytes : encodeCmd version cmd = some (part ++ more)) (hmore : more ≠ []) :
    decodeWhole version part = ⟨[], none, part⟩ := by
  cases hcarried : cmd.carried with
  | some packet =>
    have hsendable := h packet hcarried
    obtain ⟨frame, hframe, hdecode⟩ := hsendable.exists_frame
    rw [encodeCmd_of_carried hcarried hsendable, hframe] at hbytes
    obtain rfl : frame = part ++ more := Option.some.inj hbytes
    have hwhole := hdecode []
    rw [List.append_nil] at hwhole
    have hsettled := settled_decodePacketFromBytes version
    exact Incremental.drain_of_wait hsettled (Incremental.wait_of_cut hsettled hwhole hmore)
  | none =>
    cases cmd with
    | packet | publish => cases hcarried
    | flush =>
      have hnil : part ++ more = [] := (Option.some.inj hbytes).symm
      exact absurd (List.append_eq_nil_iff.mp hnil).2 hmore
    | shutdown => cases hbytes

theorem not_readPacket_part {part more : Bytes} (h : cmd.Sendable version)
    (hbytes : encodeCmd version cmd = some (part ++ more)) (hmore : more ≠ []) (rest : Bytes) :
    readPacket part version ≠ .ok (packet, rest) := by
  intro hread
  have hitems := congrArg (·.items) (decodeWhole_of_readPacket hread)
  rw [decodeWhole_part h hbytes hmore] at hitems
  cases hitems

end Frames

/-- The version is set before the first command, every command is representable in it, and a write
that fails has put a part of its bytes on the wire. -/
def Orderly (world : World) : Action → Prop
  | .send cmd => cmd.Sendable world.channel.version
  | .setVersion _ => world.enqueued = []
  | .fail accepted => ∀ cmd version, world.writer = .writing cmd version →
      ∃ more, more ≠ [] ∧ encodeCmd version cmd = some (accepted ++ more)
  | _ => True

/-- What the actor has taken from the queue, and what it has put on the wire of it. -/
def Holds (world : World) (hand : List WriteCmd) (part : Bytes) : Prop :=
  match world.writer with
  | .selecting _ => hand = [] ∧ part = []
  | .writing cmd version => version = world.channel.version ∧ hand = [cmd] ∧ part = []
  | .stopped _ => part = [] ∨ ∃ cmd more, hand = [cmd] ∧ more ≠ [] ∧
      encodeCmd world.channel.version cmd = some (part ++ more)

/-- What was enqueued is written, in the hand of the actor or in the queue. -/
structure Accounts (world : World) (hand : List WriteCmd) (part : Bytes) : Prop where
  enqueued : world.enqueued = world.written.map Prod.fst ++ (hand ++ world.channel.commands)
  output : world.output = (world.written.map Prod.snd).flatten ++ part
  holds : Holds world hand part

structure Faithful (world : World) : Prop where
  sendable : ∀ cmd ∈ world.enqueued, cmd.Sendable world.channel.version
  written : ∀ entry ∈ world.written, encodeCmd world.channel.version entry.1 = some entry.2
  accounts : ∃ hand part, Accounts world hand part

/-- Nothing is enqueued and nothing is written at the start. -/
theorem faithful_init (session : MqttSession) (version : ProtocolVersion) :
    Faithful (init session version) where
  sendable cmd hcmd := by cases hcmd
  written entry hentry := by cases hentry
  accounts := ⟨[], [], rfl, rfl, rfl, rfl⟩

section Steps

variable {world next : World}

/-- A step beside the queue, the actor and the wire. -/
theorem Faithful.of_frame (h : Faithful world) (hversion : next.channel.version =
      world.channel.version) (hcommands : next.channel.commands = world.channel.commands)
    (henqueued : next.enqueued = world.enqueued) (hwritten : next.written = world.written)
    (houtput : next.output = world.output)
    (hwriter : ∀ hand part, Holds world hand part → Holds next hand part) : Faithful next := by
  obtain ⟨hand, part, haccounts⟩ := h.accounts
  refine ⟨?_, ?_, hand, part, ?_, ?_, hwriter hand part haccounts.holds⟩
  · rw [hversion, henqueued]
    exact h.sendable
  · rw [hversion, hwritten]
    exact h.written
  · rw [henqueued, hwritten, hcommands]
    exact haccounts.enqueued
  · rw [houtput, hwritten]
    exact haccounts.output

/-- What the writer holds depends on the version and on the writer only. -/
theorem holds_congr (hversion : next.channel.version = world.channel.version)
    (hwriter : next.writer = world.writer) (hand : List WriteCmd) (part : Bytes)
    (h : Holds world hand part) : Holds next hand part := by
  unfold Holds at h ⊢
  rw [hwriter, hversion]
  exact h

/-- An actor that stops in the select has nothing in its hand. -/
theorem holds_stop {notified : Bool} (hselecting : world.writer = .selecting notified)
    {reason : Stop} (hnext : next.writer = .stopped reason) (hand : List WriteCmd) (part : Bytes)
    (h : Holds world hand part) : Holds next hand part := by
  unfold Holds at h ⊢
  rw [hselecting] at h
  rw [hnext]
  exact .inl h.2

theorem faithful_enqueue (h : Faithful world) {cmd : WriteCmd}
    (hcmd : cmd.Sendable world.channel.version) : Faithful (world.enqueue cmd) := by
  unfold World.enqueue MqttChannel.send
  split
  · rename_i heq
    split at heq
    · cases heq
      obtain ⟨hand, part, haccounts⟩ := h.accounts
      refine ⟨?_, h.written, hand, part, ?_, haccounts.output, haccounts.holds⟩
      · intro other hother
        rcases List.mem_append.mp hother with hold | hnew
        · exact h.sendable other hold
        · obtain rfl := List.mem_singleton.mp hnew
          exact hcmd
      · rw [haccounts.enqueued]
        simp only [List.append_assoc]
    · cases heq
  · exact h

/-- The version may change as long as nothing is enqueued. -/
theorem faithful_setVersion (h : Faithful world) (hfirst : world.enqueued = [])
    (version : ProtocolVersion) :
    Faithful { world with channel := { world.channel with version } } := by
  obtain ⟨hand, part, haccounts⟩ := h.accounts
  have hnil := haccounts.enqueued
  rw [hfirst] at hnil
  obtain ⟨hwritten, hrest⟩ := List.append_eq_nil_iff.mp hnil.symm
  obtain ⟨rfl, -⟩ := List.append_eq_nil_iff.mp hrest
  refine ⟨?_, ?_, [], part, haccounts.enqueued, haccounts.output, ?_⟩
  · intro cmd hcmd
    rw [show world.enqueued = [] from hfirst] at hcmd
    cases hcmd
  · intro entry hentry
    rw [List.map_eq_nil_iff.mp hwritten] at hentry
    cases hentry
  · have hholds := haccounts.holds
    unfold Holds at hholds ⊢
    split at hholds
    · rename_i hwriter
      rw [hwriter]
      exact hholds
    · cases hholds.2.1
    · rename_i hwriter
      rw [hwriter]
      rcases hholds with hpart | ⟨cmd, more, hhand, -⟩
      · exact .inl hpart
      · cases hhand

theorem faithful_take (h : Faithful world) (hstep : step world .take = some next) :
    Faithful next := by
  obtain ⟨hand, part, haccounts⟩ := h.accounts
  have hall := haccounts.enqueued
  have hholds := haccounts.holds
  simp only [step] at hstep
  split at hstep
  · rename_i hwriter hcommands
    obtain rfl := Option.some.inj hstep
    simp only [Holds, hwriter] at hholds
    obtain ⟨rfl, rfl⟩ := hholds
    rw [hcommands] at hall
    exact ⟨h.sendable, h.written, [.shutdown], [], hall, haccounts.output, .inl rfl⟩
  · rename_i cmd commands _ hwriter hcommands
    obtain rfl := Option.some.inj hstep
    simp only [Holds, hwriter] at hholds
    obtain ⟨rfl, rfl⟩ := hholds
    rw [hcommands] at hall
    exact ⟨h.sendable, h.written, [cmd], [], hall, haccounts.output, rfl, rfl, rfl⟩
  · cases hstep

/-- A frame that is written in full is the next of the queue. -/
theorem faithful_finish (h : Faithful world) {cmd : WriteCmd} {version : ProtocolVersion}
    (hwriter : world.writer = .writing cmd version) : Faithful (world.finish cmd version) := by
  obtain ⟨hand, part, haccounts⟩ := h.accounts
  have hholds := haccounts.holds
  simp only [Holds, hwriter] at hholds
  obtain ⟨rfl, rfl, rfl⟩ := hholds
  have hall := haccounts.enqueued
  have houtput := haccounts.output
  rw [List.append_nil] at houtput
  unfold World.finish
  split
  · rename_i bytes hbytes
    refine ⟨h.sendable, ?_, [], [], ?_, ?_, rfl, rfl⟩
    · intro entry hentry
      rcases List.mem_append.mp hentry with hold | hnew
      · exact h.written entry hold
      · obtain rfl := List.mem_singleton.mp hnew
        exact hbytes
    · rw [hall, List.map_append, List.nil_append, List.append_assoc]
      rfl
    · rw [houtput, List.map_append, List.flatten_append, List.append_nil]
      simp
  · exact ⟨h.sendable, h.written, [cmd], [], hall, haccounts.output, .inl rfl⟩

/-- A write that fails leaves a proper part of the frame on the wire. -/
theorem faithful_fail (h : Faithful world) {cmd : WriteCmd} {version : ProtocolVersion}
    (hwriter : world.writer = .writing cmd version) {accepted more : Bytes} (hmore : more ≠ [])
    (hbytes : encodeCmd version cmd = some (accepted ++ more)) :
    Faithful { world with writer := .stopped .failed, output := world.output ++ accepted } := by
  obtain ⟨hand, part, haccounts⟩ := h.accounts
  have hholds := haccounts.holds
  simp only [Holds, hwriter] at hholds
  obtain ⟨rfl, rfl, rfl⟩ := hholds
  refine ⟨h.sendable, h.written, [cmd], accepted, haccounts.enqueued, ?_,
    .inr ⟨cmd, more, rfl, hmore, hbytes⟩⟩
  have houtput := haccounts.output
  rw [List.append_nil] at houtput
  exact congrArg (· ++ accepted) houtput

theorem faithful_notify (h : Faithful world) : Faithful world.notify := by
  refine h.of_frame rfl rfl rfl rfl rfl ?_
  intro hand part hholds
  unfold Holds World.notify at *
  cases hwriter : world.writer with
  | selecting notified =>
    rw [hwriter] at hholds
    exact hholds
  | writing cmd version =>
    rw [hwriter] at hholds
    exact hholds
  | stopped reason =>
    rw [hwriter] at hholds
    exact hholds

theorem faithful_close (h : Faithful world) : Faithful world.close := by
  unfold World.close
  split
  · exact h.of_frame rfl rfl rfl rfl rfl (holds_congr rfl rfl)
  · exact h.of_frame rfl rfl rfl rfl rfl (holds_congr rfl rfl)

/-- Every orderly step keeps queue, writer and wire in line. -/
theorem faithful_step {action : Action} (h : Faithful world) (horderly : Orderly world action)
    (hstep : step world action = some next) : Faithful next := by
  cases action with
  | send cmd =>
    obtain ⟨-, hnext⟩ := Option.ite_none_right_eq_some.mp hstep
    obtain rfl := Option.some.inj hnext
    exact faithful_enqueue h horderly
  | setVersion version =>
    obtain rfl := Option.some.inj hstep
    exact faithful_setVersion h horderly version
  | dropHandles =>
    obtain ⟨-, hnext⟩ := Option.ite_none_left_eq_some.mp hstep
    obtain rfl := Option.some.inj hnext
    exact h.of_frame rfl rfl rfl rfl rfl (holds_congr rfl rfl)
  | close =>
    obtain ⟨-, hnext⟩ := Option.ite_none_right_eq_some.mp hstep
    obtain rfl := Option.some.inj hnext
    exact faithful_close h
  | notify =>
    obtain ⟨-, hnext⟩ := Option.ite_none_right_eq_some.mp hstep
    obtain rfl := Option.some.inj hnext
    exact faithful_notify h
  | take => exact faithful_take h hstep
  | finish =>
    simp only [step] at hstep
    split at hstep
    · rename_i hwriter
      obtain rfl := Option.some.inj hstep
      exact faithful_finish h hwriter
    · cases hstep
  | fail accepted =>
    simp only [step] at hstep
    split at hstep
    · rename_i cmd version hwriter
      obtain rfl := Option.some.inj hstep
      obtain ⟨more, hmore, hbytes⟩ := horderly cmd version hwriter
      exact faithful_fail h hwriter hmore hbytes
    · cases hstep
  | notice =>
    simp only [step] at hstep
    split at hstep
    · rename_i hwriter
      obtain rfl := Option.some.inj hstep
      exact h.of_frame rfl rfl rfl rfl rfl (holds_stop hwriter rfl)
    · cases hstep
  | disconnect =>
    simp only [step] at hstep
    split at hstep
    · rename_i hwriter _ _
      obtain rfl := Option.some.inj hstep
      exact h.of_frame rfl rfl rfl rfl rfl (holds_stop hwriter rfl)
    · cases hstep
  | markClosed | dropQueue =>
    simp only [step] at hstep
    split at hstep
    · obtain rfl := Option.some.inj hstep
      exact h.of_frame rfl rfl rfl rfl rfl (holds_congr rfl rfl)
    · cases hstep

end Steps

section Peer

variable {world : World}

/-- The whole output is read as the commands whose writes are complete. -/
theorem Faithful.decodeWhole_output (h : Faithful world) :
    (decodeWhole world.channel.version world.output).fault = none ∧
      (decodeWhole world.channel.version world.output).items =
        seen world.channel.version (world.written.map Prod.fst) := by
  obtain ⟨hand, part, haccounts⟩ := h.accounts
  have hwritten (entry : WriteCmd × Bytes) (hentry : entry ∈ world.written) :
      entry.1.Sendable world.channel.version ∧
        encodeCmd world.channel.version entry.1 = some entry.2 := by
    refine ⟨h.sendable entry.1 ?_, h.written entry hentry⟩
    rw [haccounts.enqueued]
    exact List.mem_append_left _ (List.mem_map_of_mem hentry)
  have hpart : decodeWhole world.channel.version part = ⟨[], none, part⟩ := by
    have hnil : decodeWhole world.channel.version [] = ⟨[], none, []⟩ :=
      Incremental.drain_nil (settled_decodePacketFromBytes world.channel.version)
    have hholds := haccounts.holds
    unfold Holds at hholds
    split at hholds
    · rw [hholds.2, hnil]
    · rw [hholds.2.2, hnil]
    · rcases hholds with rfl | ⟨cmd, more, rfl, hmore, hbytes⟩
      · exact hnil
      · refine decodeWhole_part (h.sendable cmd ?_) hbytes hmore
        rw [haccounts.enqueued]
        simp
  rw [haccounts.output, decodeWhole_written hwritten, hpart]
  exact ⟨rfl, List.append_nil _⟩

/-- The writer writes the queue in its order. -/
theorem Faithful.written_prefix (h : Faithful world) :
    world.written.map Prod.fst <+: world.enqueued := by
  obtain ⟨hand, part, haccounts⟩ := h.accounts
  rw [haccounts.enqueued]
  exact List.prefix_append _ _

/-- An idle writer with an empty queue has written everything. -/
theorem Faithful.written_eq (h : Faithful world) {notified : Bool}
    (hwriter : world.writer = .selecting notified) (hempty : world.channel.commands = []) :
    world.written.map Prod.fst = world.enqueued := by
  obtain ⟨hand, part, haccounts⟩ := h.accounts
  have hholds := haccounts.holds
  simp only [Holds, hwriter] at hholds
  rw [haccounts.enqueued, hholds.1, hempty, List.append_nil, List.append_nil]

end Peer

/-- Of whatever has arrived of the output, in whatever chunks, the peer reads the first packets that
were enqueued. From all of the output it reads the packets whose writes are complete, and from an
actor that waits on an empty queue it has read everything. -/
theorem peer_reads_in_order {session : MqttSession} {version : ProtocolVersion}
    {actions : List Action} {world : World}
    (run : Run step Orderly (init session version) actions world) {chunks : List Bytes}
    (harrived : chunks.flatten <+: world.output) :
    let peer := decodeChunks world.channel.version chunks
    peer.fault = none ∧
    peer.items <+: seen world.channel.version world.enqueued ∧
    (chunks.flatten = world.output →
      peer.items = seen world.channel.version (world.written.map Prod.fst) ∧
      ∀ notified, world.writer = .selecting notified → world.channel.commands = [] →
        peer.items = seen world.channel.version world.enqueued) := by
  intro peer
  have hfaithful : Faithful world :=
    run.invariant (faithful_init session version) fun _ _ _ h horderly hstep ↦
      faithful_step h horderly hstep
  have hsettled := settled_decodePacketFromBytes world.channel.version
  have hpeer : peer = decodeWhole world.channel.version chunks.flatten :=
    Incremental.feedAll_eq_drain hsettled chunks
  obtain ⟨hfault, hitems⟩ := hfaithful.decodeWhole_output
  obtain ⟨more, hmore⟩ := harrived
  rw [← hmore] at hfault hitems
  obtain ⟨hnone, hfirst⟩ := Incremental.drain_cut hsettled chunks.flatten more hfault
  have hwritten : seen world.channel.version (world.written.map Prod.fst) <+:
      seen world.channel.version world.enqueued := by
    obtain ⟨rest, hrest⟩ := hfaithful.written_prefix
    rw [← hrest, seen_append]
    exact List.prefix_append _ _
  rw [hpeer]
  refine ⟨hnone, ?_, ?_⟩
  · exact (hitems ▸ hfirst).trans hwritten
  · intro hall
    obtain rfl : more = [] := by
      rw [hall] at hmore
      exact List.append_right_eq_self.mp hmore
    rw [List.append_nil] at hitems
    refine ⟨hitems, ?_⟩
    intro notified hwriter hempty
    rw [hitems, hfaithful.written_eq hwriter hempty]

/-- The write of a PINGRESP fails behind its first byte; the PINGREQ before it is read. -/
theorem peer_reads_in_order_broken :
    ∃ world, Run step Orderly (init .new .v5)
        [.send (.packet .pingreq), .send (.packet .pingresp), .take, .finish, .take,
          .fail [0xD0]] world ∧
      world.enqueued = [.packet .pingreq, .packet .pingresp] ∧
      (decodeChunks .v5 [[0xC0], [0x00, 0xD0]]).items = [.pingreq] := by
  have hsendable (packet : Packet) (h : Sendable .v5 packet) (world : World)
      (hversion : world.channel.version = .v5) : Orderly world (.send (.packet packet)) := by
    change (WriteCmd.packet packet).Sendable world.channel.version
    rw [hversion]
    intro packet' hpacket
    obtain rfl := Option.some.inj hpacket
    exact h
  have hpingreq := hsendable .pingreq (.of_body rfl trivial (by decide) (by decide))
  have hpingresp := hsendable .pingresp (.of_body rfl trivial (by decide) (by decide))
  have htake (world : World) : Orderly world .take := trivial
  have hfinish (world : World) : Orderly world .finish := trivial
  have hfail : encodeCmd .v5 (.packet .pingresp) = some ([0xD0] ++ [0x00]) := rfl
  obtain ⟨world, run, henqueued, houtput, hwritten, hversion⟩ :
      ∃ world, Run step Orderly (init .new .v5)
          [.send (.packet .pingreq), .send (.packet .pingresp), .take, .finish, .take,
            .fail [0xD0]] world ∧
        world.enqueued = [.packet .pingreq, .packet .pingresp] ∧
        world.output = [0xC0, 0x00, 0xD0] ∧
        world.written.map Prod.fst = [.packet .pingreq] ∧ world.channel.version = .v5 := by
    have sent : Run step Orderly (init .new .v5)
        [.send (.packet .pingreq), .send (.packet .pingresp)] _ :=
      .tail (.tail .refl (hpingreq _ rfl) rfl) (hpingresp _ rfl) rfl
    have written : Run step Orderly (init .new .v5)
        [.send (.packet .pingreq), .send (.packet .pingresp), .take, .finish, .take] _ :=
      .tail (.tail (.tail sent (htake _) rfl) (hfinish _) rfl) (htake _) rfl
    refine ⟨_, written.tail ?_ rfl, rfl, rfl, rfl, rfl⟩
    intro cmd version hwriter
    obtain ⟨rfl, rfl⟩ := Writer.writing.inj hwriter
    exact ⟨[0x00], List.cons_ne_nil _ _, hfail⟩
  have harrived : [[0xC0], [0x00, 0xD0]].flatten = world.output := houtput.symm
  have hprefix : [[0xC0], [0x00, 0xD0]].flatten <+: world.output := by
    rw [harrived]
  obtain ⟨-, -, hall⟩ := peer_reads_in_order run hprefix
  refine ⟨world, run, henqueued, ?_⟩
  rw [hversion] at hall
  rw [(hall harrived).1, hwritten]
  rfl

end Drain

end HotaruMqtt

import HotaruMqtt.Protocol.Inbound

/-!
# The handover of QoS 2 messages between two parties

A sender and a receiver are joined by two streams that keep the order of packets. The receiver
answers every PUBLISH of QoS 2 with a PUBREC and every PUBREL with a PUBCOMP, and the sender answers
every PUBREC with a PUBREL, each as long as its writer is alive. If no identifier is used twice,
the receiver hands on the first of the messages that were sent, in the order in which they were
sent and each of them once. Either party of a connection is the sender of one handover and the
receiver of another.
-/

namespace HotaruMqtt

open Inbound

namespace Handover

/-- The identifier of a handshake that a packet opens. -/
def opens : Packet → Option PacketId
  | .publish p => if p.qos = .exactlyOnce then p.packetId else none
  | _ => none

def closes : Packet → Option PacketId
  | .pubrel id => some id
  | _ => none

def receipt : Packet → Option PacketId
  | .pubrec id => some id
  | _ => none

def completion : Packet → Option PacketId
  | .pubcomp id => some id
  | _ => none

/-- The message of a PUBLISH that opens a handshake. -/
def message : Packet → Option PublishPacket
  | .publish p => if p.qos = .exactlyOnce ∧ p.packetId.isSome then some p else none
  | _ => none

def messages (packets : List Packet) : List PublishPacket := packets.filterMap message

theorem messages_append (packets more : List Packet) :
    messages (packets ++ more) = messages packets ++ messages more :=
  List.filterMap_append

/-- A packet that opens an exchange is a QoS 2 message with its identifier. -/
theorem message_of_opens {packet : Packet} {id : PacketId} (h : opens packet = some id) :
    ∃ p, packet = .publish p ∧ p.qos = .exactlyOnce ∧ p.packetId = some id ∧
      message packet = some p := by
  cases packet with
  | publish p =>
    rw [opens, Option.ite_none_right_eq_some] at h
    obtain ⟨hqos, hid⟩ := h
    refine ⟨p, rfl, hqos, hid, if_pos ⟨hqos, ?_⟩⟩
    rw [hid]
    rfl
  | _ => cases h

theorem message_of_opens_eq_none {packet : Packet} (h : opens packet = none) :
    message packet = none := by
  cases packet with
  | publish p =>
    rw [opens] at h
    apply if_neg
    rintro ⟨hqos, hid⟩
    rw [if_pos hqos] at h
    rw [h] at hid
    cases hid
  | _ => rfl

/-- The messages carry the identifiers that are opened. -/
theorem map_packetId_messages (packets : List Packet) :
    (messages packets).map PublishPacket.packetId = (packets.filterMap opens).map some := by
  induction packets with
  | nil => rfl
  | cons packet packets ih =>
    unfold messages at ih ⊢
    cases hopens : opens packet with
    | none =>
      rw [List.filterMap_cons_none (message_of_opens_eq_none hopens),
        List.filterMap_cons_none hopens, ih]
    | some id =>
      obtain ⟨p, -, -, hid, hmessage⟩ := message_of_opens hopens
      rw [List.filterMap_cons_some hmessage, List.filterMap_cons_some hopens, List.map_cons,
        List.map_cons, ih, hid]

theorem concerns_eq_true_iff {id : PacketId} {packet : Packet} :
    concerns id packet = true ↔ opens packet = some id ∨ closes packet = some id := by
  cases packet <;> simp [concerns, opens, closes]

/-- A message whose identifier is opened once and not closed is the one that a PUBREL releases. -/
theorem latestPublish_of_open {history : List Packet} {p : PublishPacket} {id : PacketId}
    (hmessage : p ∈ messages history) (hid : p.packetId = some id)
    (hnodup : (history.filterMap opens).Nodup) (hclosed : id ∉ history.filterMap closes) :
    latestPublish history id = some p := by
  induction history using List.reverseRecOn with
  | nil => cases hmessage
  | append_singleton history packet ih =>
    rw [List.filterMap_append, List.mem_append, not_or] at hclosed
    rw [List.filterMap_append] at hnodup
    rw [messages_append, List.mem_append] at hmessage
    have hopened (h : p ∈ messages history) : id ∈ history.filterMap opens := by
      have hmem := List.mem_map_of_mem (f := PublishPacket.packetId) h
      rw [hid, map_packetId_messages] at hmem
      obtain ⟨id', hmem', heq⟩ := List.mem_map.mp hmem
      rwa [← Option.some.inj heq]
    have hcloses : closes packet ≠ some id := by
      intro h
      apply hclosed.2
      rw [List.filterMap_cons_some h]
      exact List.mem_cons_self
    rw [latestPublish_append]
    cases hopens : opens packet with
    | none =>
      have hnot : ¬ concerns id packet = true := by
        rw [concerns_eq_true_iff, hopens]
        rintro (h | h)
        · cases h
        · exact hcloses h
      have hnothing : messages [packet] = [] :=
        List.filterMap_cons_none (message_of_opens_eq_none hopens)
      rw [hnothing, List.mem_nil_iff, or_false] at hmessage
      rw [if_neg hnot]
      exact ih hmessage hnodup.of_append_left hclosed.1
    | some opened =>
      obtain ⟨p', rfl, -, hid', hmessage'⟩ := message_of_opens hopens
      have hsingle : messages [.publish p'] = [p'] := List.filterMap_cons_some hmessage'
      rw [hsingle, List.mem_singleton] at hmessage
      rw [List.filterMap_cons_some hopens, List.filterMap_nil] at hnodup
      have hfresh : opened ∉ history.filterMap opens := by
        intro hmem
        exact (List.nodup_append.mp hnodup).2.2 opened hmem opened List.mem_cons_self rfl
      obtain hmessage | rfl := hmessage
      · have hne : opened ≠ id := fun heq ↦ hfresh (heq ▸ hopened hmessage)
        have hnot : ¬ concerns id (.publish p') = true := by
          rw [concerns_eq_true_iff, hopens]
          rintro (h | h)
          · exact hne (Option.some.inj h)
          · exact hcloses h
        rw [if_neg hnot]
        exact ih hmessage hnodup.of_append_left hclosed.1
      · have hsame : concerns id (.publish p) = true := by
          rw [concerns_eq_true_iff, hopens, ← hid, hid']
          exact .inl rfl
        rw [if_pos hsame]

/-- Every PUBREL so far has released the next of the messages. -/
structure Ordered (history : List Packet) : Prop where
  closed : history.filterMap closes <+: history.filterMap opens
  released : handshakes history = (messages history).take (history.filterMap closes).length

theorem ordered_nil : Ordered [] := ⟨List.nil_prefix, rfl⟩

namespace Ordered

variable {history : List Packet} {packet : Packet} {id : PacketId}

/-- At most as many exchanges are closed as messages were sent. -/
theorem length_closed_le (h : Ordered history) :
    (history.filterMap closes).length ≤ (messages history).length := by
  have hlength := congrArg List.length (map_packetId_messages history)
  rw [List.length_map, List.length_map] at hlength
  rw [hlength]
  exact h.closed.length_le

theorem append (h : Ordered history) (hcloses : closes packet = none) :
    Ordered (history ++ [packet]) := by
  have hnothing : [packet].filterMap closes = [] := List.filterMap_cons_none hcloses
  have hreleased : releasedBy history packet = none := by
    cases packet with
    | pubrel => cases hcloses
    | _ => rfl
  constructor
  · rw [List.filterMap_append, hnothing, List.append_nil, List.filterMap_append]
    exact h.closed.trans (List.prefix_append _ _)
  · rw [handshakes_append, hreleased, Option.toList_none, List.append_nil, List.filterMap_append,
      hnothing, List.append_nil, messages_append, List.take_append_of_le_length h.length_closed_le,
      h.released]

/-- A PUBREL for the message behind those that are released. -/
theorem release (h : Ordered history) (hnodup : (history.filterMap opens).Nodup)
    (hnext : history.filterMap closes ++ [id] <+: history.filterMap opens) :
    Ordered (history ++ [.pubrel id]) := by
  have hopened : (history ++ [Packet.pubrel id]).filterMap opens = history.filterMap opens := by
    rw [List.filterMap_append, List.filterMap_cons_none rfl, List.filterMap_nil, List.append_nil]
  have hclosed :
      (history ++ [Packet.pubrel id]).filterMap closes = history.filterMap closes ++ [id] :=
    List.filterMap_append
  have hmessages : messages (history ++ [.pubrel id]) = messages history := by
    rw [messages_append]
    exact List.append_nil _
  obtain ⟨later, hlater⟩ := hnext
  have hids := map_packetId_messages history
  rw [← hlater, List.map_append, List.map_append] at hids
  obtain ⟨front, back, hsplit, hfront, hback⟩ := List.map_eq_append_iff.mp hids
  obtain ⟨first, second, rfl, hfirst, hsecond⟩ := List.map_eq_append_iff.mp hfront
  obtain ⟨p, rfl, hid⟩ : ∃ p, second = [p] ∧ p.packetId = some id := by
    obtain ⟨p, rfl⟩ : ∃ p, second = [p] := by
      apply List.length_eq_one_iff.mp
      simpa using congrArg List.length hsecond
    exact ⟨p, rfl, List.head_eq_of_cons_eq hsecond⟩
  have hlength : first.length = (history.filterMap closes).length := by
    simpa using congrArg List.length hfirst
  have hfresh : id ∉ history.filterMap closes := by
    rw [← hlater, List.append_assoc] at hnodup
    intro hmem
    exact (List.nodup_append.mp hnodup).2.2 id hmem id List.mem_cons_self rfl
  have hlatest : latestPublish history id = some p := by
    apply latestPublish_of_open _ hid hnodup hfresh
    rw [hsplit]
    simp
  constructor
  · rw [hopened, hclosed]
    exact ⟨later, hlater⟩
  · have hreleased : releasedBy history (.pubrel id) = some p := hlatest
    have hbefore : (first ++ [p] ++ back).take first.length = first := by
      rw [List.append_assoc, List.take_left]
    have hbehind : (first ++ [p] ++ back).take (first.length + 1) = first ++ [p] :=
      List.take_left' List.length_append
    rw [handshakes_append, hreleased, h.released, hclosed, hmessages, hsplit, List.length_append,
      List.length_singleton, ← hlength, hbefore, hbehind, Option.toList_some]

end Ordered

end Handover

open Handover

/-! ## Two parties -/

/-- What the sender has enqueued and what of it has arrived, what the receiver has enqueued and what
of it has come back. A party whose writer is dead enqueues nothing any more. -/
structure Handover (senderLive receiverLive : Bool) (sent arrived replied returned : List Packet) :
    Prop where
  arrival : arrived <+: sent
  homecoming : returned <+: replied
  receipts : replied.filterMap receipt <+: arrived.filterMap opens
  completions : replied.filterMap completion <+: arrived.filterMap closes
  released : sent.filterMap closes <+: returned.filterMap receipt
  answered : receiverLive = true → replied.filterMap receipt = arrived.filterMap opens ∧
    replied.filterMap completion = arrived.filterMap closes
  followed : senderLive = true → sent.filterMap closes = returned.filterMap receipt
  ordered : (sent.filterMap opens).Nodup → ∀ before, before <+: sent → Ordered before

/-- What is sent by a party whose writer may be dead. -/
def Handover.ifLive {α : Type} (live : Bool) (added : List α) : List α :=
  if live then added else []

namespace Handover

variable {senderLive receiverLive : Bool} {sent arrived replied returned : List Packet}
  {packet : Packet}

theorem handover_nil (senderLive receiverLive : Bool) :
    Handover senderLive receiverLive [] [] [] [] where
  arrival := List.prefix_rfl
  homecoming := List.prefix_rfl
  receipts := List.prefix_rfl
  completions := List.prefix_rfl
  released := List.prefix_rfl
  answered _ := ⟨rfl, rfl⟩
  followed _ := rfl
  ordered _ before hbefore := by
    rw [List.prefix_nil.mp hbefore]
    exact ordered_nil

/-- What has arrived stays when the sender is gone. -/
theorem senderDies (h : Handover senderLive receiverLive sent arrived replied returned) :
    Handover false receiverLive sent arrived replied returned :=
  { h with followed := fun hlive ↦ by cases hlive }

/-- What was handed on stays when the receiver is gone. -/
theorem receiverDies (h : Handover senderLive receiverLive sent arrived replied returned) :
    Handover senderLive false sent arrived replied returned :=
  { h with answered := fun hlive ↦ by cases hlive }

/-- The closed handshakes are the first of those that were opened. -/
theorem closes_prefix (h : Handover senderLive receiverLive sent arrived replied returned) :
    returned.filterMap receipt <+: sent.filterMap opens :=
  calc
    returned.filterMap receipt <+: replied.filterMap receipt := h.homecoming.filterMap receipt
    _ <+: arrived.filterMap opens := h.receipts
    _ <+: sent.filterMap opens := h.arrival.filterMap opens

/-- The sender enqueues a packet that is no PUBREL. -/
theorem send (h : Handover senderLive receiverLive sent arrived replied returned)
    (hcloses : closes packet = none) :
    Handover senderLive receiverLive (sent ++ [packet]) arrived replied returned := by
  have hsame : (sent ++ [packet]).filterMap closes = sent.filterMap closes := by
    rw [List.filterMap_append, List.filterMap_cons_none hcloses, List.filterMap_nil,
      List.append_nil]
  refine { h with
    arrival := h.arrival.trans (List.prefix_append _ _)
    released := hsame ▸ h.released
    followed := fun hlive ↦ hsame ▸ h.followed hlive
    ordered := ?_ }
  intro hnodup before hbefore
  rw [List.filterMap_append] at hnodup
  have hordered := h.ordered hnodup.of_append_left
  obtain rfl | hbefore := List.prefix_concat_iff.mp hbefore
  · exact (hordered sent List.prefix_rfl).append hcloses
  · exact hordered before hbefore

/-- Packets that close nothing may be sent at any time. -/
theorem sendAll (h : Handover senderLive receiverLive sent arrived replied returned)
    {packets : List Packet} (hcloses : ∀ packet ∈ packets, closes packet = none) :
    Handover senderLive receiverLive (sent ++ packets) arrived replied returned := by
  induction packets generalizing sent with
  | nil =>
    rw [List.append_nil]
    exact h
  | cons packet packets ih =>
    have hfirst := h.send (hcloses packet List.mem_cons_self)
    have hall := ih hfirst fun later hlater ↦ hcloses later (List.mem_cons_of_mem packet hlater)
    rwa [List.append_assoc] at hall

/-- The receiver enqueues packets that answer no handshake. -/
theorem replyAll (h : Handover senderLive receiverLive sent arrived replied returned)
    {packets : List Packet} (hreceipts : packets.filterMap receipt = [])
    (hcompletions : packets.filterMap completion = []) :
    Handover senderLive receiverLive sent arrived (replied ++ packets) returned := by
  have hreceipts' : (replied ++ packets).filterMap receipt = replied.filterMap receipt := by
    rw [List.filterMap_append, hreceipts, List.append_nil]
  have hcompletions' :
      (replied ++ packets).filterMap completion = replied.filterMap completion := by
    rw [List.filterMap_append, hcompletions, List.append_nil]
  refine { h with
    homecoming := h.homecoming.trans (List.prefix_append _ _)
    receipts := ?_
    completions := ?_
    answered := ?_ }
  · rw [hreceipts']
    exact h.receipts
  · rw [hcompletions']
    exact h.completions
  · rw [hreceipts', hcompletions']
    exact h.answered

/-- The next packet arrives, and is answered if the receiver can. -/
theorem arrive (h : Handover senderLive receiverLive sent arrived replied returned)
    (hnext : arrived ++ [packet] <+: sent) {packets : List Packet}
    (hreceipts : packets.filterMap receipt = ifLive receiverLive (opens packet).toList)
    (hcompletions : packets.filterMap completion = ifLive receiverLive (closes packet).toList) :
    Handover senderLive receiverLive sent (arrived ++ [packet]) (replied ++ packets) returned := by
  have hsingle (f : Packet → Option PacketId) :
      (arrived ++ [packet]).filterMap f = arrived.filterMap f ++ (f packet).toList := by
    rw [List.filterMap_append]
    cases hpacket : f packet <;> simp [hpacket]
  have hgrow (f g : Packet → Option PacketId)
      (hadded : packets.filterMap f = ifLive receiverLive (g packet).toList)
      (hinitial : replied.filterMap f <+: arrived.filterMap g)
      (hlive : receiverLive = true → replied.filterMap f = arrived.filterMap g) :
      (replied ++ packets).filterMap f <+: (arrived ++ [packet]).filterMap g ∧
        (receiverLive = true →
          (replied ++ packets).filterMap f = (arrived ++ [packet]).filterMap g) := by
    rw [List.filterMap_append, hadded, hsingle, ifLive]
    cases receiverLive with
    | true =>
      rw [hlive rfl, if_pos rfl]
      exact ⟨List.prefix_rfl, fun _ ↦ rfl⟩
    | false =>
      rw [if_neg Bool.false_ne_true, List.append_nil]
      refine ⟨hinitial.trans (List.prefix_append _ _), fun hlive ↦ ?_⟩
      cases hlive
  obtain ⟨hreceipts, hreceiptsLive⟩ :=
    hgrow receipt opens hreceipts h.receipts fun hlive ↦ (h.answered hlive).1
  obtain ⟨hcompletions, hcompletionsLive⟩ :=
    hgrow completion closes hcompletions h.completions fun hlive ↦ (h.answered hlive).2
  exact { h with
    arrival := hnext
    homecoming := h.homecoming.trans (List.prefix_append _ _)
    receipts := hreceipts
    completions := hcompletions
    answered := fun hlive ↦ ⟨hreceiptsLive hlive, hcompletionsLive hlive⟩ }

/-- The next answer comes back. A PUBREC is followed by a PUBREL if the sender can. -/
theorem comeBack (h : Handover senderLive receiverLive sent arrived replied returned)
    (hnext : returned ++ [packet] <+: replied) :
    Handover senderLive receiverLive
      (sent ++ ifLive senderLive ((receipt packet).toList.map .pubrel)) arrived replied
      (returned ++ [packet]) := by
  have hreturned : (returned ++ [packet]).filterMap receipt =
      returned.filterMap receipt ++ (receipt packet).toList := by
    rw [List.filterMap_append]
    cases hpacket : receipt packet <;> simp [hpacket]
  have hback : Handover false receiverLive sent arrived replied (returned ++ [packet]) :=
    { h with
      homecoming := hnext
      followed := fun hlive ↦ by cases hlive
      released := by
        rw [hreturned]
        exact h.released.trans (List.prefix_append _ _) }
  cases hlive : senderLive with
  | false =>
    rw [ifLive, if_neg Bool.false_ne_true, List.append_nil]
    exact hback
  | true =>
    rw [ifLive, if_pos rfl]
    have hfollowed := h.followed hlive
    cases hreceipt : receipt packet with
    | none =>
      rw [hreceipt, Option.toList_none, List.append_nil] at hreturned
      rw [Option.toList_none, List.map_nil, List.append_nil]
      exact { hback with followed := fun _ ↦ by rw [hreturned, hfollowed] }
    | some id =>
      rw [hreceipt, Option.toList_some] at hreturned
      have hclosed : (sent ++ [Packet.pubrel id]).filterMap closes =
          (returned ++ [packet]).filterMap receipt := by
        rw [List.filterMap_append, hfollowed, hreturned]
        rfl
      have hopened : (sent ++ [Packet.pubrel id]).filterMap opens = sent.filterMap opens := by
        rw [List.filterMap_append]
        exact List.append_nil _
      refine { hback with
        arrival := h.arrival.trans (List.prefix_append _ _)
        released := ?_
        followed := fun _ ↦ hclosed
        ordered := ?_ }
      · rw [Option.toList_some, List.map_singleton, hclosed]
      · intro hnodup before hbefore
        rw [Option.toList_some, List.map_singleton] at hnodup hbefore
        rw [hopened] at hnodup
        obtain rfl | hbefore := List.prefix_concat_iff.mp hbefore
        · apply (h.ordered hnodup sent List.prefix_rfl).release hnodup
          rw [hfollowed, ← hreturned]
          exact hback.closes_prefix
        · exact h.ordered hnodup before hbefore

/-- The next answer comes back, and the sender enqueues what it calls for among other packets. -/
theorem follow (h : Handover senderLive receiverLive sent arrived replied returned)
    (hnext : returned ++ [packet] <+: replied) {packets : List Packet}
    (hcloses : packets.filterMap closes = (receipt packet).toList) :
    Handover senderLive receiverLive (sent ++ ifLive senderLive packets) arrived replied
      (returned ++ [packet]) := by
  cases hlive : senderLive with
  | false =>
    rw [hlive] at h
    exact h.comeBack hnext
  | true =>
    rw [hlive] at h
    rw [ifLive, if_pos rfl]
    cases hreceipt : receipt packet with
    | none =>
      have hback := h.comeBack hnext
      rw [hreceipt, Option.toList_none] at hcloses hback
      rw [ifLive, if_pos rfl, List.map_nil, List.append_nil] at hback
      exact hback.sendAll (List.filterMap_eq_nil_iff.mp hcloses)
    | some id =>
      rw [hreceipt, Option.toList_some] at hcloses
      obtain ⟨first, pubrel, later, rfl, hfirst, hpubrel, hlater⟩ :=
        List.filterMap_eq_cons_iff.mp hcloses
      obtain rfl : pubrel = .pubrel id := by
        cases pubrel with
        | pubrel => exact congrArg _ (Option.some.inj hpubrel)
        | _ => cases hpubrel
      have hback := (h.sendAll hfirst).comeBack hnext
      rw [hreceipt, ifLive, if_pos rfl] at hback
      have hall := hback.sendAll (List.filterMap_eq_nil_iff.mp hlater)
      simpa using hall

/-- The messages handed on are the first of those that were sent. -/
theorem handshakes_prefix (h : Handover senderLive receiverLive sent arrived replied returned)
    (hnodup : (sent.filterMap opens).Nodup) : handshakes arrived <+: messages sent := by
  rw [(h.ordered hnodup arrived h.arrival).released]
  exact (List.take_prefix _ _).trans (h.arrival.filterMap message)

/-- Once everything has arrived and has come back, every message is handed on. -/
theorem handshakes_eq (h : Handover true true sent sent replied replied)
    (hnodup : (sent.filterMap opens).Nodup) : handshakes sent = messages sent := by
  rw [(h.ordered hnodup sent List.prefix_rfl).released]
  apply List.take_of_length_le
  have hlength := congrArg List.length (map_packetId_messages sent)
  rw [List.length_map, List.length_map] at hlength
  rw [h.followed rfl, (h.answered rfl).1, hlength]

end Handover

/-- Two parties with what each of them has enqueued and read. Each is the sender of one handover and
the receiver of the other. -/
structure Duplex (live live' : Bool) (sent read sent' read' : List Packet) : Prop where
  there : Handover live live' sent read' sent' read
  back : Handover live' live sent' read sent read'

namespace Duplex

variable {live live' : Bool} {sent read sent' read' packets : List Packet} {packet : Packet}

theorem new (live live' : Bool) : Duplex live live' [] [] [] [] where
  there := handover_nil live live'
  back := handover_nil live' live

theorem symm (h : Duplex live live' sent read sent' read') :
    Duplex live' live sent' read' sent read where
  there := h.back
  back := h.there

theorem dies (h : Duplex live live' sent read sent' read') :
    Duplex false live' sent read sent' read' where
  there := h.there.senderDies
  back := h.back.receiverDies

/-- A party enqueues packets that belong to no handshake of the other. -/
theorem enqueue (h : Duplex live live' sent read sent' read')
    (hcloses : packets.filterMap closes = []) (hreceipts : packets.filterMap receipt = [])
    (hcompletions : packets.filterMap completion = []) :
    Duplex live live' (sent ++ packets) read sent' read' where
  there := h.there.sendAll (List.filterMap_eq_nil_iff.mp hcloses)
  back := h.back.replyAll hreceipts hcompletions

/-- A party reads the next packet of the other and enqueues what it calls for. -/
theorem take (h : Duplex live live' sent read sent' read') (hnext : read ++ [packet] <+: sent')
    (hcloses : packets.filterMap closes = (receipt packet).toList)
    (hreceipts : packets.filterMap receipt = (opens packet).toList)
    (hcompletions : packets.filterMap completion = (closes packet).toList) :
    Duplex live live' (sent ++ ifLive live packets) (read ++ [packet]) sent' read' where
  there := h.there.follow hnext hcloses
  back := by
    have hlive (f : Packet → Option PacketId) :
        (ifLive live packets).filterMap f = ifLive live (packets.filterMap f) := by
      unfold ifLive
      split <;> rfl
    apply h.back.arrive hnext
    · rw [hlive, hreceipts]
    · rw [hlive, hcompletions]

end Duplex

end HotaruMqtt

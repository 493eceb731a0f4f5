import HotaruMqtt.Protocol.Dispatch

/-!
# Concurrent operations of a client

Any number of tasks run `send_publish`, `send_subscribe` and `send_unsubscribe` on one session,
while the dispatcher handles whatever the peer sends. They share the counter of packet identifiers
and the table of pending acknowledgements, and take turns in any order. A wait can run into its
timeout, a task can be cancelled, the writer can stop and the session can be abandoned.
-/

namespace HotaruMqtt

structure PublishRequest where
  topic : String
  payload : Bytes
  qos : QoS
  retain : Bool

inductive MqttRequest where
  | publish (req : PublishRequest)
  | subscribe (filters : List TopicFilter)
  | unsubscribe (topics : List String)

inductive PublishAck where
  | sent
  | acknowledged (id : PacketId)
  | completed (id : PacketId)
  deriving DecidableEq

inductive MqttResponse where
  | published (ack : PublishAck)
  | subscribed (codes : List SubackCode)
  | unsubscribed
  deriving DecidableEq

namespace Operations

inductive Answer where
  | acked (id : PacketId)
  | granted (codes : List SubackCode)
  | done
  deriving DecidableEq

/-- Where an operation stands. A phase with a receiver holds what was sent to it. -/
inductive Phase where
  | idle
  /-- A PUBLISH of QoS 0 has neither an identifier nor a slot. -/
  | unnumbered
  | allocated (id : PacketId)
  /-- The slot is inserted and the packet is not sent yet. -/
  | registered (id : PacketId) (signal : Option Answer)
  | waiting (id : PacketId) (signal : Option Answer)
  /-- The PUBREC was received and the slot for the PUBCOMP is not inserted yet. -/
  | released (id : PacketId)
  | waitingComp (id : PacketId) (signal : Option Answer)
  /-- The wait has run into its timeout and the slot is not removed yet. -/
  | expired (id : PacketId)
  | returned (result : Except MqttError MqttResponse)
  | cancelled

/-- An operation with the record of what it did. -/
structure OperationState where
  phase : Phase
  id : Option PacketId
  /-- How many packets had been received when the slot was inserted. -/
  since : ℕ
  sent : Option WriteCmd

def OperationState.new : OperationState := { phase := .idle, id := none, since := 0, sent := none }

structure World where
  channel : MqttChannel
  operations : Waiter → OperationState
  /-- What the dispatcher has received. -/
  received : List Packet
  /-- The number of identifiers allocated so far. -/
  allocations : ℕ

/-- A session that was just opened, on a channel in any state. -/
def init (channel : MqttChannel) : World :=
  { channel := { channel with session := .new }, operations := fun _ ↦ .new, received := []
    allocations := 0 }

namespace World

def phase (world : World) (op : Waiter) : Phase := (world.operations op).phase

def record (world : World) (op : Waiter) (operation : OperationState) : World :=
  { world with operations := Function.update world.operations op operation }

def setPhase (world : World) (op : Waiter) (phase : Phase) : World :=
  world.record op { world.operations op with phase }

end World

def publishPacket (req : PublishRequest) (packetId : Option PacketId) : PublishPacket :=
  { properties := {}, topic := req.topic, payload := req.payload, dup := false, qos := req.qos
    retain := req.retain, packetId }

/-- Only a PUBLISH of QoS 0 goes without an identifier. -/
def needsId : MqttRequest → Bool
  | .publish req => req.qos ≠ .atMostOnce
  | _ => true

/-- The slot that an operation registers before it sends. -/
def firstSlot (op : Waiter) : MqttRequest → AckSlot
  | .publish req => if req.qos = .exactlyOnce then .pubrec op else .puback op
  | .subscribe _ => .suback op
  | .unsubscribe _ => .unsuback op

def command (id : PacketId) : MqttRequest → WriteCmd
  | .publish req => .publish (publishPacket req (some id))
  | .subscribe filters =>
      .packet (.subscribe
        { packetId := id
          subscriptions := filters.map fun tf ↦ { topic := tf.filter, qos := tf.qos } })
  | .unsubscribe topics => .packet (.unsubscribe { packetId := id, topics })

/-- What an operation does with the answer to its first wait. The type of the answer is the type
of the slot. -/
def afterAnswer (id : PacketId) : MqttRequest → Answer → Option Phase
  | .publish req, .acked acked =>
      if req.qos = .exactlyOnce then some (.released id)
      else some (.returned (.ok (.published (.acknowledged acked))))
  | .subscribe _, .granted codes => some (.returned (.ok (.subscribed codes)))
  | .unsubscribe _, .done => some (.returned (.ok .unsubscribed))
  | _, _ => none

/-- An answer that is taken releases the exchange or ends the operation. -/
theorem afterAnswer_cases {id : PacketId} {request : MqttRequest} {answer : Answer} {phase : Phase}
    (h : afterAnswer id request answer = some phase) :
    phase = .released id ∨ ∃ response, phase = .returned (.ok response) := by
  unfold afterAnswer at h
  split at h
  · split at h
    · exact .inl (Option.some.inj h).symm
    · exact .inr ⟨_, (Option.some.inj h).symm⟩
  · exact .inr ⟨_, (Option.some.inj h).symm⟩
  · exact .inr ⟨_, (Option.some.inj h).symm⟩
  · cases h

/-! ## Steps -/

inductive Action where
  | start (op : Waiter)
  | register (op : Waiter)
  | send (op : Waiter)
  | wake (op : Waiter)
  | expire (op : Waiter)
  | withdraw (op : Waiter)
  | cancel (op : Waiter)
  | receive (packet : Packet)
  | abandon
  | writerTakes
  | writerStops

section Steps

variable (requests : Waiter → MqttRequest)

def stepStart (world : World) (op : Waiter) : Option World :=
  match world.phase op with
  | .idle =>
      if needsId (requests op) then
        let (id, session) := world.channel.session.allocatePacketId
        let world := { world with
          channel := world.channel.setSession session, allocations := world.allocations + 1 }
        some (world.record op
          { world.operations op with phase := .allocated id, id := some id })
      else some (world.setPhase op .unnumbered)
  | _ => none

/-- Insert the slot of the first wait, or the slot for the PUBCOMP. -/
def stepRegister (world : World) (op : Waiter) : Option World :=
  match world.phase op with
  | .allocated id =>
      some ({ world with
        channel := world.channel.insertSlot id (firstSlot op (requests op)) }.record op
        { world.operations op with
          phase := .registered id none, since := world.received.length })
  | .released id =>
      some ({ world with channel := world.channel.insertSlot id (.pubcomp op) }.setPhase op
        (.waitingComp id none))
  | _ => none

def stepSend (world : World) (op : Waiter) : Option World :=
  match world.phase op, requests op with
  | .unnumbered, .publish req =>
      match world.channel.sendPublish (publishPacket req none) with
      | .ok channel =>
          some ({ world with channel }.setPhase op (.returned (.ok (.published .sent))))
      | .error reason => some (world.setPhase op (.returned (.error reason)))
  | .registered id signal, request =>
      match world.channel.send (command id request) with
      | .ok channel =>
          some ({ world with channel }.record op
            { world.operations op with
              phase := .waiting id signal, sent := some (command id request) })
      | .error reason => some (world.setPhase op (.returned (.error reason)))
  | _, _ => none

/-- A wait ends with what was sent through its slot, or when the sender is gone. -/
def stepWake (world : World) (op : Waiter) : Option World :=
  match world.phase op with
  | .waiting id (some answer) =>
      (afterAnswer id (requests op) answer).map (world.setPhase op)
  | .waiting id none =>
      if world.channel.holdsSlot id (firstSlot op (requests op)) then none
      else some (world.setPhase op (.returned (.error .channelClosed)))
  | .waitingComp _ (some (.acked compId)) =>
      some (world.setPhase op (.returned (.ok (.published (.completed compId)))))
  | .waitingComp id none =>
      if world.channel.holdsSlot id (.pubcomp op) then none
      else some (world.setPhase op (.returned (.error .channelClosed)))
  | _ => none

/-- The timeout of a wait. It loses against an answer that is there. -/
def stepExpire (world : World) (op : Waiter) : Option World :=
  match world.phase op with
  | .waiting id none | .waitingComp id none => some (world.setPhase op (.expired id))
  | _ => none

def stepWithdraw (world : World) (op : Waiter) : Option World :=
  match world.phase op with
  | .expired id =>
      some ({ world with channel := world.channel.eraseSlot id }.setPhase op
        (.returned (.error (.timeout .ack))))
  | _ => none

/-- The future of an operation is dropped while it waits. Its slot stays. -/
def stepCancel (world : World) (op : Waiter) : Option World :=
  match world.phase op with
  | .waiting _ _ | .waitingComp _ _ => some (world.setPhase op .cancelled)
  | _ => none

/-- What a packet sends through the slot that it acknowledges. -/
def answerOf : Packet → Option Answer
  | .puback id | .pubrec id | .pubcomp id => some (.acked id)
  | .suback s => some (.granted s.returnCodes)
  | .unsuback _ => some .done
  | _ => none

/-- The receiver of an operation takes the first answer; without a receiver it is lost. -/
def Phase.deliver (answer : Answer) : Phase → Phase
  | registered id none => registered id (some answer)
  | waiting id none => waiting id (some answer)
  | waitingComp id none => waitingComp id (some answer)
  | phase => phase

def stepReceive (world : World) (packet : Packet) : World :=
  let dispatched := world.channel.dispatchClientInbound packet
  let world := { world with
    channel := dispatched.channel, received := world.received ++ [packet] }
  match dispatched.answered, answerOf packet with
  | some op, some answer => world.setPhase op ((world.phase op).deliver answer)
  | _, _ => world

def step (world : World) : Action → Option World
  | .start op => stepStart requests world op
  | .register op => stepRegister requests world op
  | .send op => stepSend requests world op
  | .wake op => stepWake requests world op
  | .expire op => stepExpire world op
  | .withdraw op => stepWithdraw world op
  | .cancel op => stepCancel world op
  | .receive packet => some (stepReceive world packet)
  | .abandon =>
      some { world with channel := world.channel.setSession world.channel.session.abandon }
  | .writerTakes =>
      some { world with channel := { world.channel with commands := world.channel.commands.tail } }
  | .writerStops => some { world with channel := { world.channel with receiving := false } }

end Steps

theorem stepReceive_frame (world : World) (packet : Packet) :
    (stepReceive world packet).channel = (world.channel.dispatchClientInbound packet).channel ∧
      (stepReceive world packet).received = world.received ++ [packet] ∧
      (stepReceive world packet).allocations = world.allocations := by
  unfold stepReceive
  dsimp only
  split <;> exact ⟨rfl, rfl, rfl⟩

/-- A packet that is no acknowledgement for a slot in the table changes no operation. -/
theorem stepReceive_operations {world : World} {packet : Packet}
    (h : (world.channel.dispatchClientInbound packet).answered = none) :
    (stepReceive world packet).operations = world.operations := by
  simp only [stepReceive, h]

end Operations

end HotaruMqtt

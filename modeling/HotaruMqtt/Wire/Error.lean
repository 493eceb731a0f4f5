import Mathlib.Data.Nat.Notation

/-!
# Errors and faults

`MqttError` follows the error hierarchy of the crate. The payload of an I/O error is not
inspected by any modelled function and is left out. A decoder can also stop because an index or a
slice is out of range; `Fault` keeps that panic apart from a returned error.
-/

namespace HotaruMqtt

inductive ConnackReturnCode where
  | accepted
  | unacceptableProtocolVersion
  | identifierRejected
  | serverUnavailable
  | badUsernameOrPassword
  | notAuthorized
  deriving DecidableEq

inductive TimeoutKind where
  | connack
  | connectReceive
  | ack
  deriving DecidableEq

inductive Violation where
  | expectedConnack
  | expectedConnect
  | connectionRefused (code : ConnackReturnCode)
  | unexpectedPacket (expected got : String)
  | invalidProtocolName
  | unsupportedProtocolLevel (level : UInt8)
  | emptyTopic
  | topicTooLong
  | wildcardInPublishTopic
  | hashWildcardNotTerminal
  | wildcardMixedWithLiteral
  | sessionAlreadyBound
  | duplicateProperty (id : UInt8)
  | malformedProperty (id : UInt8)
  | unknownProperty (id : UInt8)
  | utf8NullCharacter
  deriving DecidableEq

inductive CodecError where
  | unexpectedEof
  | invalidPacketType (raw : UInt8)
  | malformedLength
  | invalidUtf8
  | payloadTooLong (len max : ℕ)
  | qosInvalid (bits : UInt8)
  | reservedFlagSet
  | fieldTooLong (kind : String) (len : ℕ)
  | variableByteIntegerOutOfRange (value : ℕ)
  deriving DecidableEq

inductive MqttError where
  | io
  | channelClosed
  | ackTimeout
  | timeout (kind : TimeoutKind)
  | configuration (message : String)
  | notConnected (message : String)
  | protocol (violation : Violation)
  | codec (error : CodecError)
  | unsupported (message : String)
  deriving DecidableEq

/-- How a decoding function stops without a value. -/
inductive Fault where
  | error (reason : MqttError)
  | panic
  deriving DecidableEq

namespace Fault

def codec (error : CodecError) : Fault := .error (.codec error)

def protocol (violation : Violation) : Fault := .error (.protocol violation)

theorem error_ne_panic (reason : MqttError) : Fault.error reason ≠ .panic := by
  intro h
  cases h

end Fault

/-- A call made with `?` passes its error on; it never turns it into a panic. -/
def orRaise {α : Type} (result : Except MqttError α) : Except Fault α :=
  result.mapError .error

@[simp]
theorem orRaise_ok {α : Type} (value : α) : orRaise (.ok value) = .ok value := rfl

@[simp]
theorem orRaise_error {α : Type} (reason : MqttError) :
    orRaise (.error reason : Except MqttError α) = .error (.error reason) := rfl

theorem orRaise_eq_ok_iff {α : Type} {result : Except MqttError α} {value : α} :
    orRaise result = .ok value ↔ result = .ok value := by
  cases result with
  | ok _ => simp
  | error reason => simp

/-- A successful `?` sequence splits at its intermediate value. -/
theorem bind_eq_ok_iff {ε α β : Type} {first : Except ε α} {next : α → Except ε β} {result : β} :
    first >>= next = .ok result ↔ ∃ value, first = .ok value ∧ next value = .ok result := by
  cases first with
  | error reason => simp [bind, Except.bind]
  | ok value => simp [bind, Except.bind]

end HotaruMqtt

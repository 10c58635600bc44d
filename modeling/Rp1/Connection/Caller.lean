import Rp1.Command
import Rp1.Connection.Drain

/-!
# Connection — the caller's side of a completion

What a command does with the bytes the driver delivered: `decode_own` decodes them a second time,
in a context in which only the request they name is in flight.  `decodeOwn_of_legal` says that it
reads back the frame the driver admitted.
-/

namespace Rp1.Connection
open Codec Protocol Command

/-- The state a connection owns after negotiation. -/
structure Negotiated where
  protocolVersion : UInt16
  maximumFrameSize : UInt64
  maximumMetadataSize : UInt16
  acceptedCapabilities : List UInt16
  localMaximumFrameSize : UInt64
  localMaximumMetadataSize : UInt16
deriving DecidableEq, Repr

/-- Every bound at its protocol floor, as with a default configuration. -/
def Negotiated.floor : Negotiated := ⟨0, 65536, 4096, [], 65536, 4096⟩

def Negotiated.effectiveMaximumFrameSize (n : Negotiated) : UInt64 :=
  if n.maximumFrameSize < n.localMaximumFrameSize then n.maximumFrameSize
  else n.localMaximumFrameSize

def Negotiated.effectiveMaximumMetadataSize (n : Negotiated) : UInt16 :=
  if n.maximumMetadataSize < n.localMaximumMetadataSize then n.maximumMetadataSize
  else n.localMaximumMetadataSize

/-- The bounds the caller decodes under. -/
def Negotiated.effectiveLimits (n : Negotiated) : Limits :=
  ⟨n.effectiveMaximumFrameSize, n.effectiveMaximumMetadataSize⟩

/-- A command refusal; the error of the transport itself is left out. -/
inductive CommandError where
  | localLimitExceeded (requested limit : UInt64)
  | invalidRequest
  | unsupportedOperation
  | invalidArgument
  | overloaded
  | wrongType
  | internalError
  | protocolViolation
  | malformedRequest
  | resourceLimit
  | unsupportedProtocolVersion
  | transport
  | closed
  | unusable
deriving DecidableEq, Repr

def CommandError.fromClass : ErrorClass → CommandError
  | .malformedRequest => malformedRequest
  | .unsupportedProtocolVersion => unsupportedProtocolVersion
  | .unsupportedOperation => unsupportedOperation
  | .invalidArgument => invalidArgument
  | .resourceLimit => resourceLimit
  | .overloaded => overloaded
  | .internalError => internalError
  | .protocolViolation => protocolViolation
  | .wrongType => wrongType

def CommandError.fromFailure (failure : Failure) : CommandError := fromClass failure.cls

def CommandError.fromCommandFailure (failure : CommandFailure) : CommandError :=
  fromClass failure.cls

def CommandError.fromDriver : DriverError → CommandError
  | .requestFailed failure | .connectionFatal failure => fromFailure failure
  | .transport => transport
  | .closed => closed
  | .unusable => unusable

/-- `is_ambiguous`: the mutation may have taken effect. -/
def CommandError.isAmbiguous : CommandError → Bool
  | internalError | transport | closed | unusable => true
  | _ => false

/-- The failure scope of an error that carries a protocol class. -/
def CommandError.scope : CommandError → Option FailureScope
  | unsupportedOperation | invalidArgument | overloaded | wrongType | internalError =>
      some .requestScoped
  | protocolViolation | malformedRequest | resourceLimit | unsupportedProtocolVersion =>
      some .connectionFatal
  | _ => none

/-- What a lifecycle state means for a command the session does not serve.  `check_usable`,
`acquire_permit` and `completion_lost` map the state alike. -/
def ConnectionState.refusal : ConnectionState → CommandError
  | closed | closing => .closed
  | failed => .transport
  | unusable | usable => .unusable

/-- The scope of the error is the one of the class it was made from. -/
theorem CommandError.scope_fromClass (cls : ErrorClass) :
    (fromClass cls).scope = some cls.scope := by
  cases cls <;> rfl

/-- The context of `decode_own`: the request the bytes name is the only one in flight. -/
def Negotiated.ownAdmission (n : Negotiated) (frameBytes : Bytes) : Admission :=
  { role := .client
    state := .negotiated
    limits := n.effectiveLimits
    inFlight := [(headerRequestId frameBytes).getD 0] }

/-- `decode_own`: a terminal frame the driver attributed to one request. -/
def Negotiated.decodeOwn (n : Negotiated) (frameBytes : Bytes) : Except CommandError Frame :=
  match decode frameBytes (n.ownAdmission frameBytes) with
  | .frame frame => .ok frame
  | .failure reason _ => .error (.fromFailure reason)
  | .need _ => .error .protocolViolation

theorem headerRequestId_bytes (f : Frame) :
    headerRequestId f.bytes = some f.header.requestId.value :=
  headerRequestId_of_parse (RawHeader.parse_bytes f.header.raw _)

/-- The caller reads back a frame that is legal with its own request in flight. -/
theorem Negotiated.decodeOwn_of_legal {n : Negotiated} {f : Frame}
    (h : f.Legal ⟨.client, .negotiated, n.effectiveLimits, [f.header.requestId.value]⟩) :
    n.decodeOwn f.bytes = .ok f := by
  have hadm : n.ownAdmission f.bytes =
      ⟨.client, .negotiated, n.effectiveLimits, [f.header.requestId.value]⟩ := by
    rw [ownAdmission, headerRequestId_bytes, Option.getD_some]
  have hd : decode f.bytes (n.ownAdmission f.bytes) = .frame f := by
    rw [hadm]
    exact decode_eq_frame_iff.mpr ⟨h, [], (List.append_nil _).symm⟩
  rw [decodeOwn, hd]

end Rp1.Connection

import Rp1.Support.Bytes
import Rp1.Support.Tlv

/-!
# Protocol — wire types

The types of `src/protocol.rs`: the enumerations with their wire values, the failure
classification, the header, metadata and payload of an admitted frame, the outcome of a decode
and the frame a caller hands to the encoder.  Slices are byte strings; integer fields keep the
width they have in the source.
-/

namespace Rp1.Protocol
open Codec

/-! ### Constants -/

def headerLength : Nat := 20
def maxFrameSize : UInt64 := 65536
def maxMetadataSize : UInt16 := 4096

def handshakeOpcode : UInt16 := 0x0001
def pingOpcode : UInt16 := 0x0002
def getOpcode : UInt16 := 0x0003
def setOpcode : UInt16 := 0x0004
def delOpcode : UInt16 := 0x0005
def existsOpcode : UInt16 := 0x0006

/-! ### The receiver's context -/

/-- The state a connection occupies when it reads a frame. -/
inductive ConnectionState where
  | preNegotiation
  | negotiated
  | terminal
deriving DecidableEq, Repr

/-- The size bounds in force when a receiver reads a frame. -/
structure Limits where
  frameSize : UInt64
  metadataSize : UInt16
deriving DecidableEq, Repr

def Limits.preNegotiation : Limits := ⟨maxFrameSize, maxMetadataSize⟩

inductive Role where
  | client
  | server
deriving DecidableEq, Repr

/-- The connection context a receiver decodes a frame under. -/
structure Admission where
  role : Role
  state : ConnectionState
  limits : Limits
  inFlight : List UInt64
deriving DecidableEq, Repr

/-! ### Header fields -/

/-- The protocol version field; only `0` is valid. -/
structure Version where
  value : UInt8
deriving DecidableEq, Repr

inductive Kind where
  | request
  | response
  | error
deriving DecidableEq, Repr

namespace Kind

def value : Kind → UInt8
  | request => 1
  | response => 2
  | error => 3

/-- The peer that sends this kind. -/
def sender : Kind → Role
  | request => .client
  | response | error => .server

def fromWire (value : UInt8) : Option Kind :=
  match value with
  | 1 => some request
  | 2 => some response
  | 3 => some error
  | _ => none

theorem fromWire_eq_some_iff {v : UInt8} {k : Kind} : fromWire v = some k ↔ k.value = v := by
  constructor
  · intro h
    unfold fromWire at h
    split at h <;> cases h <;> rfl
  · rintro rfl
    cases k <;> rfl

end Kind

/-- The reserved flags field. -/
structure Flags where
  value : UInt16
deriving DecidableEq, Repr

/-- The request identity field. -/
structure RequestId where
  value : UInt64
deriving DecidableEq, Repr

/-- `Opcode::is_assigned`. -/
def Opcode.isAssigned (value : UInt16) : Bool :=
  value == handshakeOpcode || value == pingOpcode || value == getOpcode || value == setOpcode ||
    value == delOpcode || value == existsOpcode

inductive ResultCode where
  | success
  | absent
  | valueHeldOutsideMemory
deriving DecidableEq, Repr

namespace ResultCode

def value : ResultCode → UInt16
  | success => 0x0000
  | absent => 0x0001
  | valueHeldOutsideMemory => 0x0004

def fromWire (value : UInt16) : Option ResultCode :=
  match value with
  | 0x0000 => some success
  | 0x0001 => some absent
  | 0x0004 => some valueHeldOutsideMemory
  | _ => none

theorem fromWire_eq_some_iff {v : UInt16} {c : ResultCode} :
    fromWire v = some c ↔ c.value = v := by
  constructor
  · intro h
    unfold fromWire at h
    split at h <;> cases h <;> rfl
  · rintro rfl
    cases c <;> rfl

end ResultCode

/-! ### Failures -/

inductive FailureScope where
  /-- The request fails and the connection keeps serving. -/
  | requestScoped
  /-- The frame retires no request and the connection becomes unusable. -/
  | connectionFatal
deriving DecidableEq, Repr

inductive ErrorClass where
  | malformedRequest
  | unsupportedProtocolVersion
  | unsupportedOperation
  | invalidArgument
  | resourceLimit
  | overloaded
  | internalError
  | protocolViolation
  | wrongType
deriving DecidableEq, Repr

namespace ErrorClass

def value : ErrorClass → UInt16
  | malformedRequest => 0x0001
  | unsupportedProtocolVersion => 0x0002
  | unsupportedOperation => 0x0003
  | invalidArgument => 0x0004
  | resourceLimit => 0x0005
  | overloaded => 0x0008
  | internalError => 0x000B
  | protocolViolation => 0x000C
  | wrongType => 0x000E

def scope : ErrorClass → FailureScope
  | malformedRequest | unsupportedProtocolVersion | resourceLimit | protocolViolation =>
      .connectionFatal
  | unsupportedOperation | invalidArgument | overloaded | internalError | wrongType =>
      .requestScoped

def fromWire (value : UInt16) : Option ErrorClass :=
  match value with
  | 0x0001 => some malformedRequest
  | 0x0002 => some unsupportedProtocolVersion
  | 0x0003 => some unsupportedOperation
  | 0x0004 => some invalidArgument
  | 0x0005 => some resourceLimit
  | 0x0008 => some overloaded
  | 0x000B => some internalError
  | 0x000C => some protocolViolation
  | 0x000E => some wrongType
  | _ => none

theorem fromWire_eq_some_iff {v : UInt16} {c : ErrorClass} :
    fromWire v = some c ↔ c.value = v := by
  constructor
  · intro h
    unfold fromWire at h
    split at h <;> cases h <;> rfl
  · rintro rfl
    cases c <;> rfl

end ErrorClass

/-- A classified protocol failure. -/
structure Failure where
  cls : ErrorClass
  scope : FailureScope
deriving DecidableEq, Repr

namespace Failure

def malformedRequest : Failure := ⟨.malformedRequest, .connectionFatal⟩
def unsupportedProtocolVersion : Failure := ⟨.unsupportedProtocolVersion, .connectionFatal⟩
def unsupportedOperation : Failure := ⟨.unsupportedOperation, .requestScoped⟩
def invalidArgument : Failure := ⟨.invalidArgument, .requestScoped⟩
def resourceLimit : Failure := ⟨.resourceLimit, .connectionFatal⟩
def protocolViolation : Failure := ⟨.protocolViolation, .connectionFatal⟩

/-- A failure that ends the connection, by its scope and by its class alike. -/
structure Fatal (failure : Failure) : Prop where
  scope : failure.scope = .connectionFatal
  cls : failure.cls.scope = .connectionFatal

end Failure

/-! ### Metadata -/

/-- One entry of the metadata region. -/
structure MetadataEntry where
  identifier : UInt16
  value : Bytes
deriving DecidableEq, Repr

/-- The identifier lies in the required range. -/
def MetadataEntry.isRequired (e : MetadataEntry) : Bool := e.identifier &&& 0x8000 != 0

structure MetadataRegion where
  entries : List MetadataEntry
deriving DecidableEq, Repr

/-- `MetadataRegion::parse`. -/
def MetadataRegion.parse (region : Bytes) : Option MetadataRegion :=
  (Tlv.parse MetadataEntry.mk region).map MetadataRegion.mk

/-! ### Frames -/

/-- The payload of an admitted frame. -/
inductive Payload where
  | opaqueBytes (bytes : Bytes)
  | warm (logicalLength : UInt64)
  | error (detail text : Bytes)
deriving DecidableEq, Repr

/-- The validated header of a frame. -/
structure Header where
  version : Version
  kind : Kind
  flags : Flags
  code : UInt16
  metadataLength : UInt16
  payloadLength : UInt32
  requestId : RequestId
deriving DecidableEq, Repr

/-- An admitted frame, with the request id it retires. -/
structure Frame where
  header : Header
  metadata : MetadataRegion
  payload : Payload
  retires : RequestId
deriving DecidableEq, Repr

/-- The outcome of decoding at the head of a buffer. -/
inductive Step where
  /-- Fewer bytes are held than the receiver needs. -/
  | need (required : Nat)
  | frame (frame : Frame)
  /-- The frame was refused; it occupies `consumed` bytes of the input. -/
  | failure (failure : Failure) (consumed : Nat)
deriving DecidableEq, Repr

/-- The payload a caller asks the encoder to write. -/
inductive OutgoingPayload where
  | opaqueBytes (bytes : Bytes)
  | warm (logicalLength : UInt64)
  | error (detail text : Bytes)
deriving DecidableEq, Repr

/-- A frame a caller asks the encoder to write. -/
structure Outgoing where
  kind : Kind
  code : UInt16
  requestId : UInt64
  metadata : List (UInt16 × Bytes)
  payload : OutgoingPayload
deriving DecidableEq, Repr

/-- A refusal by the encoder. -/
inductive EncodeError where
  | metadataNotAscending
  | frameTooLarge
  | metadataTooLarge
deriving DecidableEq, Repr

end Rp1.Protocol

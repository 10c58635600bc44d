import Rp1.Protocol.Types

/-!
# Protocol — the incremental decoder

`decode` reads one frame from the head of a buffer under a connection context.  It is cut here
at the places where the source changes the bytes it looks at:

* `admitHeader` is the part of `admit` that reads the twenty header bytes only;
* `admitBody` is the rest of `admit`, run once the whole frame is held;
* `decodeAdmitted` is the rest of `decode`, from the connection-state check on.  Every refusal
  there leaves through `stepFor`.

The order of the checks is the source's.
-/

namespace Rp1.Protocol
open Codec

/-! ### Reading words -/

def readU16Le (bytes : Bytes) (offset : Nat) : Option UInt16 := readLe UInt16 bytes offset
def readU32Le (bytes : Bytes) (offset : Nat) : Option UInt32 := readLe UInt32 bytes offset
def readU64Le (bytes : Bytes) (offset : Nat) : Option UInt64 := readLe UInt64 bytes offset

/-- The raw fields of a frame header. -/
structure RawHeader where
  version : UInt8
  kind : UInt8
  flags : UInt16
  code : UInt16
  metadataLength : UInt16
  payloadLength : UInt32
  requestId : UInt64
deriving DecidableEq, Repr

/-- `RawHeader::parse`: the twenty header bytes, or `none` when fewer are present. -/
def RawHeader.parse (input : Bytes) : Option RawHeader := do
  let version ← input[0]?
  let kind ← input[1]?
  let flags ← readU16Le input 2
  let code ← readU16Le input 4
  let metadataLength ← readU16Le input 6
  let payloadLength ← readU32Le input 8
  let requestId ← readU64Le input 12
  some { version, kind, flags, code, metadataLength, payloadLength, requestId }

/-- `total_length`, in a 64-bit width. -/
def totalLength (metadataLength : UInt16) (payloadLength : UInt32) : Option Nat := do
  let total ← checkedAdd u64Max headerLength metadataLength.toNat
  checkedAdd u64Max total payloadLength.toNat

/-- The header-derived state an admitted frame carries forward. -/
structure Admitted where
  raw : RawHeader
  kind : Kind
  metadata : MetadataRegion
  totalLen : Nat
  metadataEnd : Nat
deriving DecidableEq, Repr

/-! ### `admit` -/

/-- The checks of `admit` that need the header alone; they yield the kind and the total length. -/
def admitHeader (raw : RawHeader) (limits : Limits) : Except Failure (Kind × Nat) :=
  if raw.version ≠ 0 then .error .unsupportedProtocolVersion
  else do
    let kind ← okOr (Kind.fromWire raw.kind) Failure.protocolViolation
    let frameTotal ← okOr (totalLength raw.metadataLength raw.payloadLength) Failure.resourceLimit
    if frameTotal > limits.frameSize.toNat then .error .resourceLimit
    else if raw.flags ≠ 0 then .error .protocolViolation
    else if raw.metadataLength > limits.metadataSize then .error .malformedRequest
    else do
      let totalLen ← okOr (tryFit usizeMax frameTotal) Failure.resourceLimit
      .ok (kind, totalLen)

/-- The checks of `admit` that follow once `totalLen` bytes are held. -/
def admitBody (input : Bytes) (role : Role) (raw : RawHeader) (kind : Kind) (totalLen : Nat) :
    Except Failure Admitted := do
  let metadataEnd ←
    okOr (checkedAdd usizeMax headerLength raw.metadataLength.toNat) Failure.malformedRequest
  let metadataBytes ← okOr (getRange input headerLength metadataEnd) Failure.malformedRequest
  let metadata ← okOr (MetadataRegion.parse metadataBytes) Failure.malformedRequest
  if kind.sender = role then .error .protocolViolation
  else .ok { raw, kind, metadata, totalLen, metadataEnd }

/-- `admit`: the checks from the header through the direction check. -/
def admitFrame (input : Bytes) (role : Role) (limits : Limits) : Except Step Admitted :=
  match RawHeader.parse input with
  | none => .error (.need headerLength)
  | some raw =>
      match admitHeader raw limits with
      | .error failure => .error (.failure failure input.length)
      | .ok (kind, totalLen) =>
          if input.length < totalLen then .error (.need totalLen)
          else
            match admitBody input role raw kind totalLen with
            | .error failure => .error (.failure failure input.length)
            | .ok admitted => .ok admitted

/-! ### The checks after `admit` -/

/-- The decision the `code` and correlation checks produce for one frame. -/
inductive Correlation where
  | handshakeRequest
  | operationRequest (opcode : UInt16)
  | response (code : ResultCode)
  | error (scope : FailureScope)
deriving DecidableEq, Repr

/-- `check_connection_state`: what the connection state lets pass. -/
def checkConnectionState (state : ConnectionState) (kind : Kind) (code : UInt16) :
    Except Failure Unit :=
  let isHandshake := kind = .request ∧ code = handshakeOpcode
  match state with
  | .preNegotiation =>
      let responderTerminal := (kind = .response ∧ code = 0) ∨ kind = .error
      if isHandshake ∨ responderTerminal then .ok () else .error .protocolViolation
  | .negotiated => if isHandshake then .error .protocolViolation else .ok ()
  | .terminal => .error .protocolViolation

/-- `correlate`: the code and correlation checks that follow the direction check. -/
def correlate (kind : Kind) (code : UInt16) (requestId : UInt64) (inFlight : List UInt64) :
    Except Failure Correlation :=
  match kind with
  | .request =>
      if requestId = 0 then .error .protocolViolation
      else if inFlight.contains requestId then .error .protocolViolation
      else if code = handshakeOpcode then .ok .handshakeRequest
      else if Opcode.isAssigned code then .ok (.operationRequest code)
      else .error .unsupportedOperation
  | .response =>
      if requestId = 0 then .error .protocolViolation
      else if !inFlight.contains requestId then .error .protocolViolation
      else do
        let result ← okOr (ResultCode.fromWire code) Failure.protocolViolation
        .ok (.response result)
  | .error => do
      let cls ← okOr (ErrorClass.fromWire code) Failure.protocolViolation
      if cls.scope = .requestScoped ∧ requestId = 0 then .error .protocolViolation
      else if cls.scope = .requestScoped ∧ !inFlight.contains requestId then
        .error .protocolViolation
      else .ok (.error cls.scope)

/-- The loop of `check_metadata_order`, with the identifier it saw last. -/
def checkMetadataOrderLoop : Option UInt16 → List MetadataEntry → Except Failure Unit
  | _, [] => .ok ()
  | previous, entry :: entries =>
      if previous.any (fun p => entry.identifier ≤ p) then .error .invalidArgument
      else if entry.isRequired then .error .invalidArgument
      else checkMetadataOrderLoop (some entry.identifier) entries

/-- `check_metadata_order`: entry order and the required identifier range. -/
def checkMetadataOrder (metadata : MetadataRegion) : Except Failure Unit :=
  checkMetadataOrderLoop none metadata.entries

/-- `check_operation_request`: the payload of one of the five operations. -/
def checkOperationRequest (opcode : UInt16) (payloadLength : UInt32) (payload : Bytes) :
    Except Failure Payload :=
  if opcode = pingOpcode then
    if payloadLength ≠ 0 then .error .malformedRequest else .ok (.opaqueBytes [])
  else if opcode = setOpcode then
    if payload.length < 4 then .error .malformedRequest
    else do
      let keyLength ← okOr (readU32Le payload 0) Failure.malformedRequest
      let head ← okOr (checkedAdd usizeMax 4 keyLength.toNat) Failure.malformedRequest
      if head > payload.length then .error .malformedRequest else .ok (.opaqueBytes payload)
  else .ok (.opaqueBytes payload)

/-- `read_payload`: the payload layout of an admitted frame. -/
def readPayload (correlation : Correlation) (payloadLength : UInt32) (payload : Bytes) :
    Except Failure Payload :=
  match correlation with
  | .handshakeRequest | .response .success => .ok (.opaqueBytes payload)
  | .operationRequest opcode => checkOperationRequest opcode payloadLength payload
  | .response .absent =>
      if payloadLength ≠ 0 then .error .malformedRequest else .ok (.opaqueBytes [])
  | .response .valueHeldOutsideMemory =>
      if payloadLength ≠ 8 then .error .malformedRequest
      else do
        let logicalLength ← okOr (readU64Le payload 0) Failure.malformedRequest
        .ok (.warm logicalLength)
  | .error _ =>
      if payloadLength < 2 then .error .malformedRequest
      else do
        let detailLength ← okOr (readU16Le payload 0) Failure.malformedRequest
        let detailEnd ← okOr (checkedAdd usizeMax detailLength.toNat 2) Failure.malformedRequest
        let detail ← okOr (getRange payload 2 detailEnd) Failure.malformedRequest
        let text ← okOr (getFrom payload detailEnd) Failure.malformedRequest
        .ok (.error detail text)

/-- `retires_for`: the request id an admitted frame retires. -/
def retiresFor (kind : Kind) (correlation : Correlation) (requestId : UInt64) : RequestId :=
  match kind with
  | .response => ⟨requestId⟩
  | .error => if correlation = .error .requestScoped then ⟨requestId⟩ else ⟨0⟩
  | .request => ⟨0⟩

/-- `step_for`: a failure with the number of bytes its frame occupies. -/
def stepFor (failure : Failure) (totalLen inputLen : Nat) : Step :=
  .failure failure (if failure.scope = .requestScoped then totalLen else inputLen)

/-! ### `decode` -/

/-- What `decode` does with an admitted header; a refusal leaves through `stepFor`. -/
def decodeAdmitted (input : Bytes) (state : ConnectionState) (inFlight : List UInt64)
    (admitted : Admitted) : Except Failure Frame := do
  let raw := admitted.raw
  checkConnectionState state admitted.kind raw.code
  let correlation ← correlate admitted.kind raw.code raw.requestId inFlight
  checkMetadataOrder admitted.metadata
  let payloadBytes ←
    okOr (getRange input admitted.metadataEnd admitted.totalLen) Failure.malformedRequest
  let payload ← readPayload correlation raw.payloadLength payloadBytes
  Except.ok
    { header :=
        { version := ⟨raw.version⟩
          kind := admitted.kind
          flags := ⟨raw.flags⟩
          code := raw.code
          metadataLength := raw.metadataLength
          payloadLength := raw.payloadLength
          requestId := ⟨raw.requestId⟩ }
      metadata := admitted.metadata
      payload
      retires := retiresFor admitted.kind correlation raw.requestId }

/-- `decode`: one frame from the head of `input`, under a connection context. -/
def decode (input : Bytes) (admission : Admission) : Step :=
  match admitFrame input admission.role admission.limits with
  | .error step => step
  | .ok admitted =>
      match decodeAdmitted input admission.state admission.inFlight admitted with
      | .error failure => stepFor failure admitted.totalLen input.length
      | .ok frame => .frame frame

end Rp1.Protocol

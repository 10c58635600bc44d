import Rp1.Protocol.Decode
import Rp1.Protocol.Encode

/-!
# Protocol — the handshake payloads

The payload codecs of the handshake: the capability entries, the request an offerer sends and the
response it accepts.  A capability entry has the layout of a metadata entry, so both regions are
read by one loop.  `HandshakeResponse.decode` makes its checks in the order of the source.
-/

namespace Rp1.Protocol
open Codec

/-- The floor of a negotiated maximum frame size. -/
def minimumNegotiatedFrameSize : UInt64 := 65536

/-- The floor of a negotiated maximum metadata size. -/
def minimumNegotiatedMetadataSize : UInt16 := 4096

/-- The highest version the one-byte header field can carry. -/
def highestHeaderVersion : UInt16 := 255

/-! ### Capabilities -/

/-- One capability entry of a handshake payload. -/
structure CapabilityEntry where
  identifier : UInt16
  value : Bytes
deriving DecidableEq, Repr

structure CapabilityEntries where
  entries : List CapabilityEntry
deriving DecidableEq, Repr

/-- `u16::try_from(n).unwrap_or(u16::MAX)`. -/
def saturateU16 (n : Nat) : UInt16 := (tryU16 n).getD 0xffff

/-- One entry as both handshake encoders write it. -/
def CapabilityEntry.encode (e : CapabilityEntry) : Bytes :=
  toLeBytes e.identifier ++ toLeBytes (saturateU16 e.value.length) ++ e.value

namespace CapabilityEntries

def count (es : CapabilityEntries) : Nat := es.entries.length

/-- Parses a region whose entries must fill it exactly. -/
def parse (region : Bytes) : Option CapabilityEntries :=
  (Tlv.parse CapabilityEntry.mk region).map CapabilityEntries.mk

/-- The loop of `check_ascending`, with the identifier it saw last. -/
def checkAscendingLoop : Option UInt16 → List CapabilityEntry → Except Failure Unit
  | _, [] => .ok ()
  | previous, entry :: entries =>
      if previous.any (fun p => entry.identifier ≤ p) then .error .malformedRequest
      else checkAscendingLoop (some entry.identifier) entries

/-- Checks that the identifiers strictly ascend. -/
def checkAscending (es : CapabilityEntries) : Except Failure Unit :=
  checkAscendingLoop none es.entries

end CapabilityEntries

/-! ### The offer and the request -/

/-- The versions and capabilities an offerer proposes. -/
structure HandshakeOffer where
  minimumProtocolVersion : UInt16
  maximumProtocolVersion : UInt16
  capabilityIds : List UInt16
deriving DecidableEq, Repr

def HandshakeOffer.containsVersion (offer : HandshakeOffer) (version : UInt16) : Bool :=
  decide (version ≥ offer.minimumProtocolVersion) && decide (version ≤ offer.maximumProtocolVersion)

def HandshakeOffer.offersCapability (offer : HandshakeOffer) (identifier : UInt16) : Bool :=
  offer.capabilityIds.contains identifier

/-- The handshake request payload. -/
structure HandshakeRequest where
  clientMaximumProtocolVersion : UInt16
  clientMinimumProtocolVersion : UInt16
  clientDesiredMaximumFrameSize : UInt32
  capabilityCount : UInt16
  capabilityEntries : CapabilityEntries
deriving DecidableEq, Repr

namespace HandshakeRequest

def new (clientMaximumProtocolVersion clientMinimumProtocolVersion : UInt16)
    (clientDesiredMaximumFrameSize : UInt32) (capabilityEntries : CapabilityEntries) :
    HandshakeRequest :=
  { clientMaximumProtocolVersion
    clientMinimumProtocolVersion
    clientDesiredMaximumFrameSize
    capabilityCount := saturateU16 capabilityEntries.count
    capabilityEntries }

/-- Encodes the request, deriving the capability count from the entries. -/
def encode (r : HandshakeRequest) : Bytes :=
  toLeBytes r.clientMaximumProtocolVersion ++ toLeBytes r.clientMinimumProtocolVersion ++
    toLeBytes r.clientDesiredMaximumFrameSize ++
    toLeBytes (saturateU16 r.capabilityEntries.count) ++
    r.capabilityEntries.entries.flatMap CapabilityEntry.encode

/-- The fixed length of the request head in bytes. -/
def headLength : Nat := 10

/-- Decodes and validates a request payload as untrusted input. -/
def decode (payload : Bytes) : Except Failure HandshakeRequest :=
  if payload.length < headLength then .error .malformedRequest
  else do
    let clientMaximumProtocolVersion ← okOr (readU16Le payload 0) Failure.malformedRequest
    let clientMinimumProtocolVersion ← okOr (readU16Le payload 2) Failure.malformedRequest
    let clientDesiredMaximumFrameSize ← okOr (readU32Le payload 4) Failure.malformedRequest
    let capabilityCount ← okOr (readU16Le payload 8) Failure.malformedRequest
    if clientMaximumProtocolVersion < clientMinimumProtocolVersion then .error .malformedRequest
    else do
      let tail ← okOr (getFrom payload headLength) Failure.malformedRequest
      let capabilityEntries ← okOr (CapabilityEntries.parse tail) Failure.malformedRequest
      capabilityEntries.checkAscending
      if capabilityCount.toNat ≠ capabilityEntries.count then .error .malformedRequest
      else .ok ⟨clientMaximumProtocolVersion, clientMinimumProtocolVersion,
        clientDesiredMaximumFrameSize, capabilityCount, capabilityEntries⟩

end HandshakeRequest

/-! ### The response -/

/-- The validated handshake response payload. -/
structure HandshakeResponse where
  negotiatedProtocolVersion : UInt16
  negotiatedMaximumFrameSize : UInt32
  negotiatedMaximumMetadataSize : UInt16
  acceptedCapabilityCount : UInt16
  acceptedCapabilityEntries : CapabilityEntries
deriving DecidableEq, Repr

namespace HandshakeResponse

/-- The fixed length of the response head in bytes. -/
def headLength : Nat := 10

/-- The checks of `decode` on the fields it has read. -/
def check (r : HandshakeResponse) (offer : HandshakeOffer) : Except Failure HandshakeResponse := do
  r.acceptedCapabilityEntries.checkAscending
  if r.acceptedCapabilityCount.toNat ≠ r.acceptedCapabilityEntries.count then
    .error .malformedRequest
  else if r.negotiatedProtocolVersion > highestHeaderVersion then .error .malformedRequest
  else if !offer.containsVersion r.negotiatedProtocolVersion then .error .malformedRequest
  else if r.negotiatedMaximumFrameSize.toUInt64 < minimumNegotiatedFrameSize then
    .error .malformedRequest
  else if r.negotiatedMaximumMetadataSize < minimumNegotiatedMetadataSize then
    .error .malformedRequest
  else if r.acceptedCapabilityEntries.entries.any (!offer.offersCapability ·.identifier) then
    .error .protocolViolation
  else .ok r

/-- Decodes and validates a response payload against the offer it answers. -/
def decode (payload : Bytes) (offer : HandshakeOffer) : Except Failure HandshakeResponse :=
  if payload.length < headLength then .error .malformedRequest
  else do
    let negotiatedProtocolVersion ← okOr (readU16Le payload 0) Failure.malformedRequest
    let negotiatedMaximumFrameSize ← okOr (readU32Le payload 2) Failure.malformedRequest
    let negotiatedMaximumMetadataSize ← okOr (readU16Le payload 6) Failure.malformedRequest
    let acceptedCapabilityCount ← okOr (readU16Le payload 8) Failure.malformedRequest
    let tail ← okOr (getFrom payload headLength) Failure.malformedRequest
    let acceptedCapabilityEntries ← okOr (CapabilityEntries.parse tail) Failure.malformedRequest
    check
      { negotiatedProtocolVersion
        negotiatedMaximumFrameSize
        negotiatedMaximumMetadataSize
        acceptedCapabilityCount
        acceptedCapabilityEntries } offer

/-- Encodes the response, deriving the accepted count from the entries. -/
def encode (r : HandshakeResponse) : Bytes :=
  toLeBytes r.negotiatedProtocolVersion ++ toLeBytes r.negotiatedMaximumFrameSize ++
    toLeBytes r.negotiatedMaximumMetadataSize ++
    toLeBytes (saturateU16 r.acceptedCapabilityEntries.count) ++
    r.acceptedCapabilityEntries.entries.flatMap CapabilityEntry.encode

/-- The size bounds the response puts in force. -/
def limits (r : HandshakeResponse) : Limits :=
  ⟨r.negotiatedMaximumFrameSize.toUInt64, r.negotiatedMaximumMetadataSize⟩

end HandshakeResponse

end Rp1.Protocol

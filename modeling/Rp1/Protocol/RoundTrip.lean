import Rp1.Protocol.Encode
import Rp1.Protocol.Grammar

/-!
# Protocol — the round trips

`encode_with_max` and `decode` undo each other.  Both sides are compared with the wire form:
`Outgoing.frame` is the frame an encoded request, response or error becomes, its bytes are what
the encoder writes, and it is legal wherever the outgoing frame is acceptable
(`Outgoing.Acceptable.legal`).  In the other direction `Frame.outgoing` mirrors an
admitted frame, and the checks of the encoder follow from those of the decoder.
-/

namespace Rp1.Protocol
open Codec

/-! ### What a receiver has to accept -/

/-- The payload has the shape its code requires: a `PING` request and an absent answer are empty,
a `SET` request starts with a key length that does not overrun it, the length of a value held
outside memory is given as such, and an error as its detail and text. -/
def Outgoing.Shaped (o : Outgoing) (bytes : Bytes) : Prop :=
  match o.kind with
  | .request => (o.code = pingOpcode → bytes = []) ∧
      (o.code = setOpcode → 4 ≤ bytes.length ∧ 4 + numAt bytes 0 4 ≤ bytes.length)
  | .response => (o.code = 1 → bytes = []) ∧ (o.code = 4 → ∃ n, o.payload = .warm n)
  | .error => ∃ detail text, o.payload = .error detail text

/-- A receiver in the context `admission` has no reason to refuse the frame for what it says. -/
structure Outgoing.Acceptable (o : Outgoing) (admission : Admission) : Prop where
  direction : admission.role ≠ o.kind.sender
  state : Permits admission.state o.kind o.code
  rule : Rule o.code o.requestId admission.inFlight o.kind
  optional : ∀ e ∈ o.metadata, e.1 < 0x8000
  shape : ∀ bytes, encodePayload o.payload = .ok bytes → o.Shaped bytes

/-- The payload a receiver reads: the length or the detail and text where the kind and code have
one, and the bytes otherwise. -/
def Outgoing.received (o : Outgoing) (bytes : Bytes) : Payload :=
  match o.kind, o.payload with
  | .response, .warm n => if o.code = 4 then .warm n else .opaqueBytes bytes
  | .error, .error detail text => .error detail text
  | _, _ => .opaqueBytes bytes

/-- The frame an outgoing frame with the payload `bytes` becomes. -/
def Outgoing.frame (o : Outgoing) (bytes : Bytes) (c : Correlation) : Frame :=
  { header :=
      { version := ⟨0⟩
        kind := o.kind
        flags := ⟨0⟩
        code := o.code
        metadataLength := .ofNat (Tlv.size o.metadata)
        payloadLength := .ofNat bytes.length
        requestId := ⟨o.requestId⟩ }
    metadata := .ofPairs o.metadata
    payload := o.received bytes
    retires := retiresFor o.kind c o.requestId }

/-- An encoded payload of the right shape is laid out as its correlation requires. -/
theorem Outgoing.lays {o : Outgoing} {inFlight : List UInt64} {c : Correlation} {bytes : Bytes}
    (hc : Correlates o.code o.requestId inFlight o.kind c)
    (hb : encodePayload o.payload = .ok bytes) (h : o.Shaped bytes) :
    Lays c bytes (o.received bytes) := by
  obtain ⟨kind, code, requestId, metadata, payload⟩ := o
  cases hc with
  | handshake => exact .handshake bytes
  | operation hid hfl hc ha =>
      by_cases hp : code = pingOpcode
      · obtain rfl := h.1 hp
        cases hp
        exact .ping
      · by_cases hs : code = setOpcode
        · cases hs
          obtain ⟨h₄, hle⟩ := h.2 rfl
          exact .of_keyLength h₄ hle
        · exact .keyed code bytes hp hs
  | response hid hfl result hc =>
      cases hc
      cases result with
      | success => cases payload <;> exact .success bytes
      | absent =>
          obtain rfl := h.1 rfl
          cases payload <;> exact .absent
      | valueHeldOutsideMemory =>
          obtain ⟨n, rfl⟩ := h.2 rfl
          cases hb
          exact .warm n
  | error cls hc hreq =>
      obtain ⟨detail, text, rfl⟩ := h
      obtain ⟨hlt, rfl⟩ := encodePayload_error hb
      exact .error cls.scope detail text hlt

/-! ### Decode undoes encode -/

section Encoded
variable {o : Outgoing} {maxFrame : UInt64} {maxMetadata : UInt16} {b : Bytes}

/-- **Encoded frames are legal.**  An acceptable outgoing frame that was encoded within the limits
of the receiver is, on the wire, a frame the receiver has to accept. -/
theorem Outgoing.Acceptable.legal {admission : Admission} (h : o.Acceptable admission)
    (he : encodeWithMax o maxFrame maxMetadata = .ok b)
    (hF : maxFrame ≤ admission.limits.frameSize)
    (hM : maxMetadata ≤ admission.limits.metadataSize) :
    ∃ bytes c, encodePayload o.payload = .ok bytes ∧
      Correlates o.code o.requestId admission.inFlight o.kind c ∧
      (o.frame bytes c).Legal admission ∧ (o.frame bytes c).bytes = b := by
  obtain ⟨bytes, hb, hchain, hm, h32, hle, rfl⟩ := encodeWithMax_eq_ok_iff.mp he
  obtain ⟨c, hc⟩ := rule_iff.mp h.rule
  have hlay := o.lays hc hb (h.shape bytes hb)
  -- both length fields hold the true lengths, since the encoder has checked that they fit
  have hm16 : (UInt16.ofNat (Tlv.size o.metadata)).toNat = Tlv.size o.metadata :=
    UInt16.toNat_ofNat_of_lt' (Nat.lt_of_le_of_lt hm maxMetadata.toNat_lt)
  have hp32 : (UInt32.ofNat bytes.length).toNat = bytes.length := UInt32.toNat_ofNat_of_lt' h32
  have hbytes : (o.received bytes).bytes = bytes := hlay.bytes_eq
  have hpairs := MetadataRegion.pairs_ofPairs o.metadata
  refine ⟨bytes, c, hb, hc, ?_, ?_⟩
  · exact {
      version := rfl
      flags := rfl
      metadataLength := hm16.trans (congrArg Tlv.size hpairs.symm)
      payloadLength := hp32.trans (congrArg List.length hbytes.symm)
      metadataSize := by
        rw [UInt16.le_iff_toNat_le] at hM ⊢
        exact (Nat.le_of_eq hm16).trans (hm.trans hM)
      frameSize := by
        rw [UInt64.le_iff_toNat_le] at hF
        refine Nat.le_trans ?_ (hle.trans hF)
        show headerLength + (UInt16.ofNat (Tlv.size o.metadata)).toNat +
          (UInt32.ofNat bytes.length).toNat ≤ _
        rw [hm16, hp32]
      direction := h.direction.symm
      state := h.state
      order := by
        show InOrder (MetadataRegion.ofPairs o.metadata).pairs
        rw [hpairs]
        exact ⟨hchain, h.optional⟩
      correlated := ⟨c, hc, by
        show Lays c (o.received bytes).bytes (o.received bytes)
        rw [hbytes]
        exact hlay, rfl⟩ }
  · show o.headerBytes (Tlv.size o.metadata) bytes.length ++
      (Tlv.concat (MetadataRegion.ofPairs o.metadata).pairs ++ (o.received bytes).bytes) = _
    rw [hpairs, hbytes]

/-- **Decode undoes encode.**  Whatever follows the frame, a receiver that has no reason to refuse
it reads back the fields, the metadata entries and the payload that were encoded. -/
theorem decode_encodeWithMax {admission : Admission}
    (he : encodeWithMax o maxFrame maxMetadata = .ok b)
    (hF : maxFrame ≤ admission.limits.frameSize)
    (hM : maxMetadata ≤ admission.limits.metadataSize) (h : o.Acceptable admission)
    (rest : Bytes) :
    ∃ f bytes, decode (b ++ rest) admission = .frame f ∧ encodePayload o.payload = .ok bytes ∧
      f.header.version = ⟨0⟩ ∧ f.header.flags = ⟨0⟩ ∧ f.header.kind = o.kind ∧
      f.header.code = o.code ∧ f.header.requestId = ⟨o.requestId⟩ ∧
      f.header.metadataLength.toNat = (Tlv.concat o.metadata).length ∧
      f.header.payloadLength.toNat = bytes.length ∧
      headerLength + (Tlv.concat o.metadata).length + bytes.length = b.length ∧
      f.metadata.pairs = o.metadata ∧ f.payload = o.received bytes := by
  obtain ⟨bytes, c, hb, hc, hlegal, hbytes⟩ := h.legal he hF hM
  have hlay := o.lays hc hb (h.shape bytes hb)
  have hpairs : (o.frame bytes c).metadata.pairs = o.metadata :=
    MetadataRegion.pairs_ofPairs o.metadata
  have hml : (o.frame bytes c).header.metadataLength.toNat = (Tlv.concat o.metadata).length := by
    rw [hlegal.metadataLength, hpairs, Tlv.length_concat]
  have hpl : (o.frame bytes c).header.payloadLength.toNat = bytes.length := by
    rw [hlegal.payloadLength]
    exact congrArg List.length hlay.bytes_eq
  have hlen : headerLength + (Tlv.concat o.metadata).length + bytes.length = b.length := by
    rw [← hbytes, hlegal.length_bytes, ← hml, ← hpl]
    rfl
  exact ⟨o.frame bytes c, bytes, decode_eq_frame_iff.mpr ⟨hlegal, rest, by rw [hbytes]⟩, hb, rfl,
    rfl, rfl, rfl, rfl, hml, hpl, hlen, hpairs, rfl⟩

end Encoded

/-- A successful response with one metadata entry comes back from behind two more bytes. -/
theorem decode_encodeWithMax_response :
    ∃ f, decode ([0, 2, 0, 0, 0, 0, 5, 0, 2, 0, 0, 0, 7, 0, 0, 0, 0, 0, 0, 0,
          1, 0, 1, 0, 9, 65, 66] ++ [255, 255])
        ⟨.client, .negotiated, ⟨64, 16⟩, [7]⟩ = .frame f ∧
      f.metadata.pairs = [(1, [9])] ∧ f.payload = .opaqueBytes [65, 66] := by
  have hacc : (Outgoing.mk .response 0 7 [(1, [9])] (.opaqueBytes [65, 66])).Acceptable
      ⟨.client, .negotiated, ⟨64, 16⟩, [7]⟩ :=
    { direction := by decide
      state := fun h => nomatch h.1
      rule := ⟨by decide, by decide, .inl rfl⟩
      optional := by decide
      shape := fun _ _ => ⟨fun h => absurd h (by decide), fun h => absurd h (by decide)⟩ }
  have he : encodeWithMax ⟨.response, 0, 7, [(1, [9])], .opaqueBytes [65, 66]⟩ 64 16 =
      .ok [0, 2, 0, 0, 0, 0, 5, 0, 2, 0, 0, 0, 7, 0, 0, 0, 0, 0, 0, 0,
        1, 0, 1, 0, 9, 65, 66] := rfl
  obtain ⟨f, bytes, hd, hb, -, -, -, -, -, -, -, -, hm, hp⟩ :=
    decode_encodeWithMax he (by decide) (by decide) hacc [255, 255]
  cases hb
  exact ⟨f, hd, hm, hp⟩

/-! ### Encode undoes decode -/

/-- The payload that asks for an admitted one. -/
def Payload.outgoing : Payload → OutgoingPayload
  | .opaqueBytes bytes => .opaqueBytes bytes
  | .warm logicalLength => .warm logicalLength
  | .error detail text => .error detail text

/-- The outgoing frame that asks for an admitted one. -/
def Frame.outgoing (f : Frame) : Outgoing :=
  { kind := f.header.kind
    code := f.header.code
    requestId := f.header.requestId.value
    metadata := f.metadata.pairs
    payload := f.payload.outgoing }

theorem Lays.encodePayload_outgoing {c : Correlation} {bytes : Bytes} {payload : Payload}
    (h : Lays c bytes payload) : encodePayload payload.outgoing = .ok bytes := by
  cases h with
  | error scope detail text h =>
      rw [Payload.outgoing, encodePayload, tryU16_eq_some.mpr ⟨h, rfl⟩, okOr_some, ok_bind,
        List.append_assoc]
  | _ => rfl

/-- **Encode undoes decode.**  Mirroring an admitted frame and encoding it under the limits of the
receiver gives back exactly the bytes it was read from, so no two byte strings read as the same
frame, in whatever contexts. -/
theorem encodeWithMax_outgoing {input : Bytes} {admission : Admission} {f : Frame}
    (h : decode input admission = .frame f) :
    encodeWithMax f.outgoing admission.limits.frameSize admission.limits.metadataSize =
        .ok (input.take (20 + f.header.metadataLength.toNat + f.header.payloadLength.toNat)) ∧
      ∀ input' admission', decode input' admission' = .frame f →
        input'.take (20 + f.header.metadataLength.toNat + f.header.payloadLength.toNat) =
          input.take (20 + f.header.metadataLength.toNat + f.header.payloadLength.toNat) := by
  refine ⟨?_, fun input' admission' h' => (take_of_decode h').trans (take_of_decode h).symm⟩
  have htake : input.take (20 + f.header.metadataLength.toNat + f.header.payloadLength.toNat) =
      f.bytes := take_of_decode h
  obtain ⟨hl, -⟩ := decode_eq_frame_iff.mp h
  obtain ⟨c, -, hlay, -⟩ := hl.correlated
  have hsize := hl.frameSize
  have hms := UInt16.le_iff_toNat_le.mp hl.metadataSize
  rw [RawHeader.total] at hsize
  refine encodeWithMax_eq_ok_iff.mpr ⟨f.payload.bytes, hlay.encodePayload_outgoing, hl.order.1,
    hl.metadataLength ▸ hms, hl.payloadLength ▸ f.header.payloadLength.toNat_lt,
    hl.metadataLength ▸ hl.payloadLength ▸ hsize, ?_⟩
  -- the lengths in an admitted header are the true ones, so the encoder writes them again
  have hhead : f.outgoing.headerBytes (Tlv.size f.metadata.pairs) f.payload.bytes.length =
      f.header.raw.bytes := by
    rw [Outgoing.headerBytes, ← hl.metadataLength, ← hl.payloadLength, UInt16.ofNat_toNat,
      UInt32.ofNat_toNat, RawHeader.bytes]
    show _ = f.header.version.value :: _ :: (toLeBytes f.header.flags.value ++ _)
    rw [hl.version, hl.flags]
    rfl
  rw [htake, Frame.bytes, ← hhead]
  rfl

/-- A value with one metadata entry, in front of two bytes of the next frame, is written as its own
bytes: the head, the entry and the value. -/
theorem encodeWithMax_outgoing_value :
    encodeWithMax ⟨.response, 0, 7, [(1, [9])], .opaqueBytes [8, 6]⟩ 64 16 =
      .ok [0, 2, 0, 0, 0, 0, 5, 0, 2, 0, 0, 0, 7, 0, 0, 0, 0, 0, 0, 0, 1, 0, 1, 0, 9, 8, 6] :=
  have hd : decode [0, 2, 0, 0, 0, 0, 5, 0, 2, 0, 0, 0, 7, 0, 0, 0, 0, 0, 0, 0, 1, 0, 1, 0, 9, 8, 6,
      0, 2] ⟨.client, .negotiated, ⟨64, 16⟩, [7]⟩ =
        .frame ⟨⟨⟨0⟩, .response, ⟨0⟩, 0, 5, 2, ⟨7⟩⟩, .ofPairs [(1, [9])], .opaqueBytes [8, 6],
          ⟨7⟩⟩ := by
    decide
  (encodeWithMax_outgoing hd).1

end Rp1.Protocol

import Rp1.Protocol.Verdict

/-!
# Protocol — frames and their wire form

The abstract side of the format.  `Frame.bytes` is the one byte string a frame has on the wire:
its header, its metadata entries and its payload.  `Frame.Legal admission f` says that a receiver
in the context `admission` has to accept `f`.

`decode_eq_frame_iff` is the refinement: `decode` answers with `f` exactly when `f` is legal and
the input starts with the bytes of `f`.  The round trips, the uniqueness of the encoding and the
driver's view of a buffer are read off it.
-/

namespace Rp1.Protocol
open Codec

/-! ### Serialisation -/

/-- The bytes of a payload. -/
def Payload.bytes : Payload → Bytes
  | .opaqueBytes bytes => bytes
  | .warm logicalLength => toLeBytes logicalLength
  | .error detail text => toLeBytes (UInt16.ofNat detail.length) ++ (detail ++ text)

/-- The wire fields of a header. -/
def Header.raw (h : Header) : RawHeader :=
  { version := h.version.value
    kind := h.kind.value
    flags := h.flags.value
    code := h.code
    metadataLength := h.metadataLength
    payloadLength := h.payloadLength
    requestId := h.requestId.value }

/-- The bytes of a frame. -/
def Frame.bytes (f : Frame) : Bytes :=
  f.header.raw.bytes ++ (Tlv.concat f.metadata.pairs ++ f.payload.bytes)

theorem Header.header_raw (h : Header) : h.raw.header h.kind = h := rfl

theorem RawHeader.raw_header {raw : RawHeader} {kind : Kind} (h : kind.value = raw.kind) :
    (raw.header kind).raw = raw := by
  cases raw
  cases h
  rfl

theorem Lays.bytes_eq {c : Correlation} {bytes : Bytes} {payload : Payload}
    (h : Lays c bytes payload) : payload.bytes = bytes := by
  cases h <;> rfl

/-- What a receiver in the context `admission` has to accept. -/
structure Frame.Legal (admission : Admission) (f : Frame) : Prop where
  version : f.header.version.value = 0
  flags : f.header.flags.value = 0
  metadataLength : f.header.metadataLength.toNat = Tlv.size f.metadata.pairs
  payloadLength : f.header.payloadLength.toNat = f.payload.bytes.length
  metadataSize : f.header.metadataLength ≤ admission.limits.metadataSize
  frameSize : f.header.raw.total ≤ admission.limits.frameSize.toNat
  direction : f.header.kind.sender ≠ admission.role
  state : Permits admission.state f.header.kind f.header.code
  order : InOrder f.metadata.pairs
  correlated : ∃ c, Correlates f.header.code f.header.requestId.value admission.inFlight
      f.header.kind c ∧ Lays c f.payload.bytes f.payload ∧
      f.retires = retiresFor f.header.kind c f.header.requestId.value

theorem Frame.Legal.length_bytes {admission : Admission} {f : Frame} (h : f.Legal admission) :
    f.bytes.length = f.header.raw.total := by
  have hm : (Tlv.concat f.metadata.pairs).length = f.header.metadataLength.toNat := by
    rw [Tlv.length_concat, h.metadataLength]
  rw [Frame.bytes, List.length_append, List.length_append, RawHeader.length_bytes, hm,
    ← h.payloadLength, RawHeader.total, Nat.add_assoc]
  rfl

theorem Frame.Legal.fits {admission : Admission} {f : Frame} (h : f.Legal admission) :
    ∀ e ∈ f.metadata.pairs, Tlv.Fits e :=
  Tlv.fits_of_size_lt (h.metadataLength ▸ f.header.metadataLength.toNat_lt)

/-! ### The decoder against the wire form -/

/-- Cutting a held frame out of the input. -/
theorem RawHeader.cut {raw : RawHeader} {input : Bytes} (hp : RawHeader.parse input = some raw)
    (hl : raw.total ≤ input.length) :
    input = raw.bytes ++ (raw.metadataBytes input ++ raw.payloadBytes input) ++
      input.drop raw.total := by
  obtain ⟨tail, rfl⟩ := parse_eq_some_iff.mp hp
  have hdrop : ∀ n, (raw.bytes ++ tail).drop (headerLength + n) = tail.drop n := fun n => by
    rw [← List.drop_drop, ← length_bytes raw, List.drop_left]
  have h₀ : (raw.bytes ++ tail).drop headerLength = tail := hdrop 0
  rw [metadataBytes, payloadBytes, total, Nat.add_assoc, hdrop, hdrop, h₀, ← List.drop_drop,
    List.append_assoc, List.append_assoc, List.take_append_drop, List.take_append_drop]

theorem Frame.Legal.of_judge {input : Bytes} {admission : Admission} {raw : RawHeader}
    {kind : Kind} {f : Frame} (hp : RawHeader.parse input = some raw)
    (hh : admitHeader raw admission.limits = .ok (kind, raw.total))
    (hl : raw.total ≤ input.length) (h : judge input admission raw kind = .ok f) :
    f.Legal admission ∧ input = f.bytes ++ input.drop raw.total ∧ f.header.raw = raw := by
  obtain ⟨hv, hk, ht, hf, hm, -⟩ := admitHeader_eq_ok_iff.mp hh
  obtain ⟨metadata, c, payload, ⟨-, hmeta⟩, hd, hs, hc, ho, hlay, rfl⟩ :=
    (judge_eq_ok_iff hl).mp h
  have hraw : (raw.header kind).raw = raw := RawHeader.raw_header hk
  have hpay : payload.bytes = raw.payloadBytes input := hlay.bytes_eq
  have hml : (raw.metadataBytes input).length = raw.metadataLength.toNat := by
    simp only [RawHeader.total] at hl
    simp only [RawHeader.metadataBytes, List.length_take, List.length_drop]
    omega
  refine ⟨⟨hv, hf, ?_, ?_, hm, ?_, hd, hs, ho, c, hc, ?_, rfl⟩, ?_, hraw⟩
  · show raw.metadataLength.toNat = Tlv.size metadata.pairs
    rw [← Tlv.length_concat, ← hmeta, hml]
  · show raw.payloadLength.toNat = payload.bytes.length
    rw [hpay, RawHeader.length_payloadBytes hl]
  · show (raw.header kind).raw.total ≤ _
    rw [hraw]
    exact ht
  · show Lays c payload.bytes payload
    rw [hpay]
    exact hlay
  · rw [Frame.bytes]
    show input = (raw.header kind).raw.bytes ++ (Tlv.concat metadata.pairs ++ payload.bytes) ++ _
    rw [hraw, ← hmeta, hpay]
    exact RawHeader.cut hp hl

/-- **The decoder and the wire form.**  `decode` answers with `f` exactly when `f` is legal in the
context and the input starts with the bytes of `f`. -/
theorem decode_eq_frame_iff {input : Bytes} {admission : Admission} {f : Frame} :
    decode input admission = .frame f ↔ f.Legal admission ∧ ∃ rest, input = f.bytes ++ rest := by
  constructor
  · intro h
    obtain ⟨raw, kind, hp, hh, hl, hj⟩ := judge_of_decode h
    obtain ⟨hlegal, hcut, -⟩ := Frame.Legal.of_judge hp hh hl hj
    exact ⟨hlegal, _, hcut⟩
  · rintro ⟨h, rest, rfl⟩
    have hp : RawHeader.parse (f.bytes ++ rest) = some f.header.raw :=
      RawHeader.parse_eq_some_iff.mpr ⟨_, List.append_assoc _ _ _⟩
    have hh : admitHeader f.header.raw admission.limits =
        .ok (f.header.kind, f.header.raw.total) :=
      admitHeader_eq_ok_iff.mpr ⟨h.version, rfl, h.frameSize, h.flags, h.metadataSize, rfl⟩
    have hl : f.header.raw.total ≤ (f.bytes ++ rest).length := by
      rw [List.length_append, h.length_bytes]
      exact Nat.le_add_right _ _
    have hml : (Tlv.concat f.metadata.pairs).length = f.header.raw.metadataLength.toNat := by
      rw [Tlv.length_concat, ← h.metadataLength]
      rfl
    -- cut the three parts of the frame back out of the input
    have hdrop : ∀ n, (f.bytes ++ rest).drop (headerLength + n) =
        (Tlv.concat f.metadata.pairs ++ (f.payload.bytes ++ rest)).drop n := fun n => by
      rw [Frame.bytes, List.append_assoc, ← List.drop_drop, ← RawHeader.length_bytes f.header.raw,
        List.drop_left, List.append_assoc]
    have hmeta : f.header.raw.metadataBytes (f.bytes ++ rest) = Tlv.concat f.metadata.pairs := by
      have h₀ := hdrop 0
      rw [Nat.add_zero, List.drop_zero] at h₀
      rw [RawHeader.metadataBytes, h₀, ← hml, List.take_left]
    have hpay : f.header.raw.payloadBytes (f.bytes ++ rest) = f.payload.bytes := by
      rw [RawHeader.payloadBytes, hdrop, ← hml, List.drop_left]
      exact List.take_left' h.payloadLength.symm
    obtain ⟨c, hc, hlay, hret⟩ := h.correlated
    have hj : judge (f.bytes ++ rest) admission f.header.raw f.header.kind = .ok f := by
      refine (judge_eq_ok_iff hl).mpr ⟨f.metadata, c, f.payload, ⟨h.fits, hmeta⟩, h.direction,
        h.state, hc, h.order, by rwa [hpay], ?_⟩
      rw [Header.header_raw]
      exact congrArg (Frame.mk f.header f.metadata f.payload) hret
    rw [decode_judged hp hh hl, hj]
    rfl

/-- A frame the decoder answers with is the one the input starts with. -/
theorem take_of_decode {input : Bytes} {admission : Admission} {f : Frame}
    (h : decode input admission = .frame f) : input.take f.header.raw.total = f.bytes := by
  obtain ⟨hlegal, rest, rfl⟩ := decode_eq_frame_iff.mp h
  rw [← hlegal.length_bytes, List.take_left]

end Rp1.Protocol

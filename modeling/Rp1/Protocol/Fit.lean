import Rp1.Protocol.Admit
import Rp1.Protocol.Encode

/-!
# Protocol — the frames that fit

What `encode_with_max` answers, for every outgoing frame and every pair of bounds.  The first pass
over the metadata finds the entries out of order or too large, in this order of precedence; all
other refusals are about the frame (`encodeWithMax_of_metadata`).  `Outgoing.Fits` is the exact
condition of success, and then the two length fields of the header hold the lengths of the regions
behind it.
-/

namespace Rp1.Protocol
open Codec

/-! ### The payload -/

/-- The length of a payload on the wire. -/
def OutgoingPayload.size : OutgoingPayload → Nat
  | .opaqueBytes bytes => bytes.length
  | .warm _ => 8
  | .error detail text => 2 + detail.length + text.length

/-- The detail of an error has a length its field can hold. -/
def OutgoingPayload.DetailFits : OutgoingPayload → Prop
  | .error detail _ => detail.length ≤ 65535
  | _ => True

theorem encodePayload_spec {p : OutgoingPayload} {payload : Bytes}
    (h : encodePayload p = .ok payload) : p.DetailFits ∧ payload.length = p.size := by
  cases p with
  | opaqueBytes bytes =>
      obtain rfl := Except.ok.inj h
      exact ⟨trivial, rfl⟩
  | warm n =>
      obtain rfl := Except.ok.inj h
      exact ⟨trivial, length_toLeBytes n⟩
  | error detail text =>
      obtain ⟨hlt, rfl⟩ := encodePayload_error h
      refine ⟨Nat.le_of_lt_succ hlt, ?_⟩
      simp only [List.length_append, length_toLeBytes, width_u16, OutgoingPayload.size,
        Nat.add_assoc]

theorem encodePayload_of_detailFits {p : OutgoingPayload} (h : p.DetailFits) :
    ∃ payload, encodePayload p = .ok payload := by
  cases p with
  | opaqueBytes bytes => exact ⟨_, rfl⟩
  | warm n => exact ⟨_, rfl⟩
  | error detail text =>
      have hlt : tryU16 detail.length = some (.ofNat detail.length) :=
        tryU16_eq_some.mpr ⟨Nat.lt_succ_of_le h, rfl⟩
      exact ⟨_, by rw [encodePayload, hlt, okOr_some, ok_bind]⟩

/-- A payload is refused only for its detail, as a frame that is too large. -/
theorem encodePayload_eq_error {p : OutgoingPayload} {e : EncodeError}
    (h : encodePayload p = .error e) : e = .frameTooLarge := by
  cases p with
  | opaqueBytes bytes => cases h
  | warm n => cases h
  | error detail text =>
      rcases bind_eq_error.mp h with h | ⟨_, -, h⟩
      · exact (okOr_eq_error.mp h).2.symm
      · cases h

/-! ### The metadata -/

/-- A region whose length a `u64` can hold is refused in the loop only for its order. -/
theorem checkedMetadataLengthLoop_eq_error {previous : Option UInt16} {length : Nat}
    {es : List (UInt16 × Bytes)} {e : EncodeError} (hle : length + Tlv.size es ≤ u64Max)
    (h : checkedMetadataLengthLoop previous length es = .error e) :
    e = .metadataNotAscending := by
  induction es generalizing previous length with
  | nil => cases h
  | cons entry es ih =>
      obtain ⟨identifier, value⟩ := entry
      have hsize : Tlv.size ((identifier, value) :: es) = 4 + value.length + Tlv.size es := by
        simp [Tlv.size]
      rw [hsize] at hle
      rw [checkedMetadataLengthLoop] at h
      split at h
      · exact (Except.error.inj h).symm
      · -- none of the three checked operations of the round fails
        rw [tryFit_of_le (by omega), okOr_some, ok_bind, checkedAdd_of_le (by omega), okOr_some,
          ok_bind, checkedAdd_of_le (by omega), okOr_some, ok_bind] at h
        exact ih (by omega) h

section Metadata
variable {es : List (UInt16 × Bytes)} {max : UInt16}

theorem checkedMetadataLengthWithMax_of_not_chain (hsize : Tlv.size es < 2 ^ 64)
    (h : ¬ (es.map Prod.fst).IsChain (· < ·)) :
    checkedMetadataLengthWithMax es max = .error .metadataNotAscending := by
  have hle : 0 + Tlv.size es ≤ u64Max := by simp only [u64Max]; omega
  cases hl : checkedMetadataLengthLoop none 0 es with
  | ok n =>
      have hchain := ((checkedMetadataLengthLoop_eq_ok_iff (Nat.zero_le _)).mp hl).1
      exact absurd (by simpa using hchain) h
  | error e =>
      rw [checkedMetadataLengthWithMax, hl, error_bind, checkedMetadataLengthLoop_eq_error hle hl]

theorem checkedMetadataLengthWithMax_of_lt (hsize : Tlv.size es < 2 ^ 64)
    (h : (es.map Prod.fst).IsChain (· < ·)) (hlt : max.toNat < Tlv.size es) :
    checkedMetadataLengthWithMax es max = .error .metadataTooLarge := by
  have hle : 0 + Tlv.size es ≤ u64Max := by simp only [u64Max]; omega
  have hl : checkedMetadataLengthLoop none 0 es = .ok (0 + Tlv.size es) :=
    (checkedMetadataLengthLoop_eq_ok_iff (Nat.zero_le _)).mpr ⟨by simpa using h, hle, rfl⟩
  rw [checkedMetadataLengthWithMax, hl, ok_bind]
  exact if_pos (by omega)

end Metadata

/-! ### The frame -/

/-- The condition under which a frame is emitted. -/
structure Outgoing.Fits (o : Outgoing) (maxFrame : UInt64) (maxMetadata : UInt16) : Prop where
  ascending : (o.metadata.map Prod.fst).IsChain (· < ·)
  metadata : Tlv.size o.metadata ≤ maxMetadata.toNat
  detail : o.payload.DetailFits
  payload : o.payload.size ≤ 2 ^ 32 - 1
  frame : headerLength + Tlv.size o.metadata + o.payload.size ≤ maxFrame.toNat

section Frame
variable {o : Outgoing} {maxFrame : UInt64} {maxMetadata : UInt16}

theorem encodeWithMax_isOk_iff :
    (∃ b, encodeWithMax o maxFrame maxMetadata = .ok b) ↔ o.Fits maxFrame maxMetadata := by
  constructor
  · rintro ⟨b, h⟩
    obtain ⟨payload, hp, hc, hm, h32, hle, -⟩ := encodeWithMax_eq_ok_iff.mp h
    obtain ⟨hd, hlen⟩ := encodePayload_spec hp
    exact ⟨hc, hm, hd, hlen ▸ Nat.le_sub_one_of_lt h32, hlen ▸ hle⟩
  · intro h
    obtain ⟨payload, hp⟩ := encodePayload_of_detailFits h.detail
    obtain ⟨-, hlen⟩ := encodePayload_spec hp
    have hpayload := h.payload
    exact ⟨_, encodeWithMax_eq_ok_iff.mpr
      ⟨payload, hp, h.ascending, h.metadata, by omega, hlen ▸ h.frame, rfl⟩⟩

/-- Once the metadata has passed, every refusal is about the frame. -/
theorem encodeWithMax_of_metadata {e : EncodeError}
    (hc : (o.metadata.map Prod.fst).IsChain (· < ·))
    (hm : Tlv.size o.metadata ≤ maxMetadata.toNat)
    (h : encodeWithMax o maxFrame maxMetadata = .error e) : e = .frameTooLarge := by
  have hmax := maxMetadata.toNat_lt
  have hchecked := checkedMetadataLengthWithMax_eq_ok_iff.mpr ⟨hc, hm, rfl⟩
  rw [encodeWithMax, hchecked, ok_bind] at h
  rcases bind_eq_error.mp h with h | ⟨payload, -, h⟩
  · exact encodePayload_eq_error h
  rcases bind_eq_error.mp h with h | ⟨payloadLength, -, h⟩
  · exact (okOr_eq_error.mp h).2.symm
  rcases bind_eq_error.mp h with h | ⟨frameTotal, -, h⟩
  · exact (okOr_eq_error.mp h).2.symm
  split at h
  · exact (Except.error.inj h).symm
  · -- the two conversions behind the checks cannot fail
    have h16 : tryU16 (Tlv.size o.metadata) = some (.ofNat (Tlv.size o.metadata)) :=
      tryU16_eq_some.mpr ⟨by omega, rfl⟩
    have hfits := Tlv.fits_of_size_lt (Nat.lt_of_le_of_lt hm hmax)
    simp only [h16, okOr_some, ok_bind, writeMetadata_of_fits hfits] at h
    cases h

/-- The bytes of an emitted frame: a header, and the two regions whose lengths it states. -/
theorem encodeWithMax_regions {b : Bytes} (h : encodeWithMax o maxFrame maxMetadata = .ok b) :
    ∃ raw payload, RawHeader.parse b = some raw ∧ encodePayload o.payload = .ok payload ∧
      b = raw.bytes ++ (Tlv.concat o.metadata ++ payload) ∧
      raw.metadataLength.toNat = (Tlv.concat o.metadata).length ∧
      raw.payloadLength.toNat = payload.length := by
  have hmax := maxMetadata.toNat_lt
  obtain ⟨payload, hp, -, hm, h32, -, rfl⟩ := encodeWithMax_eq_ok_iff.mp h
  have hm16 : (UInt16.ofNat (Tlv.size o.metadata)).toNat = Tlv.size o.metadata :=
    UInt16.toNat_ofNat_of_lt' (Nat.lt_of_le_of_lt hm hmax)
  have hp32 : (UInt32.ofNat payload.length).toNat = payload.length :=
    UInt32.toNat_ofNat_of_lt' h32
  obtain ⟨raw, hm', hp', hhead⟩ : ∃ raw : RawHeader,
      raw.metadataLength = .ofNat (Tlv.size o.metadata) ∧
      raw.payloadLength = .ofNat payload.length ∧
      o.headerBytes (Tlv.size o.metadata) payload.length = raw.bytes :=
    ⟨⟨0, o.kind.value, 0, o.code, .ofNat (Tlv.size o.metadata), .ofNat payload.length,
      o.requestId⟩, rfl, rfl, rfl⟩
  rw [hhead]
  refine ⟨raw, payload, RawHeader.parse_bytes raw _, hp, rfl, ?_, ?_⟩
  · rw [hm', hm16, Tlv.length_concat]
  · rw [hp', hp32]

/-- The four answers of the encoder, by what they are given for. -/
theorem encodeWithMax_cases (maxFrame : UInt64) (maxMetadata : UInt16)
    (hsize : Tlv.size o.metadata < 2 ^ 64) :
    (¬ (o.metadata.map Prod.fst).IsChain (· < ·) ∧
      encodeWithMax o maxFrame maxMetadata = .error .metadataNotAscending) ∨
    ((o.metadata.map Prod.fst).IsChain (· < ·) ∧ maxMetadata.toNat < Tlv.size o.metadata ∧
      encodeWithMax o maxFrame maxMetadata = .error .metadataTooLarge) ∨
    ((o.metadata.map Prod.fst).IsChain (· < ·) ∧ Tlv.size o.metadata ≤ maxMetadata.toNat ∧
      ¬ o.Fits maxFrame maxMetadata ∧
      encodeWithMax o maxFrame maxMetadata = .error .frameTooLarge) ∨
    (o.Fits maxFrame maxMetadata ∧ ∃ b, encodeWithMax o maxFrame maxMetadata = .ok b) := by
  by_cases hc : (o.metadata.map Prod.fst).IsChain (· < ·)
  · rcases Nat.lt_or_ge maxMetadata.toNat (Tlv.size o.metadata) with hlt | hle
    · refine .inr (.inl ⟨hc, hlt, ?_⟩)
      rw [encodeWithMax, checkedMetadataLengthWithMax_of_lt hsize hc hlt, error_bind]
    · cases h : encodeWithMax o maxFrame maxMetadata with
      | ok b =>
          have hfits := encodeWithMax_isOk_iff.mp ⟨b, h⟩
          exact .inr (.inr (.inr ⟨hfits, b, rfl⟩))
      | error e =>
          obtain rfl := encodeWithMax_of_metadata hc hle h
          refine .inr (.inr (.inl ⟨hc, hle, fun hfits => ?_, rfl⟩))
          obtain ⟨b, hb⟩ := encodeWithMax_isOk_iff.mpr hfits
          cases h.symm.trans hb
  · refine .inl ⟨hc, ?_⟩
    rw [encodeWithMax, checkedMetadataLengthWithMax_of_not_chain hsize hc, error_bind]

end Frame

/-- **The encoder emits exactly the frames that fit.**  An emitted frame has the length that was
compared with the bound, and its header states the lengths of its two regions.  Metadata out of
order is found before metadata that is too large, and this before everything else.  Where the
entries are written, each value length fits its field. -/
theorem encodeWithMax_exact (o : Outgoing) (maxFrame : UInt64) (maxMetadata : UInt16)
    (hsize : Tlv.size o.metadata < 2 ^ 64) :
    ((∃ b, encodeWithMax o maxFrame maxMetadata = .ok b) ↔ o.Fits maxFrame maxMetadata) ∧
    (∀ b, encodeWithMax o maxFrame maxMetadata = .ok b →
      b.length = headerLength + Tlv.size o.metadata + o.payload.size ∧
      b.length ≤ maxFrame.toNat ∧
      ∃ raw payload, RawHeader.parse b = some raw ∧ encodePayload o.payload = .ok payload ∧
        b = raw.bytes ++ (Tlv.concat o.metadata ++ payload) ∧
        raw.metadataLength.toNat = (Tlv.concat o.metadata).length ∧
        raw.payloadLength.toNat = payload.length) ∧
    (encodeWithMax o maxFrame maxMetadata = .error .metadataNotAscending ↔
      ¬ (o.metadata.map Prod.fst).IsChain (· < ·)) ∧
    (encodeWithMax o maxFrame maxMetadata = .error .metadataTooLarge ↔
      (o.metadata.map Prod.fst).IsChain (· < ·) ∧ maxMetadata.toNat < Tlv.size o.metadata) ∧
    (encodeWithMax o maxFrame maxMetadata = .error .frameTooLarge ↔
      (o.metadata.map Prod.fst).IsChain (· < ·) ∧ Tlv.size o.metadata ≤ maxMetadata.toNat ∧
        ¬ o.Fits maxFrame maxMetadata) ∧
    ∀ n, checkedMetadataLengthWithMax o.metadata maxMetadata = .ok n →
      ∀ e ∈ o.metadata, ∃ valueLen, tryU16 e.2.length = some valueLen := by
  have hcases := encodeWithMax_cases maxFrame maxMetadata hsize
  refine ⟨encodeWithMax_isOk_iff, fun b hb => ?_, ?_, ?_, ?_, fun n hn e he => ?_⟩
  · have hfits := encodeWithMax_isOk_iff.mp ⟨b, hb⟩
    obtain ⟨raw, payload, hparse, hp, hcut, hm, hl⟩ := encodeWithMax_regions hb
    have hlen : b.length = headerLength + Tlv.size o.metadata + o.payload.size := by
      rw [hcut, List.length_append, List.length_append, RawHeader.length_bytes, Tlv.length_concat,
        (encodePayload_spec hp).2, Nat.add_assoc]
    exact ⟨hlen, hlen ▸ hfits.frame, raw, payload, hparse, hp, hcut, hm, hl⟩
  · rcases hcases with ⟨hc, h⟩ | ⟨hc, -, h⟩ | ⟨hc, -, -, h⟩ | ⟨hfits, b, h⟩
    · simp [h, hc]
    · simp [h, hc]
    · simp [h, hc]
    · simp [h, hfits.ascending]
  · rcases hcases with ⟨hc, h⟩ | ⟨hc, hlt, h⟩ | ⟨hc, hle, -, h⟩ | ⟨hfits, b, h⟩
    · simp [h, hc]
    · simp [h, hc, hlt]
    · simp [h, Nat.not_lt.mpr hle]
    · simp [h, Nat.not_lt.mpr hfits.metadata]
  · rcases hcases with ⟨hc, h⟩ | ⟨hc, hlt, h⟩ | ⟨hc, hle, hno, h⟩ | ⟨hfits, b, h⟩
    · simp [h, hc]
    · simp [h, Nat.not_le.mpr hlt]
    · simp [h, hc, hle, hno]
    · simp [h, hfits]
  · obtain ⟨-, hle, -⟩ := checkedMetadataLengthWithMax_eq_ok_iff.mp hn
    have hfits := Tlv.fits_of_size_lt (Nat.lt_of_le_of_lt hle maxMetadata.toNat_lt)
    exact ⟨_, tryU16_eq_some.mpr ⟨hfits e he, rfl⟩⟩

/-- A response with one entry that fills its bounds to the last byte. -/
theorem encodeWithMax_exact_full :
    ∃ b, encodeWithMax ⟨.response, 0, 7, [(1, [9, 9])], .opaqueBytes [5]⟩ 27 6 = .ok b ∧
      b.length = 27 := by
  obtain ⟨hok, hlen, -⟩ := encodeWithMax_exact ⟨.response, 0, 7, [(1, [9, 9])], .opaqueBytes [5]⟩
    27 6 (by decide)
  obtain ⟨b, hb⟩ := hok.mpr ⟨by simp, by decide, trivial, by decide, by decide⟩
  exact ⟨b, hb, (hlen b hb).1⟩

end Rp1.Protocol

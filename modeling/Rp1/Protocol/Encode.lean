import Rp1.Protocol.Types

/-!
# Protocol — the encoder

`encode_with_max` writes a frame under explicit size bounds.  Its two checked parts, the length of
the metadata region and the payload, are separate functions here as in the source; the two
writing loops build the output left to right.

`encodeWithMax_eq_ok_iff` inverts the whole: the encoder succeeds exactly on the frames that fit,
and then the output is the header, the metadata entries and the payload, one after the other.
-/

namespace Rp1.Protocol
open Codec

/-! ### The functions -/

/-- The loop of `checked_metadata_length_with_max`: the identifier seen last and the length so
far. -/
def checkedMetadataLengthLoop :
    Option UInt16 → Nat → List (UInt16 × Bytes) → Except EncodeError Nat
  | _, length, [] => .ok length
  | previous, length, (identifier, value) :: entries =>
      if previous.any (fun p => identifier ≤ p) then .error .metadataNotAscending
      else do
        let valueLength ← okOr (tryFit u64Max value.length) EncodeError.metadataTooLarge
        let entryLength ← okOr (checkedAdd u64Max 4 valueLength) EncodeError.metadataTooLarge
        let length ← okOr (checkedAdd u64Max length entryLength) EncodeError.metadataTooLarge
        checkedMetadataLengthLoop (some identifier) length entries

/-- `checked_metadata_length_with_max`: the encoded metadata length, within the given bound. -/
def checkedMetadataLengthWithMax (metadata : List (UInt16 × Bytes)) (max : UInt16) :
    Except EncodeError Nat := do
  let length ← checkedMetadataLengthLoop none 0 metadata
  if length > max.toNat then .error .metadataTooLarge else .ok length

/-- `u16::try_from(n)`. -/
def tryU16 (n : Nat) : Option UInt16 := (tryFit (2 ^ 16 - 1) n).map UInt16.ofNat

/-- `u32::try_from(n)`. -/
def tryU32 (n : Nat) : Option UInt32 := (tryFit (2 ^ 32 - 1) n).map UInt32.ofNat

/-- `encode_payload`. -/
def encodePayload : OutgoingPayload → Except EncodeError Bytes
  | .opaqueBytes bytes => .ok bytes
  | .warm logicalLength => .ok (toLeBytes logicalLength)
  | .error detail text => do
      let detailLength ← okOr (tryU16 detail.length) EncodeError.frameTooLarge
      .ok (toLeBytes detailLength ++ detail ++ text)

/-- The loop that writes the metadata entries behind `out`. -/
def writeMetadata : Bytes → List (UInt16 × Bytes) → Except EncodeError Bytes
  | out, [] => .ok out
  | out, (identifier, value) :: entries => do
      let valueLen ← okOr (tryU16 value.length) EncodeError.metadataTooLarge
      writeMetadata (out ++ toLeBytes identifier ++ toLeBytes valueLen ++ value) entries

/-- `encode_with_max`. -/
def encodeWithMax (outgoing : Outgoing) (maxFrameSize : UInt64) (maxMetadataSize : UInt16) :
    Except EncodeError Bytes := do
  let metadataLength ← checkedMetadataLengthWithMax outgoing.metadata maxMetadataSize
  let payload ← encodePayload outgoing.payload
  let payloadLength ← okOr (tryU32 payload.length) EncodeError.frameTooLarge
  let frameTotal ←
    okOr ((checkedAdd u64Max headerLength metadataLength).bind fun total =>
      checkedAdd u64Max total payloadLength.toNat) EncodeError.frameTooLarge
  if frameTotal > maxFrameSize.toNat then .error .frameTooLarge
  else do
    let metadataLen ← okOr (tryU16 metadataLength) EncodeError.metadataTooLarge
    let out := [0] ++ [outgoing.kind.value] ++ toLeBytes (0 : UInt16) ++
      toLeBytes outgoing.code ++ toLeBytes metadataLen ++ toLeBytes payloadLength ++
      toLeBytes outgoing.requestId
    let out ← writeMetadata out outgoing.metadata
    .ok (out ++ payload)

/-- `encode`: the encoder under the pre-negotiation bounds. -/
def encode (outgoing : Outgoing) : Except EncodeError Bytes :=
  encodeWithMax outgoing maxFrameSize maxMetadataSize

/-! ### Inversions -/

theorem tryU16_eq_some {n : Nat} {x : UInt16} : tryU16 n = some x ↔ n < 2 ^ 16 ∧ x = .ofNat n :=
  tryFit_map_eq_some.trans (and_congr_left' (Nat.le_sub_one_iff_lt (by decide)))

theorem tryU32_eq_some {n : Nat} {x : UInt32} : tryU32 n = some x ↔ n < 2 ^ 32 ∧ x = .ofNat n :=
  tryFit_map_eq_some.trans (and_congr_left' (Nat.le_sub_one_iff_lt (by decide)))

theorem encodePayload_error {detail text bytes : Bytes}
    (h : encodePayload (.error detail text) = .ok bytes) :
    detail.length < 2 ^ 16 ∧
      bytes = toLeBytes (UInt16.ofNat detail.length) ++ (detail ++ text) := by
  simp only [encodePayload, bind_eq_ok, okOr_eq_ok, tryU16_eq_some] at h
  obtain ⟨_, ⟨hlt, rfl⟩, h⟩ := h
  obtain rfl := Except.ok.inj h
  exact ⟨hlt, List.append_assoc _ _ _⟩

/-- The loop invariant: `previous` heads the chain of identifiers, and `length` counts what is
already passed. -/
theorem checkedMetadataLengthLoop_eq_ok_iff {n : Nat} :
    ∀ {previous : Option UInt16} {length : Nat} {es : List (UInt16 × Bytes)}, length ≤ u64Max →
      (checkedMetadataLengthLoop previous length es = .ok n ↔
        (previous.toList ++ es.map Prod.fst).IsChain (· < ·) ∧ length + Tlv.size es ≤ u64Max ∧
          n = length + Tlv.size es) := by
  intro previous length es
  induction es generalizing previous length with
  | nil =>
      intro hle
      cases previous <;> simp [checkedMetadataLengthLoop, Tlv.size, hle, eq_comm]
  | cons e es ih =>
      obtain ⟨identifier, value⟩ := e
      intro hle
      have hsize : Tlv.size ((identifier, value) :: es) = 4 + value.length + Tlv.size es := by
        simp [Tlv.size]
      -- the loop checks one link of the chain, from `previous` to this identifier
      have hchain : (previous.toList ++ identifier :: es.map Prod.fst).IsChain (· < ·) ↔
          ¬ previous.any (fun p => identifier ≤ p) = true ∧
            (identifier :: es.map Prod.fst).IsChain (· < ·) := by
        cases previous with
        | none => simp
        | some p => simp [List.isChain_cons_cons]
      simp only [checkedMetadataLengthLoop, guard_eq_ok, bind_eq_ok, okOr_eq_ok, tryFit_eq_some,
        checkedAdd_eq_some, List.map_cons, hchain, hsize]
      constructor
      · rintro ⟨hp, _, ⟨-, rfl⟩, _, ⟨-, rfl⟩, _, ⟨hsum, rfl⟩, h⟩
        obtain ⟨hc, hb, rfl⟩ := (ih hsum).mp h
        exact ⟨⟨hp, by simpa using hc⟩, by omega, by omega⟩
      · rintro ⟨⟨hp, hc⟩, hb, rfl⟩
        refine ⟨hp, _, ⟨by omega, rfl⟩, _, ⟨by omega, rfl⟩, _, ⟨by omega, rfl⟩, ?_⟩
        exact (ih (by omega)).mpr ⟨by simpa using hc, by omega, by omega⟩

theorem checkedMetadataLengthWithMax_eq_ok_iff {es : List (UInt16 × Bytes)} {max : UInt16}
    {n : Nat} :
    checkedMetadataLengthWithMax es max = .ok n ↔
      (es.map Prod.fst).IsChain (· < ·) ∧ Tlv.size es ≤ max.toNat ∧ n = Tlv.size es := by
  have hmax := max.toNat_lt
  simp only [checkedMetadataLengthWithMax, bind_eq_ok, guard_eq_ok, Except.ok.injEq,
    checkedMetadataLengthLoop_eq_ok_iff (Nat.zero_le _), Option.toList_none, List.nil_append,
    Nat.zero_add, not_lt, gt_iff_lt]
  constructor
  · rintro ⟨_, ⟨hc, -, rfl⟩, hle, rfl⟩
    exact ⟨hc, hle, rfl⟩
  · rintro ⟨hc, hle, rfl⟩
    exact ⟨_, ⟨hc, by simp only [u64Max]; omega, rfl⟩, hle, rfl⟩

theorem writeMetadata_of_fits {es : List Tlv.Entry} (h : ∀ e ∈ es, Tlv.Fits e) (out : Bytes) :
    writeMetadata out es = .ok (out ++ Tlv.concat es) := by
  induction es generalizing out with
  | nil => simp [writeMetadata]
  | cons e es ih =>
      obtain ⟨identifier, value⟩ := e
      obtain ⟨hf, hes⟩ := List.forall_mem_cons.mp h
      rw [writeMetadata, tryU16_eq_some.mpr ⟨hf, rfl⟩, okOr_some, ok_bind, ih hes]
      simp [Tlv.encodeEntry]

/-- The header the encoder writes. -/
def Outgoing.headerBytes (o : Outgoing) (metadataLength payloadLength : Nat) : Bytes :=
  0 :: o.kind.value :: (toLeBytes (0 : UInt16) ++ (toLeBytes o.code ++
    (toLeBytes (UInt16.ofNat metadataLength) ++ (toLeBytes (UInt32.ofNat payloadLength) ++
      toLeBytes o.requestId))))

/-- **What the encoder emits.** -/
theorem encodeWithMax_eq_ok_iff {o : Outgoing} {maxFrame : UInt64} {maxMetadata : UInt16}
    {b : Bytes} :
    encodeWithMax o maxFrame maxMetadata = .ok b ↔
      ∃ payload, encodePayload o.payload = .ok payload ∧
        (o.metadata.map Prod.fst).IsChain (· < ·) ∧ Tlv.size o.metadata ≤ maxMetadata.toNat ∧
        payload.length < 2 ^ 32 ∧
        headerLength + Tlv.size o.metadata + payload.length ≤ maxFrame.toNat ∧
        b = o.headerBytes (Tlv.size o.metadata) payload.length ++
          (Tlv.concat o.metadata ++ payload) := by
  have hmax := maxMetadata.toNat_lt
  constructor
  · intro h
    simp only [encodeWithMax, bind_eq_ok, okOr_eq_ok, guard_eq_ok, gt_iff_lt, not_lt,
      checkedMetadataLengthWithMax_eq_ok_iff, tryU32_eq_some, Option.bind_eq_some_iff,
      checkedAdd_eq_some] at h
    obtain ⟨_, ⟨hc, hm, rfl⟩, payload, hp, _, ⟨h32, rfl⟩, _, ⟨_, ⟨-, rfl⟩, -, rfl⟩, hle, h⟩ := h
    obtain ⟨_, h16, _, hw, hb⟩ := h
    obtain rfl := Except.ok.inj hb
    obtain ⟨-, rfl⟩ := tryU16_eq_some.mp h16
    rw [writeMetadata_of_fits (Tlv.fits_of_size_lt (Nat.lt_of_le_of_lt hm hmax))] at hw
    obtain rfl := Except.ok.inj hw
    have hpl : (UInt32.ofNat payload.length).toNat = payload.length :=
      UInt32.toNat_ofNat_of_lt' h32
    rw [hpl] at hle
    exact ⟨payload, hp, hc, hm, h32, hle, by simp [Outgoing.headerBytes]⟩
  · rintro ⟨payload, hp, hc, hm, h32, hle, rfl⟩
    have hpl : (UInt32.ofNat payload.length).toNat = payload.length :=
      UInt32.toNat_ofNat_of_lt' h32
    have hF := maxFrame.toNat_lt
    -- within the frame limit neither of the checked sums overflows
    have h₁ : headerLength + Tlv.size o.metadata ≤ u64Max := by simp only [u64Max]; omega
    have h₂ : headerLength + Tlv.size o.metadata + payload.length ≤ u64Max := by
      simp only [u64Max]; omega
    have h16 : tryU16 (Tlv.size o.metadata) = some (.ofNat (Tlv.size o.metadata)) :=
      tryU16_eq_some.mpr ⟨by omega, rfl⟩
    simp only [encodeWithMax, checkedMetadataLengthWithMax_eq_ok_iff.mpr ⟨hc, hm, rfl⟩, hp,
      tryU32_eq_some.mpr ⟨h32, rfl⟩, okOr_some, ok_bind, checkedAdd_of_le h₁, Option.bind_some,
      hpl, checkedAdd_of_le h₂, if_neg (Nat.not_lt.mpr hle), h16,
      writeMetadata_of_fits (Tlv.fits_of_size_lt (Nat.lt_of_le_of_lt hm hmax))]
    simp [Outgoing.headerBytes]

end Rp1.Protocol

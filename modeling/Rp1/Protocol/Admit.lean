import Rp1.Protocol.Decode

/-!
# Protocol — what `admit` lets through

`RawHeader.parse_eq_some_iff` reads the header both ways: it parses as `raw` exactly when the
input starts with the twenty bytes of `raw`.  `admitHeader_eq_ok_iff` and `admitBody_eq_ok_iff`
invert the two stages of `admit`; both refuse with connection-fatal failures only
(`admitHeader_fatal`, `admitBody_fatal`).
-/

namespace Rp1.Protocol
open Codec

/-! ### The header -/

/-- The twenty bytes of a header. -/
def RawHeader.bytes (raw : RawHeader) : Bytes :=
  raw.version :: raw.kind :: (toLeBytes raw.flags ++ (toLeBytes raw.code ++
    (toLeBytes raw.metadataLength ++ (toLeBytes raw.payloadLength ++ toLeBytes raw.requestId))))

@[simp] theorem RawHeader.length_bytes (raw : RawHeader) : raw.bytes.length = headerLength := by
  simp [RawHeader.bytes, headerLength]

theorem RawHeader.parse_bytes (raw : RawHeader) (rest : Bytes) :
    RawHeader.parse (raw.bytes ++ rest) = some raw := by
  have h₂ : readU16Le (raw.bytes ++ rest) 2 = some raw.flags :=
    readLe_middle [raw.version, raw.kind]
      (toLeBytes raw.code ++ (toLeBytes raw.metadataLength ++
        (toLeBytes raw.payloadLength ++ (toLeBytes raw.requestId ++ rest))))
      raw.flags (by simp [bytes]) rfl (by decide)
  have h₄ : readU16Le (raw.bytes ++ rest) 4 = some raw.code :=
    readLe_middle (raw.version :: raw.kind :: toLeBytes raw.flags)
      (toLeBytes raw.metadataLength ++
        (toLeBytes raw.payloadLength ++ (toLeBytes raw.requestId ++ rest)))
      raw.code (by simp [bytes]) rfl (by decide)
  have h₆ : readU16Le (raw.bytes ++ rest) 6 = some raw.metadataLength :=
    readLe_middle (raw.version :: raw.kind :: (toLeBytes raw.flags ++ toLeBytes raw.code))
      (toLeBytes raw.payloadLength ++ (toLeBytes raw.requestId ++ rest))
      raw.metadataLength (by simp [bytes]) rfl (by decide)
  have h₈ : readU32Le (raw.bytes ++ rest) 8 = some raw.payloadLength :=
    readLe_middle (raw.version :: raw.kind :: (toLeBytes raw.flags ++
        (toLeBytes raw.code ++ toLeBytes raw.metadataLength)))
      (toLeBytes raw.requestId ++ rest) raw.payloadLength (by simp [bytes]) rfl (by decide)
  have h₁₂ : readU64Le (raw.bytes ++ rest) 12 = some raw.requestId :=
    readLe_middle (raw.version :: raw.kind :: (toLeBytes raw.flags ++ (toLeBytes raw.code ++
        (toLeBytes raw.metadataLength ++ toLeBytes raw.payloadLength))))
      rest raw.requestId (by simp [bytes]) rfl (by decide)
  simp only [parse, h₂, h₄, h₆, h₈, h₁₂]
  rfl

/-- **The header, both ways.**  The header reads as `raw` exactly when the input starts with the
twenty bytes of `raw`. -/
theorem RawHeader.parse_eq_some_iff {input : Bytes} {raw : RawHeader} :
    RawHeader.parse input = some raw ↔ ∃ rest, input = raw.bytes ++ rest := by
  constructor
  · intro h
    simp only [parse, Option.bind_eq_bind, Option.bind_eq_some_iff] at h
    obtain ⟨version, h₀, kind, h₁, flags, h₂, code, h₄, ml, h₆, pl, h₈, id, h₁₂, e⟩ := h
    obtain rfl := Option.some.inj e
    have e₂ := ((readLe_eq_some_iff (by decide)).mp h₂).2
    have e₄ := ((readLe_eq_some_iff (by decide)).mp h₄).2
    have e₆ := ((readLe_eq_some_iff (by decide)).mp h₆).2
    have e₈ := ((readLe_eq_some_iff (by decide)).mp h₈).2
    have e₁₂ := ((readLe_eq_some_iff (by decide)).mp h₁₂).2
    simp only [width_u16, width_u32, width_u64, Nat.reduceAdd] at e₂ e₄ e₆ e₈ e₁₂
    refine ⟨input.drop 20, ?_⟩
    -- the first two bytes by hand, the words by what their reads saw
    match input, h₀, h₁ with
    | _ :: _ :: tail, h₀, h₁ =>
        cases h₀
        cases h₁
        have e₂' : tail = toLeBytes flags ++ List.drop 4 (version :: kind :: tail) := e₂
        rw [e₄, e₆, e₈, e₁₂] at e₂'
        simpa [bytes] using e₂'
  · rintro ⟨rest, rfl⟩
    exact parse_bytes raw rest

theorem RawHeader.parse_of_le {input : Bytes} (h : headerLength ≤ input.length) :
    RawHeader.parse input = some
      { version := input.getD 0 0
        kind := input.getD 1 0
        flags := fromLeBytes ((input.drop 2).take 2)
        code := fromLeBytes ((input.drop 4).take 2)
        metadataLength := fromLeBytes ((input.drop 6).take 2)
        payloadLength := fromLeBytes ((input.drop 8).take 4)
        requestId := fromLeBytes ((input.drop 12).take 8) } := by
  have h' : 20 ≤ input.length := h
  have h₀ : input[0]? = some (input.getD 0 0) := by
    rw [List.getD_eq_getElem?_getD, List.getElem?_eq_getElem (by omega), Option.getD_some]
  have h₁ : input[1]? = some (input.getD 1 0) := by
    rw [List.getD_eq_getElem?_getD, List.getElem?_eq_getElem (by omega), Option.getD_some]
  simp only [parse, readU16Le, readU32Le, readU64Le, h₀, h₁]
  rw [readLe_of_le (by decide) (by simp; omega), readLe_of_le (by decide) (by simp; omega),
    readLe_of_le (by decide) (by simp; omega), readLe_of_le (by decide) (by simp; omega),
    readLe_of_le (by decide) (by simp; omega)]
  rfl

theorem RawHeader.parse_eq_none {input : Bytes} (h : input.length < headerLength) :
    RawHeader.parse input = none := by
  cases e : RawHeader.parse input with
  | none => rfl
  | some raw =>
      obtain ⟨rest, rfl⟩ := parse_eq_some_iff.mp e
      simp at h

theorem RawHeader.le_of_parse {input : Bytes} {raw : RawHeader}
    (h : RawHeader.parse input = some raw) : headerLength ≤ input.length := by
  obtain ⟨rest, rfl⟩ := parse_eq_some_iff.mp h
  simp

theorem RawHeader.parse_append {input : Bytes} {raw : RawHeader} (ext : Bytes)
    (h : RawHeader.parse input = some raw) : RawHeader.parse (input ++ ext) = some raw := by
  obtain ⟨rest, rfl⟩ := parse_eq_some_iff.mp h
  exact parse_eq_some_iff.mpr ⟨rest ++ ext, List.append_assoc _ _ _⟩

/-! ### `admit` -/

/-- The length of the frame a header announces; the 64-bit sum does not wrap. -/
def RawHeader.total (raw : RawHeader) : Nat :=
  headerLength + raw.metadataLength.toNat + raw.payloadLength.toNat

theorem RawHeader.total_le (raw : RawHeader) : raw.total ≤ usizeMax := by
  have h₁ := raw.metadataLength.toNat_lt
  have h₂ := raw.payloadLength.toNat_lt
  simp only [total, headerLength, usizeMax]
  omega

theorem totalLength_eq (raw : RawHeader) :
    totalLength raw.metadataLength raw.payloadLength = some raw.total := by
  have h : raw.total ≤ u64Max := raw.total_le
  have h' : headerLength + raw.metadataLength.toNat ≤ u64Max :=
    Nat.le_trans (Nat.le_add_right _ _) h
  simp only [totalLength, checkedAdd_of_le h', Option.bind_eq_bind, Option.bind_some]
  exact checkedAdd_of_le h

theorem admitHeader_eq_ok_iff {raw : RawHeader} {limits : Limits} {kind : Kind} {total : Nat} :
    admitHeader raw limits = .ok (kind, total) ↔
      raw.version = 0 ∧ kind.value = raw.kind ∧ raw.total ≤ limits.frameSize.toNat ∧
        raw.flags = 0 ∧ raw.metadataLength ≤ limits.metadataSize ∧ total = raw.total := by
  simp only [admitHeader, totalLength_eq, tryFit_of_le raw.total_le, okOr_some, ok_bind,
    guard_eq_ok, bind_eq_ok, okOr_eq_ok, Kind.fromWire_eq_some_iff, Except.ok.injEq, Prod.mk.injEq,
    ne_eq, not_not, gt_iff_lt, not_lt, UInt16.not_lt]
  constructor
  · rintro ⟨hv, k, hk, ht, hf, hm, rfl, rfl⟩
    exact ⟨hv, hk, ht, hf, hm, rfl⟩
  · rintro ⟨hv, hk, ht, hf, hm, rfl⟩
    exact ⟨hv, kind, hk, ht, hf, hm, rfl, rfl⟩

/-- Every refusal from the header alone is connection-fatal. -/
theorem admitHeader_fatal {raw : RawHeader} {limits : Limits} {failure : Failure}
    (h : admitHeader raw limits = .error failure) : failure.Fatal := by
  simp only [admitHeader, totalLength_eq, tryFit_of_le raw.total_le, okOr_some, ok_bind] at h
  split at h
  · cases h; exact ⟨rfl, rfl⟩
  · rcases bind_eq_error.mp h with h | ⟨k, -, h⟩
    · rw [← (okOr_eq_error.mp h).2]; exact ⟨rfl, rfl⟩
    · split at h
      · cases h; exact ⟨rfl, rfl⟩
      · split at h
        · cases h; exact ⟨rfl, rfl⟩
        · split at h
          · cases h; exact ⟨rfl, rfl⟩
          · cases h

theorem metadataEnd_eq (raw : RawHeader) :
    checkedAdd usizeMax headerLength raw.metadataLength.toNat =
      some (headerLength + raw.metadataLength.toNat) :=
  checkedAdd_of_le (Nat.le_trans (Nat.le_add_right _ _) raw.total_le)

theorem admitBody_eq_ok_iff {input : Bytes} {role : Role} {raw : RawHeader} {kind : Kind}
    {total : Nat} {admitted : Admitted} :
    admitBody input role raw kind total = .ok admitted ↔
      ∃ region metadata,
        getRange input headerLength (headerLength + raw.metadataLength.toNat) = some region ∧
        MetadataRegion.parse region = some metadata ∧ kind.sender ≠ role ∧
        admitted = ⟨raw, kind, metadata, total, headerLength + raw.metadataLength.toNat⟩ := by
  simp only [admitBody, metadataEnd_eq, okOr_some, ok_bind, bind_eq_ok, okOr_eq_ok, guard_eq_ok,
    Except.ok.injEq]
  constructor
  · rintro ⟨region, hr, metadata, hm, hs, rfl⟩
    exact ⟨region, metadata, hr, hm, hs, rfl⟩
  · rintro ⟨region, metadata, hr, hm, hs, rfl⟩
    exact ⟨region, hr, metadata, hm, hs, rfl⟩

/-- Every refusal of `admit` is connection-fatal. -/
theorem admitBody_fatal {input : Bytes} {role : Role} {raw : RawHeader} {kind : Kind}
    {total : Nat} {failure : Failure} (h : admitBody input role raw kind total = .error failure) :
    failure.Fatal := by
  simp only [admitBody, metadataEnd_eq, okOr_some, ok_bind] at h
  rcases bind_eq_error.mp h with h | ⟨region, -, h⟩
  · rw [← (okOr_eq_error.mp h).2]; exact ⟨rfl, rfl⟩
  · rcases bind_eq_error.mp h with h | ⟨metadata, -, h⟩
    · rw [← (okOr_eq_error.mp h).2]; exact ⟨rfl, rfl⟩
    · split at h
      · cases h; exact ⟨rfl, rfl⟩
      · cases h

end Rp1.Protocol

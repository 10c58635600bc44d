import Rp1.Protocol.Checks
import Rp1.Protocol.Handshake

/-!
# Protocol — what the handshake payloads say

Both handshake payloads are a head of ten bytes and a region of capability entries, and both
decoders are read off that form once (`decode_laid`): the entries are the ones the region is the
concatenation of, and the rest is checks on values.

* `regions_exact`: a metadata region and a capability region are read alike, and exactly.
* `HandshakeResponse.decode_exact`: which payloads answer an offer, and which class of failure the
  others get.
* `handshake_inverse`: the codecs undo each other.
* `HandshakeRequest.encode_means_iff`: the encoder has no way to refuse an entry whose value is too
  long for its length field.  The theorem says when what it then writes reads as something else.
-/

namespace Rp1.Protocol
open Codec

/-! ### Entries -/

/-- An entry as a tag and its value. -/
def CapabilityEntry.pair (e : CapabilityEntry) : Tlv.Entry := (e.identifier, e.value)

def CapabilityEntries.pairs (es : CapabilityEntries) : List Tlv.Entry :=
  es.entries.map CapabilityEntry.pair

/-- The entries with the given tags and values. -/
def CapabilityEntries.ofPairs (ps : List Tlv.Entry) : CapabilityEntries :=
  ⟨ps.map fun p => ⟨p.1, p.2⟩⟩

@[simp] theorem CapabilityEntries.pairs_ofPairs (ps : List Tlv.Entry) :
    (ofPairs ps).pairs = ps := by
  simp [ofPairs, pairs, CapabilityEntry.pair, Function.comp_def]

@[simp] theorem CapabilityEntries.ofPairs_pairs (es : CapabilityEntries) :
    ofPairs es.pairs = es := by
  simp [ofPairs, pairs, CapabilityEntry.pair, Function.comp_def]

/-- Every value has a length its field can hold. -/
def CapabilityEntries.Fit (es : CapabilityEntries) : Prop :=
  ∀ e ∈ es.entries, e.value.length ≤ 65535

/-- The identifiers strictly ascend. -/
def CapabilityEntries.Ascend (es : CapabilityEntries) : Prop :=
  (es.entries.map CapabilityEntry.identifier).IsChain (· < ·)

theorem saturateU16_of_le {n : Nat} (h : n ≤ 65535) : saturateU16 n = .ofNat n := by
  rw [saturateU16, tryU16_eq_some.mpr ⟨Nat.lt_succ_of_le h, rfl⟩, Option.getD_some]

theorem toNat_saturateU16 (n : Nat) : (saturateU16 n).toNat = min n 65535 := by
  rcases Nat.lt_or_ge n (2 ^ 16) with h | h
  · rw [saturateU16_of_le (by omega), UInt16.toNat_ofNat_of_lt' h]
    omega
  · have hnone : tryU16 n = none := by
      rw [tryU16, tryFit, if_neg (by omega), Option.map_none]
    rw [saturateU16, hnone, Option.getD_none]
    show 65535 = _
    omega

theorem CapabilityEntry.encode_of_le {e : CapabilityEntry} (h : e.value.length ≤ 65535) :
    e.encode = Tlv.encodeEntry e.pair := by
  rw [encode, saturateU16_of_le h]
  rfl

namespace CapabilityEntries
variable {es : CapabilityEntries}

theorem fit_iff : es.Fit ↔ ∀ p ∈ es.pairs, Tlv.Fits p := by
  rw [pairs, List.forall_mem_map]
  exact forall₂_congr fun e _ => Nat.lt_succ_iff.symm

theorem Fit.pairs (h : es.Fit) : ∀ p ∈ es.pairs, Tlv.Fits p := fit_iff.mp h

/-- Entries that fit are written as the region that reads as them. -/
theorem Fit.encode (h : es.Fit) :
    es.entries.flatMap CapabilityEntry.encode = Tlv.concat es.pairs := by
  rw [Tlv.concat, CapabilityEntries.pairs, List.flatMap_map]
  exact List.flatMap_congr fun e he => CapabilityEntry.encode_of_le (h e he)

/-- They are the only entries that fit and are in that region. -/
theorem Fit.unique {es' : CapabilityEntries} (h : es.Fit) (h' : es'.Fit)
    (hregion : es.entries.flatMap CapabilityEntry.encode = Tlv.concat es'.pairs) : es' = es := by
  rw [h.encode] at hregion
  rw [← ofPairs_pairs es', ← Tlv.concat_inj h.pairs h'.pairs hregion, ofPairs_pairs]

theorem parse_eq_some_iff {region : Bytes} :
    parse region = some es ↔ es.Fit ∧ region = Tlv.concat es.pairs := by
  simp only [parse, Option.map_eq_some_iff, Tlv.parse_eq_some_iff]
  constructor
  · rintro ⟨entries, ⟨ps, hps, rfl, rfl⟩, rfl⟩
    refine ⟨fun e he => ?_, congrArg Tlv.concat (pairs_ofPairs ps).symm⟩
    obtain ⟨p, hp, rfl⟩ := List.mem_map.mp he
    exact Nat.le_of_lt_succ (hps p hp)
  · rintro ⟨hfit, rfl⟩
    exact ⟨(ofPairs es.pairs).entries, ⟨es.pairs, hfit.pairs, rfl, rfl⟩, ofPairs_pairs es⟩

theorem checkAscendingLoop_eq_ok_iff {u : Unit} {previous : Option UInt16}
    {entries : List CapabilityEntry} :
    checkAscendingLoop previous entries = .ok u ↔
      (previous.toList ++ entries.map CapabilityEntry.identifier).IsChain (· < ·) := by
  induction entries generalizing previous with
  | nil => cases previous <;> simp [checkAscendingLoop]
  | cons e entries ih =>
      simp only [checkAscendingLoop, guard_eq_ok, ih, List.map_cons, Option.toList_some,
        List.singleton_append]
      cases previous with
      | none => simp
      | some p => simp [List.isChain_cons_cons]

theorem checkAscending_eq_ok_iff {u : Unit} : es.checkAscending = .ok u ↔ es.Ascend := by
  rw [checkAscending, checkAscendingLoop_eq_ok_iff]
  rfl

theorem checkAscending_eq_error {failure : Failure} (h : es.checkAscending = .error failure) :
    failure = .malformedRequest := by
  have loop : ∀ (entries : List CapabilityEntry) (previous : Option UInt16),
      checkAscendingLoop previous entries = .error failure → failure = .malformedRequest := by
    intro entries
    induction entries with
    | nil => intro previous h; cases h
    | cons e entries ih =>
        intro previous h
        rw [checkAscendingLoop] at h
        split at h
        · cases h; rfl
        · exact ih _ h
  exact loop _ none h

end CapabilityEntries

/-! ### Both regions -/

/-- The two readers find the same entries. -/
theorem pairs_parse (region : Bytes) :
    (MetadataRegion.parse region).map MetadataRegion.pairs = Tlv.parse Prod.mk region ∧
      (CapabilityEntries.parse region).map CapabilityEntries.pairs = Tlv.parse Prod.mk region := by
  constructor
  · rw [MetadataRegion.parse, Tlv.parse_eq_map]
    cases Tlv.parse Prod.mk region with
    | none => rfl
    | some ps => exact congrArg some (MetadataRegion.pairs_ofPairs ps)
  · rw [CapabilityEntries.parse, Tlv.parse_eq_map]
    cases Tlv.parse Prod.mk region with
    | none => rfl
    | some ps => exact congrArg some (CapabilityEntries.pairs_ofPairs ps)

/-- **The readers of tagged regions are exact and agree.**  Each reads a region as the entries it
is the concatenation of, every one with the length of its value, and there is one such list.  A
region is refused exactly if it ends inside an entry, in its header or before the end of its
value. -/
theorem regions_exact (region : Bytes) :
    (MetadataRegion.parse region).map MetadataRegion.pairs =
      (CapabilityEntries.parse region).map CapabilityEntries.pairs ∧
    (∀ m, MetadataRegion.parse region = some m ↔
      (∀ p ∈ m.pairs, Tlv.Fits p) ∧ region = Tlv.concat m.pairs) ∧
    (∀ es, CapabilityEntries.parse region = some es ↔
      (∀ p ∈ es.pairs, Tlv.Fits p) ∧ region = Tlv.concat es.pairs) ∧
    (∀ ps qs : List Tlv.Entry, (∀ p ∈ ps, Tlv.Fits p) → (∀ q ∈ qs, Tlv.Fits q) →
      region = Tlv.concat ps → region = Tlv.concat qs → ps = qs) ∧
    (MetadataRegion.parse region = none ↔ ∃ ps tail, (∀ p ∈ ps, Tlv.Fits p) ∧
      region = Tlv.concat ps ++ tail ∧ Tlv.Cut tail) ∧
    (CapabilityEntries.parse region = none ↔ ∃ ps tail, (∀ p ∈ ps, Tlv.Fits p) ∧
      region = Tlv.concat ps ++ tail ∧ Tlv.Cut tail) := by
  refine ⟨(pairs_parse region).1.trans (pairs_parse region).2.symm,
    fun m => MetadataRegion.parse_eq_some_iff, fun es => ?_,
    fun ps qs hp hq hps hqs => Tlv.concat_inj hp hq (hps.symm.trans hqs), ?_, ?_⟩
  · rw [CapabilityEntries.parse_eq_some_iff, CapabilityEntries.fit_iff]
  · rw [MetadataRegion.parse, Option.map_eq_none_iff, Tlv.parse_eq_none_iff]
  · rw [CapabilityEntries.parse, Option.map_eq_none_iff, Tlv.parse_eq_none_iff]

/-! ### The response -/

namespace HandshakeResponse
variable {r : HandshakeResponse} {offer : HandshakeOffer} {payload : Bytes}

/-- The payload is a head with the fields of `r`, and then its entries. -/
structure Wires (r : HandshakeResponse) (payload : Bytes) : Prop where
  fit : r.acceptedCapabilityEntries.Fit
  bytes : payload = toLeBytes r.negotiatedProtocolVersion ++
    (toLeBytes r.negotiatedMaximumFrameSize ++ (toLeBytes r.negotiatedMaximumMetadataSize ++
      (toLeBytes r.acceptedCapabilityCount ++ Tlv.concat r.acceptedCapabilityEntries.pairs)))

/-- The values of `r` answer the offer, apart from the capabilities they name. -/
structure Valid (r : HandshakeResponse) (offer : HandshakeOffer) : Prop where
  ascend : r.acceptedCapabilityEntries.Ascend
  count : r.acceptedCapabilityCount.toNat = r.acceptedCapabilityEntries.entries.length
  header : r.negotiatedProtocolVersion.toNat ≤ 255
  version : offer.minimumProtocolVersion ≤ r.negotiatedProtocolVersion ∧
    r.negotiatedProtocolVersion ≤ offer.maximumProtocolVersion
  frameSize : 65536 ≤ r.negotiatedMaximumFrameSize.toNat
  metadataSize : 4096 ≤ r.negotiatedMaximumMetadataSize.toNat

/-- Every capability `r` accepts was offered. -/
def Offered (r : HandshakeResponse) (offer : HandshakeOffer) : Prop :=
  ∀ e ∈ r.acceptedCapabilityEntries.entries, e.identifier ∈ offer.capabilityIds

theorem frameSize_lt_iff {n : UInt32} :
    n.toUInt64 < minimumNegotiatedFrameSize ↔ n.toNat < 65536 := by
  rw [UInt64.lt_iff_toNat_lt, UInt32.toNat_toUInt64]
  rfl

/-- The three answers of the checks. -/
theorem check_cases (r : HandshakeResponse) (offer : HandshakeOffer) :
    (¬ r.Valid offer ∧ r.check offer = .error .malformedRequest) ∨
    (r.Valid offer ∧ ¬ r.Offered offer ∧ r.check offer = .error .protocolViolation) ∨
    (r.Valid offer ∧ r.Offered offer ∧ r.check offer = .ok r) := by
  have hoffered : r.acceptedCapabilityEntries.entries.any (!offer.offersCapability ·.identifier) =
      true ↔ ¬ r.Offered offer := by
    simp [Offered, HandshakeOffer.offersCapability]
  unfold check
  cases ha : r.acceptedCapabilityEntries.checkAscending with
  | error failure =>
      refine .inl ⟨fun hv => ?_, ?_⟩
      · have hok := CapabilityEntries.checkAscending_eq_ok_iff (u := ()).mpr hv.ascend
        cases ha.symm.trans hok
      · rw [CapabilityEntries.checkAscending_eq_error ha, error_bind]
  | ok u =>
      have hascend := CapabilityEntries.checkAscending_eq_ok_iff.mp ha
      rw [ok_bind]
      split
      · rename_i h
        exact .inl ⟨fun hv => h hv.count, rfl⟩
      rename_i hcount
      split
      · rename_i h
        exact .inl ⟨fun hv => Nat.not_lt.mpr hv.header (UInt16.lt_iff_toNat_lt.mp h), rfl⟩
      rename_i hheader
      split
      · rename_i h
        refine .inl ⟨fun hv => ?_, rfl⟩
        simp [HandshakeOffer.containsVersion, hv.version] at h
      rename_i hversion
      split
      · rename_i h
        exact .inl ⟨fun hv => Nat.not_lt.mpr hv.frameSize (frameSize_lt_iff.mp h), rfl⟩
      rename_i hframe
      split
      · rename_i h
        exact .inl ⟨fun hv => Nat.not_lt.mpr hv.metadataSize (UInt16.lt_iff_toNat_lt.mp h), rfl⟩
      rename_i hmetadata
      have hvalid : r.Valid offer :=
        { ascend := hascend
          count := not_not.mp hcount
          header := UInt16.le_iff_toNat_le.mp (UInt16.not_lt.mp hheader)
          version := by simpa [HandshakeOffer.containsVersion] using hversion
          frameSize := Nat.not_lt.mp (mt frameSize_lt_iff.mpr hframe)
          metadataSize := UInt16.le_iff_toNat_le.mp (UInt16.not_lt.mp hmetadata) }
      split
      · rename_i h
        exact .inr (.inl ⟨hvalid, hoffered.mp h, rfl⟩)
      · rename_i h
        exact .inr (.inr ⟨hvalid, not_not.mp (mt hoffered.mpr h), rfl⟩)

theorem check_eq_ok_iff {r' : HandshakeResponse} :
    r.check offer = .ok r' ↔ r = r' ∧ r.Valid offer ∧ r.Offered offer := by
  rcases check_cases r offer with ⟨hv, h⟩ | ⟨hv, ho, h⟩ | ⟨hv, ho, h⟩
  · simp [h, hv]
  · simp [h, ho]
  · simp [h, hv, ho]

theorem check_eq_protocolViolation_iff :
    r.check offer = .error .protocolViolation ↔ r.Valid offer ∧ ¬ r.Offered offer := by
  rcases check_cases r offer with ⟨hv, h⟩ | ⟨hv, ho, h⟩ | ⟨hv, ho, h⟩
  · simp [h, hv, Failure.malformedRequest, Failure.protocolViolation]
  · simp [h, hv, ho]
  · simp [h, ho]

theorem check_eq_malformedRequest_iff :
    r.check offer = .error .malformedRequest ↔ ¬ r.Valid offer := by
  rcases check_cases r offer with ⟨hv, h⟩ | ⟨hv, ho, h⟩ | ⟨hv, ho, h⟩
  · simp [h, hv]
  · simp [h, hv, Failure.malformedRequest, Failure.protocolViolation]
  · simp [h, hv]

/-- What decoding a payload of ten bytes or more comes down to. -/
theorem decode_laid (version : UInt16) (frameSize : UInt32) (metadataSize count : UInt16)
    (tail : Bytes) (offer : HandshakeOffer) :
    decode (toLeBytes version ++ (toLeBytes frameSize ++ (toLeBytes metadataSize ++
      (toLeBytes count ++ tail)))) offer =
      (okOr (CapabilityEntries.parse tail) Failure.malformedRequest >>= fun entries =>
        check ⟨version, frameSize, metadataSize, count, entries⟩ offer) := by
  generalize hp : toLeBytes version ++ (toLeBytes frameSize ++ (toLeBytes metadataSize ++
    (toLeBytes count ++ tail))) = payload
  obtain ⟨h₀, h₂, h₆, h₈, htail⟩ : readU16Le payload 0 = some version ∧
      readU32Le payload 2 = some frameSize ∧ readU16Le payload 6 = some metadataSize ∧
      readU16Le payload 8 = some count ∧ getFrom payload headLength = some tail :=
    readLe_head hp.symm (by decide)
  rw [decode, if_neg (Nat.not_lt.mpr (getFrom_eq_some.mp htail).1), h₀, h₂, h₆, h₈, htail]
  rfl

theorem Wires.decode (h : r.Wires payload) (offer : HandshakeOffer) :
    decode payload offer = r.check offer := by
  rw [h.bytes, decode_laid, CapabilityEntries.parse_eq_some_iff.mpr ⟨h.fit, rfl⟩, okOr_some,
    ok_bind]

theorem decode_of_not_wires (h : ∀ r : HandshakeResponse, ¬ r.Wires payload)
    (offer : HandshakeOffer) : decode payload offer = .error .malformedRequest := by
  rcases Nat.lt_or_ge payload.length headLength with hlt | hle
  · rw [HandshakeResponse.decode, if_pos hlt]
  · -- the head can be read, so it is the region that does not parse
    obtain ⟨version, frameSize, metadataSize, count, tail, rfl⟩ :=
      exists_head UInt16 UInt32 UInt16 UInt16 payload hle
    rw [decode_laid]
    cases hparse : CapabilityEntries.parse tail with
    | none => rfl
    | some entries =>
        obtain ⟨hfit, rfl⟩ := CapabilityEntries.parse_eq_some_iff.mp hparse
        exact absurd ⟨hfit, rfl⟩ (h ⟨version, frameSize, metadataSize, count, entries⟩)

/-- Every other answer is the one the checks give to the response the payload is made of. -/
theorem exists_wires_of_decode {x : Except Failure HandshakeResponse}
    (h : decode payload offer = x) (hne : x ≠ .error .malformedRequest) :
    ∃ r : HandshakeResponse, r.Wires payload ∧ r.check offer = x := by
  by_contra hno
  refine hne (h.symm.trans (decode_of_not_wires (fun r hw => hno ⟨r, hw, ?_⟩) offer))
  rw [← hw.decode, h]

theorem decode_eq_ok_iff :
    decode payload offer = .ok r ↔ r.Wires payload ∧ r.Valid offer ∧ r.Offered offer := by
  constructor
  · intro h
    obtain ⟨r₀, hw, hc⟩ := exists_wires_of_decode h (by rintro ⟨⟩)
    obtain ⟨rfl, hv, ho⟩ := check_eq_ok_iff.mp hc
    exact ⟨hw, hv, ho⟩
  · rintro ⟨hw, hv, ho⟩
    exact (hw.decode offer).trans (check_eq_ok_iff.mpr ⟨rfl, hv, ho⟩)

/-- **Which payloads answer an offer.**  Exactly those made of a head and as many capability entries
as it counts, strictly ascending, all offered, with a version of the offered range that fits the
header and both bounds at their floors or above.  If only a capability was not offered the failure
is a protocol violation, and in every other case a malformed request. -/
theorem decode_exact (payload : Bytes) (offer : HandshakeOffer) :
    (∀ r, decode payload offer = .ok r ↔
      r.Wires payload ∧ r.Valid offer ∧ r.Offered offer) ∧
    (decode payload offer = .error .protocolViolation ↔
      ∃ r : HandshakeResponse, r.Wires payload ∧ r.Valid offer ∧ ¬ r.Offered offer) ∧
    (decode payload offer = .error .malformedRequest ↔
      ¬ ∃ r : HandshakeResponse, r.Wires payload ∧ r.Valid offer) := by
  refine ⟨fun r => decode_eq_ok_iff, ⟨fun h => ?_, ?_⟩, ⟨?_, fun h => ?_⟩⟩
  · obtain ⟨r, hw, hc⟩ := exists_wires_of_decode h (by rintro ⟨⟩)
    exact ⟨r, hw, check_eq_protocolViolation_iff.mp hc⟩
  · rintro ⟨r, hw, hbad⟩
    exact (hw.decode offer).trans (check_eq_protocolViolation_iff.mpr hbad)
  · rintro h ⟨r, hw, hv⟩
    exact check_eq_malformedRequest_iff.mp ((hw.decode offer).symm.trans h) hv
  · by_contra hne
    obtain ⟨r, hw, hc⟩ := exists_wires_of_decode rfl hne
    refine h ⟨r, hw, ?_⟩
    by_contra hv
    exact hne (hc.symm.trans (check_eq_malformedRequest_iff.mpr hv))

end HandshakeResponse

/-! ### The request -/

namespace HandshakeRequest
variable {r : HandshakeRequest} {payload : Bytes}

/-- The payload is a head with the fields of `r`, and then its entries. -/
structure Wires (r : HandshakeRequest) (payload : Bytes) : Prop where
  fit : r.capabilityEntries.Fit
  bytes : payload = toLeBytes r.clientMaximumProtocolVersion ++
    (toLeBytes r.clientMinimumProtocolVersion ++ (toLeBytes r.clientDesiredMaximumFrameSize ++
      (toLeBytes r.capabilityCount ++ Tlv.concat r.capabilityEntries.pairs)))

/-- The values of `r` make an offer. -/
structure Valid (r : HandshakeRequest) : Prop where
  range : r.clientMinimumProtocolVersion ≤ r.clientMaximumProtocolVersion
  ascend : r.capabilityEntries.Ascend
  count : r.capabilityCount.toNat = r.capabilityEntries.entries.length

/-- What decoding a payload of ten bytes or more comes down to. -/
theorem decode_laid (maximum minimum : UInt16) (desired : UInt32) (count : UInt16) (tail : Bytes) :
    decode (toLeBytes maximum ++ (toLeBytes minimum ++ (toLeBytes desired ++
      (toLeBytes count ++ tail)))) = .ok r ↔
      ∃ entries, CapabilityEntries.parse tail = some entries ∧
        r = ⟨maximum, minimum, desired, count, entries⟩ ∧ r.Valid := by
  generalize hp : toLeBytes maximum ++ (toLeBytes minimum ++ (toLeBytes desired ++
    (toLeBytes count ++ tail))) = payload
  obtain ⟨h₀, h₂, h₄, h₈, htail⟩ : readU16Le payload 0 = some maximum ∧
      readU16Le payload 2 = some minimum ∧ readU32Le payload 4 = some desired ∧
      readU16Le payload 8 = some count ∧ getFrom payload headLength = some tail :=
    readLe_head hp.symm (by decide)
  rw [decode, if_neg (Nat.not_lt.mpr (getFrom_eq_some.mp htail).1)]
  simp only [h₀, h₂, h₄, h₈, htail, okOr_some, ok_bind, guard_eq_ok, bind_eq_ok, okOr_eq_ok,
    CapabilityEntries.checkAscending_eq_ok_iff, not_not, UInt16.not_lt, Except.ok.injEq]
  constructor
  · rintro ⟨hrange, entries, hparse, -, hascend, hcount, rfl⟩
    exact ⟨entries, hparse, rfl, hrange, hascend, hcount⟩
  · rintro ⟨entries, hparse, rfl, hv⟩
    exact ⟨hv.range, entries, hparse, (), hv.ascend, hv.count, rfl⟩

theorem decode_eq_ok_iff : decode payload = .ok r ↔ r.Wires payload ∧ r.Valid := by
  constructor
  · intro h
    have hle : headLength ≤ payload.length := by
      rcases Nat.lt_or_ge payload.length headLength with hlt | hle
      · rw [decode, if_pos hlt] at h
        cases h
      · exact hle
    obtain ⟨maximum, minimum, desired, count, tail, rfl⟩ :=
      exists_head UInt16 UInt16 UInt32 UInt16 payload hle
    obtain ⟨entries, hparse, rfl, hv⟩ := (decode_laid maximum minimum desired count tail).mp h
    obtain ⟨hfit, rfl⟩ := CapabilityEntries.parse_eq_some_iff.mp hparse
    exact ⟨⟨hfit, rfl⟩, hv⟩
  · rintro ⟨hw, hv⟩
    rw [hw.bytes]
    exact (decode_laid _ _ _ _ _).mpr
      ⟨_, CapabilityEntries.parse_eq_some_iff.mpr ⟨hw.fit, rfl⟩, rfl, hv⟩

end HandshakeRequest

/-! ### Round trips -/

/-- A count read from the wire is the one the encoder derives. -/
theorem saturateU16_of_toNat {count : UInt16} {n : Nat} (h : count.toNat = n) :
    saturateU16 n = count := by
  rw [← h, saturateU16_of_le (Nat.le_of_lt_succ count.toNat_lt), UInt16.ofNat_toNat]

/-- **The payload codecs are mutually inverse.**  What either decoder accepts is what the encoder
writes for the result; and a request built from a range of versions and at most 65535 ascending
entries, each with a value that fits, is what decoding its bytes gives. -/
theorem handshake_inverse :
    (∀ p r, HandshakeRequest.decode p = .ok r → r.encode = p) ∧
    (∀ p offer s, HandshakeResponse.decode p offer = .ok s → s.encode = p) ∧
    ∀ (maximum minimum : UInt16) (desired : UInt32) (es : CapabilityEntries), minimum ≤ maximum →
      es.entries.length ≤ 65535 → es.Ascend → es.Fit →
      HandshakeRequest.decode (HandshakeRequest.new maximum minimum desired es).encode =
        .ok (HandshakeRequest.new maximum minimum desired es) := by
  refine ⟨fun p r h => ?_, fun p offer s h => ?_, fun maximum minimum desired es hr hn ha hf => ?_⟩
  · obtain ⟨hw, hv⟩ := HandshakeRequest.decode_eq_ok_iff.mp h
    rw [HandshakeRequest.encode, CapabilityEntries.count, saturateU16_of_toNat hv.count,
      hw.fit.encode, hw.bytes]
    simp only [List.append_assoc]
  · obtain ⟨hw, hv, -⟩ := HandshakeResponse.decode_eq_ok_iff.mp h
    rw [HandshakeResponse.encode, CapabilityEntries.count, saturateU16_of_toNat hv.count,
      hw.fit.encode, hw.bytes]
    simp only [List.append_assoc]
  · refine HandshakeRequest.decode_eq_ok_iff.mpr ⟨⟨hf, ?_⟩, hr, ha, ?_⟩
    · rw [HandshakeRequest.encode]
      simp only [HandshakeRequest.new, hf.encode, List.append_assoc]
    · rw [HandshakeRequest.new, CapabilityEntries.count, toNat_saturateU16, Nat.min_eq_left hn]

/-! ### Values that do not fit -/

/-- An entry whose value is too long is written as one with the largest length and the bytes that
are too many. -/
theorem CapabilityEntry.encode_of_gt {e : CapabilityEntry} (h : 65535 < e.value.length) :
    e.encode = Tlv.encodeEntry (e.identifier, e.value.take 65535) ++ e.value.drop 65535 := by
  have hlen : (e.value.take 65535).length = 65535 := List.length_take_of_le (Nat.le_of_lt h)
  have hsat : saturateU16 e.value.length = .ofNat 65535 := by
    rw [← UInt16.toNat_inj, toNat_saturateU16, Nat.min_eq_right (Nat.le_of_lt h)]
    rfl
  rw [encode, Tlv.encodeEntry, hlen, hsat, List.append_assoc, List.append_assoc,
    List.append_assoc, List.take_append_drop]

/-- Of the first value that is too long, the bytes from the 65536th on and the entries behind it
read as entries that go on with ascending identifiers and bring their number to the one the
encoder declares. -/
def CapabilityEntries.Misread (es : CapabilityEntries) : Prop :=
  ∃ (before : List CapabilityEntry) (e : CapabilityEntry) (behind : List CapabilityEntry)
      (read : CapabilityEntries),
    es.entries = before ++ e :: behind ∧ (∀ b ∈ before, b.value.length ≤ 65535) ∧
    65535 < e.value.length ∧ read.Fit ∧
    e.value.drop 65535 ++ behind.flatMap CapabilityEntry.encode = Tlv.concat read.pairs ∧
    ((before ++ e :: read.entries).map CapabilityEntry.identifier).IsChain (· < ·) ∧
    before.length + 1 + read.entries.length = min es.entries.length 65535

namespace CapabilityEntries
variable {es : CapabilityEntries}

/-- The entries such a region reads as: the long value is cut, and the bytes behind it are read. -/
theorem Misread.reads (h : es.Misread) :
    ∃ es' : CapabilityEntries, es' ≠ es ∧ es'.Fit ∧ es'.Ascend ∧
      es.entries.flatMap CapabilityEntry.encode = Tlv.concat es'.pairs ∧
      es'.entries.length = min es.entries.length 65535 := by
  obtain ⟨before, e, behind, read, hes, hbefore, hlong, hread, hrest, hchain, hn⟩ := h
  have hfit : (CapabilityEntries.mk before).Fit := hbefore
  refine ⟨⟨before ++ ⟨e.identifier, e.value.take 65535⟩ :: read.entries⟩, ?_, ?_, ?_, ?_, ?_⟩
  · rintro rfl
    -- then the long value would be its own beginning
    have heq := congrArg CapabilityEntry.value (List.cons.inj (List.append_cancel_left hes)).1
    have hle : e.value.length ≤ 65535 := List.take_eq_self_iff _ |>.mp heq
    exact Nat.not_lt.mpr hle hlong
  · intro b hb
    rcases List.mem_append.mp hb with hb | hb
    · exact hbefore b hb
    rcases List.mem_cons.mp hb with rfl | hb
    · exact Nat.le_of_eq (List.length_take_of_le (Nat.le_of_lt hlong))
    · exact hread b hb
  · simpa [Ascend] using hchain
  · rw [hes, List.flatMap_append, List.flatMap_cons, hfit.encode, e.encode_of_gt hlong,
      List.append_assoc, hrest]
    simp [pairs, Tlv.concat, CapabilityEntry.pair]
  · rw [← hn]
    simp only [List.length_append, List.length_cons]
    omega

/-- The entries up to the first value that is too long are read first, and it is read cut. -/
theorem exists_cut {es' : CapabilityEntries} {before behind : List CapabilityEntry}
    {e : CapabilityEntry} (hes : es.entries = before ++ e :: behind)
    (hbefore : (CapabilityEntries.mk before).Fit) (hlong : 65535 < e.value.length)
    (hfit : es'.Fit)
    (hregion : es.entries.flatMap CapabilityEntry.encode = Tlv.concat es'.pairs) :
    ∃ read : CapabilityEntries,
      es'.entries = before ++ ⟨e.identifier, e.value.take 65535⟩ :: read.entries ∧
      e.value.drop 65535 ++ behind.flatMap CapabilityEntry.encode = Tlv.concat read.pairs := by
  rw [hes, List.flatMap_append, List.flatMap_cons, hbefore.encode, e.encode_of_gt hlong,
    List.append_assoc, ← List.append_assoc] at hregion
  have hhead : ∀ p ∈ (CapabilityEntries.mk before).pairs ++
      [(e.identifier, e.value.take 65535)], Tlv.Fits p := by
    intro p hp
    rcases List.mem_append.mp hp with hp | hp
    · exact hbefore.pairs p hp
    · rw [List.mem_singleton.mp hp]
      exact Nat.lt_succ_of_le (List.length_take_le _ _)
  obtain ⟨qs, hq, hrest⟩ := Tlv.exists_of_concat_eq_append hhead hfit.pairs
    (by simpa [Tlv.concat] using hregion.symm)
  refine ⟨ofPairs qs, ?_, by rw [pairs_ofPairs, hrest]⟩
  rw [← ofPairs_pairs es', hq]
  simp [ofPairs, pairs, CapabilityEntry.pair, Function.comp_def]

/-- **When the region of `es` reads as other entries.** -/
theorem misread_iff :
    es.Misread ↔ ∃ es' : CapabilityEntries, es' ≠ es ∧ es'.Fit ∧ es'.Ascend ∧
      es.entries.flatMap CapabilityEntry.encode = Tlv.concat es'.pairs ∧
      es'.entries.length = min es.entries.length 65535 := by
  refine ⟨Misread.reads, ?_⟩
  rintro ⟨es', hne, hfit, hascend, hregion, hlen⟩
  cases hfind : es.entries.find? (fun e => decide (65535 < e.value.length)) with
  | none =>
      have hes : es.Fit := fun e he => by simpa using List.find?_eq_none.mp hfind e he
      exact absurd (hes.unique hfit hregion) hne
  | some e =>
      obtain ⟨hlong, before, behind, hes, hshort⟩ := List.find?_eq_some_iff_append.mp hfind
      have hlong : 65535 < e.value.length := of_decide_eq_true hlong
      have hbefore : (CapabilityEntries.mk before).Fit := fun b hb => by
        simpa using hshort b hb
      obtain ⟨read, hentries, hrest⟩ := exists_cut hes hbefore hlong hfit hregion
      have hread : read.Fit := fun b hb => by
        refine hfit b ?_
        rw [hentries]
        exact List.mem_append_right _ (List.mem_cons_of_mem _ hb)
      refine ⟨before, e, behind, read, hes, hbefore, hlong, hread, hrest, ?_, ?_⟩
      · rw [Ascend, hentries] at hascend
        simpa using hascend
      · rw [← hlen, hentries]
        simp only [List.length_append, List.length_cons]
        omega

end CapabilityEntries

/-- **When an encoded request means what it was built from.**  Its bytes are refused or decode to
the same versions, size and entries, exactly unless the versions make a range and the bytes of a
value that is too long read as further entries. -/
theorem HandshakeRequest.encode_means_iff (maximum minimum : UInt16) (desired : UInt32)
    (es : CapabilityEntries) :
    (∀ r, decode (new maximum minimum desired es).encode = .ok r →
      r.clientMaximumProtocolVersion = maximum ∧ r.clientMinimumProtocolVersion = minimum ∧
      r.clientDesiredMaximumFrameSize = desired ∧ r.capabilityEntries = es) ↔
    ¬ (minimum ≤ maximum ∧ es.Misread) := by
  -- the requests the bytes decode to differ from this one in their entries only
  have hdecode : ∀ r, decode (new maximum minimum desired es).encode = .ok r ↔
      minimum ≤ maximum ∧ ∃ es' : CapabilityEntries,
        r = ⟨maximum, minimum, desired, saturateU16 es.count, es'⟩ ∧ es'.Fit ∧ es'.Ascend ∧
        es.entries.flatMap CapabilityEntry.encode = Tlv.concat es'.pairs ∧
        es'.entries.length = min es.entries.length 65535 := by
    intro r
    have hbytes : (new maximum minimum desired es).encode = toLeBytes maximum ++
        (toLeBytes minimum ++ (toLeBytes desired ++ (toLeBytes (saturateU16 es.count) ++
          es.entries.flatMap CapabilityEntry.encode))) := by
      simp only [encode, new, List.append_assoc]
    rw [hbytes, decode_laid]
    constructor
    · rintro ⟨es', hparse, rfl, hv⟩
      obtain ⟨hfit, hregion⟩ := CapabilityEntries.parse_eq_some_iff.mp hparse
      exact ⟨hv.range, es', rfl, hfit, hv.ascend, hregion,
        hv.count.symm.trans (toNat_saturateU16 _)⟩
    · rintro ⟨hr, es', rfl, hfit, hascend, hregion, hlen⟩
      exact ⟨es', CapabilityEntries.parse_eq_some_iff.mpr ⟨hfit, hregion⟩, rfl, hr, hascend,
        (toNat_saturateU16 _).trans hlen.symm⟩
  constructor
  · rintro h ⟨hr, hmis⟩
    obtain ⟨es', hne, hfit, hascend, hregion, hlen⟩ := CapabilityEntries.misread_iff.mp hmis
    exact hne (h _ ((hdecode _).mpr ⟨hr, es', rfl, hfit, hascend, hregion, hlen⟩)).2.2.2
  · intro hno r hr
    obtain ⟨hrange, es', rfl, hfit, hascend, hregion, hlen⟩ := (hdecode r).mp hr
    refine ⟨rfl, rfl, rfl, ?_⟩
    by_contra hne
    exact hno ⟨hrange, CapabilityEntries.misread_iff.mpr ⟨es', hne, hfit, hascend, hregion, hlen⟩⟩

/-- Two capabilities, the first with a value four bytes too long: these are the head of an entry
that takes in the second. -/
def overlong : CapabilityEntries :=
  ⟨[⟨1, List.replicate 65535 0 ++ [2, 0, 4, 0]⟩, ⟨9, []⟩]⟩

/-- **A request that means something else.**  It offers the capabilities 1 and 9; its bytes decode,
and the offer they make is of 1 and 2. -/
theorem HandshakeRequest.encode_misleads :
    ∃ r, decode (new 0 0 65536 overlong).encode = .ok r ∧
      r.capabilityEntries.entries = [⟨1, List.replicate 65535 0⟩, ⟨2, [9, 0, 0, 0]⟩] ∧
      r.capabilityEntries ≠ overlong := by
  have hz : (List.replicate 65535 (0 : UInt8)).length = 65535 := List.length_replicate
  unfold overlong
  generalize List.replicate 65535 (0 : UInt8) = z at hz ⊢
  have hlong : 65535 < (z ++ [2, 0, 4, 0]).length := by
    rw [List.length_append, hz]
    decide
  have hfirst : (CapabilityEntry.mk 1 (z ++ [2, 0, 4, 0])).encode =
      Tlv.encodeEntry (1, z) ++ [2, 0, 4, 0] := by
    rw [CapabilityEntry.encode_of_gt hlong, ← hz, List.take_left, List.drop_left]
  refine ⟨⟨0, 0, 65536, 2, ⟨[⟨1, z⟩, ⟨2, [9, 0, 0, 0]⟩]⟩⟩,
    decode_eq_ok_iff.mpr ⟨⟨?_, ?_⟩, ?_⟩, rfl, ?_⟩
  · exact List.forall_mem_cons.mpr ⟨Nat.le_of_eq hz, List.forall_mem_singleton.mpr (by decide)⟩
  · simp only [encode, new, List.flatMap_cons, List.flatMap_nil, hfirst, List.append_assoc]
    rfl
  · exact ⟨Nat.le_refl 0, by simp [CapabilityEntries.Ascend], rfl⟩
  · intro h
    have hids : [(1 : UInt16), 2] = [1, 9] :=
      congrArg (fun es => es.entries.map CapabilityEntry.identifier) h
    exact absurd hids (by decide)

end Rp1.Protocol

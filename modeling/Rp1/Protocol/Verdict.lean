import Rp1.Protocol.Admit
import Rp1.Protocol.Checks

/-!
# Protocol — the four cases of `decode`

`judge` is everything `decode` does once the frame is held; `judge_eq_ok_iff` says what it
accepts, and `judge_append` that what follows the frame plays no part in it.

`held` splits the inputs into the four cases `decode` distinguishes — less than a header, a
header that is refused on its own, a header without its whole body, and a whole frame — and
`decode_short`, `decode_refused`, `decode_waits` and `decode_judged` give its answer in each.
The modules that follow cite these and never unfold `decode`.
-/

namespace Rp1.Protocol
open Codec

/-! ### A frame that is held whole -/

/-- What `decode` does once the whole frame is held. -/
def judge (input : Bytes) (admission : Admission) (raw : RawHeader) (kind : Kind) :
    Except Failure Frame := do
  let admitted ← admitBody input admission.role raw kind raw.total
  decodeAdmitted input admission.state admission.inFlight admitted

/-- The header of the frame `judge` builds. -/
def RawHeader.header (raw : RawHeader) (kind : Kind) : Header :=
  { version := ⟨raw.version⟩
    kind
    flags := ⟨raw.flags⟩
    code := raw.code
    metadataLength := raw.metadataLength
    payloadLength := raw.payloadLength
    requestId := ⟨raw.requestId⟩ }

/-- The metadata bytes of a frame that is held whole. -/
def RawHeader.metadataBytes (raw : RawHeader) (input : Bytes) : Bytes :=
  (input.drop headerLength).take raw.metadataLength.toNat

/-- The payload bytes of a frame that is held whole. -/
def RawHeader.payloadBytes (raw : RawHeader) (input : Bytes) : Bytes :=
  (input.drop (headerLength + raw.metadataLength.toNat)).take raw.payloadLength.toNat

theorem RawHeader.getRange_metadata {raw : RawHeader} {input : Bytes}
    (h : raw.total ≤ input.length) :
    getRange input headerLength (headerLength + raw.metadataLength.toNat) =
      some (raw.metadataBytes input) := by
  rw [getRange_of_le (Nat.le_add_right _ _) (Nat.le_trans (Nat.le_add_right _ _) h),
    Nat.add_sub_cancel_left]
  rfl

theorem RawHeader.getRange_payload {raw : RawHeader} {input : Bytes}
    (h : raw.total ≤ input.length) :
    getRange input (headerLength + raw.metadataLength.toNat) raw.total =
      some (raw.payloadBytes input) := by
  have hle : headerLength + raw.metadataLength.toNat ≤ raw.total := Nat.le_add_right _ _
  have hsub : raw.total - (headerLength + raw.metadataLength.toNat) = raw.payloadLength.toNat :=
    Nat.add_sub_cancel_left _ _
  rw [getRange_of_le hle h, hsub]
  rfl

theorem RawHeader.length_payloadBytes {raw : RawHeader} {input : Bytes}
    (h : raw.total ≤ input.length) : (raw.payloadBytes input).length = raw.payloadLength.toNat := by
  simp only [total] at h
  simp only [payloadBytes, List.length_take, List.length_drop]
  omega

/-- **What a held frame has to be.** -/
theorem judge_eq_ok_iff {input : Bytes} {admission : Admission} {raw : RawHeader} {kind : Kind}
    {f : Frame} (hlen : raw.total ≤ input.length) :
    judge input admission raw kind = .ok f ↔
      ∃ metadata c payload,
        ((∀ e ∈ metadata.pairs, Tlv.Fits e) ∧ raw.metadataBytes input = Tlv.concat metadata.pairs) ∧
        kind.sender ≠ admission.role ∧ Permits admission.state kind raw.code ∧
        Correlates raw.code raw.requestId admission.inFlight kind c ∧ InOrder metadata.pairs ∧
        Lays c (raw.payloadBytes input) payload ∧
        f = ⟨raw.header kind, metadata, payload, retiresFor kind c raw.requestId⟩ := by
  simp only [judge, bind_eq_ok, admitBody_eq_ok_iff, RawHeader.getRange_metadata hlen,
    Option.some.injEq]
  constructor
  · rintro ⟨_, ⟨_, metadata, rfl, hm, hs, rfl⟩, h⟩
    simp only [decodeAdmitted, bind_eq_ok, okOr_eq_ok, RawHeader.getRange_payload hlen,
      Option.some.injEq, checkConnectionState_eq_ok_iff, correlate_eq_ok_iff,
      checkMetadataOrder_eq_ok_iff, Except.ok.injEq] at h
    obtain ⟨_, hst, c, hc, _, ho, _, rfl, payload, hp, rfl⟩ := h
    exact ⟨metadata, c, payload, MetadataRegion.parse_eq_some_iff.mp hm, hs, hst, hc, ho,
      (readPayload_eq_ok_iff (RawHeader.length_payloadBytes hlen)).mp hp, rfl⟩
  · rintro ⟨metadata, c, payload, hm, hs, hst, hc, ho, hp, rfl⟩
    refine ⟨_, ⟨_, metadata, rfl, MetadataRegion.parse_eq_some_iff.mpr hm, hs, rfl⟩, ?_⟩
    have hst' : checkConnectionState admission.state kind raw.code = .ok () :=
      checkConnectionState_eq_ok_iff.mpr hst
    have ho' : checkMetadataOrder metadata = .ok () := checkMetadataOrder_eq_ok_iff.mpr ho
    simp only [decodeAdmitted, RawHeader.getRange_payload hlen, hst', ho',
      correlate_eq_ok_iff.mpr hc, okOr_some, ok_bind,
      (readPayload_eq_ok_iff (RawHeader.length_payloadBytes hlen)).mpr hp]
    rfl

/-- What follows a held frame plays no part in its verdict. -/
theorem judge_append {input : Bytes} {admission : Admission} {raw : RawHeader} {kind : Kind}
    (ext : Bytes) (hlen : raw.total ≤ input.length) :
    judge (input ++ ext) admission raw kind = judge input admission raw kind := by
  have hm : getRange (input ++ ext) headerLength (headerLength + raw.metadataLength.toNat) =
      getRange input headerLength (headerLength + raw.metadataLength.toNat) :=
    getRange_append ext (Nat.le_trans (Nat.le_add_right _ _) hlen)
  have hb : admitBody (input ++ ext) admission.role raw kind raw.total =
      admitBody input admission.role raw kind raw.total := by
    simp only [admitBody, metadataEnd_eq, okOr_some, ok_bind, hm]
  rw [judge, judge, hb]
  cases h : admitBody input admission.role raw kind raw.total with
  | error failure => rfl
  | ok admitted =>
      obtain ⟨_, _, -, -, -, rfl⟩ := admitBody_eq_ok_iff.mp h
      simp only [ok_bind, decodeAdmitted, getRange_append ext hlen]

/-- A held frame that is refused for its request alone passed the direction and the state check,
and then either its opcode is unassigned or its metadata is out of order. -/
theorem judge_requestScoped {input : Bytes} {admission : Admission} {raw : RawHeader} {kind : Kind}
    {failure : Failure} (hlen : raw.total ≤ input.length)
    (h : judge input admission raw kind = .error failure) (hs : failure.scope = .requestScoped) :
    kind.sender ≠ admission.role ∧ Permits admission.state kind raw.code ∧
      ((kind = .request ∧ raw.requestId ≠ 0 ∧ raw.requestId ∉ admission.inFlight) ∨
        ∃ (metadata : MetadataRegion) (c : Correlation),
          ((∀ e ∈ metadata.pairs, Tlv.Fits e) ∧
            raw.metadataBytes input = Tlv.concat metadata.pairs) ∧
          Correlates raw.code raw.requestId admission.inFlight kind c ∧
          ¬ InOrder metadata.pairs) := by
  rcases bind_eq_error.mp h with h | ⟨admitted, hb, h⟩
  · rw [(admitBody_fatal h).scope] at hs; cases hs
  · obtain ⟨region, metadata, hr, hm, hd, rfl⟩ := admitBody_eq_ok_iff.mp hb
    obtain rfl := Option.some.inj ((RawHeader.getRange_metadata hlen).symm.trans hr)
    refine ⟨hd, ?_⟩
    rcases bind_eq_error.mp h with h | ⟨_, hst, h⟩
    · rw [(checkConnectionState_fatal h).scope] at hs; cases hs
    · refine ⟨checkConnectionState_eq_ok_iff.mp hst, ?_⟩
      rcases bind_eq_error.mp h with h | ⟨c, hc, h⟩
      · rcases correlate_error h with h | ⟨hk, hid, hfl, -⟩
        · rw [h.scope] at hs; cases hs
        · exact .inl ⟨hk, hid, hfl⟩
      · refine .inr ⟨metadata, c, MetadataRegion.parse_eq_some_iff.mp hm,
          correlate_eq_ok_iff.mp hc, fun ho => ?_⟩
        -- with the metadata in order only the payload is left to refuse, and that is fatal
        have ho' : checkMetadataOrder metadata = .ok () := checkMetadataOrder_eq_ok_iff.mpr ho
        simp only [ho', ok_bind, RawHeader.getRange_payload hlen, okOr_some] at h
        rcases bind_eq_error.mp h with h | ⟨payload, -, h⟩
        · rw [(readPayload_fatal h).scope] at hs; cases hs
        · cases h

/-- The refusals of a held frame: the connection ends, or the opcode or the metadata of one request
is at fault. -/
theorem judge_error {input : Bytes} {admission : Admission} {raw : RawHeader} {kind : Kind}
    {failure : Failure} (h : judge input admission raw kind = .error failure) :
    failure.Fatal ∨ failure = .unsupportedOperation ∨ failure = .invalidArgument := by
  rcases bind_eq_error.mp h with h | ⟨admitted, -, h⟩
  · exact .inl (admitBody_fatal h)
  rcases bind_eq_error.mp h with h | ⟨_, -, h⟩
  · exact .inl (checkConnectionState_fatal h)
  rcases bind_eq_error.mp h with h | ⟨c, -, h⟩
  · rcases correlate_error h with h | ⟨-, -, -, h⟩
    · exact .inl h
    · exact .inr (.inl h)
  rcases bind_eq_error.mp h with h | ⟨_, -, h⟩
  · exact .inr (.inr (checkMetadataOrder_error h))
  rcases bind_eq_error.mp h with h | ⟨bytes, -, h⟩
  · exact .inl ((okOr_eq_error.mp h).2 ▸ ⟨rfl, rfl⟩)
  rcases bind_eq_error.mp h with h | ⟨payload, -, h⟩
  · exact .inl (readPayload_fatal h)
  · cases h

/-- A held frame that correlates is refused for its request alone when its metadata is out of
order, whatever its payload. -/
theorem judge_disordered {input : Bytes} {admission : Admission} {raw : RawHeader} {kind : Kind}
    {metadata : MetadataRegion} {c : Correlation} (hlen : raw.total ≤ input.length)
    (hm : (∀ e ∈ metadata.pairs, Tlv.Fits e) ∧
      raw.metadataBytes input = Tlv.concat metadata.pairs)
    (hd : kind.sender ≠ admission.role) (hst : Permits admission.state kind raw.code)
    (hc : Correlates raw.code raw.requestId admission.inFlight kind c)
    (ho : ¬ InOrder metadata.pairs) :
    judge input admission raw kind = .error .invalidArgument := by
  have hb : admitBody input admission.role raw kind raw.total =
      .ok ⟨raw, kind, metadata, raw.total, headerLength + raw.metadataLength.toNat⟩ :=
    admitBody_eq_ok_iff.mpr ⟨_, metadata, RawHeader.getRange_metadata hlen,
      MetadataRegion.parse_eq_some_iff.mpr hm, hd, rfl⟩
  have hst' : checkConnectionState admission.state kind raw.code = .ok () :=
    checkConnectionState_eq_ok_iff.mpr hst
  rw [judge, hb, ok_bind, decodeAdmitted]
  simp only [hst', correlate_eq_ok_iff.mpr hc, checkMetadataOrder_of_not ho, ok_bind, error_bind]

/-! ### The four cases of `decode` -/

/-- How much of a frame an input holds. -/
inductive Held (input : Bytes) (limits : Limits) : Prop where
  /-- Less than a header. -/
  | short (h : input.length < headerLength)
  /-- A header that is refused on its own. -/
  | refused (raw : RawHeader) (failure : Failure) (hp : RawHeader.parse input = some raw)
      (hh : admitHeader raw limits = .error failure)
  /-- An acceptable header without its whole body. -/
  | waits (raw : RawHeader) (kind : Kind) (hp : RawHeader.parse input = some raw)
      (hh : admitHeader raw limits = .ok (kind, raw.total)) (hl : input.length < raw.total)
  /-- A whole frame. -/
  | whole (raw : RawHeader) (kind : Kind) (hp : RawHeader.parse input = some raw)
      (hh : admitHeader raw limits = .ok (kind, raw.total)) (hl : raw.total ≤ input.length)

theorem held (input : Bytes) (limits : Limits) : Held input limits := by
  cases hp : RawHeader.parse input with
  | none =>
      refine .short (Nat.lt_of_not_le fun hle => ?_)
      rw [RawHeader.parse_of_le hle] at hp
      cases hp
  | some raw =>
      cases hh : admitHeader raw limits with
      | error failure => exact .refused raw failure hp hh
      | ok r =>
          obtain ⟨kind, total⟩ := r
          obtain rfl := (admitHeader_eq_ok_iff.mp hh).2.2.2.2.2
          rcases Nat.lt_or_ge input.length raw.total with hl | hl
          · exact .waits raw kind hp hh hl
          · exact .whole raw kind hp hh hl

section Cases
variable {input : Bytes} {admission : Admission} {raw : RawHeader} {kind : Kind}

theorem decode_short (h : input.length < headerLength) :
    decode input admission = .need headerLength := by
  rw [decode, admitFrame, RawHeader.parse_eq_none h]

theorem decode_refused {failure : Failure} (hp : RawHeader.parse input = some raw)
    (hh : admitHeader raw admission.limits = .error failure) :
    decode input admission = .failure failure input.length := by
  rw [decode, admitFrame, hp]
  simp only [hh]

theorem decode_waits (hp : RawHeader.parse input = some raw)
    (hh : admitHeader raw admission.limits = .ok (kind, raw.total))
    (hl : input.length < raw.total) : decode input admission = .need raw.total := by
  rw [decode, admitFrame, hp]
  simp only [hh, if_pos hl]

/-- The step a verdict on a held frame becomes. -/
def verdict (totalLen inputLen : Nat) : Except Failure Frame → Step
  | .error failure => stepFor failure totalLen inputLen
  | .ok frame => .frame frame

theorem decode_judged (hp : RawHeader.parse input = some raw)
    (hh : admitHeader raw admission.limits = .ok (kind, raw.total))
    (hl : raw.total ≤ input.length) :
    decode input admission = verdict raw.total input.length (judge input admission raw kind) := by
  rw [decode, admitFrame, hp]
  simp only [hh, if_neg (Nat.not_lt.mpr hl), judge]
  cases hb : admitBody input admission.role raw kind raw.total with
  | error failure =>
      -- `admit` reports the whole input as consumed, and so does `step_for` on a fatal failure
      have hs : ¬ failure.scope = .requestScoped := by rw [(admitBody_fatal hb).scope]; decide
      simp only [error_bind, verdict, stepFor, if_neg hs]
  | ok admitted =>
      obtain ⟨_, _, -, -, -, rfl⟩ := admitBody_eq_ok_iff.mp hb
      simp only [ok_bind]
      cases decodeAdmitted input admission.state admission.inFlight _ <;> rfl

/-- A frame is the answer on an input that holds it whole. -/
theorem judge_of_decode {f : Frame} (h : decode input admission = .frame f) :
    ∃ raw kind, RawHeader.parse input = some raw ∧
      admitHeader raw admission.limits = .ok (kind, raw.total) ∧ raw.total ≤ input.length ∧
      judge input admission raw kind = .ok f := by
  cases held input admission.limits with
  | short hs => rw [decode_short hs] at h; cases h
  | refused raw failure hp hh => rw [decode_refused hp hh] at h; cases h
  | waits raw kind hp hh hl => rw [decode_waits hp hh hl] at h; cases h
  | whole raw kind hp hh hl =>
      rw [decode_judged hp hh hl] at h
      cases hj : judge input admission raw kind with
      | error failure => rw [hj] at h; cases h
      | ok g =>
          rw [hj] at h
          cases h
          exact ⟨raw, kind, hp, hh, hl, hj⟩

/-- **Where a failure comes from**: the header, or the frame that is held. -/
theorem cause_of_failure {failure : Failure} {consumed : Nat}
    (h : decode input admission = .failure failure consumed) :
    (∃ raw, admitHeader raw admission.limits = .error failure) ∨
      ∃ raw kind, RawHeader.parse input = some raw ∧
        admitHeader raw admission.limits = .ok (kind, raw.total) ∧ raw.total ≤ input.length ∧
        judge input admission raw kind = .error failure ∧
        consumed = if failure.scope = .requestScoped then raw.total else input.length := by
  cases held input admission.limits with
  | short hlt => rw [decode_short hlt] at h; cases h
  | refused raw reason hp hh =>
      rw [decode_refused hp hh] at h
      cases h
      exact .inl ⟨raw, hh⟩
  | waits raw kind hp hh hl => rw [decode_waits hp hh hl] at h; cases h
  | whole raw kind hp hh hl =>
      rw [decode_judged hp hh hl] at h
      cases hj : judge input admission raw kind with
      | ok g => rw [hj] at h; cases h
      | error reason =>
          rw [hj] at h
          cases h
          exact .inr ⟨raw, kind, hp, hh, hl, hj, rfl⟩

/-- A single request is refused on an input that holds its whole frame, which is then consumed. -/
theorem judge_of_requestScoped {failure : Failure} {consumed : Nat}
    (h : decode input admission = .failure failure consumed)
    (hs : failure.scope = .requestScoped) :
    ∃ raw kind, RawHeader.parse input = some raw ∧
      admitHeader raw admission.limits = .ok (kind, raw.total) ∧ raw.total ≤ input.length ∧
      judge input admission raw kind = .error failure ∧ consumed = raw.total := by
  rcases cause_of_failure h with ⟨raw, hh⟩ | ⟨raw, kind, hp, hh, hl, hj, hconsumed⟩
  · rw [(admitHeader_fatal hh).scope] at hs
    cases hs
  · rw [if_pos hs] at hconsumed
    exact ⟨raw, kind, hp, hh, hl, hj, hconsumed⟩

/-- **The failures of the decoder.** -/
theorem decode_failure {failure : Failure} {consumed : Nat}
    (h : decode input admission = .failure failure consumed) :
    failure.Fatal ∨ failure = .unsupportedOperation ∨ failure = .invalidArgument := by
  rcases cause_of_failure h with ⟨raw, hh⟩ | ⟨raw, kind, -, -, -, hj, -⟩
  · exact .inl (admitHeader_fatal hh)
  · exact judge_error hj

end Cases

end Rp1.Protocol

import Rp1.Connection.Drain

/-!
# Connection — whom a refusal is charged to

A failure that `decode` scopes to one request costs the request named in the header: the driver
takes its frame out of the buffer and resolves the waiter.  `Chargeable` says that there is such a
request, and `Stray` that the driver finds nobody to charge and ends the session instead.

Two checks refuse a single request.  An unassigned opcode is refused after the id rules, so it
always names a request.  The order of the metadata is checked for every kind, also for an `ERROR`
frame of a connection-fatal class, whose id `correlate` does not look at: `refusal_charged_iff`
says that these frames (`Disordered`) are the only ones that can go astray, and when they do.
-/

namespace Rp1.Connection
open Codec Protocol

/-! ### The two sides of a request-scoped refusal -/

/-- A request-scoped refusal of the head of `input` names a request the receiver can charge it to,
and consumes exactly the frame. -/
def Chargeable (input : Bytes) (admission : Admission) : Prop :=
  ∀ failure consumed, decode input admission = .failure failure consumed →
    failure.scope = .requestScoped →
    ∃ raw, RawHeader.parse input = some raw ∧ raw.requestId ≠ 0 ∧
      (admission.role = .client → raw.requestId ∈ admission.inFlight) ∧
      (admission.role = .server → raw.requestId ∉ admission.inFlight) ∧
      consumed = 20 + raw.metadataLength.toNat + raw.payloadLength.toNat ∧
      consumed ≤ input.length

/-- The driver is about to take the branch of its request-scoped arm in which nobody waits. -/
def Stray {σ : Type} (limits : Limits) (d : Driver σ) : Prop :=
  ∃ failure consumed id, decode d.buffer (d.admission limits) = .failure failure consumed ∧
    failure.scope = .requestScoped ∧ headerRequestId d.buffer = some id ∧
    d.completions.lookup id = none

/-- A client holds a whole `ERROR` frame of a connection-fatal class, with a metadata region whose
identifiers do not strictly ascend or that has a required entry. -/
structure Disordered (input : Bytes) (admission : Admission) (raw : RawHeader) : Prop where
  header : RawHeader.parse input = some raw
  version : raw.version = 0
  kind : raw.kind = 3
  flags : raw.flags = 0
  frameSize : raw.total ≤ admission.limits.frameSize.toNat
  metadataSize : raw.metadataLength ≤ admission.limits.metadataSize
  held : raw.total ≤ input.length
  role : admission.role = .client
  state : admission.state ≠ .terminal
  cls : ∃ cls : ErrorClass, cls.value = raw.code ∧ cls.scope = .connectionFatal
  metadata : ∃ metadata : MetadataRegion,
    ((∀ e ∈ metadata.pairs, Tlv.Fits e) ∧ raw.metadataBytes input = Tlv.concat metadata.pairs) ∧
      ¬ InOrder metadata.pairs

section Charge
variable {input : Bytes} {admission : Admission} {raw : RawHeader}

/-- Such a frame is refused for its request alone, whatever its id. -/
theorem Disordered.decode (h : Disordered input admission raw) :
    decode input admission = .failure .invalidArgument raw.total := by
  obtain ⟨cls, hc, hs⟩ := h.cls
  obtain ⟨metadata, hm, ho⟩ := h.metadata
  have hh : admitHeader raw admission.limits = .ok (.error, raw.total) :=
    admitHeader_eq_ok_iff.mpr ⟨h.version, h.kind.symm, h.frameSize, h.flags, h.metadataSize, rfl⟩
  have hd : Kind.error.sender ≠ admission.role := by
    rw [h.role]
    exact Role.noConfusion
  have hst : Permits admission.state .error raw.code := by
    cases hstate : admission.state with
    | preNegotiation => exact .inr (.inr rfl)
    | negotiated => exact fun e => Kind.noConfusion e.1
    | terminal => exact absurd hstate h.state
  -- the id rules of `correlate` do not apply to a connection-fatal class
  have hcorr : Correlates raw.code raw.requestId admission.inFlight .error (.error cls.scope) :=
    .error cls hc fun e => absurd (hs.symm.trans e) FailureScope.noConfusion
  rw [decode_judged h.header hh h.held, judge_disordered h.held hm hd hst hcorr ho]
  rfl

/-- **What a request-scoped refusal is about.**  The frame is held whole; a server's names a new
request, a client's one in flight, or it is an `ERROR` frame of a connection-fatal class. -/
theorem requestScoped_cases {failure : Failure} {consumed : Nat}
    (h : decode input admission = .failure failure consumed)
    (hs : failure.scope = .requestScoped) :
    ∃ raw, RawHeader.parse input = some raw ∧ raw.total ≤ input.length ∧ consumed = raw.total ∧
      ((admission.role = .server ∧ raw.requestId ≠ 0 ∧ raw.requestId ∉ admission.inFlight) ∨
        (admission.role = .client ∧ raw.requestId ≠ 0 ∧ raw.requestId ∈ admission.inFlight) ∨
        Disordered input admission raw) := by
  obtain ⟨raw, kind, hp, hh, hl, hj, rfl⟩ := judge_of_requestScoped h hs
  refine ⟨raw, hp, hl, rfl, ?_⟩
  obtain ⟨hv, hk, ht, hf, hm, -⟩ := admitHeader_eq_ok_iff.mp hh
  obtain ⟨hd, hst, hcase⟩ := judge_requestScoped hl hj hs
  -- a kind determines the role of its receiver
  have hserver : kind.sender = .client → admission.role = .server := fun e => by
    cases hr : admission.role with
    | server => rfl
    | client => exact absurd (e.trans hr.symm) hd
  have hclient : kind.sender = .server → admission.role = .client := fun e => by
    cases hr : admission.role with
    | client => rfl
    | server => exact absurd (e.trans hr.symm) hd
  rcases hcase with ⟨rfl, hid, hfl⟩ | ⟨metadata, c, hmeta, hc, ho⟩
  · exact .inl ⟨hserver rfl, hid, hfl⟩
  · cases hc with
    | handshake hid hfl => exact .inl ⟨hserver rfl, hid, hfl⟩
    | operation hid hfl => exact .inl ⟨hserver rfl, hid, hfl⟩
    | response hid hfl => exact .inr (.inl ⟨hclient rfl, hid, hfl⟩)
    | error cls hcls hreq =>
        cases hscope : cls.scope with
        | requestScoped =>
            obtain ⟨hid, hfl⟩ := hreq hscope
            exact .inr (.inl ⟨hclient rfl, hid, hfl⟩)
        | connectionFatal =>
            have hstate : admission.state ≠ .terminal := fun e => by
              rw [e] at hst
              exact hst
            exact .inr (.inr ⟨hp, hv, hk.symm, hf, ht, hm, hl, hclient rfl, hstate,
              ⟨cls, hcls, hscope⟩, metadata, hmeta, ho⟩)

end Charge

/-! ### When a refusal can be charged -/

/-- **A request-scoped refusal can be charged to a request** exactly when it is not for the
metadata of a connection-fatal `ERROR` frame with a zero id or an id that is not in flight; and
exactly then the driver finds a waiter, if its two tables agree. -/
theorem refusal_charged_iff {σ : Type} (input : Bytes) (admission : Admission) (limits : Limits)
    (d : Driver σ) (hsync : ∀ id, id ∈ d.completions ↔ id ∈ d.live) :
    (Chargeable input admission ↔
      ∀ raw, Disordered input admission raw →
        raw.requestId ≠ 0 ∧ raw.requestId ∈ admission.inFlight) ∧
    (¬ Stray limits d ↔
      ∀ raw, Disordered d.buffer (d.admission limits) raw → raw.requestId ∈ d.live) := by
  constructor
  · constructor
    · intro h raw hraw
      obtain ⟨raw', hp, hid, hclient, -, -⟩ := h _ _ hraw.decode rfl
      obtain rfl := Option.some.inj (hp.symm.trans hraw.header)
      exact ⟨hid, hclient hraw.role⟩
    · intro h failure consumed hd hs
      obtain ⟨raw, hp, hl, rfl, hcase⟩ := requestScoped_cases hd hs
      refine ⟨raw, hp, ?_⟩
      rcases hcase with ⟨hr, hid, hfl⟩ | ⟨hr, hid, hfl⟩ | hraw
      · exact ⟨hid, fun e => Role.noConfusion (hr.symm.trans e), fun _ => hfl, rfl, hl⟩
      · exact ⟨hid, fun _ => hfl, fun e => Role.noConfusion (hr.symm.trans e), rfl, hl⟩
      · obtain ⟨hid, hfl⟩ := h raw hraw
        exact ⟨hid, fun _ => hfl, fun e => Role.noConfusion (hraw.role.symm.trans e), rfl, hl⟩
  · constructor
    · intro h raw hraw
      by_contra hlive
      refine h ⟨_, _, raw.requestId, hraw.decode, rfl, headerRequestId_of_parse hraw.header, ?_⟩
      exact AList.lookup_eq_none.mpr fun hm => hlive ((hsync _).mp hm)
    · rintro h ⟨failure, consumed, id, hd, hs, hid, hw⟩
      obtain ⟨raw, hp, -, -, hcase⟩ := requestScoped_cases hd hs
      obtain rfl := Option.some.inj ((headerRequestId_of_parse hp).symm.trans hid)
      have hlive : raw.requestId ∈ d.live := by
        rcases hcase with ⟨hr, -⟩ | ⟨-, -, hfl⟩ | hraw
        · exact nomatch hr
        · exact hfl
        · exact h raw hraw
      exact AList.lookup_eq_none.mp hw ((hsync _).mpr hlive)

/-- A response with a required metadata entry, for the one request in flight, costs that request. -/
theorem refusal_charged_response :
    Chargeable
      [0, 2, 0, 0, 0, 0, 4, 0, 0, 0, 0, 0, 7, 0, 0, 0, 0, 0, 0, 0, 1, 128, 0, 0]
      ⟨.client, .negotiated, ⟨64, 16⟩, [7]⟩ := by
  refine (refusal_charged_iff (σ := Unit) _ _ ⟨64, 16⟩ ⟨[], ∅, .new, false, []⟩
    fun _ => .rfl).1.mpr fun raw h => ?_
  cases h.header
  exact nomatch h.kind

/-- **A refusal that names no request.**  The server reports that a resource limit ends the
connection, under the reserved id 0 and with an extension the client has to understand.  The
refusal is scoped to one request, but there is none with this id: the driver ends the session with
a protocol violation, and the reported class is lost. -/
theorem refusal_astray :
    decode [0, 3, 0, 0, 5, 0, 4, 0, 2, 0, 0, 0, 0, 0, 0, 0, 0, 0, 0, 0, 1, 128, 0, 0, 0, 0]
        ⟨.client, .negotiated, ⟨64, 16⟩, [7]⟩ = .failure .invalidArgument 26 ∧
    ¬ Chargeable
        [0, 3, 0, 0, 5, 0, 4, 0, 2, 0, 0, 0, 0, 0, 0, 0, 0, 0, 0, 0, 1, 128, 0, 0, 0, 0]
        ⟨.client, .negotiated, ⟨64, 16⟩, [7]⟩ ∧
    Stray ⟨64, 16⟩
      (⟨[0, 3, 0, 0, 5, 0, 4, 0, 2, 0, 0, 0, 0, 0, 0, 0, 0, 0, 0, 0, 1, 128, 0, 0, 0, 0],
        (∅ : Waiters Unit).insert 7 (), ⟨[7], by decide⟩, false, []⟩ : Driver Unit) ∧
    (drainFrames ⟨64, 16⟩
      (⟨[0, 3, 0, 0, 5, 0, 4, 0, 2, 0, 0, 0, 0, 0, 0, 0, 0, 0, 0, 0, 1, 128, 0, 0, 0, 0],
        (∅ : Waiters Unit).insert 7 (), ⟨[7], by decide⟩, false, []⟩ : Driver Unit)).2 =
      some .protocolViolation := by
  have hd : decode [0, 3, 0, 0, 5, 0, 4, 0, 2, 0, 0, 0, 0, 0, 0, 0, 0, 0, 0, 0, 1, 128, 0, 0, 0, 0]
      ⟨.client, .negotiated, ⟨64, 16⟩, [7]⟩ = .failure .invalidArgument 26 := by decide
  refine ⟨hd, fun h => ?_, ⟨_, _, 0, hd, rfl, rfl, rfl⟩, rfl⟩
  obtain ⟨raw, hp, hid, -⟩ := h _ _ hd rfl
  cases hp
  exact hid rfl

end Rp1.Connection

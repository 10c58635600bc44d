import Mathlib.Data.Nat.Bitwise
import Rp1.Protocol.Decode

/-!
# Protocol — what the checks after `admit` accept

One relation for each check of `decode` that follows `admit`, and the equivalence of the two:

* `Permits` for `check_connection_state`;
* `Correlates` for `correlate`: the id, in-flight and code rule of each kind;
* `InOrder` for `check_metadata_order`: strictly ascending identifiers outside the required range;
* `Lays` for `read_payload`: the layout each correlation requires of the payload bytes.

The refusals are inverted as well: `correlate` refuses a single request only for an unassigned
opcode, `check_metadata_order` always does, and the other two never do.
-/

namespace Rp1.Protocol
open Codec

/-! ### Connection state and correlation -/

/-- What a connection state lets pass: before negotiation the handshake and its answers, after
it everything but a handshake request, and nothing once terminal. -/
def Permits : ConnectionState → Kind → UInt16 → Prop
  | .preNegotiation, kind, code =>
      (kind = .request ∧ code = handshakeOpcode) ∨ (kind = .response ∧ code = 0) ∨ kind = .error
  | .negotiated, kind, code => ¬ (kind = .request ∧ code = handshakeOpcode)
  | .terminal, _, _ => False

theorem checkConnectionState_eq_ok_iff {state : ConnectionState} {kind : Kind} {code : UInt16}
    {u : Unit} : checkConnectionState state kind code = .ok u ↔ Permits state kind code := by
  cases state with
  | preNegotiation => simp only [checkConnectionState, Permits]; split <;> simp_all
  | negotiated => simp only [checkConnectionState, Permits]; split <;> simp_all
  | terminal => simp [checkConnectionState, Permits]

theorem checkConnectionState_fatal {state : ConnectionState} {kind : Kind} {code : UInt16}
    {failure : Failure} (h : checkConnectionState state kind code = .error failure) :
    failure.Fatal := by
  cases state with
  | preNegotiation =>
      simp only [checkConnectionState] at h
      split at h <;> cases h
      exact ⟨rfl, rfl⟩
  | negotiated =>
      simp only [checkConnectionState] at h
      split at h <;> cases h
      exact ⟨rfl, rfl⟩
  | terminal => cases h; exact ⟨rfl, rfl⟩

/-- The id, in-flight and code rule of each kind, with the correlation it yields. -/
inductive Correlates (code : UInt16) (id : UInt64) (inFlight : List UInt64) :
    Kind → Correlation → Prop where
  | handshake (hid : id ≠ 0) (hfl : id ∉ inFlight) (hc : code = handshakeOpcode) :
      Correlates code id inFlight .request .handshakeRequest
  | operation (hid : id ≠ 0) (hfl : id ∉ inFlight) (hc : code ≠ handshakeOpcode)
      (ha : Opcode.isAssigned code = true) :
      Correlates code id inFlight .request (.operationRequest code)
  | response (hid : id ≠ 0) (hfl : id ∈ inFlight) (result : ResultCode)
      (hc : result.value = code) : Correlates code id inFlight .response (.response result)
  | error (cls : ErrorClass) (hc : cls.value = code)
      (hreq : cls.scope = .requestScoped → id ≠ 0 ∧ id ∈ inFlight) :
      Correlates code id inFlight .error (.error cls.scope)

theorem correlate_eq_ok_iff {kind : Kind} {code : UInt16} {id : UInt64} {inFlight : List UInt64}
    {c : Correlation} :
    correlate kind code id inFlight = .ok c ↔ Correlates code id inFlight kind c := by
  constructor
  · intro h
    cases kind with
    | request =>
        simp only [correlate, guard_eq_ok, List.contains_iff_mem] at h
        obtain ⟨hid, hfl, h⟩ := h
        split at h
        · cases h; exact .handshake hid hfl (by assumption)
        · split at h
          · cases h; exact .operation hid hfl (by assumption) (by assumption)
          · cases h
    | response =>
        simp only [correlate, guard_eq_ok, bind_eq_ok, okOr_eq_ok, Bool.not_eq_true',
          ResultCode.fromWire_eq_some_iff] at h
        obtain ⟨hid, hfl, result, hr, h⟩ := h
        cases h
        exact .response hid (by simpa using hfl) result hr
    | error =>
        simp only [correlate, guard_eq_ok, bind_eq_ok, okOr_eq_ok,
          ErrorClass.fromWire_eq_some_iff] at h
        obtain ⟨cls, hc, hid, hfl, h⟩ := h
        cases h
        -- the id counts only if the class is request-scoped
        refine .error cls hc fun hs => ⟨fun e => hid ⟨hs, e⟩, ?_⟩
        by_contra hm
        exact hfl ⟨hs, by simpa using hm⟩
  · intro h
    cases h with
    | handshake hid hfl hc => simp [correlate, hid, hfl, hc]
    | operation hid hfl hc ha => simp [correlate, hid, hfl, hc, ha]
    | response hid hfl result hc =>
        simp [correlate, hid, hfl, ResultCode.fromWire_eq_some_iff.mpr hc]
    | error cls hc hreq =>
        have hid : ¬ (cls.scope = .requestScoped ∧ id = 0) := fun h => (hreq h.1).1 h.2
        have hfl : ¬ (cls.scope = .requestScoped ∧ (!inFlight.contains id) = true) := fun h => by
          simpa [(hreq h.1).2] using h.2
        simp only [correlate, ErrorClass.fromWire_eq_some_iff.mpr hc, okOr_some, ok_bind,
          if_neg hid, if_neg hfl]

/-- The only request-scoped refusal of `correlate` is an unassigned opcode. -/
theorem correlate_error {kind : Kind} {code : UInt16} {id : UInt64} {inFlight : List UInt64}
    {failure : Failure} (h : correlate kind code id inFlight = .error failure) :
    failure.Fatal ∨
      (kind = .request ∧ id ≠ 0 ∧ id ∉ inFlight ∧ failure = .unsupportedOperation) := by
  cases kind with
  | request =>
      simp only [correlate] at h
      split at h
      · cases h; exact .inl ⟨rfl, rfl⟩
      · split at h
        · cases h; exact .inl ⟨rfl, rfl⟩
        · rename_i hid hfl
          split at h
          · cases h
          · split at h
            · cases h
            · cases h; exact .inr ⟨rfl, hid, by simpa using hfl, rfl⟩
  | response =>
      simp only [correlate] at h
      split at h
      · cases h; exact .inl ⟨rfl, rfl⟩
      · split at h
        · cases h; exact .inl ⟨rfl, rfl⟩
        · rcases bind_eq_error.mp h with h | ⟨_, -, h⟩
          · rw [← (okOr_eq_error.mp h).2]; exact .inl ⟨rfl, rfl⟩
          · cases h
  | error =>
      simp only [correlate] at h
      rcases bind_eq_error.mp h with h | ⟨cls, -, h⟩
      · rw [← (okOr_eq_error.mp h).2]; exact .inl ⟨rfl, rfl⟩
      · split at h
        · cases h; exact .inl ⟨rfl, rfl⟩
        · split at h <;> cases h; exact .inl ⟨rfl, rfl⟩

/-! ### Metadata order -/

/-- The entries of a region as tag and value pairs. -/
def MetadataRegion.pairs (m : MetadataRegion) : List Tlv.Entry :=
  m.entries.map fun e => (e.identifier, e.value)

/-- The region with the given entries. -/
def MetadataRegion.ofPairs (es : List Tlv.Entry) : MetadataRegion :=
  ⟨es.map fun e => ⟨e.1, e.2⟩⟩

@[simp] theorem MetadataRegion.pairs_ofPairs (es : List Tlv.Entry) : (ofPairs es).pairs = es := by
  simp [ofPairs, pairs, Function.comp_def]

/-- A region reads as `m` exactly when it is the concatenation of the entries of `m`. -/
theorem MetadataRegion.parse_eq_some_iff {region : Bytes} {m : MetadataRegion} :
    MetadataRegion.parse region = some m ↔
      (∀ e ∈ m.pairs, Tlv.Fits e) ∧ region = Tlv.concat m.pairs := by
  simp only [parse, Option.map_eq_some_iff, Tlv.parse_eq_some_iff]
  constructor
  · rintro ⟨es, ⟨ps, hps, rfl, rfl⟩, rfl⟩
    show (∀ e ∈ (ofPairs ps).pairs, Tlv.Fits e) ∧ Tlv.concat ps = Tlv.concat (ofPairs ps).pairs
    rw [pairs_ofPairs]
    exact ⟨hps, rfl⟩
  · rintro ⟨hps, rfl⟩
    exact ⟨m.entries, ⟨m.pairs, hps, rfl, by simp [pairs, Function.comp_def]⟩, rfl⟩

/-- The identifiers strictly ascend and none is in the required range. -/
def InOrder (es : List Tlv.Entry) : Prop :=
  (es.map Prod.fst).IsChain (· < ·) ∧ ∀ e ∈ es, e.1 < 0x8000

theorem MetadataEntry.isRequired_iff {e : MetadataEntry} :
    e.isRequired = true ↔ ¬ e.identifier < 0x8000 := by
  have hlt := e.identifier.toNat_lt
  have hand : e.identifier.toNat &&& 2 ^ 15 = (e.identifier.toNat.testBit 15).toNat * 2 ^ 15 :=
    Nat.and_two_pow _ _
  have hbit : e.identifier.toNat.testBit 15 = decide (e.identifier.toNat / 2 ^ 15 % 2 = 1) :=
    Nat.testBit_eq_decide_div_mod_eq
  have hreq : e.isRequired = true ↔ e.identifier.toNat &&& 2 ^ 15 ≠ 0 := by
    rw [isRequired, bne_iff_ne, ne_eq, ← UInt16.toNat_inj, UInt16.toNat_and]
    rfl
  rw [hreq, hand, hbit, UInt16.lt_iff_toNat_lt]
  simp only [UInt16.reduceToNat, not_lt]
  by_cases h : e.identifier.toNat / 2 ^ 15 % 2 = 1
  · simp only [h, decide_true, Bool.toNat_true]; omega
  · simp only [h, decide_false, Bool.toNat_false]; omega

/-- The loop invariant: `previous` heads the chain of identifiers. -/
theorem checkMetadataOrderLoop_eq_ok_iff {u : Unit} :
    ∀ {previous : Option UInt16} {es : List MetadataEntry},
      checkMetadataOrderLoop previous es = .ok u ↔
        (previous.toList ++ es.map MetadataEntry.identifier).IsChain (· < ·) ∧
          ∀ e ∈ es, e.identifier < 0x8000 := by
  intro previous es
  induction es generalizing previous with
  | nil => cases previous <;> simp [checkMetadataOrderLoop]
  | cons e es ih =>
      simp only [checkMetadataOrderLoop, guard_eq_ok, ih, MetadataEntry.isRequired_iff, not_not,
        List.map_cons, List.forall_mem_cons, Option.toList_some, List.singleton_append]
      cases previous with
      | none => simp only [Option.any_none, Bool.false_eq_true, not_false_iff, true_and,
          Option.toList_none, List.nil_append]; tauto
      | some p =>
          simp only [Option.any_some, decide_eq_true_eq, UInt16.not_le, Option.toList_some,
            List.singleton_append, List.isChain_cons_cons]
          tauto

theorem checkMetadataOrder_eq_ok_iff {m : MetadataRegion} {u : Unit} :
    checkMetadataOrder m = .ok u ↔ InOrder m.pairs := by
  rw [checkMetadataOrder, checkMetadataOrderLoop_eq_ok_iff]
  simp [InOrder, MetadataRegion.pairs, Function.comp_def]

/-- Metadata out of order is refused for its request alone. -/
theorem checkMetadataOrder_error {m : MetadataRegion} {failure : Failure}
    (h : checkMetadataOrder m = .error failure) : failure = .invalidArgument := by
  have loop : ∀ (es : List MetadataEntry) (previous : Option UInt16),
      checkMetadataOrderLoop previous es = .error failure → failure = .invalidArgument := by
    intro es
    induction es with
    | nil => intro previous h; cases h
    | cons e es ih =>
        intro previous h
        rw [checkMetadataOrderLoop] at h
        split at h
        · cases h; rfl
        · split at h
          · cases h; rfl
          · exact ih _ h
  exact loop _ none h

theorem checkMetadataOrder_of_not {m : MetadataRegion} (h : ¬ InOrder m.pairs) :
    checkMetadataOrder m = .error .invalidArgument := by
  cases hm : checkMetadataOrder m with
  | ok u => exact absurd (checkMetadataOrder_eq_ok_iff.mp hm) h
  | error failure => rw [checkMetadataOrder_error hm]

/-! ### Payloads -/

/-- The layout a correlation requires of the payload bytes, with the payload it reads as. -/
inductive Lays : Correlation → Bytes → Payload → Prop where
  | handshake (bytes : Bytes) : Lays .handshakeRequest bytes (.opaqueBytes bytes)
  | ping : Lays (.operationRequest pingOpcode) [] (.opaqueBytes [])
  | set (keyLength : UInt32) (rest : Bytes) (h : keyLength.toNat ≤ rest.length) :
      Lays (.operationRequest setOpcode) (toLeBytes keyLength ++ rest)
        (.opaqueBytes (toLeBytes keyLength ++ rest))
  | keyed (opcode : UInt16) (bytes : Bytes) (hp : opcode ≠ pingOpcode) (hs : opcode ≠ setOpcode) :
      Lays (.operationRequest opcode) bytes (.opaqueBytes bytes)
  | success (bytes : Bytes) : Lays (.response .success) bytes (.opaqueBytes bytes)
  | absent : Lays (.response .absent) [] (.opaqueBytes [])
  | warm (logicalLength : UInt64) :
      Lays (.response .valueHeldOutsideMemory) (toLeBytes logicalLength) (.warm logicalLength)
  | error (scope : FailureScope) (detail text : Bytes) (h : detail.length < 2 ^ 16) :
      Lays (.error scope) (toLeBytes (UInt16.ofNat detail.length) ++ (detail ++ text))
        (.error detail text)

theorem checkOperationRequest_eq_ok_iff {opcode : UInt16} {pl : UInt32} {bytes : Bytes}
    {payload : Payload} (hlen : bytes.length = pl.toNat) :
    checkOperationRequest opcode pl bytes = .ok payload ↔
      Lays (.operationRequest opcode) bytes payload := by
  by_cases hp : opcode = pingOpcode
  · subst hp
    simp only [checkOperationRequest, if_true, guard_eq_ok, ne_eq, not_not, Except.ok.injEq]
    constructor
    · rintro ⟨rfl, rfl⟩
      obtain rfl : bytes = [] := List.length_eq_zero_iff.mp hlen
      exact .ping
    · intro h
      cases h with
      | ping => exact ⟨UInt32.toNat_inj.mp hlen.symm, rfl⟩
      | keyed _ _ hp => exact absurd rfl hp
  · by_cases hs : opcode = setOpcode
    · subst hs
      -- `SET` alone looks inside: a key length, and at least that many bytes behind it
      have hne : setOpcode ≠ pingOpcode := by decide
      simp only [checkOperationRequest, if_neg hne, if_true, guard_eq_ok, bind_eq_ok, okOr_eq_ok,
        not_lt, gt_iff_lt, Except.ok.injEq]
      constructor
      · rintro ⟨h₄, n, hn, head, hhead, hle, rfl⟩
        obtain ⟨-, rfl⟩ := checkedAdd_eq_some.mp hhead
        obtain ⟨-, hb⟩ := (readLe_eq_some_iff (by decide)).mp hn
        simp only [List.drop_zero, width_u32, Nat.zero_add] at hb
        rw [hb]
        exact .set n _ (by simp; omega)
      · intro h
        cases h with
        | set n rest h =>
            have hmax : 4 + n.toNat ≤ usizeMax := by
              have := n.toNat_lt
              simp only [usizeMax]; omega
            refine ⟨by simp, n, readLe_middle [] rest n rfl rfl (by decide), _,
              checkedAdd_of_le hmax, by simp; omega, rfl⟩
        | keyed _ _ _ hs => exact absurd rfl hs
    · simp only [checkOperationRequest, if_neg hp, if_neg hs, Except.ok.injEq]
      constructor
      · rintro rfl
        exact .keyed opcode bytes hp hs
      · intro h
        cases h with
        | ping => exact absurd rfl hp
        | set => exact absurd rfl hs
        | keyed => rfl

theorem readPayload_response_eq_ok_iff {code : ResultCode} {pl : UInt32} {bytes : Bytes}
    {payload : Payload} (hlen : bytes.length = pl.toNat) :
    readPayload (.response code) pl bytes = .ok payload ↔ Lays (.response code) bytes payload := by
  cases code with
  | success =>
      simp only [readPayload, Except.ok.injEq]
      exact ⟨fun h => h ▸ .success bytes, fun h => by cases h; rfl⟩
  | absent =>
      simp only [readPayload, guard_eq_ok, ne_eq, not_not, Except.ok.injEq]
      constructor
      · rintro ⟨rfl, rfl⟩
        obtain rfl : bytes = [] := List.length_eq_zero_iff.mp hlen
        exact .absent
      · intro h
        cases h
        exact ⟨UInt32.toNat_inj.mp hlen.symm, rfl⟩
  | valueHeldOutsideMemory =>
      simp only [readPayload, guard_eq_ok, ne_eq, not_not, bind_eq_ok, okOr_eq_ok,
        Except.ok.injEq]
      constructor
      · rintro ⟨rfl, n, hn, rfl⟩
        obtain ⟨-, hb⟩ := (readLe_eq_some_iff (by decide)).mp hn
        have h8 : bytes.length = 8 := hlen
        simp only [List.drop_zero, width_u64, Nat.zero_add] at hb
        rw [List.drop_of_length_le (by omega), List.append_nil] at hb
        rw [hb]
        exact .warm n
      · intro h
        cases h with
        | warm n =>
            refine ⟨UInt32.toNat_inj.mp (by simpa using hlen.symm), n, ?_, rfl⟩
            exact readLe_middle [] [] n (by simp) rfl (by decide)

theorem readPayload_error_eq_ok_iff {scope : FailureScope} {pl : UInt32} {bytes : Bytes}
    {payload : Payload} (hlen : bytes.length = pl.toNat) :
    readPayload (.error scope) pl bytes = .ok payload ↔ Lays (.error scope) bytes payload := by
  simp only [readPayload, guard_eq_ok, bind_eq_ok, okOr_eq_ok, Except.ok.injEq]
  constructor
  · rintro ⟨h₂, n, hn, stop, hstop, detail, hd, text, ht, rfl⟩
    obtain ⟨-, rfl⟩ := checkedAdd_eq_some.mp hstop
    obtain ⟨⟨-, hle⟩, rfl⟩ := getRange_eq_some.mp hd
    obtain ⟨-, rfl⟩ := getFrom_eq_some.mp ht
    obtain ⟨-, hb⟩ := (readLe_eq_some_iff (by decide)).mp hn
    simp only [List.drop_zero, width_u16, Nat.zero_add] at hb
    -- the detail lies between its length and `stop`, and the text is the rest
    have hdl : ((bytes.drop 2).take (n.toNat + 2 - 2)).length = n.toNat := by simp; omega
    have hrest : bytes.drop 2 =
        (bytes.drop 2).take (n.toNat + 2 - 2) ++ bytes.drop (n.toNat + 2) := by
      rw [Nat.add_sub_cancel, Nat.add_comm, ← List.drop_drop, List.take_append_drop]
    have := Lays.error scope ((bytes.drop 2).take (n.toNat + 2 - 2))
      (bytes.drop (n.toNat + 2)) (by rw [hdl]; exact n.toNat_lt)
    rwa [hdl, UInt16.ofNat_toNat, ← hrest, ← hb] at this
  · intro h
    cases h with
    | error _ detail text h =>
        have hn : (UInt16.ofNat detail.length).toNat = detail.length :=
          UInt16.toNat_ofNat_of_lt' h
        simp only [List.length_append, length_toLeBytes, width_u16] at hlen
        have hmax : detail.length + 2 ≤ usizeMax := by simp only [usizeMax]; omega
        refine ⟨?_, _, readLe_middle [] _ _ rfl rfl (by decide), detail.length + 2, ?_,
          detail, ?_, text, ?_, rfl⟩
        · rw [UInt32.lt_iff_toNat_lt, ← hlen]; simp only [UInt32.reduceToNat]; omega
        · rw [hn]; exact checkedAdd_of_le hmax
        · exact getRange_middle _ detail text (by simp) (by simp; omega)
        · refine getFrom_eq_some.mpr ⟨by simp; omega, ?_⟩
          rw [← List.append_assoc, List.drop_left' (by simp; omega)]

/-- **The payload, both ways.** -/
theorem readPayload_eq_ok_iff {c : Correlation} {pl : UInt32} {bytes : Bytes} {payload : Payload}
    (hlen : bytes.length = pl.toNat) :
    readPayload c pl bytes = .ok payload ↔ Lays c bytes payload := by
  cases c with
  | handshakeRequest =>
      simp only [readPayload, Except.ok.injEq]
      exact ⟨fun h => h ▸ .handshake bytes, fun h => by cases h; rfl⟩
  | operationRequest opcode => exact checkOperationRequest_eq_ok_iff hlen
  | response code => exact readPayload_response_eq_ok_iff hlen
  | error scope => exact readPayload_error_eq_ok_iff hlen

/-- A payload of the wrong layout ends the connection. -/
theorem readPayload_fatal {c : Correlation} {pl : UInt32} {bytes : Bytes} {failure : Failure}
    (h : readPayload c pl bytes = .error failure) : failure.Fatal := by
  have hopt : ∀ {α : Type} {o : Option α} {reason : Failure},
      okOr o Failure.malformedRequest = .error reason → reason.Fatal := by
    intro α o reason h
    rw [← (okOr_eq_error.mp h).2]
    exact ⟨rfl, rfl⟩
  cases c with
  | handshakeRequest => cases h
  | operationRequest opcode =>
      simp only [readPayload, checkOperationRequest] at h
      split at h
      · split at h <;> cases h; exact ⟨rfl, rfl⟩
      · split at h
        · split at h
          · cases h; exact ⟨rfl, rfl⟩
          · rcases bind_eq_error.mp h with h | ⟨n, -, h⟩
            · exact hopt h
            · rcases bind_eq_error.mp h with h | ⟨head, -, h⟩
              · exact hopt h
              · split at h <;> cases h; exact ⟨rfl, rfl⟩
        · cases h
  | response code =>
      cases code with
      | success => cases h
      | absent =>
          simp only [readPayload] at h
          split at h <;> cases h; exact ⟨rfl, rfl⟩
      | valueHeldOutsideMemory =>
          simp only [readPayload] at h
          split at h
          · cases h; exact ⟨rfl, rfl⟩
          · rcases bind_eq_error.mp h with h | ⟨n, -, h⟩
            · exact hopt h
            · cases h
  | error scope =>
      simp only [readPayload] at h
      split at h
      · cases h; exact ⟨rfl, rfl⟩
      · rcases bind_eq_error.mp h with h | ⟨n, -, h⟩
        · exact hopt h
        · rcases bind_eq_error.mp h with h | ⟨stop, -, h⟩
          · exact hopt h
          · rcases bind_eq_error.mp h with h | ⟨detail, -, h⟩
            · exact hopt h
            · rcases bind_eq_error.mp h with h | ⟨text, -, h⟩
              · exact hopt h
              · cases h

end Rp1.Protocol

import Rp1.Protocol.Wire

/-!
# Protocol — the frame grammar

The format as a grammar over the input bytes, read at their offsets: nothing here mentions how
the decoder finds out.  `Rule` is the id, in-flight and code rule of each kind, `Shape` the layout
each code requires of the payload, and `InGrammar` the whole frame.

`decode_frame_iff_inGrammar` is soundness and completeness: the decoder answers with a frame
exactly on the inputs that start with a frame of the grammar.
-/

namespace Rp1.Protocol
open Codec

/-! ### Fields -/

/-- The number in the `width` bytes at `offset`, least significant byte first. -/
def numAt (input : Bytes) (offset width : Nat) : Nat := leNat ((input.drop offset).take width)

def codeAt (input : Bytes) : UInt16 := UInt16.ofNat (numAt input 4 2)
def idAt (input : Bytes) : UInt64 := UInt64.ofNat (numAt input 12 8)

/-- The `ml` bytes of metadata and the `pl` bytes of payload behind the header. -/
def metadataAt (input : Bytes) : Bytes := (input.drop 20).take (numAt input 6 2)
def payloadAt (input : Bytes) : Bytes := (input.drop (20 + numAt input 6 2)).take (numAt input 8 4)

/-! ### Rules -/

/-- A request names an id that is not in flight and an assigned opcode; a response an id in
flight and an assigned result code; an error an assigned class, with an id in flight when the
class is request-scoped. -/
def Rule (code : UInt16) (id : UInt64) (inFlight : List UInt64) : Kind → Prop
  | .request => id ≠ 0 ∧ id ∉ inFlight ∧ Opcode.isAssigned code = true
  | .response => id ≠ 0 ∧ id ∈ inFlight ∧ (code = 0 ∨ code = 1 ∨ code = 4)
  | .error => ∃ cls : ErrorClass, cls.value = code ∧
      (cls.scope = .requestScoped → id ≠ 0 ∧ id ∈ inFlight)

/-- A `PING` request and an absent answer are empty, a `SET` request starts with a key length that
does not overrun it, a value held outside memory is eight bytes, and an error starts with a detail
length that does not overrun it. -/
def Shape (code : UInt16) (bytes : Bytes) : Kind → Prop
  | .request => (code = pingOpcode → bytes = []) ∧
      (code = setOpcode → 4 ≤ bytes.length ∧ 4 + numAt bytes 0 4 ≤ bytes.length)
  | .response => (code = 1 → bytes = []) ∧ (code = 4 → bytes.length = 8)
  | .error => 2 ≤ bytes.length ∧ 2 + numAt bytes 0 2 ≤ bytes.length

/-- The input starts with a frame of this kind and these metadata entries that a receiver in the
context `admission` has to accept. -/
structure InGrammar (input : Bytes) (admission : Admission) (kind : Kind)
    (entries : List Tlv.Entry) : Prop where
  header : 20 ≤ input.length
  version : numAt input 0 1 = 0
  kindValue : numAt input 1 1 = kind.value.toNat
  flags : numAt input 2 2 = 0
  metadataSize : numAt input 6 2 ≤ admission.limits.metadataSize.toNat
  frameSize : 20 + numAt input 6 2 + numAt input 8 4 ≤ admission.limits.frameSize.toNat
  held : 20 + numAt input 6 2 + numAt input 8 4 ≤ input.length
  fits : ∀ e ∈ entries, Tlv.Fits e
  metadata : metadataAt input = Tlv.concat entries
  ascending : (entries.map Prod.fst).IsChain (· < ·)
  optional : ∀ e ∈ entries, e.1 < 0x8000
  direction : kind.sender ≠ admission.role
  state : Permits admission.state kind (codeAt input)
  rule : Rule (codeAt input) (idAt input) admission.inFlight kind
  payload : Shape (codeAt input) (payloadAt input) kind

/-! ### The rules against the checks -/

theorem rule_iff {code : UInt16} {id : UInt64} {inFlight : List UInt64} {kind : Kind} :
    Rule code id inFlight kind ↔ ∃ c, Correlates code id inFlight kind c := by
  constructor
  · intro h
    cases kind with
    | request =>
        obtain ⟨hid, hfl, ha⟩ := h
        by_cases hc : code = handshakeOpcode
        · exact ⟨_, .handshake hid hfl hc⟩
        · exact ⟨_, .operation hid hfl hc ha⟩
    | response =>
        obtain ⟨hid, hfl, rfl | rfl | rfl⟩ := h
        · exact ⟨_, .response hid hfl .success rfl⟩
        · exact ⟨_, .response hid hfl .absent rfl⟩
        · exact ⟨_, .response hid hfl .valueHeldOutsideMemory rfl⟩
    | error =>
        obtain ⟨cls, hc, hreq⟩ := h
        exact ⟨_, .error cls hc hreq⟩
  · rintro ⟨c, h⟩
    cases h with
    | handshake hid hfl hc => exact ⟨hid, hfl, by rw [hc]; decide⟩
    | operation hid hfl hc ha => exact ⟨hid, hfl, ha⟩
    | response hid hfl result hc =>
        refine ⟨hid, hfl, ?_⟩
        cases result with
        | success => exact .inl hc.symm
        | absent => exact .inr (.inl hc.symm)
        | valueHeldOutsideMemory => exact .inr (.inr hc.symm)
    | error cls hc hreq => exact ⟨cls, hc, hreq⟩

/-- A word at the front of a byte string, as a number. -/
theorem numAt_toLeBytes {W : Type} [LeWord W] (x : W) (rest : Bytes) :
    numAt (toLeBytes x ++ rest) 0 (LeWord.width W) = LeWord.toNat x := by
  rw [numAt, List.drop_zero, ← length_toLeBytes x, List.take_left, toLeBytes,
    leNat_leBytes (LeWord.toNat_lt x)]

/-- Cutting a word off the front of a byte string. -/
theorem exists_word {W : Type} [LeWord W] {bytes : Bytes} (h : LeWord.width W ≤ bytes.length) :
    ∃ (x : W) (rest : Bytes), bytes = toLeBytes x ++ rest := by
  refine ⟨fromLeBytes (bytes.take (LeWord.width W)), bytes.drop (LeWord.width W), ?_⟩
  rw [toLeBytes_fromLeBytes (by simp; omega), List.take_append_drop]

theorem Lays.of_keyLength {bytes : Bytes} (h₄ : 4 ≤ bytes.length)
    (hle : 4 + numAt bytes 0 4 ≤ bytes.length) :
    Lays (.operationRequest setOpcode) bytes (.opaqueBytes bytes) := by
  obtain ⟨keyLength, rest, rfl⟩ := exists_word (W := UInt32) h₄
  have hn : numAt (toLeBytes keyLength ++ rest) 0 4 = keyLength.toNat :=
    numAt_toLeBytes keyLength rest
  rw [hn, List.length_append, length_toLeBytes, width_u32] at hle
  exact .set keyLength rest (by omega)

theorem Lays.of_detailLength (scope : FailureScope) {bytes : Bytes} (h₂ : 2 ≤ bytes.length)
    (hle : 2 + numAt bytes 0 2 ≤ bytes.length) : ∃ payload, Lays (.error scope) bytes payload := by
  obtain ⟨n, rest, rfl⟩ := exists_word (W := UInt16) h₂
  have hn : numAt (toLeBytes n ++ rest) 0 2 = n.toNat := numAt_toLeBytes n rest
  rw [hn, List.length_append, length_toLeBytes, width_u16] at hle
  have hlen : (rest.take n.toNat).length = n.toNat := by
    rw [List.length_take]
    omega
  have hlay := Lays.error scope (rest.take n.toNat) (rest.drop n.toNat)
    (by rw [hlen]; exact n.toNat_lt)
  rw [hlen, UInt16.ofNat_toNat, List.take_append_drop] at hlay
  exact ⟨_, hlay⟩

theorem Lays.of_eight {bytes : Bytes} (h₈ : bytes.length = 8) :
    ∃ payload, Lays (.response .valueHeldOutsideMemory) bytes payload := by
  obtain ⟨n, rest, rfl⟩ := exists_word (W := UInt64) (Nat.le_of_eq h₈.symm)
  rw [List.length_append, length_toLeBytes, width_u64] at h₈
  obtain rfl : rest = [] := List.length_eq_zero_iff.mp (by omega)
  rw [List.append_nil]
  exact ⟨_, .warm n⟩

section Shape
variable {code : UInt16} {id : UInt64} {inFlight : List UInt64} {kind : Kind} {c : Correlation}
  {bytes : Bytes}

theorem Lays.of_shape (hc : Correlates code id inFlight kind c) (h : Shape code bytes kind) :
    ∃ payload, Lays c bytes payload := by
  cases hc with
  | handshake => exact ⟨_, .handshake bytes⟩
  | operation hid hfl hc ha =>
      by_cases hp : code = pingOpcode
      · obtain rfl := h.1 hp
        rw [hp]
        exact ⟨_, .ping⟩
      · by_cases hs : code = setOpcode
        · obtain ⟨h₄, hle⟩ := h.2 hs
          rw [hs]
          exact ⟨_, .of_keyLength h₄ hle⟩
        · exact ⟨_, .keyed code bytes hp hs⟩
  | response hid hfl result hc =>
      subst hc
      cases result with
      | success => exact ⟨_, .success bytes⟩
      | absent =>
          obtain rfl := h.1 rfl
          exact ⟨_, .absent⟩
      | valueHeldOutsideMemory => exact Lays.of_eight (h.2 rfl)
  | error cls hc hreq => exact Lays.of_detailLength cls.scope h.1 h.2

theorem Lays.shape (hc : Correlates code id inFlight kind c) {payload : Payload}
    (hlay : Lays c bytes payload) : Shape code bytes kind := by
  cases hc with
  | handshake hid hfl hc =>
      subst hc
      exact ⟨fun e => absurd e (by decide), fun e => absurd e (by decide)⟩
  | operation hid hfl hc ha =>
      cases hlay with
      | ping => exact ⟨fun _ => rfl, fun e => absurd e (by decide)⟩
      | set keyLength rest h =>
          have hn : numAt (toLeBytes keyLength ++ rest) 0 4 = keyLength.toNat :=
            numAt_toLeBytes keyLength rest
          refine ⟨fun e => absurd e (by decide), fun _ => ⟨by simp, ?_⟩⟩
          rw [hn, List.length_append, length_toLeBytes, width_u32]
          omega
      | keyed _ _ hp hs => exact ⟨fun e => absurd e hp, fun e => absurd e hs⟩
  | response hid hfl result hc =>
      subst hc
      cases hlay with
      | success => exact ⟨fun e => absurd e (by decide), fun e => absurd e (by decide)⟩
      | absent => exact ⟨fun _ => rfl, fun e => absurd e (by decide)⟩
      | warm n => exact ⟨fun e => absurd e (by decide), fun _ => by simp⟩
  | error cls hc hreq =>
      cases hlay with
      | error _ detail text h =>
          have hn : numAt (toLeBytes (UInt16.ofNat detail.length) ++ (detail ++ text)) 0 2 =
              detail.length := by
            have hw := numAt_toLeBytes (UInt16.ofNat detail.length) (detail ++ text)
            exact hw.trans (UInt16.toNat_ofNat_of_lt' h)
          refine ⟨by simp, ?_⟩
          rw [hn, List.length_append, length_toLeBytes, width_u16, List.length_append]
          omega

theorem shape_iff (hc : Correlates code id inFlight kind c) :
    Shape code bytes kind ↔ ∃ payload, Lays c bytes payload :=
  ⟨fun h => Lays.of_shape hc h, fun ⟨_, hlay⟩ => hlay.shape hc⟩

end Shape

/-! ### Soundness and completeness -/

theorem toNat_fromLeBytes {W : Type} [LeWord W] {input : Bytes} {offset : Nat}
    (h : offset + LeWord.width W ≤ input.length) :
    LeWord.toNat (fromLeBytes ((input.drop offset).take (LeWord.width W)) : W) =
      numAt input offset (LeWord.width W) := by
  have hlen : ((input.drop offset).take (LeWord.width W)).length = LeWord.width W := by
    simp; omega
  have hlt := leNat_lt ((input.drop offset).take (LeWord.width W))
  rw [hlen] at hlt
  exact LeWord.toNat_ofNat _ hlt

theorem toNat_getD {input : Bytes} {offset : Nat} (h : offset < input.length) :
    (input.getD offset 0).toNat = numAt input offset 1 := by
  rw [numAt, List.drop_eq_getElem_cons h, List.getD_eq_getElem _ _ h, List.take_succ_cons,
    List.take_zero]
  simp only [leNat, Nat.mul_zero, Nat.add_zero]

/-- The fields of a header are the numbers at their offsets. -/
structure RawHeader.ReadFrom (raw : RawHeader) (input : Bytes) : Prop where
  version : raw.version.toNat = numAt input 0 1
  kind : raw.kind.toNat = numAt input 1 1
  flags : raw.flags.toNat = numAt input 2 2
  code : raw.code = codeAt input
  metadataLength : raw.metadataLength.toNat = numAt input 6 2
  payloadLength : raw.payloadLength.toNat = numAt input 8 4
  requestId : raw.requestId = idAt input

theorem RawHeader.readFrom {input : Bytes} {raw : RawHeader}
    (h : RawHeader.parse input = some raw) : raw.ReadFrom input := by
  have hl : 20 ≤ input.length := le_of_parse h
  rw [parse_of_le hl] at h
  cases h
  exact {
    version := toNat_getD (by omega)
    kind := toNat_getD (by omega)
    flags := toNat_fromLeBytes (W := UInt16) (by simp; omega)
    code := rfl
    metadataLength := toNat_fromLeBytes (W := UInt16) (by simp; omega)
    payloadLength := toNat_fromLeBytes (W := UInt32) (by simp; omega)
    requestId := rfl }

section ReadFrom
variable {raw : RawHeader} {input : Bytes} (h : raw.ReadFrom input)
include h

theorem RawHeader.ReadFrom.total_eq : raw.total = 20 + numAt input 6 2 + numAt input 8 4 := by
  rw [total, h.metadataLength, h.payloadLength]
  rfl

theorem RawHeader.ReadFrom.metadataBytes_eq : raw.metadataBytes input = metadataAt input := by
  rw [metadataBytes, h.metadataLength]
  rfl

theorem RawHeader.ReadFrom.payloadBytes_eq : raw.payloadBytes input = payloadAt input := by
  rw [payloadBytes, h.metadataLength, h.payloadLength]
  rfl

end ReadFrom

theorem InGrammar.of_judge {input : Bytes} {admission : Admission} {raw : RawHeader} {kind : Kind}
    {f : Frame} (hp : RawHeader.parse input = some raw)
    (hh : admitHeader raw admission.limits = .ok (kind, raw.total))
    (hl : raw.total ≤ input.length) (hj : judge input admission raw kind = .ok f) :
    InGrammar input admission kind f.metadata.pairs := by
  have hr := RawHeader.readFrom hp
  obtain ⟨hv, hk, ht, hf, hm, -⟩ := admitHeader_eq_ok_iff.mp hh
  obtain ⟨metadata, c, payload, ⟨hfits, hmeta⟩, hd, hs, hc, ⟨hasc, hopt⟩, hlay, rfl⟩ :=
    (judge_eq_ok_iff hl).mp hj
  rw [hr.total_eq] at ht hl
  rw [hr.metadataBytes_eq] at hmeta
  rw [hr.payloadBytes_eq] at hlay
  rw [hr.code] at hs hc
  rw [hr.requestId] at hc
  exact {
    header := RawHeader.le_of_parse hp
    version := by rw [← hr.version, hv]; rfl
    kindValue := by rw [← hr.kind, hk]
    flags := by rw [← hr.flags, hf]; rfl
    metadataSize := hr.metadataLength ▸ hm
    frameSize := ht
    held := hl
    fits := hfits
    metadata := hmeta
    ascending := hasc
    optional := hopt
    direction := hd
    state := hs
    rule := rule_iff.mpr ⟨c, hc⟩
    payload := (shape_iff hc).mpr ⟨payload, hlay⟩ }

theorem InGrammar.exists_decode {input : Bytes} {admission : Admission} {kind : Kind}
    {entries : List Tlv.Entry} (h : InGrammar input admission kind entries) :
    ∃ f, decode input admission = .frame f := by
  obtain ⟨raw, hp⟩ : ∃ raw, RawHeader.parse input = some raw := ⟨_, RawHeader.parse_of_le h.header⟩
  have hr := RawHeader.readFrom hp
  have hh : admitHeader raw admission.limits = .ok (kind, raw.total) := by
    refine admitHeader_eq_ok_iff.mpr ⟨?_, ?_, ?_, ?_, ?_, rfl⟩
    · exact UInt8.toNat_inj.mp (hr.version.trans h.version)
    · exact UInt8.toNat_inj.mp (h.kindValue.symm.trans hr.kind.symm)
    · rw [hr.total_eq]; exact h.frameSize
    · exact UInt16.toNat_inj.mp (hr.flags.trans h.flags)
    · rw [UInt16.le_iff_toNat_le, hr.metadataLength]; exact h.metadataSize
  have hl : raw.total ≤ input.length := by rw [hr.total_eq]; exact h.held
  obtain ⟨c, hc⟩ := rule_iff.mp h.rule
  obtain ⟨payload, hlay⟩ := (shape_iff hc).mp h.payload
  have hpairs := MetadataRegion.pairs_ofPairs entries
  have hj := (judge_eq_ok_iff hl).mpr ⟨.ofPairs entries, c, payload,
    ⟨by rw [hpairs]; exact h.fits, by rw [hr.metadataBytes_eq, hpairs]; exact h.metadata⟩,
    h.direction,
    by rw [hr.code]; exact h.state, by rw [hr.code, hr.requestId]; exact hc,
    by rw [hpairs]; exact ⟨h.ascending, h.optional⟩, by rw [hr.payloadBytes_eq]; exact hlay, rfl⟩
  exact ⟨_, by rw [decode_judged hp hh hl, hj]; rfl⟩

/-- **The decoder admits exactly the frame grammar**, in every context. -/
theorem decode_frame_iff_inGrammar (input : Bytes) (admission : Admission) :
    (∃ f, decode input admission = .frame f) ↔
      ∃ kind entries, InGrammar input admission kind entries := by
  constructor
  · rintro ⟨f, h⟩
    obtain ⟨raw, kind, hp, hh, hl, hj⟩ := judge_of_decode h
    exact ⟨kind, f.metadata.pairs, .of_judge hp hh hl hj⟩
  · rintro ⟨kind, entries, h⟩
    exact h.exists_decode

end Rp1.Protocol

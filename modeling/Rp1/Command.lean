import Rp1.Protocol.Encode
import Rp1.Protocol.Wire

/-!
# Command — payload codecs and response interpretation

The functions of `src/command.rs`: the request payloads of the five operations and the mapping of
an admitted terminal frame onto the outcome a caller sees.

`encodeSet_eq_ok_iff` and `splitSet_encodeSet` are the `SET` payload both ways: its key length cuts
it into the key and the value that went in.

`interpretGet_of_legal` and `interpretCode_of_legal` say what the interpretation of an answer can
be: on a frame the client's decoder admits, the branches for a payload of the wrong form are dead,
and a failure carries the class the peer sent.
-/

namespace Rp1.Command
open Codec Protocol

/-- The outcome of a `GET` request. -/
inductive GetOutcome where
  | present (value : Bytes)
  | absent
  | heldOutsideMemory (logicalLength : UInt64)
deriving DecidableEq, Repr

/-- A command failure, with its protocol class. -/
structure CommandFailure where
  cls : ErrorClass
deriving DecidableEq, Repr

def CommandFailure.protocolViolation : CommandFailure := ⟨.protocolViolation⟩

/-! ### Request payloads -/

/-- A refusal to encode a `SET` payload. -/
inductive SetEncodeError where
  | keyTooLong (length : Nat)
  | payloadTooLarge
deriving DecidableEq, Repr

/-- `encode_ping`. -/
def encodePing : Bytes := []

/-- `encode_key`: the payload of `GET`, `DEL` and `EXISTS`. -/
def encodeKey (key : Bytes) : Bytes := key

/-- `encode_set`: the key length, the key and the value. -/
def encodeSet (key value : Bytes) : Except SetEncodeError Bytes := do
  let keyLength ← okOr (tryU32 key.length) (.keyTooLong key.length)
  let total ←
    okOr ((checkedAdd usizeMax 4 key.length).bind fun total =>
      checkedAdd usizeMax total value.length) SetEncodeError.payloadTooLarge
  if (tryFit u64Max total).getD u64Max > 2 ^ 32 - 1 then .error .payloadTooLarge
  else .ok (toLeBytes keyLength ++ key ++ value)

/-- `split_set`: the key and the value of a `SET` payload, as a reader of it finds them. -/
def splitSet (payload : Bytes) : Except CommandFailure (Bytes × Bytes) :=
  if payload.length < 4 then .error ⟨.malformedRequest⟩
  else do
    let head := ((getTo payload 4).bind fun slice =>
      if slice.length = 4 then some slice else none).getD [0, 0, 0, 0]
    let keyLength : UInt32 := fromLeBytes head
    let keyEnd := min usizeMax (4 + (tryFit usizeMax keyLength.toNat).getD usizeMax)
    let key ← okOr (getRange payload 4 keyEnd) ⟨.malformedRequest⟩
    let value ← okOr (getFrom payload keyEnd) ⟨.malformedRequest⟩
    .ok (key, value)

/-- **Which keys and values can be written**, and how. -/
theorem encodeSet_eq_ok_iff {key value payload : Bytes} :
    encodeSet key value = .ok payload ↔
      4 + key.length + value.length < 2 ^ 32 ∧
        payload = toLeBytes (UInt32.ofNat key.length) ++ (key ++ value) := by
  simp only [encodeSet, bind_eq_ok, okOr_eq_ok, tryU32_eq_some, Option.bind_eq_some_iff,
    checkedAdd_eq_some, guard_eq_ok, gt_iff_lt, not_lt, Except.ok.injEq]
  constructor
  · rintro ⟨_, ⟨-, rfl⟩, _, ⟨_, ⟨-, rfl⟩, hle, rfl⟩, hfit, rfl⟩
    have h64 : 4 + key.length + value.length ≤ u64Max := hle
    rw [tryFit_of_le h64, Option.getD_some] at hfit
    exact ⟨by omega, List.append_assoc _ _ _⟩
  · rintro ⟨hlt, rfl⟩
    have hmax : 4 + key.length + value.length ≤ usizeMax := by simp only [usizeMax]; omega
    refine ⟨_, ⟨by omega, rfl⟩, _, ⟨_, ⟨by omega, rfl⟩, hmax, rfl⟩, ?_, List.append_assoc _ _ _⟩
    have h64 : 4 + key.length + value.length ≤ u64Max := hmax
    rw [tryFit_of_le h64, Option.getD_some]
    omega

/-- Splitting at the declared key length gives back the key and the value. -/
theorem splitSet_encodeSet {key value payload : Bytes} (h : encodeSet key value = .ok payload) :
    splitSet payload = .ok (key, value) := by
  obtain ⟨hlt, rfl⟩ := encodeSet_eq_ok_iff.mp h
  have hlt32 : key.length < 2 ^ 32 := by omega
  have hkey : (UInt32.ofNat key.length).toNat = key.length := UInt32.toNat_ofNat_of_lt' hlt32
  have hlen : (toLeBytes (UInt32.ofNat key.length)).length = 4 := length_toLeBytes _
  have htake : getTo (toLeBytes (UInt32.ofNat key.length) ++ (key ++ value)) 4 =
      some (toLeBytes (UInt32.ofNat key.length)) := by
    rw [getTo_of_le (by simp), ← hlen, List.take_left]
  have hword : (fromLeBytes (toLeBytes (UInt32.ofNat key.length)) : UInt32) =
      UInt32.ofNat key.length := fromLeBytes_toLeBytes _
  have hfit : tryFit usizeMax key.length = some key.length :=
    tryFit_of_le (by simp only [usizeMax]; omega)
  have hend : min usizeMax (4 + key.length) = 4 + key.length :=
    Nat.min_eq_right (by simp only [usizeMax]; omega)
  have hshort : ¬ (toLeBytes (UInt32.ofNat key.length) ++ (key ++ value)).length < 4 := by
    rw [List.length_append, hlen]
    omega
  have hget : getRange (toLeBytes (UInt32.ofNat key.length) ++ (key ++ value)) 4
      (4 + key.length) = some key :=
    getRange_middle _ key value hlen.symm (by rw [hlen])
  have hrest : getFrom (toLeBytes (UInt32.ofNat key.length) ++ (key ++ value))
      (4 + key.length) = some value := by
    refine getFrom_eq_some.mpr ⟨by rw [List.length_append, List.length_append, hlen]; omega, ?_⟩
    rw [← List.append_assoc, List.drop_left' (by rw [List.length_append, hlen])]
  rw [splitSet, if_neg hshort]
  simp only [htake, Option.bind_some, if_pos hlen, Option.getD_some, hword, hkey, hfit, hend, hget,
    hrest, okOr_some, ok_bind]

/-! ### Interpretation -/

/-- `result_code_of`: the result code of a response frame. -/
def resultCodeOf (frame : Frame) : Except CommandFailure ResultCode :=
  okOr (ResultCode.fromWire frame.header.code) .protocolViolation

/-- `error_of`: the class of an error frame. -/
def errorOf (frame : Frame) : CommandFailure :=
  (ErrorClass.fromWire frame.header.code).elim .protocolViolation .mk

/-- `interpret_get`. -/
def interpretGet (frame : Frame) : Except CommandFailure GetOutcome :=
  match frame.header.kind with
  | .response => do
      let code ← resultCodeOf frame
      match code with
      | .success =>
          match frame.payload with
          | .opaqueBytes payload => .ok (.present payload)
          | _ => .error .protocolViolation
      | .absent => .ok .absent
      | .valueHeldOutsideMemory =>
          match frame.payload with
          | .warm logicalLength => .ok (.heldOutsideMemory logicalLength)
          | _ => .error .protocolViolation
  | .error => .error (errorOf frame)
  | .request => .error .protocolViolation

/-- The common shape of the other four: the operation maps the result code. -/
def interpretCode {α : Type} (outcome : ResultCode → Except CommandFailure α) (frame : Frame) :
    Except CommandFailure α :=
  match frame.header.kind with
  | .response => do
      let code ← resultCodeOf frame
      outcome code
  | .error => .error (errorOf frame)
  | .request => .error .protocolViolation

/-- `interpret_ping`. -/
def interpretPing : Frame → Except CommandFailure Unit :=
  interpretCode fun code => if code ≠ .success then .error .protocolViolation else .ok ()

/-- `interpret_set`. -/
def interpretSet : Frame → Except CommandFailure Unit :=
  interpretCode fun code => if code ≠ .success then .error .protocolViolation else .ok ()

/-- `interpret_del`. -/
def interpretDel : Frame → Except CommandFailure Bool :=
  interpretCode fun
    | .success => .ok true
    | .absent => .ok false
    | .valueHeldOutsideMemory => .error .protocolViolation

/-- `interpret_exists`. -/
def interpretExists (frame : Frame) : Except CommandFailure Bool := interpretDel frame

/-- **The interpretation of an admitted answer**: the result code of a response decides, and an
error is the class the peer sent. -/
theorem interpretCode_of_legal {α : Type} {outcome : ResultCode → Except CommandFailure α}
    {admission : Admission} {f : Frame} (h : f.Legal admission) (hr : admission.role = .client) :
    (∃ result : ResultCode, f.header.kind = .response ∧ result.value = f.header.code ∧
      interpretCode outcome f = outcome result) ∨
    ∃ cls : ErrorClass, f.header.kind = .error ∧ cls.value = f.header.code ∧
      interpretCode outcome f = .error ⟨cls⟩ := by
  obtain ⟨c, hc, -⟩ := h.correlated
  have hdir := h.direction
  rw [hr] at hdir
  rw [interpretCode, resultCodeOf, errorOf]
  generalize f.header.kind = kind at hc hdir
  cases hc with
  | handshake => exact absurd rfl hdir
  | operation => exact absurd rfl hdir
  | response hid hfl result hc =>
      refine .inl ⟨result, rfl, hc, ?_⟩
      rw [ResultCode.fromWire_eq_some_iff.mpr hc]
      rfl
  | error cls hc hreq =>
      refine .inr ⟨cls, rfl, hc, ?_⟩
      rw [ErrorClass.fromWire_eq_some_iff.mpr hc]
      rfl

/-- What the peer meant by a terminal frame that answers a `GET`. -/
inductive GetAnswer (f : Frame) : Except CommandFailure GetOutcome → Prop where
  | success (hk : f.header.kind = .response) (hc : f.header.code = 0) :
      GetAnswer f (.ok (.present f.payload.bytes))
  | absent (hk : f.header.kind = .response) (hc : f.header.code = 1) : GetAnswer f (.ok .absent)
  | held (n : UInt64) (hk : f.header.kind = .response) (hc : f.header.code = 4)
      (hp : f.payload = .warm n) : GetAnswer f (.ok (.heldOutsideMemory n))
  | failed (cls : ErrorClass) (hk : f.header.kind = .error) (hc : cls.value = f.header.code) :
      GetAnswer f (.error ⟨cls⟩)

/-- **The interpretation of an admitted `GET` answer** is the one the peer meant. -/
theorem interpretGet_of_legal {admission : Admission} {f : Frame} (h : f.Legal admission)
    (hr : admission.role = .client) : GetAnswer f (interpretGet f) := by
  obtain ⟨c, hc, hlay, -⟩ := h.correlated
  have hdir := h.direction
  rw [hr] at hdir
  clear h
  obtain ⟨⟨version, kind, flags, code, ml, pl, id⟩, metadata, payload, retires⟩ := f
  cases hc with
  | handshake => exact absurd rfl hdir
  | operation => exact absurd rfl hdir
  | response hid hfl result hc =>
      cases hc
      generalize hb : payload.bytes = bytes at hlay
      cases hlay with
      | success => exact .success rfl rfl
      | absent => exact .absent rfl rfl
      | warm n => exact .held n rfl rfl rfl
  | error cls hc hreq =>
      simp only [interpretGet, errorOf, ErrorClass.fromWire_eq_some_iff.mpr hc]
      exact .failed cls rfl hc

end Rp1.Command

import Rp1.Connection.Wiring
import Rp1.Protocol.Fit

/-!
# Connection — the size guard of a command

The size of a request is computed twice: `execute` compares `wire_size` with the effective bound
before it takes a permit, and `encode_with_max` compares the sum of the lengths after an identifier
was allocated.  The first saturates and the second is checked step by step.

`sizeGuard_exact` says that they agree.  A negotiated bound fits 32 bits, so a payload that passes
the guard passes the encoder, and no identifier is spent on a request that is too long.
-/

namespace Rp1.Connection
open Codec Protocol Command Runs

/-! ### The two computations -/

theorem toNat_wireSize (len : Nat) : (wireSize len).toNat = min (20 + len) u64Max := by
  have hle : min (headerLength + min len u64Max) u64Max ≤ u64Max := Nat.min_le_right _ _
  rw [wireSize, tryFit_getD_max, checkedAdd_getD_max,
    UInt64.toNat_ofNat_of_lt' (Nat.lt_succ_of_le hle), headerLength]
  omega

section Sizes
variable {size : UInt32} {n : Negotiated}

theorem effectiveMaximumFrameSize_lt (hn : n.maximumFrameSize = size.toUInt64) :
    n.effectiveMaximumFrameSize.toNat < 2 ^ 32 := by
  have hle : n.effectiveMaximumFrameSize ≤ n.maximumFrameSize := by
    rw [Negotiated.effectiveMaximumFrameSize]
    split
    case isTrue => exact UInt64.le_refl _
    case isFalse h => exact UInt64.not_lt.mp h
  rw [hn, UInt64.le_iff_toNat_le, UInt32.toNat_toUInt64] at hle
  exact Nat.lt_of_le_of_lt hle size.toNat_lt

/-- The saturation of `wire_size` is far above every bound. -/
theorem effectiveMaximumFrameSize_lt_wireSize (hn : n.maximumFrameSize = size.toUInt64)
    (len : Nat) :
    wireSize len > n.effectiveMaximumFrameSize ↔
      n.effectiveMaximumFrameSize.toNat < 20 + len := by
  have hlt := effectiveMaximumFrameSize_lt hn
  rw [gt_iff_lt, UInt64.lt_iff_toNat_lt, toNat_wireSize, u64Max]
  omega

theorem encodeRequest_length {opcode : UInt16} {payload b : Bytes} {id frame : UInt64}
    {metadata : UInt16} (h : encodeRequest opcode payload id frame metadata = .ok b) :
    b.length = 20 + payload.length := by
  rw [encodeRequest] at h
  split at h
  case h_1 bytes he =>
    cases h
    obtain ⟨raw, payload', -, hp, hb, -⟩ := encodeWithMax_regions he
    cases hp
    rw [hb, List.length_append, RawHeader.length_bytes]
    rfl
  case h_2 => cases h
  case h_3 => cases h
  case h_4 => cases h

/-- Within the bound the encoder has no reason to refuse. -/
theorem encodeRequest_of_bound (hn : n.maximumFrameSize = size.toUInt64) {payload : Bytes}
    (hle : 20 + payload.length ≤ n.effectiveMaximumFrameSize.toNat) (opcode : UInt16)
    (id : UInt64) :
    ∃ b, encodeRequest opcode payload id n.effectiveMaximumFrameSize
        n.effectiveMaximumMetadataSize = .ok b ∧ b.length = 20 + payload.length := by
  have hlt := effectiveMaximumFrameSize_lt hn
  have h32 : payload.length < 2 ^ 32 := by omega
  obtain ⟨b, -, hb⟩ := encodeRequest_of_le opcode id n.effectiveMaximumMetadataSize h32 hle
  exact ⟨b, hb, encodeRequest_length hb⟩

end Sizes

/-! ### Which commands exceed the limit -/

/-- No answer of a peer and no failure of the driver is reported as the local limit. -/
def CommandError.isLocalLimit : CommandError → Bool
  | .localLimitExceeded .. => true
  | _ => false

theorem CommandError.isLocalLimit_fromClass (cls : ErrorClass) :
    (fromClass cls).isLocalLimit = false := by
  cases cls <;> rfl

theorem ConnectionState.isLocalLimit_refusal (state : ConnectionState) :
    state.refusal.isLocalLimit = false := by
  cases state <;> rfl

theorem Operation.isLocalLimit_conclude {n : Negotiated} {op : Operation}
    {outcome : Except DriverError Bytes} {e : CommandError}
    (h : op.conclude n outcome = .error e) : e.isLocalLimit = false := by
  cases outcome with
  | error error =>
      cases h
      cases error with
      | requestFailed failure => exact CommandError.isLocalLimit_fromClass _
      | connectionFatal failure => exact CommandError.isLocalLimit_fromClass _
      | _ => rfl
  | ok frameBytes =>
      rcases bind_eq_error.mp h with h | ⟨frame, -, h⟩
      · rw [Negotiated.decodeOwn] at h
        split at h
        case h_1 => cases h
        case h_2 => cases h; exact CommandError.isLocalLimit_fromClass _
        case h_3 => cases h; rfl
      · cases hi : op.interpret frame with
        | ok reply => rw [hi] at h; cases h
        | error failure => rw [hi] at h; cases h; exact CommandError.isLocalLimit_fromClass _

/-- What the guard has decided about a command at each place it can stand. -/
def Place.Guarded (n : Negotiated) (op : Operation) : Place → Prop
  | .acquire payload | .allocate payload =>
      op.payload = .ok payload ∧ 20 + payload.length ≤ n.effectiveMaximumFrameSize.toNat
  | .done (.error e) => e.isLocalLimit = true →
      ∃ payload, op.payload = .ok payload ∧
        n.effectiveMaximumFrameSize.toNat < 20 + payload.length
  | _ => True

section Runs
variable {size : UInt32} {n : Negotiated} {c c' : Client}

theorem Place.Guarded.of_not_isLocalLimit {op : Operation} {e : CommandError}
    (h : e.isLocalLimit = false) : (Place.done (.error e)).Guarded n op :=
  fun he => absurd he (by rw [h]; exact Bool.false_ne_true)

/-- **The guard itself.**  It changes nothing the session shares. -/
theorem Place.step_start (hn : n.maximumFrameSize = size.toUInt64) (i : Nat) {op : Operation}
    {payload : Bytes} (hp : op.payload = .ok payload) (hu : c.session.state = .usable) :
    Place.step n c i op .start =
      if n.effectiveMaximumFrameSize.toNat < 20 + payload.length then
        some (c, .done (.error (.localLimitExceeded (wireSize payload.length)
          n.effectiveMaximumFrameSize)))
      else some (c, .acquire payload) := by
  rw [Place.step, hp]
  simp only [if_pos hu, effectiveMaximumFrameSize_lt_wireSize hn]

/-- With an identifier the request is as good as submitted. -/
theorem Place.step_allocate (hn : n.maximumFrameSize = size.toUInt64) (i : Nat) (op : Operation)
    {payload : Bytes} (hle : 20 + payload.length ≤ n.effectiveMaximumFrameSize.toNat)
    (hid : c.allocator.allocate.1 ≠ 0) :
    ∃ b, Place.step n c i op (.allocate payload) =
        some ({ c with allocator := c.allocator.allocate.2 }, .send c.allocator.allocate.1 b) ∧
      b.length = 20 + payload.length := by
  obtain ⟨b, hb, hlen⟩ := encodeRequest_of_bound hn hle op.opcode c.allocator.allocate.1
  refine ⟨b, ?_, hlen⟩
  simp only [Place.step, if_neg hid, hb]

theorem Place.Guarded.step (hn : n.maximumFrameSize = size.toUInt64) {c₁ : Client} {i : Nat}
    {op : Operation} {place place' : Place} (hg : place.Guarded n op)
    (h : place.step n c i op = some (c₁, place')) : place'.Guarded n op := by
  cases place with
  | start =>
      cases hp : op.payload with
      | error e =>
          rw [Place.step, hp] at h
          cases h
          exact .of_not_isLocalLimit rfl
      | ok payload =>
          by_cases hu : c.session.state = .usable
          · rw [Place.step_start hn i hp hu] at h
            split at h
            case isTrue hlt => cases h; exact fun _ => ⟨payload, hp, hlt⟩
            case isFalse hle => cases h; exact ⟨hp, Nat.not_lt.mp hle⟩
          · rw [Place.step, hp] at h
            simp only [if_neg hu] at h
            cases h
            trivial
  | refused => cases h; exact .of_not_isLocalLimit (ConnectionState.isLocalLimit_refusal _)
  | acquire payload =>
      rw [Place.step] at h
      split at h
      case isTrue => cases h; trivial
      case isFalse =>
        obtain ⟨-, h⟩ := Option.ite_none_right_eq_some.mp h
        cases h
        exact hg
  | shutOut => cases h; exact .of_not_isLocalLimit (ConnectionState.isLocalLimit_refusal _)
  | allocate payload =>
      by_cases hid : c.allocator.allocate.1 = 0
      · simp only [Place.step, if_pos hid] at h
        cases h
        exact .of_not_isLocalLimit rfl
      · obtain ⟨b, hb, -⟩ := Place.step_allocate hn i op hg.2 hid
        rw [hb] at h
        cases h
        trivial
  | send id bytes =>
      rw [Place.step] at h
      split at h
      case isTrue => cases h; trivial
      case isFalse =>
        obtain ⟨-, h⟩ := Option.ite_none_right_eq_some.mp h
        cases h
        trivial
  | await id inbox =>
      cases inbox with
      | none =>
          obtain ⟨-, h⟩ := Option.ite_none_right_eq_some.mp h
          cases h
          trivial
      | some outcome =>
          cases hc : op.conclude n outcome with
          | ok reply =>
              simp only [Place.step, hc] at h
              cases h
              trivial
          | error e =>
              simp only [Place.step, hc] at h
              cases h
              exact .of_not_isLocalLimit (Operation.isLocalLimit_conclude hc)
  | lost => cases h; exact .of_not_isLocalLimit (ConnectionState.isLocalLimit_refusal _)
  | done result => cases h
  | dropped => cases h

def Client.Guarded (n : Negotiated) (c : Client) : Prop :=
  ∀ (i : Nat) (op : Operation) (place : Place), c.calls[i]? = some ⟨op, place⟩ →
    place.Guarded n op

theorem Client.Guarded.established (bound closers : Nat) (ops : List Operation) :
    (Client.established bound closers ops).Guarded n := by
  intro i op place hc
  obtain ⟨_, -, h⟩ := Option.map_eq_some_iff.mp ((List.getElem?_map ..).symm.trans hc)
  cases h
  trivial

theorem Client.Guarded.step (hn : n.maximumFrameSize = size.toUInt64) {turn : Turn}
    (h : c.Guarded n) (hs : c.step n turn = some c') : c'.Guarded n := by
  intro i op place' hc
  obtain ⟨place, hplace, hev⟩ := Client.evolves hs hc
  have hg := h i op place hplace
  cases hev with
  | same => exact hg
  | told => trivial
  | moved c₁ _ _ hstep => exact hg.step hn hstep
  | dropped => trivial

end Runs

/-- **The guard and the encoder agree.**  A usable session refuses a payload for its size exactly
if the frame would be longer than the effective bound, and then it has touched neither the permits
nor the allocator.  Every other payload is encoded, in exactly twenty bytes more than it has.  So
in every run a command that gets an identifier goes on to submit its request, and the only commands
that end with `LocalLimitExceeded` are those whose payload is too long. -/
theorem sizeGuard_exact (size : UInt32) (n : Negotiated)
    (hn : n.maximumFrameSize = size.toUInt64) :
    (∀ payload : Bytes,
      (∀ (c : Client) (i : Nat) (op : Operation), op.payload = .ok payload →
        c.session.state = .usable →
        (Place.step n c i op .start = some (c, .done (.error
            (.localLimitExceeded (wireSize payload.length) n.effectiveMaximumFrameSize))) ↔
          n.effectiveMaximumFrameSize.toNat < 20 + payload.length) ∧
        (Place.step n c i op .start = some (c, .acquire payload) ↔
          20 + payload.length ≤ n.effectiveMaximumFrameSize.toNat)) ∧
      (20 + payload.length ≤ n.effectiveMaximumFrameSize.toNat → ∀ (opcode : UInt16) (id : UInt64),
        ∃ b, encodeRequest opcode payload id n.effectiveMaximumFrameSize
          n.effectiveMaximumMetadataSize = .ok b ∧ b.length = 20 + payload.length)) ∧
    ∀ (bound closers : Nat) (ops : List Operation) (turns : List Turn) (c : Client),
      exec (Client.step n) (.established bound closers ops) turns = some c →
      ∀ (i : Nat) (op : Operation) (place : Place), c.calls[i]? = some ⟨op, place⟩ →
        (∀ payload, place = .allocate payload → c.allocator.allocate.1 ≠ 0 →
          ∃ b, place.step n c i op =
              some ({ c with allocator := c.allocator.allocate.2 },
                .send c.allocator.allocate.1 b) ∧ b.length = 20 + payload.length) ∧
        (∀ requested limit, place = .done (.error (.localLimitExceeded requested limit)) →
          ∃ payload, op.payload = .ok payload ∧
            n.effectiveMaximumFrameSize.toNat < 20 + payload.length) := by
  refine ⟨fun payload => ⟨fun c i op hp hu => ?_, fun hle opcode id =>
    encodeRequest_of_bound hn hle opcode id⟩, fun bound closers ops turns c hrun => ?_⟩
  · rw [Place.step_start hn i hp hu]
    split
    case isTrue hlt => simp [hlt]
    case isFalse hle => simp [Nat.not_lt.mp hle, hle]
  · have hguard : c.Guarded n :=
      exec_invariant (I := fun _ => Client.Guarded n) (fun _ _ _ _ h hs => h.step hn hs) []
        (.established bound closers ops) hrun
    intro i op place hc
    have hg := hguard i op place hc
    refine ⟨fun payload he hid => ?_, fun requested limit he => ?_⟩
    · subst he
      exact Place.step_allocate hn i op hg.2 hid
    · subst he
      exact hg rfl

/-- At the floor a key of 65516 bytes is encoded, and one of 65517 bytes is refused. -/
theorem sizeGuard_exact_floor :
    (∃ b, encodeRequest getOpcode (.replicate 65516 0) 2 65536 4096 = .ok b ∧
      b.length = 65536) ∧
    Place.step .floor (.established 1 0 []) 0 (.get (.replicate 65517 0)) .start =
      some (.established 1 0 [], .done (.error (.localLimitExceeded 65537 65536))) := by
  obtain ⟨hall, -⟩ := sizeGuard_exact 65536 .floor rfl
  have hshort : (List.replicate 65516 (0 : UInt8)).length = 65516 := List.length_replicate
  have hlong : (List.replicate 65517 (0 : UInt8)).length = 65517 := List.length_replicate
  generalize List.replicate 65516 (0 : UInt8) = short at hshort ⊢
  generalize List.replicate 65517 (0 : UInt8) = long at hlong ⊢
  constructor
  · obtain ⟨b, hb, hlen⟩ := (hall short).2 (by rw [hshort]; decide) getOpcode 2
    exact ⟨b, hb, by rw [hlen, hshort]⟩
  · have hstep := ((hall long).1 (.established 1 0 []) 0 (.get long) rfl rfl).1.mpr
      (by rw [hlong]; decide)
    rw [hlong] at hstep
    exact hstep

end Rp1.Connection

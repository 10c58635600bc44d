import Rp1.Connection.Registry
import Rp1.Protocol.Stability
import Rp1.Protocol.Wire
import Rp1.Support.Loop

/-!
# Connection — `drain_frames`

The reading side of the driver.  `Driver` holds the local variables of `run_driver` and the log of
what it has done to the outside, oldest first; a completion sender is a value of an arbitrary type.

`drainIteration` is one round of the loop in `drain_frames` and `drainFrames` the loop.  What one
round does is said once: either `decode` waits or refuses the whole connection, and then nothing
changes (`drainIteration_need`, `drainIteration_fatal`), or the bytes at the head name a request
(`Names`), and then they leave the buffer and resolve it (`Names.drainIteration`).
`drainFrames_whole` says that the loop ends and takes whole frames only.
-/

namespace Rp1.Connection
open Codec Protocol Loop

/-! ### The driver's variables -/

/-- The lifecycle state of a connection. -/
inductive ConnectionState where
  | usable
  | closing
  | closed
  | failed
  | unusable
deriving DecidableEq, Repr

/-- A driver-level failure for one request or the whole session. -/
inductive DriverError where
  | requestFailed (failure : Failure)
  | connectionFatal (failure : Failure)
  | transport
  | closed
  | unusable
deriving DecidableEq, Repr

/-- What the driver does to the outside. -/
inductive Effect (σ : Type) where
  /-- The sender of a request is used up on its outcome. -/
  | send (id : UInt64) (completion : σ) (outcome : Except DriverError Bytes)
  /-- `mark_state` on the shared state. -/
  | mark (next : ConnectionState)
  | closeAdmission
  /-- The transport accepted these bytes. -/
  | write (bytes : Bytes)
  /-- `transport.shutdown()`, with its answer. -/
  | shutdown (ok : Bool)
deriving DecidableEq

/-- The variables of `run_driver`, with the log of its effects. -/
structure Driver (σ : Type) where
  buffer : Bytes
  completions : Waiters σ
  live : InFlightRegistry
  submitClosed : Bool
  log : List (Effect σ)

/-! ### The functions -/

/-- `header_request_id`: the request id at the head of `buffer`. -/
def headerRequestId (buffer : Bytes) : Option UInt64 := do
  let slice ← getRange buffer 12 20
  if slice.length = 8 then some (fromLeBytes slice) else none

/-- `frame_total_len`: the frame length a buffered header announces. -/
def frameTotalLen (buffer : Bytes) : Option Nat :=
  if buffer.length < headerLength then none
  else do
    let m₀ ← buffer[6]?
    let m₁ ← buffer[7]?
    let metadataLength : UInt16 := fromLeBytes [m₀, m₁]
    let p₀ ← buffer[8]?
    let p₁ ← buffer[9]?
    let p₂ ← buffer[10]?
    let p₃ ← buffer[11]?
    let payloadLength : UInt32 := fromLeBytes [p₀, p₁, p₂, p₃]
    let total ← checkedAdd usizeMax headerLength metadataLength.toNat
    checkedAdd usizeMax total ((tryFit usizeMax payloadLength.toNat).getD usizeMax)

section Functions
variable {σ : Type}

/-- The context in which the driver decodes. -/
def Driver.admission (limits : Limits) (d : Driver σ) : Admission :=
  { role := .client, state := .negotiated, limits, inFlight := d.live.liveIds }

/-- The end of both dispatching arms: the head of the buffer goes, and the waiter of `id` gets the
outcome; an id that nobody waits for ends the session. -/
def Driver.dispatch (d : Driver σ) (id : UInt64) (total : Nat)
    (outcome : Except DriverError Bytes) : Driver σ × Flow (Option Failure) :=
  let d := { d with buffer := d.buffer.drop (min total d.buffer.length) }
  match d.completions.lookup id with
  | some sender =>
      ({ d with
          completions := d.completions.erase id
          live := (d.live.retire id).1
          log := d.log ++ [.send id sender outcome] }, .again)
  | none => (d, .leave (some .protocolViolation))

/-- One round of the loop in `drain_frames`. -/
def drainIteration (limits : Limits) (d : Driver σ) : Driver σ × Flow (Option Failure) :=
  match decode d.buffer (d.admission limits) with
  | .need _ => (d, .leave none)
  | .frame frame =>
      match frameTotalLen d.buffer with
      | none => (d, .leave (some .protocolViolation))
      | some total =>
          d.dispatch frame.header.requestId.value total (.ok ((getTo d.buffer total).getD []))
  | .failure failure consumed =>
      if failure.scope = .requestScoped then
        match headerRequestId d.buffer with
        | none => (d, .leave (some .protocolViolation))
        | some id => d.dispatch id consumed (.error (.requestFailed failure))
      else (d, .leave (some failure))

/-- `drain_frames`: every complete buffered frame, dispatched by request id. -/
def drainFrames (limits : Limits) (d : Driver σ) : Driver σ × Option Failure :=
  run (fun d => d.buffer.length) (drainIteration limits) d

end Functions

/-! ### The driver's own reading of the header -/

theorem headerRequestId_of_parse {buffer : Bytes} {raw : RawHeader}
    (h : RawHeader.parse buffer = some raw) : headerRequestId buffer = some raw.requestId := by
  have hl : 20 ≤ buffer.length := RawHeader.le_of_parse h
  rw [RawHeader.parse_of_le hl] at h
  cases h
  have hlen : ((buffer.drop 12).take (20 - 12)).length = 8 := by
    rw [List.length_take, List.length_drop]
    omega
  rw [headerRequestId, getRange_of_le (by decide) hl]
  exact if_pos hlen

/-- The driver's frame length is the decoder's. -/
theorem frameTotalLen_of_parse {buffer : Bytes} {raw : RawHeader}
    (h : RawHeader.parse buffer = some raw) : frameTotalLen buffer = some raw.total := by
  obtain ⟨rest, rfl⟩ := RawHeader.parse_eq_some_iff.mp h
  have hl : ¬ (raw.bytes ++ rest).length < headerLength := by
    rw [List.length_append, RawHeader.length_bytes]
    omega
  have hm : fromLeBytes (toLeBytes raw.metadataLength) = raw.metadataLength :=
    fromLeBytes_toLeBytes _
  have hp : fromLeBytes (toLeBytes raw.payloadLength) = raw.payloadLength :=
    fromLeBytes_toLeBytes _
  -- the fallback `usize::MAX` of the source is never taken: a `u32` fits
  have hfit : tryFit usizeMax raw.payloadLength.toNat = some raw.payloadLength.toNat :=
    tryFit_of_le (Nat.le_trans (Nat.le_add_left _ _) raw.total_le)
  have hsum : checkedAdd usizeMax (headerLength + raw.metadataLength.toNat)
      raw.payloadLength.toNat = some raw.total := checkedAdd_of_le raw.total_le
  calc frameTotalLen (raw.bytes ++ rest)
      = (checkedAdd usizeMax headerLength
            (fromLeBytes (toLeBytes raw.metadataLength) : UInt16).toNat).bind fun total =>
          checkedAdd usizeMax total ((tryFit usizeMax
            (fromLeBytes (toLeBytes raw.payloadLength) : UInt32).toNat).getD usizeMax) :=
        if_neg hl
    _ = some raw.total := by
        rw [hm, hp, metadataEnd_eq, Option.bind_some, hfit, Option.getD_some, hsum]

/-! ### What one round does -/

/-- The head of the buffer names a request: it is a whole frame, admitted or refused for that
request alone. -/
inductive Names (buffer : Bytes) (admission : Admission) :
    UInt64 → Nat → Except DriverError Bytes → Prop where
  | frame (f : Frame) (h : decode buffer admission = .frame f) :
      Names buffer admission f.header.requestId.value f.header.raw.total (.ok f.bytes)
  | refused (raw : RawHeader) (failure : Failure) (hp : RawHeader.parse buffer = some raw)
      (h : decode buffer admission = .failure failure raw.total)
      (hs : failure.scope = .requestScoped) (hl : raw.total ≤ buffer.length) :
      Names buffer admission raw.requestId raw.total (.error (.requestFailed failure))

section Names
variable {buffer : Bytes} {admission : Admission} {id : UInt64} {total : Nat}
  {outcome : Except DriverError Bytes}

theorem Names.le_length (h : Names buffer admission id total outcome) : total ≤ buffer.length := by
  cases h with
  | frame f h =>
      obtain ⟨hl, rest, rfl⟩ := decode_eq_frame_iff.mp h
      rw [List.length_append, hl.length_bytes]
      exact Nat.le_add_right _ _
  | refused raw failure hp h hs hl => exact hl

theorem Names.headerLength_le (h : Names buffer admission id total outcome) :
    headerLength ≤ total := by
  cases h with
  | frame f h => exact Nat.le_trans (Nat.le_add_right _ _) (Nat.le_add_right _ _)
  | refused raw failure hp h hs hl =>
      exact Nat.le_trans (Nat.le_add_right _ _) (Nat.le_add_right _ _)

/-- More input behind it does not change what the head names. -/
theorem Names.append (h : Names buffer admission id total outcome) (ext : Bytes) :
    Names (buffer ++ ext) admission id total outcome := by
  cases h with
  | frame f h =>
      refine .frame f ?_
      rw [decode_append ext (by simp [h]), h, Step.extend]
  | refused raw failure hp h hs hl =>
      refine .refused raw failure (RawHeader.parse_append ext hp) ?_ hs ?_
      · rw [decode_append ext (by simp [h]), h, Step.extend, if_pos hs]
      · rw [List.length_append]
        exact Nat.le_add_right_of_le hl

end Names

section Rounds
variable {σ : Type} {limits : Limits} {d : Driver σ}

theorem drainIteration_need {n : Nat} (h : decode d.buffer (d.admission limits) = .need n) :
    drainIteration limits d = (d, .leave none) := by
  rw [drainIteration, h]

theorem drainIteration_fatal {failure : Failure} {n : Nat}
    (h : decode d.buffer (d.admission limits) = .failure failure n)
    (hs : failure.scope ≠ .requestScoped) :
    drainIteration limits d = (d, .leave (some failure)) := by
  rw [drainIteration, h]
  exact if_neg hs

/-- **A named request is dispatched.** -/
theorem Names.drainIteration {id : UInt64} {total : Nat} {outcome : Except DriverError Bytes}
    (h : Names d.buffer (d.admission limits) id total outcome) :
    drainIteration limits d = d.dispatch id total outcome := by
  cases h with
  | frame f h =>
      obtain ⟨raw, kind, hp, hh, hl, hj⟩ := judge_of_decode h
      obtain ⟨-, -, hraw⟩ := Frame.Legal.of_judge hp hh hl hj
      -- the driver reads the length off the header again, and finds the one the decoder used
      have htotal : frameTotalLen d.buffer = some f.header.raw.total := by
        rw [hraw]
        exact frameTotalLen_of_parse hp
      have hget : (getTo d.buffer f.header.raw.total).getD [] = f.bytes := by
        rw [getTo_of_le (hraw ▸ hl), Option.getD_some, take_of_decode h]
      rw [Connection.drainIteration, h]
      simp only [htotal, hget]
  | refused raw failure hp h hs hl =>
      rw [Connection.drainIteration, h]
      simp only [if_pos hs, headerRequestId_of_parse hp]

/-- The three things the driver can find at the head of its buffer. -/
theorem head_cases (limits : Limits) (d : Driver σ) :
    (∃ n, decode d.buffer (d.admission limits) = .need n) ∨
    (∃ failure n, decode d.buffer (d.admission limits) = .failure failure n ∧
      failure.scope ≠ .requestScoped) ∨
    ∃ id total outcome, Names d.buffer (d.admission limits) id total outcome := by
  cases h : decode d.buffer (d.admission limits) with
  | need n => exact .inl ⟨n, rfl⟩
  | frame f => exact .inr (.inr ⟨_, _, _, .frame f h⟩)
  | failure reason n =>
      by_cases hs : reason.scope = .requestScoped
      · -- only a whole frame is refused for its request alone, so its header can be read
        obtain ⟨raw, kind, hp, -, hl, -, rfl⟩ := judge_of_requestScoped h hs
        exact .inr (.inr ⟨_, _, _, .refused raw reason hp h hs hl⟩)
      · exact .inr (.inl ⟨reason, n, rfl, hs⟩)

/-- The driver after it has resolved a request out of the head of its buffer. -/
def Driver.resolved (d : Driver σ) (id : UInt64) (sender : σ) (total : Nat)
    (outcome : Except DriverError Bytes) : Driver σ :=
  { d with
    buffer := d.buffer.drop total
    completions := d.completions.erase id
    live := (d.live.retire id).1
    log := d.log ++ [.send id sender outcome] }

/-- One round of `drain_frames`, by what it finds. -/
inductive Round (limits : Limits) (d : Driver σ) : Driver σ → Flow (Option Failure) → Prop where
  | waits (n : Nat) (h : decode d.buffer (d.admission limits) = .need n) :
      Round limits d d (.leave none)
  | fatal (failure : Failure) (n : Nat)
      (h : decode d.buffer (d.admission limits) = .failure failure n)
      (hs : failure.scope ≠ .requestScoped) : Round limits d d (.leave (some failure))
  | resolves (id : UInt64) (total : Nat) (outcome : Except DriverError Bytes) (sender : σ)
      (h : Names d.buffer (d.admission limits) id total outcome)
      (hw : d.completions.lookup id = some sender) :
      Round limits d (d.resolved id sender total outcome) .again
  | unknown (id : UInt64) (total : Nat) (outcome : Except DriverError Bytes)
      (h : Names d.buffer (d.admission limits) id total outcome)
      (hw : d.completions.lookup id = none) :
      Round limits d { d with buffer := d.buffer.drop total }
        (.leave (some .protocolViolation))

theorem Names.resolves {id : UInt64} {total : Nat} {outcome : Except DriverError Bytes}
    {sender : σ} (h : Names d.buffer (d.admission limits) id total outcome)
    (hw : d.completions.lookup id = some sender) :
    Connection.drainIteration limits d = (d.resolved id sender total outcome, .again) := by
  rw [h.drainIteration, Driver.dispatch, Nat.min_eq_left h.le_length]
  simp only [hw]
  rfl

theorem Names.unknown {id : UInt64} {total : Nat} {outcome : Except DriverError Bytes}
    (h : Names d.buffer (d.admission limits) id total outcome)
    (hw : d.completions.lookup id = none) :
    Connection.drainIteration limits d =
      ({ d with buffer := d.buffer.drop total }, .leave (some .protocolViolation)) := by
  rw [h.drainIteration, Driver.dispatch, Nat.min_eq_left h.le_length]
  simp only [hw]

/-- **What one round does.** -/
theorem round {d' : Driver σ} {flow : Flow (Option Failure)}
    (h : drainIteration limits d = (d', flow)) : Round limits d d' flow := by
  rcases head_cases limits d with ⟨n, hn⟩ | ⟨failure, n, hf, hs⟩ | ⟨id, total, outcome, hn⟩
  · rw [drainIteration_need hn] at h
    cases h
    exact .waits n hn
  · rw [drainIteration_fatal hf hs] at h
    cases h
    exact .fatal failure n hf hs
  · cases hw : d.completions.lookup id with
    | some sender =>
        rw [hn.resolves hw] at h
        cases h
        exact .resolves id total outcome sender hn hw
    | none =>
        rw [hn.unknown hw] at h
        cases h
        exact .unknown id total outcome hn hw

/-- Every further round has taken at least a header out of the buffer. -/
theorem drainIteration_shrinks (limits : Limits) :
    Shrinks (fun d : Driver σ => d.buffer.length) (drainIteration limits) := by
  intro d d' h
  cases round h with
  | resolves id total outcome sender hn hw =>
      have h₁ := hn.headerLength_le
      have h₂ := hn.le_length
      simp only [headerLength] at h₁
      simp only [Driver.resolved, List.length_drop]
      omega

end Rounds

/-! ### Whole frames -/

/-- The header at the head of the buffer, as the decoder read it. -/
theorem Names.parse {buffer : Bytes} {admission : Admission} {id : UInt64} {total : Nat}
    {outcome : Except DriverError Bytes} (h : Names buffer admission id total outcome) :
    ∃ raw, RawHeader.parse buffer = some raw ∧ raw.requestId = id ∧ raw.total = total := by
  cases h with
  | frame f h =>
      obtain ⟨raw, kind, hp, hh, hl, hj⟩ := judge_of_decode h
      obtain ⟨-, -, rfl⟩ := Frame.Legal.of_judge hp hh hl hj
      exact ⟨f.header.raw, hp, rfl, rfl⟩
  | refused raw failure hp h hs hl => exact ⟨raw, hp, rfl, rfl⟩

/-- `c` has the length that its own header announces. -/
def WholeFrame (c : Bytes) : Prop := ∃ raw, RawHeader.parse c = some raw ∧ c.length = raw.total

/-- `rest` is what follows some whole frames at the beginning of `input`. -/
def FrameBoundary (input rest : Bytes) : Prop :=
  ∃ frames : List Bytes, (∀ c ∈ frames, WholeFrame c) ∧ input = frames.flatten ++ rest

theorem Names.wholeFrame {buffer : Bytes} {admission : Admission} {id : UInt64} {total : Nat}
    {outcome : Except DriverError Bytes} (h : Names buffer admission id total outcome) :
    WholeFrame (buffer.take total) := by
  obtain ⟨raw, hp, -, rfl⟩ := h.parse
  obtain ⟨tail, rfl⟩ := RawHeader.parse_eq_some_iff.mp hp
  have hle : raw.bytes.length ≤ raw.total := by
    rw [RawHeader.length_bytes]
    exact h.headerLength_le
  have htake : (raw.bytes ++ tail).take raw.total =
      raw.bytes ++ tail.take (raw.total - raw.bytes.length) := by
    rw [List.take_append, List.take_of_length_le hle]
  exact ⟨raw, RawHeader.parse_eq_some_iff.mpr ⟨_, htake⟩, List.length_take_of_le h.le_length⟩

theorem FrameBoundary.drop {input buffer : Bytes} {admission : Admission} {id : UInt64}
    {total : Nat} {outcome : Except DriverError Bytes} (h : FrameBoundary input buffer)
    (hn : Names buffer admission id total outcome) :
    FrameBoundary input (buffer.drop total) := by
  obtain ⟨frames, hall, rfl⟩ := h
  refine ⟨frames ++ [buffer.take total], ?_, ?_⟩
  · exact List.forall_mem_append.mpr ⟨hall, List.forall_mem_singleton.mpr hn.wholeFrame⟩
  · rw [List.flatten_append, List.flatten_singleton, List.append_assoc, List.take_append_drop]

section Whole
variable {σ : Type} {limits : Limits} {d d' : Driver σ} {flow : Flow (Option Failure)}

theorem Round.boundary {input : Bytes} (h : Round limits d d' flow)
    (hb : FrameBoundary input d.buffer) : FrameBoundary input d'.buffer := by
  cases h with
  | waits => exact hb
  | fatal => exact hb
  | resolves id total outcome sender hn hw => exact hb.drop hn
  | unknown id total outcome hn hw => exact hb.drop hn

/-- **`drain_frames` ends, and it consumes whole frames only.**  After finitely many rounds one
leaves the loop.  A round that does not takes exactly the frame at the head out of the buffer.
Whenever the decoder has answered with a frame or a request-scoped failure, the two helpers of the
driver find the length and the identifier it used.  What is in the buffer at the beginning of each
round and in the end follows whole frames of the input. -/
theorem drainFrames_whole (limits : Limits) (d : Driver σ) :
    (∃ d₁, Passes (drainIteration limits) d d₁ ∧
      drainIteration limits d₁ =
        ((drainFrames limits d).1, .leave (drainFrames limits d).2)) ∧
    (∀ d₁ d₂, Passes (drainIteration limits) d d₁ →
      drainIteration limits d₁ = (d₂, .again) →
      ∃ raw, RawHeader.parse d₁.buffer = some raw ∧
        d₂.buffer =
          d₁.buffer.drop (20 + raw.metadataLength.toNat + raw.payloadLength.toNat) ∧
        20 + raw.metadataLength.toNat + raw.payloadLength.toNat ≤ d₁.buffer.length) ∧
    (∀ d₁, Passes (drainIteration limits) d d₁ →
      (∀ f, decode d₁.buffer (d₁.admission limits) = .frame f →
        frameTotalLen d₁.buffer =
          some (20 + f.header.metadataLength.toNat + f.header.payloadLength.toNat) ∧
        headerRequestId d₁.buffer = some f.header.requestId.value) ∧
      ∀ failure consumed,
        decode d₁.buffer (d₁.admission limits) = .failure failure consumed →
        failure.scope = .requestScoped →
        ∃ raw, RawHeader.parse d₁.buffer = some raw ∧
          consumed = 20 + raw.metadataLength.toNat + raw.payloadLength.toNat ∧
          frameTotalLen d₁.buffer = some consumed ∧
          headerRequestId d₁.buffer = some raw.requestId) ∧
    (∀ d₁, Passes (drainIteration limits) d d₁ → FrameBoundary d.buffer d₁.buffer) ∧
    FrameBoundary d.buffer (drainFrames limits d).1.buffer := by
  have hstart : FrameBoundary d.buffer d.buffer := ⟨[], List.forall_mem_nil _, rfl⟩
  have hpass : ∀ d₁, Passes (drainIteration limits) d d₁ → FrameBoundary d.buffer d₁.buffer :=
    fun d₁ hp => hp.invariant (fun s s' hI hb => (round hb).boundary hI) hstart
  obtain ⟨d₁, hp, hleave⟩ := (drainIteration_shrinks limits).exists_passes d _ _ rfl
  refine ⟨⟨d₁, hp, hleave⟩, fun d₁ d₂ hp hb => ?_, fun d₁ hp => ⟨fun f hf => ?_, ?_⟩, hpass, ?_⟩
  · cases round hb with
    | resolves id total outcome sender hn hw =>
        obtain ⟨raw, hparse, -, rfl⟩ := hn.parse
        exact ⟨raw, hparse, rfl, hn.le_length⟩
  · obtain ⟨raw, kind, hparse, hh, hl, hj⟩ := judge_of_decode hf
    obtain ⟨-, -, rfl⟩ := Frame.Legal.of_judge hparse hh hl hj
    exact ⟨frameTotalLen_of_parse hparse, headerRequestId_of_parse hparse⟩
  · intro failure consumed hf hs
    obtain ⟨raw, kind, hparse, -, -, -, rfl⟩ := judge_of_requestScoped hf hs
    exact ⟨raw, hparse, rfl, frameTotalLen_of_parse hparse, headerRequestId_of_parse hparse⟩
  · exact (round hleave).boundary (hpass d₁ hp)

end Whole

end Rp1.Connection

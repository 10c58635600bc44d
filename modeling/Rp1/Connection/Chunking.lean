import Rp1.Connection.Drain

/-!
# Connection — reading in chunks

The read arm of `run_driver` appends what a read returned and drains the buffer.  `feedChunks` does
so for a list of chunks, up to the first fatal failure.

The loop of `drain_frames` is stable under more input (`drain_stable`): the verdict of the decoder
on the head of the buffer is, and so is everything the driver derives from it.  What the driver
delivers therefore depends on the bytes of the peer only, not on how the transport cut them.
-/

namespace Rp1.Connection
open Codec Protocol Loop

section Chunking
variable {σ : Type}

/-- `buffer.extend_from_slice(&chunk)`. -/
def Driver.receive (d : Driver σ) (chunk : Bytes) : Driver σ :=
  { d with buffer := d.buffer ++ chunk }

/-- Each chunk is appended and drained, until a frame ends the session. -/
def feedChunks (limits : Limits) (d : Driver σ) (chunks : List Bytes) :
    Driver σ × Option Failure :=
  feed (fun d => d.buffer.length) (drainIteration limits) Driver.receive d chunks

/-- What a peer and the callers can see of a driver: all but its buffer. -/
def Driver.visible (d : Driver σ) : Waiters σ × InFlightRegistry × Bool × List (Effect σ) :=
  (d.completions, d.live, d.submitClosed, d.log)

theorem Driver.resolved_receive (d : Driver σ) (id : UInt64) (sender : σ) {total : Nat}
    (outcome : Except DriverError Bytes) (ext : Bytes) (h : total ≤ d.buffer.length) :
    (d.receive ext).resolved id sender total outcome =
      (d.resolved id sender total outcome).receive ext := by
  simp only [resolved, receive, List.drop_append_of_le_length h]

/-- **`drain_frames` is stable under more input.** -/
theorem drain_stable (limits : Limits) :
    Stable (fun d : Driver σ => d.buffer.length) (drainIteration limits) Driver.receive
      Driver.visible where
  shrinks := drainIteration_shrinks limits
  extend_nil d := by simp only [Driver.receive, List.append_nil]
  extend_extend d a b := by simp only [Driver.receive, List.append_assoc]
  again ext h := by
    cases round h with
    | resolves id total outcome sender hn hw =>
        rw [← Driver.resolved_receive _ _ _ _ _ hn.le_length]
        exact (hn.append ext).resolves hw
  waits h := by
    cases round h with
    | waits n hn => rfl
  refuses := by
    intro d d' failure ext h
    cases round h with
    | fatal _ n hf hs =>
        have hne : ∀ m, decode d.buffer (d.admission limits) ≠ .need m := by simp [hf]
        have hf' := decode_append ext hne
        rw [hf, Step.extend] at hf'
        exact ⟨_, drainIteration_fatal hf' hs, rfl⟩
    | unknown id total outcome hn hw =>
        exact ⟨_, (hn.append ext).unknown hw, rfl⟩

/-- **Chunking plays no part.**  Whatever the peer sends and whatever the driver holds, two ways of
cutting the stream deliver the same completions in the same order, leave the same requests in
flight, and end with the same fatal failure or with the same bytes left over. -/
theorem feedChunks_congr (limits : Limits) (d : Driver σ) {xs ys : List Bytes}
    (hxs : [] ∉ xs) (hys : [] ∉ ys) (e : xs.flatten = ys.flatten) :
    (feedChunks limits d xs).1.log = (feedChunks limits d ys).1.log ∧
    (feedChunks limits d xs).1.live = (feedChunks limits d ys).1.live ∧
    (feedChunks limits d xs).1.completions = (feedChunks limits d ys).1.completions ∧
    (feedChunks limits d xs).2 = (feedChunks limits d ys).2 ∧
    ((feedChunks limits d xs).2 = none →
      (feedChunks limits d xs).1.buffer = (feedChunks limits d ys).1.buffer) := by
  have h := (drain_stable limits).feed_congr d hxs hys e
  have hv := h.visible
  simp only [Driver.visible, Prod.mk.injEq] at hv
  obtain ⟨hc, hl, -, hlog⟩ := hv
  exact ⟨hlog, hl, hc, h.result, fun hn => congrArg Driver.buffer (h.state hn)⟩

end Chunking

/-- A header of an unknown version, in two pieces and in one. -/
theorem feedChunks_congr_version :
    (feedChunks ⟨64, 16⟩ (⟨[], ∅, .new, false, []⟩ : Driver Unit)
      [[1, 2, 0, 0, 0], [0, 0, 0, 0, 0, 0, 0, 7, 0, 0, 0, 0, 0, 0, 0]]).2 =
        some .unsupportedProtocolVersion ∧
    (feedChunks ⟨64, 16⟩ (⟨[], ∅, .new, false, []⟩ : Driver Unit)
      [[1, 2, 0, 0, 0], [0, 0, 0, 0, 0, 0, 0, 7, 0, 0, 0, 0, 0, 0, 0]]).2 =
    (feedChunks ⟨64, 16⟩ (⟨[], ∅, .new, false, []⟩ : Driver Unit)
      [[1, 2, 0, 0, 0, 0, 0, 0, 0, 0, 0, 0, 7, 0, 0, 0, 0, 0, 0, 0]]).2 :=
  ⟨rfl, (feedChunks_congr ⟨64, 16⟩ _ (by decide) (by decide) rfl).2.2.2.1⟩

end Rp1.Connection

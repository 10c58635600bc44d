import Rp1.Connection.Task

/-!
# Connection — how much a peer can make the driver hold

The decoder never asks for more than a frame may be long (`need_le`), because it compares the
length a header announces with the limit before it asks for the rest.  A drain that leaves the
session open ends with such a question, so what it leaves in the buffer is shorter than that, and
one read adds at most `READ_CHUNK` bytes.

`buffer_bounded` is the invariant over the runs of the driver, whatever the peer sends.
-/

namespace Rp1.Connection
open Codec Protocol Loop Runs

/-! ### The decoder -/

/-- The most bytes the decoder asks for: a header, or a frame of the size in force. -/
def needBound (limits : Limits) : Nat := max 20 limits.frameSize.toNat

theorem need_le {input : Bytes} {admission : Admission} {n : Nat}
    (h : decode input admission = .need n) : n ≤ needBound admission.limits := by
  rcases cause_of_need h with ⟨-, rfl⟩ | ⟨raw, kind, -, hh, -, rfl⟩
  · exact Nat.le_max_left _ _
  · obtain ⟨-, -, ht, -⟩ := admitHeader_eq_ok_iff.mp hh
    exact Nat.le_trans ht (Nat.le_max_right _ _)

section Buffer
variable {σ : Type} {limits : Limits} {d d' : Driver σ}

/-! ### One drain -/

/-- Rounds only take bytes out. -/
theorem length_le_of_passes (h : Passes (drainIteration limits) d d') :
    d'.buffer.length ≤ d.buffer.length :=
  h.invariant (I := fun d' => d'.buffer.length ≤ d.buffer.length)
    (fun _ _ hI hr => Nat.le_trans (Nat.le_of_lt (drainIteration_shrinks limits hr)) hI)
    (Nat.le_refl _)

theorem drainFrames_length_le (limits : Limits) (d : Driver σ) :
    (drainFrames limits d).1.buffer.length ≤ d.buffer.length := by
  refine (drainIteration_shrinks limits).run_invariant
    (I := fun d' => d'.buffer.length ≤ d.buffer.length) (fun d' h => ?_) d (Nat.le_refl _)
  refine Nat.le_trans ?_ h
  cases hr : drainIteration limits d' with
  | mk d'' flow =>
      cases round hr with
      | waits => exact Nat.le_refl _
      | fatal => exact Nat.le_refl _
      | unknown id total => exact List.length_drop ▸ Nat.sub_le _ _
      | resolves id total => exact List.length_drop ▸ Nat.sub_le _ _

/-- **What a drain leaves behind.**  One that keeps the session open ends in the middle of a frame
that is not too long. -/
theorem drainFrames_leaves (d : Driver σ) :
    ∀ d', drainFrames limits d = (d', none) → d'.buffer.length < needBound limits := by
  induction d using (drainIteration_shrinks limits).induct with
  | leave d d₁ r hr =>
      intro d' h
      rw [drainFrames, run_leave hr] at h
      cases h
      cases round hr with
      | waits n hn => exact Nat.lt_of_lt_of_le (lt_of_decode_need hn) (need_le hn)
  | again d d₁ hr ih =>
      intro d' h
      rw [drainFrames, (drainIteration_shrinks limits).run_again hr] at h
      exact ih d' h

/-! ### One iteration -/

theorem buffer_failAll (d : Driver σ) (error : DriverError) :
    (d.failAll error).buffer = d.buffer := by
  have loop : ∀ (ids : List UInt64) (d : Driver σ),
      (ids.foldl (Driver.failOne error) d).buffer = d.buffer := by
    intro ids
    induction ids with
    | nil => intro d; rfl
    | cons id ids ih =>
        intro d
        rw [List.foldl_cons, ih, Driver.failOne]
        cases d.completions.lookup id <;> rfl
  exact loop _ d

theorem buffer_bottom (d : Driver σ) : d.bottom.1.buffer = d.buffer := by
  rw [Driver.bottom]
  split <;> rfl

/-- Only a read touches the buffer, and only a fatal one leaves it long. -/
theorem iterate_buffer (limits : Limits) (d : Driver σ) (e : Event σ) :
    ((∀ chunk, e ≠ .read chunk) → (iterate limits d e).1.buffer = d.buffer) ∧
    ∀ chunk, e = .read chunk →
      (iterate limits d e).1.buffer.length ≤ d.buffer.length + chunk.length ∧
      ((iterate limits d e).2 = .again →
        (iterate limits d e).1.buffer.length < needBound limits) := by
  have hit := iteration limits d e
  generalize iterate limits d e = r at hit ⊢
  cases hit with
  | closed => exact ⟨fun _ => buffer_failAll d _, by rintro _ ⟨⟩⟩
  | shutdownFailed => exact ⟨fun _ => buffer_failAll d _, by rintro _ ⟨⟩⟩
  | refused s writes => exact ⟨fun _ => buffer_failAll _ _, by rintro _ ⟨⟩⟩
  | written s writes live hi => exact ⟨fun _ => buffer_bottom _, by rintro _ ⟨⟩⟩
  | writeFailed s writes live hi => exact ⟨fun _ => buffer_failAll _ _, by rintro _ ⟨⟩⟩
  | submitClosed => exact ⟨fun _ => buffer_bottom _, by rintro _ ⟨⟩⟩
  | idle => exact ⟨fun _ => buffer_bottom d, by rintro _ ⟨⟩⟩
  | lost => exact ⟨fun _ => buffer_failAll d _, by rintro _ ⟨⟩⟩
  | fatal chunk d' failure hd =>
      refine ⟨fun h => absurd rfl (h chunk), fun chunk' e => ?_⟩
      cases e
      have hle := drainFrames_length_le limits (d.receive chunk)
      rw [hd, Driver.receive, List.length_append] at hle
      refine ⟨?_, by rintro ⟨⟩⟩
      show (d'.failAll (.connectionFatal failure)).buffer.length ≤ _
      rw [buffer_failAll]
      exact hle
  | drained chunk d' hd =>
      refine ⟨fun h => absurd rfl (h chunk), fun chunk' e => ?_⟩
      cases e
      have hle := drainFrames_length_le limits (d.receive chunk)
      rw [hd, Driver.receive, List.length_append] at hle
      rw [buffer_bottom]
      exact ⟨hle, fun _ => drainFrames_leaves _ _ hd⟩

/-! ### Every run -/

/-- A read of the driver is one `read_chunk` returns. -/
def Action.Readable (a : Action σ) : Prop :=
  ∀ bytes, a = .select (.read bytes) →
    ∃ chunk read, (readChunk chunk read : Event σ) = .read bytes

theorem readChunk_le {chunk : { bytes : Bytes // bytes.length = readChunkSize }}
    {read : Option Nat} {bytes : Bytes} (h : (readChunk chunk read : Event σ) = .read bytes) :
    bytes.length ≤ readChunkSize := by
  match read, h with
  | some (n + 1), h =>
      cases h
      by_cases hn : n + 1 ≤ chunk.1.length
      · rw [getTo_of_le hn, Option.getD_some, List.length_take, chunk.2]
        exact Nat.min_le_right _ _
      · rw [getTo, if_neg hn]
        exact Nat.zero_le _

/-- The driver holds less than it may ask for while it runs, and one read more in the end. -/
structure World.Bounded (limits : Limits) (w : World σ) : Prop where
  running : w.task.left = none → w.task.driver.buffer.length < needBound limits
  always : w.task.driver.buffer.length ≤ needBound limits - 1 + readChunkSize

theorem World.Bounded.step {w w' : World σ} {a : Action σ} (hw : w.Bounded limits)
    (ha : a.Readable) (h : w.step limits a = some w') : w'.Bounded limits := by
  cases a with
  | select e =>
      obtain ⟨task, ht, rfl⟩ := Option.map_eq_some_iff.mp h
      obtain ⟨-, hleft, hd, hl, -⟩ := Task.select_eq_some ht
      have hrun := hw.running hleft
      obtain ⟨hother, hread⟩ := iterate_buffer limits w.task.driver e
      by_cases he : ∃ bytes, e = .read bytes
      · obtain ⟨bytes, rfl⟩ := he
        obtain ⟨chunk, read, hc⟩ := ha bytes rfl
        have hlen := readChunk_le hc
        obtain ⟨hle, hagain⟩ := hread bytes rfl
        refine ⟨fun hn => ?_, ?_⟩
        · show task.driver.buffer.length < _
          rw [hd]
          refine hagain ?_
          have hnone := hl.symm.trans hn
          cases hf : (iterate limits w.task.driver (.read bytes)).2 with
          | again => rfl
          | leave l => rw [hf] at hnone; cases hnone
        · show task.driver.buffer.length ≤ _
          rw [hd]
          omega
      · have hsame := hother fun bytes e' => he ⟨bytes, e'⟩
        refine ⟨fun _ => ?_, ?_⟩
        · show task.driver.buffer.length < _
          rw [hd, hsame]
          exact hrun
        · show task.driver.buffer.length ≤ _
          rw [hd, hsame]
          exact hw.always
  | perform =>
      obtain ⟨⟨d, pending, left⟩, shared, marked⟩ := w
      cases pending with
      | nil => cases h
      | cons x pending => cases h; exact ⟨hw.running, hw.always⟩
  | other state closesAdmission =>
      cases h
      exact ⟨hw.running, hw.always⟩

theorem World.Bounded.exec {shared : Shared} {schedule : List (Action σ)} {w : World σ}
    (hread : ∀ a ∈ schedule, a.Readable)
    (h : exec (World.step limits) (.spawn shared) schedule = some w) : w.Bounded limits := by
  have hpos : 0 < needBound limits := Nat.lt_of_lt_of_le (by decide) (Nat.le_max_left 20 _)
  have hinit : (World.spawn shared : World σ).Bounded limits := ⟨fun _ => hpos, Nat.zero_le _⟩
  have hstep : ∀ (past : List (World σ × Action σ)) (w : World σ) (a : Action σ) (w' : World σ),
      ((∀ p ∈ past, p.2.Readable) → w.Bounded limits) → w.step limits a = some w' →
      (∀ p ∈ past ++ [(w, a)], p.2.Readable) → w'.Bounded limits := by
    intro past w a w' hw hs hall
    have ha : a.Readable := hall (w, a) (List.mem_append_right _ List.mem_cons_self)
    exact (hw fun p hp => hall p (List.mem_append_left _ hp)).step ha hs
  refine exec_invariant hstep [] (fun _ => hinit) h fun p hp => ?_
  rw [List.nil_append] at hp
  refine hread p.2 ?_
  rw [← map_snd_visited h]
  exact List.mem_map_of_mem hp

/-- **What a peer can make the driver hold.**  The decoder never asks for more than a header or a
frame of the size in force.  So in every run of the driver, whatever the peer sends, a drain that
keeps the session open leaves less than that in the buffer, the driver holds less than that
whenever it waits, and at no time, not in the middle of a drain either, does the buffer hold more
than that and one read. -/
theorem buffer_bounded (limits : Limits) (shared : Shared) (schedule : List (Action σ))
    (hread : ∀ a ∈ schedule, a.Readable) (w : World σ)
    (h : exec (World.step limits) (.spawn shared) schedule = some w) :
    (∀ input admission n, decode input admission = .need n →
      n ≤ max 20 admission.limits.frameSize.toNat) ∧
    (∀ p ∈ visited (World.step limits) (.spawn shared) schedule, ∀ bytes,
      p.2 = .select (.read bytes) →
      (∀ d, Passes (drainIteration limits) (p.1.task.driver.receive bytes) d →
        d.buffer.length ≤ max 20 limits.frameSize.toNat - 1 + readChunkSize) ∧
      ∀ d, drainFrames limits (p.1.task.driver.receive bytes) = (d, none) →
        d.buffer.length < max 20 limits.frameSize.toNat) ∧
    (w.task.left = none → w.task.driver.buffer.length < max 20 limits.frameSize.toNat) ∧
    w.task.driver.buffer.length ≤ max 20 limits.frameSize.toNat - 1 + readChunkSize := by
  have hw : w.Bounded limits := .exec hread h
  refine ⟨fun input admission n hn => need_le hn, fun p hp bytes he => ⟨fun d hd => ?_,
    fun d hd => drainFrames_leaves _ d hd⟩, hw.running, hw.always⟩
  obtain ⟨a, c, w', rfl, ha, hstep⟩ := exists_split hp h
  have hbound : p.1.Bounded limits :=
    .exec (fun x hx => hread x (List.mem_append_left _ (List.mem_append_left _ hx))) ha
  have hmem : p.2 ∈ a ++ [p.2] ++ c :=
    List.mem_append_left _ (List.mem_append_right _ List.mem_cons_self)
  obtain ⟨chunk, read, hc⟩ := hread p.2 hmem bytes he
  have hlen := readChunk_le hc
  -- the driver reads only while it is in its loop
  rw [he] at hstep
  obtain ⟨task, ht, -⟩ := Option.map_eq_some_iff.mp hstep
  have hrun := hbound.running (Task.select_eq_some ht).2.1
  have hpass := length_le_of_passes hd
  rw [Driver.receive, List.length_append] at hpass
  show d.buffer.length ≤ needBound limits - 1 + readChunkSize
  omega

end Buffer

/-- Half a header arrives, and is held. -/
theorem buffer_bounded_half :
    ∃ w : World Unit,
      exec (World.step ⟨64, 16⟩) (.spawn ⟨.usable, false⟩)
        [.select (.read (List.replicate 10 0))] = some w ∧
      w.task.driver.buffer.length < 64 := by
  let w : World Unit :=
    ⟨⟨⟨List.replicate 10 0, ∅, .new, false, []⟩, [], none⟩, ⟨.usable, false⟩, none⟩
  have h : exec (World.step ⟨64, 16⟩) (.spawn ⟨.usable, false⟩)
      [.select (.read (List.replicate 10 0))] = some w := rfl
  have hread : ∀ a ∈ [(.select (.read (List.replicate 10 0)) : Action Unit)], a.Readable := by
    intro a ha bytes he
    rw [List.mem_singleton.mp ha] at he
    cases he
    refine ⟨⟨List.replicate 4096 0, List.length_replicate⟩, some 10, ?_⟩
    rw [readChunk, getTo_of_le (by rw [List.length_replicate]; decide), List.take_replicate]
    rfl
  exact ⟨w, h, (buffer_bounded ⟨64, 16⟩ _ _ hread w h).2.2.1 rfl⟩

end Rp1.Connection

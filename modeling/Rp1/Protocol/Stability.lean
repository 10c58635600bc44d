import Rp1.Protocol.Verdict

/-!
# Protocol — the decoder under more input

A receiver asks `decode` again each time bytes arrive.  Once the decoder has answered with a
frame or a failure, more input changes nothing but the `consumed` count of a connection-fatal
failure, which is the length of the whole buffer (`decode_append`); while it asks for more, it
asks for the same number of bytes until they are there (`decode_append_need`).

`decode_stable` puts the two together.  The verdict on a byte stream is that of any extent of it
the decoder settles on.
-/

namespace Rp1.Protocol
open Codec

/-- What a step settles: nothing, or the frame or the failure the receiver acts on. -/
def Step.settled : Step → Option (Except Failure Frame)
  | .need _ => none
  | .frame f => some (.ok f)
  | .failure reason _ => some (.error reason)

/-- A step after `n` more bytes: a connection-fatal failure consumes them too. -/
def Step.extend (n : Nat) : Step → Step
  | .need required => .need required
  | .frame f => .frame f
  | .failure reason consumed =>
      .failure reason (if reason.scope = .requestScoped then consumed else consumed + n)

theorem Step.settled_extend (n : Nat) (s : Step) : (s.extend n).settled = s.settled := by
  cases s <;> rfl

theorem verdict_extend (total len n : Nat) (v : Except Failure Frame) :
    verdict total (len + n) v = (verdict total len v).extend n := by
  cases v with
  | ok f => rfl
  | error failure =>
      simp only [verdict, stepFor, Step.extend]
      split <;> rfl

theorem verdict_ne_need {total len n : Nat} {v : Except Failure Frame} :
    verdict total len v ≠ .need n := by
  cases v <;> simp [verdict, stepFor]

/-- **More input after an answer.** -/
theorem decode_append {input : Bytes} {admission : Admission} (ext : Bytes)
    (h : ∀ n, decode input admission ≠ .need n) :
    decode (input ++ ext) admission = (decode input admission).extend ext.length := by
  cases held input admission.limits with
  | short hs => exact absurd (decode_short hs) (h _)
  | refused raw failure hp hh =>
      have hs : ¬ failure.scope = .requestScoped := by rw [(admitHeader_fatal hh).scope]; decide
      rw [decode_refused hp hh, decode_refused (RawHeader.parse_append ext hp) hh,
        List.length_append, Step.extend, if_neg hs]
  | waits raw kind hp hh hl => exact absurd (decode_waits hp hh hl) (h _)
  | whole raw kind hp hh hl =>
      have hl' : raw.total ≤ (input ++ ext).length := by
        rw [List.length_append]; exact Nat.le_add_right_of_le hl
      rw [decode_judged hp hh hl, decode_judged (RawHeader.parse_append ext hp) hh hl',
        judge_append ext hl, List.length_append, verdict_extend]

/-- The decoder waited on every beginning of an input it waits on. -/
theorem need_of_append {input : Bytes} {admission : Admission} {ext : Bytes} {n : Nat}
    (h : decode (input ++ ext) admission = .need n) :
    ∃ m, decode input admission = .need m := by
  cases hd : decode input admission with
  | need m => exact ⟨m, rfl⟩
  | frame f =>
      rw [decode_append ext (by simp [hd]), hd] at h
      cases h
  | failure failure consumed =>
      rw [decode_append ext (by simp [hd]), hd] at h
      cases h

/-- **What the decoder waits for**: a header, or the frame that the header announces. -/
theorem cause_of_need {input : Bytes} {admission : Admission} {n : Nat}
    (h : decode input admission = .need n) :
    (input.length < headerLength ∧ n = headerLength) ∨
      ∃ raw kind, RawHeader.parse input = some raw ∧
        admitHeader raw admission.limits = .ok (kind, raw.total) ∧ input.length < raw.total ∧
        n = raw.total := by
  cases held input admission.limits with
  | short hs =>
      rw [decode_short hs] at h
      cases h
      exact .inl ⟨hs, rfl⟩
  | refused raw failure hp hh => rw [decode_refused hp hh] at h; cases h
  | waits raw kind hp hh hl =>
      rw [decode_waits hp hh hl] at h
      cases h
      exact .inr ⟨raw, kind, hp, hh, hl, rfl⟩
  | whole raw kind hp hh hl =>
      rw [decode_judged hp hh hl] at h
      exact absurd h verdict_ne_need

theorem lt_of_decode_need {input : Bytes} {admission : Admission} {n : Nat}
    (h : decode input admission = .need n) : input.length < n := by
  rcases cause_of_need h with ⟨hs, rfl⟩ | ⟨raw, kind, -, -, hl, rfl⟩
  · exact hs
  · exact hl

/-- **More input, but not yet enough.** -/
theorem decode_append_need {input : Bytes} {admission : Admission} {n : Nat} {ext : Bytes}
    (h : decode input admission = .need n) (hlt : (input ++ ext).length < n) :
    decode (input ++ ext) admission = .need n := by
  rcases cause_of_need h with ⟨-, rfl⟩ | ⟨raw, kind, hp, hh, -, rfl⟩
  · exact decode_short hlt
  · exact decode_waits (RawHeader.parse_append ext hp) hh hlt

theorem decode_append_frame {input : Bytes} {admission : Admission} {f : Frame} (ext : Bytes)
    (h : decode input admission = .frame f) : decode (input ++ ext) admission = .frame f := by
  rw [decode_append ext (by simp [h]), h, Step.extend]

theorem ne_need_of_settled {s : Step} {v : Except Failure Frame} (h : s.settled = some v) :
    ∀ n, s ≠ .need n := by
  rintro n rfl
  cases h

theorem settled_append {input : Bytes} {admission : Admission} {v : Except Failure Frame}
    (ext : Bytes) (h : (decode input admission).settled = some v) :
    (decode (input ++ ext) admission).settled = some v := by
  rw [decode_append ext (ne_need_of_settled h), Step.settled_extend, h]

/-- **The decoder is stable under more input.**  A frame stays the same frame; a request-scoped
failure stays the same with the same consumed count; a connection-fatal failure keeps its class
and scope; a need stays until that many bytes are held, which they are not yet.  So two extents
of one stream on which the decoder settles have one verdict. -/
theorem decode_stable (input : Bytes) (admission : Admission) :
    (∀ f, decode input admission = .frame f →
      ∀ ext, decode (input ++ ext) admission = .frame f) ∧
    (∀ failure consumed, decode input admission = .failure failure consumed →
      failure.scope = .requestScoped →
      ∀ ext, decode (input ++ ext) admission = .failure failure consumed) ∧
    (∀ failure consumed, decode input admission = .failure failure consumed →
      failure.scope = .connectionFatal →
      ∀ ext, ∃ failure' consumed', decode (input ++ ext) admission = .failure failure' consumed' ∧
        failure'.cls = failure.cls ∧ failure'.scope = failure.scope) ∧
    (∀ n, decode input admission = .need n →
      input.length < n ∧
        ∀ ext, (input ++ ext).length < n → decode (input ++ ext) admission = .need n) ∧
    (∀ stream ext ext' input', input ++ ext = stream → input' ++ ext' = stream →
      ∀ v v', (decode input admission).settled = some v →
        (decode input' admission).settled = some v' → v = v') := by
  refine ⟨fun f h ext => ?_, fun failure consumed h hs ext => ?_,
    fun failure consumed h hs ext => ?_, fun n h => ⟨lt_of_decode_need h, fun ext hlt => ?_⟩,
    fun stream ext ext' input' he he' v v' hv hv' => ?_⟩
  · exact decode_append_frame ext h
  · rw [decode_append ext (by simp [h]), h, Step.extend, if_pos hs]
  · rw [decode_append ext (by simp [h]), h, Step.extend]
    exact ⟨failure, _, rfl, rfl, rfl⟩
  · exact decode_append_need h hlt
  · -- both verdicts are the verdict on the whole stream
    have h₁ := settled_append ext hv
    have h₂ := settled_append ext' hv'
    rw [he] at h₁
    rw [he', h₁] at h₂
    exact Option.some.inj h₂

end Rp1.Protocol

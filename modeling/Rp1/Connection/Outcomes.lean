import Rp1.Connection.Multiplex
import Rp1.Connection.Task

/-!
# Connection — what a waiter is told

Every outcome the driver sends, by where it comes from: a round of `drain_frames` that finds the
request named at the head of the buffer, the end of the session because of a fatal frame, or its
end for another reason.  `iterate_told` says that an iteration sends nothing else, and
`Told.genuine` what such an outcome can be: a frame its receiver will decode again, a refusal of
the request alone, or an error that goes with the end of the session.
-/

namespace Rp1.Connection
open Codec Protocol Loop

section Told
variable {σ : Type} {limits : Limits} {d d' d'' : Driver σ}

/-! ### Where outcomes come from -/

/-- Where an effect of an iteration on an event comes from. -/
inductive Told (limits : Limits) (d : Driver σ) : Event σ → Effect σ → Prop where
  /-- The head of the buffer names the request. -/
  | round (chunk : Bytes) (d₁ : Driver σ) (id : UInt64) (total : Nat)
      (outcome : Except DriverError Bytes) (sender : σ)
      (hp : Passes (drainIteration limits) (d.receive chunk) d₁)
      (hn : Names d₁.buffer (d₁.admission limits) id total outcome)
      (hw : d₁.completions.lookup id = some sender) :
      Told limits d (.read chunk) (.send id sender outcome)
  /-- The request waits when the buffer turns out to be fatal. -/
  | fatal (chunk : Bytes) (d₁ d₂ : Driver σ) (failure : Failure) (id : UInt64) (sender : σ)
      (hp : Passes (drainIteration limits) (d.receive chunk) d₁)
      (hr : drainIteration limits d₁ = (d₂, .leave (some failure)))
      (hw : (id, sender) ∈ d₁.waiting) :
      Told limits d (.read chunk) (.send id sender (.error (.connectionFatal failure)))
  /-- The session ends for a reason that is not in the buffer. -/
  | ended (e : Event σ) (id : UInt64) (sender : σ) (error : DriverError)
      (he : error = .transport ∨ error = .closed ∨ error = .unusable) :
      Told limits d e (.send id sender (.error error))
  /-- An effect that tells nobody; after a read it is part of giving the session up. -/
  | silent (e : Event σ) (x : Effect σ) (hx : x.sent = none)
      (hr : ∀ chunk, e = .read chunk → x = .mark .unusable ∨ x = .closeAdmission) :
      Told limits d e x

/-- From `d` to `d'` nothing is done but what `P` allows. -/
def Driver.Tells (P : Effect σ → Prop) (d d' : Driver σ) : Prop :=
  ∃ effects, d'.log = d.log ++ effects ∧ ∀ x ∈ effects, P x

variable {P : Effect σ → Prop}

theorem Driver.Tells.of_log (h : d'.log = d.log) : d.Tells P d' :=
  ⟨[], by rw [h, List.append_nil], fun _ hm => nomatch hm⟩

theorem Driver.Tells.trans (h : d.Tells P d') (h' : d'.Tells P d'') : d.Tells P d'' := by
  obtain ⟨xs, hxs, hx⟩ := h
  obtain ⟨ys, hys, hy⟩ := h'
  refine ⟨xs ++ ys, by rw [hys, hxs, List.append_assoc], fun x hm => ?_⟩
  rcases List.mem_append.mp hm with hm | hm
  · exact hx x hm
  · exact hy x hm

theorem Driver.Tells.emit (d : Driver σ) {effects : List (Effect σ)} (h : ∀ x ∈ effects, P x) :
    d.Tells P (d.emit effects) :=
  ⟨effects, rfl, h⟩

theorem Driver.Tells.failAll (d : Driver σ) {error : DriverError}
    (h : ∀ p ∈ d.waiting, P (.send p.1 p.2 (.error error))) : d.Tells P (d.failAll error) := by
  refine ⟨_, failAll_log d error, fun x hm => ?_⟩
  obtain ⟨p, hp, rfl⟩ := List.mem_map.mp hm
  exact h p hp

theorem Driver.Tells.fail (d : Driver σ) {error : DriverError} {next : ConnectionState}
    {exit : DriverExit} (h : ∀ p ∈ d.waiting, P (.send p.1 p.2 (.error error)))
    (hm : P (.mark next)) (hc : P .closeAdmission) : d.Tells P (d.fail error next exit).1 :=
  (Tells.failAll d h).trans
    (.emit _ (List.forall_mem_cons.mpr ⟨hm, List.forall_mem_singleton.mpr hc⟩))

theorem Driver.Tells.bottom (h : d.Tells P d') : d.Tells P d'.bottom.1 := by
  rw [Driver.bottom]
  split
  · exact h
  · exact h

/-- On the way through a drain each round tells one request. -/
theorem Driver.Tells.of_passes {chunk : Bytes}
    (h : Passes (drainIteration limits) (d.receive chunk) d') :
    d.Tells (Told limits d (.read chunk)) d' := by
  induction h with
  | start => exact .of_log rfl
  | round hp hb ih =>
      refine ih.trans ?_
      cases round hb with
      | resolves id total outcome sender hn hw =>
          exact ⟨[.send id sender outcome], rfl,
            List.forall_mem_singleton.mpr (.round chunk _ id total outcome sender hp hn hw)⟩

/-- **What an iteration does to the outside.** -/
theorem iterate_told (limits : Limits) (d : Driver σ) (e : Event σ) :
    d.Tells (Told limits d e) (iterate limits d e).1 := by
  -- an arm other than the read can do anything that tells nobody
  have silent : (∀ chunk, e ≠ .read chunk) → ∀ {x : Effect σ}, x.sent = none →
      Told limits d e x := fun he x hx => .silent _ _ hx fun chunk h => absurd h (he chunk)
  have fails : ∀ {d' : Driver σ} {error : DriverError},
      (error = .transport ∨ error = .closed ∨ error = .unusable) →
      ∀ p ∈ d'.waiting, Told limits d e (.send p.1 p.2 (.error error)) :=
    fun he p _ => .ended _ p.1 p.2 _ he
  have hit := iteration limits d e
  generalize iterate limits d e = r at hit ⊢
  cases hit with
  | closed =>
      refine (Driver.Tells.failAll d (fails (.inr (.inl rfl)))).trans (.emit _ fun x hm => ?_)
      exact silent (fun _ e => nomatch e) (by fin_cases hm <;> rfl)
  | shutdownFailed =>
      refine (Driver.Tells.failAll d (fails (.inr (.inl rfl)))).trans (.emit _ fun x hm => ?_)
      exact silent (fun _ e => nomatch e) (by fin_cases hm <;> rfl)
  | refused s writes =>
      refine (Driver.Tells.emit d (List.forall_mem_singleton.mpr
        (.ended _ s.id s.completion _ (.inr (.inr rfl))))).trans ?_
      exact .fail _ (fails (.inr (.inr rfl))) (silent (fun _ e => nomatch e) rfl)
        (silent (fun _ e => nomatch e) rfl)
  | written s writes live hi =>
      exact .bottom ⟨[.write (writeAll writes s.bytes).1], rfl,
        List.forall_mem_singleton.mpr (silent (fun _ e => nomatch e) rfl)⟩
  | writeFailed s writes live hi =>
      have hwrite : d.Tells (Told limits d (.submit s writes)) (d.admitted s live writes) :=
        ⟨[.write (writeAll writes s.bytes).1], rfl,
          List.forall_mem_singleton.mpr (silent (fun _ e => nomatch e) rfl)⟩
      exact hwrite.trans (.fail _ (fails (.inl rfl)) (silent (fun _ e => nomatch e) rfl)
        (silent (fun _ e => nomatch e) rfl))
  | submitClosed => exact .bottom (.of_log rfl)
  | idle => exact .bottom (.of_log rfl)
  | lost =>
      exact .fail d (fails (.inl rfl)) (silent (fun _ e => nomatch e) rfl)
        (silent (fun _ e => nomatch e) rfl)
  | fatal chunk d' failure hd =>
      obtain ⟨d₁, hp, hr⟩ := (drainIteration_shrinks limits).exists_passes _ _ _ hd
      have hsame : d'.log = d₁.log ∧ d'.waiting = d₁.waiting := by
        cases round hr with
        | fatal => exact ⟨rfl, rfl⟩
        | unknown => exact ⟨rfl, rfl⟩
      refine ((Driver.Tells.of_passes hp).trans (.of_log hsame.1)).trans (.fail d' (fun p hw => ?_)
        (.silent _ _ rfl fun _ _ => .inl rfl) (.silent _ _ rfl fun _ _ => .inr rfl))
      exact .fatal chunk d₁ d' failure p.1 p.2 hp hr (hsame.2 ▸ hw)
  | drained chunk d' hd =>
      obtain ⟨d₁, hp, hr⟩ := (drainIteration_shrinks limits).exists_passes _ _ _ hd
      have hsame : d'.log = d₁.log := by
        cases round hr with
        | waits => rfl
      exact .bottom ((Driver.Tells.of_passes hp).trans (.of_log hsame))

/-- What the driver has still to do after an iteration. -/
theorem Task.told_of_select {t t' : Task σ} {e : Event σ} (h : t.select limits e = some t') :
    ∀ x ∈ t'.pending, Told limits t.driver e x := by
  obtain ⟨effects, hlog, hall⟩ := iterate_told limits t.driver e
  rw [Task.pending_of_select h hlog]
  exact hall

/-- A fatal buffer fails the session. -/
theorem iterate_of_fatal {chunk : Bytes} {failure : Failure}
    (hp : Passes (drainIteration limits) (d.receive chunk) d')
    (hr : drainIteration limits d' = (d'', .leave (some failure))) :
    iterate limits d (.read chunk) = d''.fail (.connectionFatal failure) .unusable .unusable := by
  have hd : drainFrames limits (d.receive chunk) = (d'', some failure) := by
    rw [drainFrames, (drainIteration_shrinks limits).run_eq_of_passes hp, run_leave hr]
  rw [iterate, hd]

/-! ### What outcomes can be -/

/-- An outcome a waiter can be told. -/
inductive Genuine (limits : Limits) : Except DriverError Bytes → Prop where
  | frame (f : Frame)
      (h : f.Legal ⟨.client, .negotiated, limits, [f.header.requestId.value]⟩) :
      Genuine limits (.ok f.bytes)
  | refused (failure : Failure) (h : failure = .unsupportedOperation ∨ failure = .invalidArgument) :
      Genuine limits (.error (.requestFailed failure))
  | fatal (failure : Failure) (h : failure.Fatal) :
      Genuine limits (.error (.connectionFatal failure))
  | ended (error : DriverError) (h : error = .transport ∨ error = .closed ∨ error = .unusable) :
      Genuine limits (.error error)

theorem Names.genuine {buffer : Bytes} {inFlight : List UInt64} {id : UInt64} {total : Nat}
    {outcome : Except DriverError Bytes}
    (h : Names buffer ⟨.client, .negotiated, limits, inFlight⟩ id total outcome) :
    Genuine limits outcome := by
  cases h with
  | frame f hf => exact .frame f (legal_alone (decode_eq_frame_iff.mp hf).1)
  | refused raw failure hp hf hs hl =>
      rcases decode_failure hf with hfatal | hreq
      · exact absurd (hfatal.scope.symm.trans hs) (by decide)
      · exact .refused failure hreq

/-- A drain that ends the session does so with a fatal failure. -/
theorem fatal_of_leave {failure : Failure}
    (h : drainIteration limits d = (d', .leave (some failure))) : failure.Fatal := by
  cases round h with
  | fatal _ n hf hs =>
      rcases decode_failure hf with hfatal | rfl | rfl
      · exact hfatal
      · exact absurd rfl hs
      · exact absurd rfl hs
  | unknown => exact ⟨rfl, rfl⟩

/-- **Whatever a waiter is told is genuine.** -/
theorem Told.genuine {e : Event σ} {id : UInt64} {sender : σ} {outcome : Except DriverError Bytes}
    (h : Told limits d e (.send id sender outcome)) : Genuine limits outcome := by
  cases h with
  | round chunk d₁ _ total _ _ hp hn hw => exact hn.genuine
  | fatal chunk d₁ d₂ failure _ _ hp hr hw => exact .fatal failure (fatal_of_leave hr)
  | ended _ _ _ error he => exact .ended error he
  | silent _ _ hx => cases hx

end Told

end Rp1.Connection

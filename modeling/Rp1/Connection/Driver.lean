import Rp1.Connection.Chunking

/-!
# Connection — `run_driver`

One iteration of the loop in `run_driver`, as a function of the event its `select!` yields.  An
event carries the answers of the transport that the chosen arm waits for: how many bytes each
write accepts before the transport fails, and whether its shutdown succeeds.

What an iteration does to the outside stands in the log in program order.  `iterate_ends` says once
what an iteration can append to it and how it ends.
-/

namespace Rp1.Connection
open Codec Protocol Loop

/-! ### The functions -/

/-- How the driver task ended. -/
inductive DriverExit where
  | closed
  | failed
  | unusable
deriving DecidableEq, Repr

/-- One submission a caller hands to the driver. -/
structure Submit (σ : Type) where
  id : UInt64
  bytes : Bytes
  completion : σ
deriving DecidableEq, Repr

/-- What the `select!` of one iteration yields. -/
inductive Event (σ : Type) where
  /-- The shutdown signal; `ok` is the answer of `transport.shutdown()`. -/
  | shutdown (ok : Bool)
  /-- A submission; the transport accepts these numbers of bytes and then fails. -/
  | submit (submit : Submit σ) (writes : List Nat)
  /-- The submit channel is closed: no handle is left. -/
  | submitClosed
  /-- A read error or the end of the stream. -/
  | readFailed
  | read (chunk : Bytes)
deriving DecidableEq, Repr

/-- How the loop of the driver is left. -/
inductive Leave where
  | returned (exit : DriverExit)
  | broke
deriving DecidableEq, Repr

/-- The value of the driver task. -/
def Leave.exit : Leave → DriverExit
  | .returned exit => exit
  | .broke => .closed

/-- The loop of `write_all` from `offset` on: the bytes the transport accepts, and whether all of
them were written. -/
def writeAllFrom (bytes : Bytes) : Nat → List Nat → Bytes × Bool
  | offset, [] => ([], !decide (offset < bytes.length))
  | offset, written :: writes =>
      if offset < bytes.length then
        if written = 0 then ([], false)
        else
          match checkedAdd usizeMax offset written with
          | none => ((bytes.drop offset).take written, false)
          | some next =>
              let rest := writeAllFrom bytes next writes
              ((bytes.drop offset).take written ++ rest.1, rest.2)
      else ([], true)

/-- `write_all`: every byte of `bytes`, tolerating short writes. -/
def writeAll (writes : List Nat) (bytes : Bytes) : Bytes × Bool := writeAllFrom bytes 0 writes

/-- `READ_CHUNK`: the most bytes one read may move. -/
def readChunkSize : Nat := 4096

/-- `read_chunk`: the transport has written into `chunk` and reports `read` bytes, or an error. -/
def readChunk {σ : Type} (chunk : { bytes : Bytes // bytes.length = readChunkSize }) :
    Option Nat → Event σ
  | none => .readFailed
  | some 0 => .readFailed
  | some (n + 1) => .read ((getTo chunk.1 (n + 1)).getD [])

section Functions
variable {σ : Type}

def Driver.new : Driver σ := ⟨[], ∅, .new, false, []⟩

def Driver.emit (d : Driver σ) (effects : List (Effect σ)) : Driver σ :=
  { d with log := d.log ++ effects }

/-- One round of the loop in `fail_all`. -/
def Driver.failOne (error : DriverError) (d : Driver σ) (id : UInt64) : Driver σ :=
  let d :=
    match d.completions.lookup id with
    | some sender =>
        { d with completions := d.completions.erase id }.emit [.send id sender (.error error)]
    | none => d
  { d with live := (d.live.retire id).1 }

/-- `fail_all`: every pending waiter gets `error`, and its id is released. -/
def Driver.failAll (d : Driver σ) (error : DriverError) : Driver σ :=
  d.completions.keys.foldl (Driver.failOne error) d

/-- The common end of the arms that fail the session. -/
def Driver.fail (d : Driver σ) (error : DriverError) (next : ConnectionState) (exit : DriverExit) :
    Driver σ × Flow Leave :=
  ((d.failAll error).emit [.mark next, .closeAdmission], .leave (.returned exit))

/-- `submit_closed && completions.is_empty()`. -/
def Driver.finished (d : Driver σ) : Bool := d.submitClosed && d.completions.entries.isEmpty

/-- The check at the bottom of the loop. -/
def Driver.bottom (d : Driver σ) : Driver σ × Flow Leave :=
  if d.finished then (d, .leave .broke) else (d, .again)

/-- One iteration of the loop in `run_driver`. -/
def iterate (limits : Limits) (d : Driver σ) : Event σ → Driver σ × Flow Leave
  | .shutdown ok =>
      let d := (d.failAll .closed).emit [.mark .closed, .closeAdmission, .shutdown ok]
      if ok then (d, .leave (.returned .closed))
      else (d.emit [.mark .failed], .leave (.returned .failed))
  | .submit submit writes =>
      match d.live.insert submit.id with
      | .error _ =>
          (d.emit [.send submit.id submit.completion (.error .unusable)]).fail .unusable
            .unusable .unusable
      | .ok live =>
          let d := { d with live, completions := d.completions.insert submit.id submit.completion }
          let written := writeAll writes submit.bytes
          let d := d.emit [.write written.1]
          if written.2 then d.bottom else d.fail .transport .failed .failed
  | .submitClosed =>
      let d := { d with submitClosed := true }
      if d.completions.entries.isEmpty then (d, .leave .broke) else d.bottom
  | .readFailed =>
      if d.completions.entries.isEmpty && d.submitClosed then (d, .leave .broke)
      else if d.completions.entries.isEmpty then (d, .again)
      else d.fail .transport .failed .failed
  | .read chunk =>
      match drainFrames limits (d.receive chunk) with
      | (d, some failure) => d.fail (.connectionFatal failure) .unusable .unusable
      | (d, none) => if d.finished then (d, .leave .broke) else d.bottom

end Functions

/-! ### One iteration, case by case -/

section Iteration
variable {σ : Type}

/-- The driver after a submission was admitted and written as far as the transport took it. -/
def Driver.admitted (d : Driver σ) (s : Submit σ) (live : InFlightRegistry) (writes : List Nat) :
    Driver σ :=
  { d with live, completions := d.completions.insert s.id s.completion }.emit
    [.write (writeAll writes s.bytes).1]

/-- One iteration of `run_driver`, by the arm it takes. -/
inductive Iteration (limits : Limits) (d : Driver σ) :
    Event σ → Driver σ × Flow Leave → Prop where
  | closed : Iteration limits d (.shutdown true)
      ((d.failAll .closed).emit [.mark .closed, .closeAdmission, .shutdown true],
        .leave (.returned .closed))
  | shutdownFailed : Iteration limits d (.shutdown false)
      ((d.failAll .closed).emit [.mark .closed, .closeAdmission, .shutdown false, .mark .failed],
        .leave (.returned .failed))
  | refused (s : Submit σ) (writes : List Nat) :
      Iteration limits d (.submit s writes)
        ((d.emit [.send s.id s.completion (.error .unusable)]).fail .unusable .unusable .unusable)
  | written (s : Submit σ) (writes : List Nat) (live : InFlightRegistry)
      (hi : d.live.insert s.id = .ok live) :
      Iteration limits d (.submit s writes) (d.admitted s live writes).bottom
  | writeFailed (s : Submit σ) (writes : List Nat) (live : InFlightRegistry)
      (hi : d.live.insert s.id = .ok live) :
      Iteration limits d (.submit s writes)
        ((d.admitted s live writes).fail .transport .failed .failed)
  | submitClosed : Iteration limits d .submitClosed (Driver.bottom { d with submitClosed := true })
  | idle : Iteration limits d .readFailed d.bottom
  | lost : Iteration limits d .readFailed (d.fail .transport .failed .failed)
  | fatal (chunk : Bytes) (d' : Driver σ) (failure : Failure)
      (hd : drainFrames limits (d.receive chunk) = (d', some failure)) :
      Iteration limits d (.read chunk) (d'.fail (.connectionFatal failure) .unusable .unusable)
  | drained (chunk : Bytes) (d' : Driver σ)
      (hd : drainFrames limits (d.receive chunk) = (d', none)) :
      Iteration limits d (.read chunk) d'.bottom

/-- **Every iteration is one of these.**  The checks for the end of the loop inside the arms say
no more than the one at its bottom. -/
theorem iteration (limits : Limits) (d : Driver σ) (e : Event σ) :
    Iteration limits d e (iterate limits d e) := by
  cases e with
  | shutdown ok =>
      cases ok with
      | true => exact .closed
      | false =>
          have h : ((d.failAll .closed).emit [.mark .closed, .closeAdmission,
              .shutdown false]).emit [.mark .failed] = (d.failAll .closed).emit
                [.mark .closed, .closeAdmission, .shutdown false, .mark .failed] := by
            simp only [Driver.emit, List.append_assoc, List.cons_append, List.nil_append]
          show Iteration limits d _ (_, _)
          rw [h]
          exact .shutdownFailed
  | submit s writes =>
      rw [iterate]
      cases hi : d.live.insert s.id with
      | error reason => exact .refused s writes
      | ok live =>
          by_cases hw : (writeAll writes s.bytes).2 = true
          · simp only [if_pos hw]
            exact .written s writes live hi
          · simp only [if_neg hw]
            exact .writeFailed s writes live hi
  | submitClosed =>
      -- the `break` of this arm and the one at the bottom ask the same question
      have h : iterate limits d .submitClosed = Driver.bottom { d with submitClosed := true } := by
        by_cases he : d.completions.entries.isEmpty = true <;>
          simp [iterate, Driver.bottom, Driver.finished, he]
      rw [h]
      exact .submitClosed
  | readFailed =>
      rw [iterate]
      by_cases he : d.completions.entries.isEmpty = true
      · have h : (if (d.completions.entries.isEmpty && d.submitClosed) = true then
            (d, .leave .broke) else if d.completions.entries.isEmpty = true then (d, .again)
            else d.fail .transport .failed .failed) = d.bottom := by
          simp [Driver.bottom, Driver.finished, he]
        rw [h]
        exact .idle
      · have hb : ¬ (d.completions.entries.isEmpty && d.submitClosed) = true := by simp [he]
        rw [if_neg hb, if_neg he]
        exact .lost
  | read chunk =>
      rw [iterate]
      cases hd : drainFrames limits (d.receive chunk) with
      | mk d' o =>
          cases o with
          | some failure => exact .fatal chunk d' failure hd
          | none =>
              have h : (if d'.finished = true then (d', .leave .broke) else d'.bottom) =
                  d'.bottom := by
                by_cases hf : d'.finished = true <;> simp [Driver.bottom, hf]
              simp only [h]
              exact .drained chunk d' hd

end Iteration

/-! ### What an iteration does to the outside -/

/-- An effect that touches neither the state shared with the handles nor the life of the
transport. -/
def Effect.quiet {σ : Type} : Effect σ → Bool
  | .send .. | .write _ => true
  | .mark _ | .closeAdmission | .shutdown _ => false

section Outside
variable {σ : Type} {d d' d'' : Driver σ}

/-- From `d` to `d'` nothing but quiet effects, with the submit channel as it was. -/
structure Driver.Quietly (d d' : Driver σ) : Prop where
  log : ∃ effects, d'.log = d.log ++ effects ∧ ∀ x ∈ effects, x.quiet = true
  submitClosed : d'.submitClosed = d.submitClosed

theorem Driver.Quietly.of_log (h : d'.log = d.log) (hs : d'.submitClosed = d.submitClosed) :
    d.Quietly d' :=
  ⟨⟨[], by rw [h, List.append_nil], fun _ hx => nomatch hx⟩, hs⟩

theorem Driver.Quietly.emit (d : Driver σ) {effects : List (Effect σ)}
    (hq : ∀ x ∈ effects, x.quiet = true) : d.Quietly (d.emit effects) :=
  ⟨⟨effects, rfl, hq⟩, rfl⟩

theorem Driver.Quietly.trans (h : d.Quietly d') (h' : d'.Quietly d'') : d.Quietly d'' := by
  obtain ⟨⟨xs, hxs, hq⟩, hs⟩ := h
  obtain ⟨⟨ys, hys, hq'⟩, hs'⟩ := h'
  refine ⟨⟨xs ++ ys, by rw [hys, hxs, List.append_assoc], fun x hx => ?_⟩, hs'.trans hs⟩
  rcases List.mem_append.mp hx with hx | hx
  · exact hq x hx
  · exact hq' x hx

theorem Driver.Quietly.failOne (error : DriverError) (d : Driver σ) (id : UInt64) :
    d.Quietly (d.failOne error id) := by
  rw [Driver.failOne]
  cases d.completions.lookup id with
  | none => exact .of_log rfl rfl
  | some sender =>
      exact ⟨⟨[.send id sender (.error error)], rfl,
        fun x hx => List.mem_singleton.mp hx ▸ rfl⟩, rfl⟩

theorem Driver.Quietly.failAll (d : Driver σ) (error : DriverError) :
    d.Quietly (d.failAll error) := by
  have loop : ∀ (ids : List UInt64) (d : Driver σ),
      d.Quietly (ids.foldl (Driver.failOne error) d) := by
    intro ids
    induction ids with
    | nil => intro d; exact .of_log rfl rfl
    | cons id ids ih => intro d; exact (failOne error d id).trans (ih _)
  exact loop _ d

theorem Driver.Quietly.drainFrames (limits : Limits) (d : Driver σ) :
    d.Quietly (drainFrames limits d).1 := by
  refine (drainIteration_shrinks limits).run_invariant (I := d.Quietly) (fun d' h => ?_) d
    (.of_log rfl rfl)
  refine h.trans ?_
  cases hr : drainIteration limits d' with
  | mk d'' flow =>
      cases round hr with
      | waits => exact .of_log rfl rfl
      | fatal => exact .of_log rfl rfl
      | unknown => exact .of_log rfl rfl
      | resolves id total outcome sender =>
          exact ⟨⟨[.send id sender outcome], rfl, fun x hx => List.mem_singleton.mp hx ▸ rfl⟩, rfl⟩

/-- What an iteration does to the shared state, at its end: nothing while the loop goes on or is
broken off because no handle is left, and the marks of the arm when the driver returns. -/
inductive Ending : Event σ → Bool → Flow Leave → List (Effect σ) → Prop where
  | again (e : Event σ) (submitClosed : Bool) : Ending e submitClosed .again []
  | broke (e : Event σ) : Ending e true (.leave .broke) []
  | closed (submitClosed : Bool) :
      Ending (.shutdown true) submitClosed (.leave (.returned .closed))
        [.mark .closed, .closeAdmission, .shutdown true]
  | shutdownFailed (submitClosed : Bool) :
      Ending (.shutdown false) submitClosed (.leave (.returned .failed))
        [.mark .closed, .closeAdmission, .shutdown false, .mark .failed]
  | failed (e : Event σ) (he : ∀ ok, e ≠ .shutdown ok) (submitClosed : Bool) :
      Ending e submitClosed (.leave (.returned .failed)) [.mark .failed, .closeAdmission]
  | unusable (e : Event σ) (he : ∀ ok, e ≠ .shutdown ok) (submitClosed : Bool) :
      Ending e submitClosed (.leave (.returned .unusable)) [.mark .unusable, .closeAdmission]

/-- An iteration on `e` has led from `d` to `r`: quiet effects, and then an ending. -/
structure Ends (d : Driver σ) (e : Event σ) (r : Driver σ × Flow Leave) : Prop where
  log : ∃ effects tail, r.1.log = d.log ++ (effects ++ tail) ∧
    (∀ x ∈ effects, x.quiet = true) ∧ Ending e r.1.submitClosed r.2 tail
  submitClosed : e ≠ .submitClosed → r.1.submitClosed = d.submitClosed

theorem Ends.quietly {e : Event σ} {flow : Flow Leave} (h : d.Quietly d')
    (he : Ending e d'.submitClosed flow []) : Ends d e (d', flow) := by
  obtain ⟨⟨effects, hlog, hq⟩, hs⟩ := h
  exact ⟨⟨effects, [], by rw [hlog, List.append_nil], hq, he⟩, fun _ => hs⟩

theorem Ends.emit {e : Event σ} {flow : Flow Leave} {tail : List (Effect σ)} (h : d.Quietly d')
    (he : Ending e d'.submitClosed flow tail) : Ends d e (d'.emit tail, flow) := by
  obtain ⟨⟨effects, hlog, hq⟩, hs⟩ := h
  refine ⟨⟨effects, tail, ?_, hq, he⟩, fun _ => hs⟩
  rw [Driver.emit, hlog, List.append_assoc]

theorem Ends.fail {e : Event σ} {error : DriverError} {next : ConnectionState}
    {exit : DriverExit} (h : d.Quietly d')
    (he : ∀ b, Ending e b (.leave (.returned exit)) [.mark next, .closeAdmission]) :
    Ends d e (d'.fail error next exit) :=
  .emit (h.trans (.failAll d' error)) (he _)

theorem Ends.bottom (e : Event σ) (h : d.Quietly d') : Ends d e d'.bottom := by
  rw [Driver.bottom]
  by_cases hf : d'.finished = true
  · rw [if_pos hf]
    rw [Driver.finished, Bool.and_eq_true] at hf
    exact .quietly h (hf.1 ▸ .broke e)
  · rw [if_neg hf]
    exact .quietly h (.again e _)

/-- **What an iteration can do to the outside.** -/
theorem iterate_ends (limits : Limits) (d : Driver σ) (e : Event σ) :
    Ends d e (iterate limits d e) := by
  have hself : d.Quietly d := .of_log rfl rfl
  have hwrite : ∀ s live writes, d.Quietly (d.admitted s live writes) := fun s live writes =>
    ⟨⟨[.write (writeAll writes s.bytes).1], rfl, fun x hx => List.mem_singleton.mp hx ▸ rfl⟩, rfl⟩
  have hrecv : ∀ chunk, d.Quietly (d.receive chunk) := fun _ => .of_log rfl rfl
  have hdrain : ∀ chunk, d.Quietly (drainFrames limits (d.receive chunk)).1 := fun chunk =>
    (hrecv chunk).trans (.drainFrames limits (d.receive chunk))
  have hit := iteration limits d e
  generalize iterate limits d e = r at hit ⊢
  cases hit with
  | closed => exact .emit (.failAll d .closed) (.closed _)
  | shutdownFailed => exact .emit (.failAll d .closed) (.shutdownFailed _)
  | refused s writes =>
      exact .fail (.emit d fun x hx => List.mem_singleton.mp hx ▸ rfl)
        (.unusable _ fun _ e => nomatch e)
  | written s writes live hi => exact .bottom _ (hwrite s live writes)
  | writeFailed s writes live hi =>
      exact .fail (hwrite s live writes) (.failed _ fun _ e => nomatch e)
  | submitClosed =>
      have hc : Driver.Quietly { d with submitClosed := true } { d with submitClosed := true } :=
        .of_log rfl rfl
      exact ⟨(Ends.bottom .submitClosed hc).log, fun h => absurd rfl h⟩
  | idle => exact .bottom _ hself
  | lost => exact .fail hself (.failed _ fun _ e => nomatch e)
  | fatal chunk d' failure hd =>
      have hq := hdrain chunk
      rw [hd] at hq
      exact .fail hq (.unusable _ fun _ e => nomatch e)
  | drained chunk d' hd =>
      have hq := hdrain chunk
      rw [hd] at hq
      exact .bottom _ hq

end Outside

end Rp1.Connection

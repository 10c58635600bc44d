import Rp1.Connection.Driver

/-!
# Connection — no request is lost and none is answered twice

The books of the driver.  A submission the driver received is either still in the waiter table or
its sender has been used up, once: `Ledger received d` says that the senders received are, up to
order, those sent so far and those waiting, and that the live set names exactly the waiters.

Every step that touches the tables keeps the ledger, `Ledger.iterate` says so of an iteration, and
`iterate_leaves` that the driver never leaves its loop with a waiter.
-/

namespace Rp1.Connection
open Codec Protocol Loop

/-- The sender an effect uses up, with the request it was for. -/
def Effect.sent {σ : Type} : Effect σ → Option (UInt64 × σ)
  | .send id completion _ => some (id, completion)
  | .mark _ | .closeAdmission | .write _ | .shutdown _ => none

/-- The submission an event brings. -/
def Event.received {σ : Type} : Event σ → List (UInt64 × σ)
  | .submit s _ => [(s.id, s.completion)]
  | .shutdown _ | .submitClosed | .readFailed | .read _ => []

section Ledger
variable {σ : Type}

/-- The senders used up so far. -/
def Driver.sent (d : Driver σ) : List (UInt64 × σ) := d.log.filterMap Effect.sent

/-- The senders that still wait. -/
def Driver.waiting (d : Driver σ) : List (UInt64 × σ) :=
  d.completions.entries.map fun e => (e.1, e.2)

structure Ledger (received : List (UInt64 × σ)) (d : Driver σ) : Prop where
  synced : ∀ id, id ∈ d.completions ↔ id ∈ d.live
  nonzero : 0 ∉ d.live
  balanced : received.Perm (d.sent ++ d.waiting)

variable {received : List (UInt64 × σ)} {d : Driver σ}

theorem Ledger.new : Ledger ([] : List (UInt64 × σ)) .new :=
  ⟨fun _ => .rfl, List.not_mem_nil, .refl _⟩

/-- The books do not depend on the buffer and the submit channel. -/
theorem Ledger.frame (h : Ledger received d) (buffer : Bytes) (submitClosed : Bool) :
    Ledger received { d with buffer, submitClosed } :=
  ⟨h.synced, h.nonzero, h.balanced⟩

/-- Nor on effects that use up no sender. -/
theorem Ledger.emit (h : Ledger received d) {effects : List (Effect σ)}
    (he : effects.filterMap Effect.sent = []) : Ledger received (d.emit effects) := by
  refine ⟨h.synced, h.nonzero, ?_⟩
  have hsent : (d.emit effects).sent = d.sent := by
    rw [Driver.sent, Driver.emit, List.filterMap_append, he, List.append_nil, Driver.sent]
  rw [hsent]
  exact h.balanced

/-- A waiter that gets its outcome moves from one side of the books to the other. -/
theorem Ledger.resolved (h : Ledger received d) {id : UInt64} {sender : σ}
    (hw : d.completions.lookup id = some sender) (total : Nat)
    (outcome : Except DriverError Bytes) :
    Ledger received (d.resolved id sender total outcome) := by
  refine ⟨fun id' => ?_, fun h₀ => h.nonzero (InFlightRegistry.mem_retire.mp h₀).2, ?_⟩
  · have hsync : (id' ≠ id ∧ id' ∈ d.completions) ↔ (id' ≠ id ∧ id' ∈ d.live) := by
      rw [h.synced]
    exact AList.mem_erase.trans (hsync.trans InFlightRegistry.mem_retire.symm)
  · have hsent : (d.resolved id sender total outcome).sent = d.sent ++ [(id, sender)] := by
      rw [Driver.sent, Driver.resolved, List.filterMap_append]
      rfl
    have hwait : d.waiting.Perm ((id, sender) :: (d.resolved id sender total outcome).waiting) :=
      (Waiters.entries_perm hw).map fun e : (_ : UInt64) × σ => (e.1, e.2)
    rw [hsent, List.append_assoc]
    exact h.balanced.trans (hwait.append_left _)

/-- Draining keeps the books. -/
theorem Ledger.drainFrames (limits : Limits) (h : Ledger received d) :
    Ledger received (drainFrames limits d).1 := by
  refine (drainIteration_shrinks limits).run_invariant (I := Ledger received)
    (fun d h => ?_) d h
  cases hr : drainIteration limits d with
  | mk d' flow =>
      cases round hr with
      | waits => exact h
      | fatal => exact h
      | unknown id total => exact h.frame _ _
      | resolves id total outcome sender hn hw => exact h.resolved hw total outcome

/-! ### `fail_all` -/

theorem Ledger.failOne (error : DriverError) (h : Ledger received d) (id : UInt64) :
    Ledger received (d.failOne error id) := by
  rw [Driver.failOne]
  cases hw : d.completions.lookup id with
  | some sender => exact (h.resolved hw 0 (.error error)).frame _ _
  | none =>
      -- an id without a waiter is not live, so retiring it does nothing
      have hid : id ∉ d.live := fun hl => AList.lookup_eq_none.mp hw ((h.synced id).mpr hl)
      refine ⟨fun id' => ?_, fun h₀ => h.nonzero (InFlightRegistry.mem_retire.mp h₀).2, h.balanced⟩
      show id' ∈ d.completions ↔ id' ∈ (d.live.retire id).1
      rw [h.synced, InFlightRegistry.mem_retire]
      exact ⟨fun hl => ⟨fun e => hid (e ▸ hl), hl⟩, And.right⟩

theorem mem_failOne {error : DriverError} {id id' : UInt64} :
    id' ∈ (d.failOne error id).completions ↔ id' ≠ id ∧ id' ∈ d.completions := by
  rw [Driver.failOne]
  cases hw : d.completions.lookup id with
  | some sender => exact AList.mem_erase
  | none =>
      have hid : id ∉ d.completions := AList.lookup_eq_none.mp hw
      exact ⟨fun h => ⟨fun e => hid (e ▸ h), h⟩, And.right⟩

theorem mem_failOne_foldl {error : DriverError} {ids : List UInt64} {id' : UInt64} :
    id' ∈ (ids.foldl (Driver.failOne error) d).completions ↔ id' ∉ ids ∧ id' ∈ d.completions := by
  induction ids generalizing d with
  | nil => exact ⟨fun h => ⟨List.not_mem_nil, h⟩, And.right⟩
  | cons id ids ih =>
      rw [List.foldl_cons, ih, mem_failOne, List.mem_cons, not_or]
      tauto

theorem failAll_completions (d : Driver σ) (error : DriverError) :
    (d.failAll error).completions = ∅ := by
  refine Waiters.eq_empty_of_forall_notMem fun id h => ?_
  obtain ⟨hn, hm⟩ := mem_failOne_foldl.mp h
  exact hn hm

/-- `fail_all` sends one error to each waiter, in the order of the table. -/
theorem failAll_log (d : Driver σ) (error : DriverError) :
    (d.failAll error).log = d.log ++ d.waiting.map fun p => .send p.1 p.2 (.error error) := by
  -- on the entries of the table; the id at the head finds its own waiter and takes it out
  have loop : ∀ (es : List ((_ : UInt64) × σ)) (d : Driver σ), d.completions.entries = es →
      ((es.map Sigma.fst).foldl (Driver.failOne error) d).log =
        d.log ++ es.map fun e => .send e.1 e.2 (.error error) := by
    intro es
    induction es with
    | nil => intro d _; exact (List.append_nil _).symm
    | cons e es ih =>
        intro d hes
        have hw : d.completions.lookup e.1 = some e.2 := by
          rw [AList.lookup, hes]
          exact List.dlookup_cons_eq es e.1 e.2
        have hrest : (d.failOne error e.1).completions.entries = es := by
          rw [Driver.failOne, hw]
          show d.completions.entries.kerase e.1 = es
          rw [hes, List.kerase_cons_eq rfl]
        have hlog : (d.failOne error e.1).log = d.log ++ [.send e.1 e.2 (.error error)] := by
          rw [Driver.failOne, hw]
          rfl
        rw [List.map_cons, List.foldl_cons, ih _ hrest, hlog, List.append_assoc]
        rfl
  rw [Driver.failAll, Driver.waiting, List.map_map]
  exact loop _ d rfl

theorem Ledger.failAll (error : DriverError) (h : Ledger received d) :
    Ledger received (d.failAll error) := by
  -- `fail_all` collects the ids first, so the loop runs over a fixed list
  have loop : ∀ (ids : List UInt64) {d : Driver σ}, Ledger received d →
      Ledger received (ids.foldl (Driver.failOne error) d) := by
    intro ids
    induction ids with
    | nil => intro d h; exact h
    | cons id ids ih => intro d h; exact ih (h.failOne error id)
  exact loop _ h

/-! ### The loop of the driver -/

theorem Ledger.fail (h : Ledger received d) (error : DriverError) (next : ConnectionState)
    (exit : DriverExit) : Ledger received (d.fail error next exit).1 :=
  (h.failAll error).emit rfl

/-- A submission that the live set admits is a new waiter. -/
theorem Ledger.enter (h : Ledger received d) {s : Submit σ} {live : InFlightRegistry}
    (hi : d.live.insert s.id = .ok live) :
    Ledger (received ++ [(s.id, s.completion)])
      { d with live, completions := d.completions.insert s.id s.completion } := by
  obtain ⟨h₀, hid, hlive⟩ := InFlightRegistry.insert_eq_ok_iff.mp hi
  have hmem : ∀ id', id' ∈ live ↔ id' = s.id ∨ id' ∈ d.live := fun id' => by
    show id' ∈ live.live ↔ _
    rw [hlive]
    exact List.mem_cons
  have hnew : s.id ∉ d.completions := fun hm => hid ((h.synced _).mp hm)
  refine ⟨fun id' => ?_, fun hz => ?_, ?_⟩
  · show id' ∈ d.completions.insert s.id s.completion ↔ id' ∈ live
    rw [AList.mem_insert, hmem, h.synced]
  · rcases (hmem 0).mp hz with e | hz
    · exact h₀ e.symm
    · exact h.nonzero hz
  · have hwait : Driver.waiting
        { d with live, completions := d.completions.insert s.id s.completion } =
          (s.id, s.completion) :: d.waiting := by
      rw [Driver.waiting, AList.entries_insert_of_notMem hnew]
      rfl
    rw [hwait]
    refine (h.balanced.append_right _).trans ?_
    rw [List.append_assoc]
    exact List.perm_append_comm.append_left d.sent

/-- A submission that the live set refuses is answered at once. -/
theorem Ledger.refuse (h : Ledger received d) (s : Submit σ) (error : DriverError) :
    Ledger (received ++ [(s.id, s.completion)])
      (d.emit [.send s.id s.completion (.error error)]) := by
  refine ⟨h.synced, h.nonzero, ?_⟩
  have hsent : (d.emit [.send s.id s.completion (.error error)]).sent =
      d.sent ++ [(s.id, s.completion)] := by
    rw [Driver.sent, Driver.emit, List.filterMap_append]
    rfl
  rw [hsent]
  refine (h.balanced.append_right _).trans ?_
  rw [List.append_assoc, List.append_assoc]
  exact List.perm_append_comm.append_left d.sent

theorem Ledger.bottom (h : Ledger received d) : Ledger received d.bottom.1 := by
  rw [Driver.bottom]
  by_cases hf : d.finished = true
  · rw [if_pos hf]
    exact h
  · rw [if_neg hf]
    exact h

/-- **An iteration keeps the books.** -/
theorem Ledger.iterate (limits : Limits) (h : Ledger received d) (e : Event σ) :
    Ledger (received ++ e.received) (iterate limits d e).1 := by
  have hentered : ∀ {s : Submit σ} {live} writes, d.live.insert s.id = .ok live →
      Ledger (received ++ [(s.id, s.completion)]) (d.admitted s live writes) :=
    fun writes hi => (h.enter hi).emit rfl
  have hdrain : ∀ chunk, Ledger received (Connection.drainFrames limits (d.receive chunk)).1 :=
    fun chunk => (h.frame (d.buffer ++ chunk) d.submitClosed).drainFrames limits
  have hit := iteration limits d e
  generalize Connection.iterate limits d e = r at hit ⊢
  cases hit with
  | refused s writes => exact (h.refuse s .unusable).fail _ _ _
  | written s writes live hi => exact (hentered writes hi).bottom
  | writeFailed s writes live hi => exact (hentered writes hi).fail _ _ _
  | closed => rw [Event.received, List.append_nil]; exact (h.failAll .closed).emit rfl
  | shutdownFailed => rw [Event.received, List.append_nil]; exact (h.failAll .closed).emit rfl
  | submitClosed =>
      rw [Event.received, List.append_nil]
      exact (h.frame d.buffer true).bottom
  | idle => rw [Event.received, List.append_nil]; exact h.bottom
  | lost => rw [Event.received, List.append_nil]; exact h.fail _ _ _
  | fatal chunk d' failure hd =>
      have hl := hdrain chunk
      rw [hd] at hl
      rw [Event.received, List.append_nil]
      exact hl.fail _ _ _
  | drained chunk d' hd =>
      have hl := hdrain chunk
      rw [hd] at hl
      rw [Event.received, List.append_nil]
      exact hl.bottom

/-! ### Leaving the loop -/

theorem bottom_leaves {l : Leave} (h : d.bottom.2 = .leave l) : d.bottom.1.completions = ∅ := by
  rw [Driver.bottom] at h ⊢
  by_cases hf : d.finished = true
  · rw [if_pos hf]
    rw [Driver.finished, Bool.and_eq_true] at hf
    exact AList.ext (List.isEmpty_iff.mp hf.2)
  · rw [if_neg hf] at h
    cases h

/-- **The driver leaves its loop without a waiter**, whichever way it leaves. -/
theorem iterate_leaves {limits : Limits} {e : Event σ} {l : Leave}
    (h : (iterate limits d e).2 = .leave l) : (iterate limits d e).1.completions = ∅ := by
  have hit := iteration limits d e
  generalize iterate limits d e = r at hit h ⊢
  cases hit with
  | closed => exact failAll_completions d _
  | shutdownFailed => exact failAll_completions d _
  | refused s writes => exact failAll_completions _ _
  | written s writes live hi => exact bottom_leaves h
  | writeFailed s writes live hi => exact failAll_completions _ _
  | submitClosed => exact bottom_leaves h
  | idle => exact bottom_leaves h
  | lost => exact failAll_completions _ _
  | fatal chunk d' failure hd => exact failAll_completions _ _
  | drained chunk d' hd => exact bottom_leaves h

end Ledger

end Rp1.Connection

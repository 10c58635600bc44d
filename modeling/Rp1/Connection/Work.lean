import Rp1.Connection.Wiring
import Rp1.Support.Simulation

/-!
# Connection — the work left in a client

How many steps the tasks of a client still take, counted in advance.  A command and a `close()` call
make a fixed number of accesses at most.  A queued submission stands for its reception, its write
and its outcome.  A driver in its loop keeps in hand one outcome for each request that waits and the
effects of its ending.

`Client.step_work` says that every step lowers the work but the iterations on the read arm, and that
these do not raise it.  Reads are left out whatever they return: a driver that has nothing in flight
reads again and again at the end of the stream.  What else the tasks of a session do is bounded
before it starts, however the peer behaves and however the tasks interleave.
-/

namespace Rp1.Connection
open Codec Protocol Command Loop Runs

/-! ### The measure -/

/-- The accesses a command still makes, and the work of its submission. -/
def Place.work : Place → Nat
  | .start => 9
  | .acquire _ => 8
  | .allocate _ => 7
  | .send .. => 6
  | .await _ none => 2
  | .await _ (some _) | .lost | .refused | .shutOut => 1
  | .done _ | .dropped => 0

def Call.work (call : Call) : Nat := call.place.work

/-- The accesses a `close()` call still makes. -/
def Closer.work : Closer → Nat
  | .isTerminal => 8
  | .beginClosing => 7
  | .closeAdmission => 6
  | .hasDriver => 5
  | .takeShutdown => 4
  | .takeHandle | .takeTransport => 3
  | .await | .shutdownTransport => 2
  | .finishClose .. | .land .. => 1
  | .done _ => 0

/-- The effects in hand; in the loop, an outcome for each waiter and the effects of the ending. -/
def Task.work {σ : Type} (t : Task σ) : Nat :=
  1 + t.pending.length + if t.left.isNone then t.driver.waiting.length + 5 else 0

def Session.work {σ : Type} (s : Session σ) : Nat :=
  s.task.elim 0 Task.work + (s.closers.map Closer.work).sum

/-- Everything the tasks of a client still do. -/
def Client.work (c : Client) : Nat :=
  (c.calls.map Call.work).sum + 3 * c.queue.length + c.session.work

/-- The `select!` takes its read arm, for bytes, an error or the end of the stream. -/
def Event.onRead {σ : Type} : Event σ → Bool
  | .read _ | .readFailed => true
  | .shutdown _ | .submit .. | .submitClosed => false

def Move.onRead {σ : Type} : Move σ → Bool
  | .select e => e.onRead
  | .perform | .abort | .close .. => false

def Turn.onRead : Turn → Bool
  | .session m => m.onRead
  | .call _ | .drop _ => false

/-! ### The driver -/

section Driver
variable {σ : Type} {limits : Limits} {d d' : Driver σ}

/-- What the driver has done, and the outcomes it will still send. -/
def Driver.weight (d : Driver σ) : Nat := d.log.length + d.waiting.length

theorem weight_emit (d : Driver σ) (effects : List (Effect σ)) :
    (d.emit effects).weight = d.weight + effects.length := by
  show (d.log ++ effects).length + d.waiting.length = _
  rw [List.length_append, Driver.weight]
  omega

/-- An outcome that is sent does not wait any more. -/
theorem weight_failAll (d : Driver σ) (error : DriverError) :
    (d.failAll error).weight = d.weight := by
  have hwait : (d.failAll error).waiting = [] := by
    rw [Driver.waiting, failAll_completions]
    rfl
  rw [Driver.weight, failAll_log, hwait, List.length_append, List.length_map]
  rfl

theorem weight_fail (d : Driver σ) (error : DriverError) (next : ConnectionState)
    (exit : DriverExit) : (d.fail error next exit).1.weight = d.weight + 2 := by
  rw [Driver.fail, weight_emit, weight_failAll]
  rfl

theorem weight_bottom (d : Driver σ) : d.bottom.1.weight = d.weight := by
  rw [Driver.bottom]
  by_cases hf : d.finished = true
  · rw [if_pos hf]
  · rw [if_neg hf]

theorem weight_drainFrames (limits : Limits) (d : Driver σ) :
    (drainFrames limits d).1.weight = d.weight := by
  refine (drainIteration_shrinks limits).run_invariant (I := fun d' => d'.weight = d.weight)
    (fun d₁ h => ?_) d rfl
  cases hr : drainIteration limits d₁ with
  | mk d₂ flow =>
      cases round hr with
      | waits => exact h
      | fatal => exact h
      | unknown => exact h
      | resolves id total outcome sender hn hw =>
          have hwait := (Waiters.entries_perm hw).length_eq
          have hlog : (d₁.resolved id sender total outcome).log =
              d₁.log ++ [.send id sender outcome] := rfl
          rw [← h, Driver.weight, Driver.weight, hlog, Driver.waiting, Driver.waiting,
            List.length_map, List.length_map, hwait, List.length_append, List.length_cons,
            List.length_cons, List.length_nil]
          show _ + (d₁.completions.erase id).entries.length = _
          omega

/-- A submission is written once, and waits once. -/
theorem weight_admitted (d : Driver σ) (s : Submit σ) (live : InFlightRegistry)
    (writes : List Nat) : (d.admitted s live writes).weight ≤ d.weight + 2 := by
  have hwait : (d.completions.insert s.id s.completion).entries.length ≤
      d.completions.entries.length + 1 := by
    rw [AList.entries_insert, List.length_cons]
    exact Nat.add_le_add_right (List.kerase_sublist _ _).length_le 1
  rw [Driver.admitted, weight_emit, Driver.weight, Driver.weight, Driver.waiting, Driver.waiting,
    List.length_map, List.length_map, List.length_singleton]
  show d.log.length + (d.completions.insert s.id s.completion).entries.length + 1 ≤ _
  omega

/-- What an iteration adds: two for a submission, and four at most when it is the last. -/
theorem weight_iterate (limits : Limits) (d : Driver σ) (e : Event σ) :
    (iterate limits d e).1.weight ≤ d.weight + 2 * e.received.length +
      if (iterate limits d e).2.result.isNone then 0 else 4 := by
  have hit := iteration limits d e
  generalize iterate limits d e = r at hit ⊢
  have hbottom : ∀ {d' : Driver σ} {e : Event σ},
      d'.weight ≤ d.weight + 2 * e.received.length →
      d'.bottom.1.weight ≤ d.weight + 2 * e.received.length +
        if d'.bottom.2.result.isNone then 0 else 4 := by
    intro d' e h
    rw [weight_bottom]
    exact Nat.le_add_right_of_le h
  have hfail : ∀ {d' : Driver σ} {e : Event σ} (error : DriverError) (next : ConnectionState)
      (exit : DriverExit), d'.weight ≤ d.weight + 2 * e.received.length →
      (d'.fail error next exit).1.weight ≤ d.weight + 2 * e.received.length + 4 := by
    intro d' e error next exit h
    rw [weight_fail]
    omega
  have hdrain : ∀ chunk, (drainFrames limits (d.receive chunk)).1.weight = d.weight :=
    fun chunk => weight_drainFrames limits (d.receive chunk)
  cases hit with
  | closed =>
      rw [weight_emit, weight_failAll]
      exact Nat.le_succ _
  | shutdownFailed =>
      rw [weight_emit, weight_failAll]
      exact Nat.le_refl _
  | refused s writes =>
      refine hfail (e := .submit s writes) _ _ _ ?_
      rw [weight_emit]
      exact Nat.le_succ _
  | written s writes live hi => exact hbottom (weight_admitted d s live writes)
  | writeFailed s writes live hi =>
      exact hfail (e := .submit s writes) _ _ _ (weight_admitted d s live writes)
  | submitClosed => exact hbottom (e := .submitClosed) (Nat.le_refl d.weight)
  | idle => exact hbottom (e := .readFailed) (Nat.le_refl d.weight)
  | lost => exact hfail (e := .readFailed) _ _ _ (Nat.le_refl d.weight)
  | fatal chunk d' failure hd =>
      have h := hdrain chunk
      rw [hd] at h
      exact hfail (e := .read chunk) _ _ _ (Nat.le_of_eq h)
  | drained chunk d' hd =>
      have h := hdrain chunk
      rw [hd] at h
      exact hbottom (e := .read chunk) (Nat.le_of_eq h)

/-- **An iteration of the driver.**  Three is what a submission has brought with it. -/
theorem Task.select_work {t t' : Task σ} {e : Event σ} (h : t.select limits e = some t')
    (he : e ≠ .submitClosed) :
    (!e.onRead).toNat + t'.work ≤ t.work + 3 * e.received.length := by
  obtain ⟨effects, tail, hlog, -, hend⟩ := (iterate_ends limits t.driver e).log
  have hpend := Task.pending_of_select h hlog
  obtain ⟨hnil, hnone, hd, hleft, -⟩ := Task.select_eq_some h
  have hweight := weight_iterate limits t.driver e
  rw [Driver.weight, Driver.weight, ← hd, ← hleft, hd, hlog, List.length_append, ← hpend, ← hd]
    at hweight
  have hbefore : t.work = t.driver.waiting.length + 6 := by
    rw [Task.work, hnil, hnone, List.length_nil]
    simp only [Option.isNone_none, if_true]
    omega
  rw [hbefore, Task.work]
  cases hl : t'.left with
  | none =>
      rw [hl] at hweight
      simp only [Option.isNone_none, if_true] at hweight ⊢
      -- the loop goes on: after a submission, or after a read
      cases e with
      | submit s writes =>
          have hone : (Event.submit s writes).received.length = 1 := rfl
          rw [hone] at hweight ⊢
          show 1 + _ ≤ _
          omega
      | shutdown ok =>
          -- a shutdown ends the loop
          have hagain := hleft.symm.trans hl
          cases ok with
          | true => exact nomatch (show some _ = none from hagain)
          | false => exact nomatch (show some _ = none from hagain)
      | submitClosed => exact absurd rfl he
      | readFailed =>
          show 0 + _ ≤ _
          omega
      | read chunk =>
          show 0 + _ ≤ _
          omega
  | some l =>
      rw [hl] at hweight
      simp only [Option.isNone_some, Bool.false_eq_true, if_false] at hweight ⊢
      have hle := Bool.toNat_le (!e.onRead)
      omega

end Driver

/-! ### The other tasks -/

/-- One entry of a list of tasks changes its share of the work. -/
theorem sum_work_set {α : Type} (work : α → Nat) {l : List α} {i : Nat} {a : α}
    (h : l[i]? = some a) (b : α) :
    ((l.set i b).map work).sum + work a = (l.map work).sum + work b := by
  induction l generalizing i with
  | nil => cases h
  | cons x l ih =>
      cases i with
      | zero =>
          obtain rfl := Option.some.inj h
          simp only [List.set_cons_zero, List.map_cons, List.sum_cons]
          omega
      | succ i =>
          have h' := ih h
          simp only [List.set_cons_succ, List.map_cons, List.sum_cons]
          omega

/-- Every access of a `close()` call is one less to make. -/
theorem Closer.step_work {σ : Type} {s s' : Session σ} {c c' : Closer} {ok : Bool}
    (h : c.step s ok = some (s', c')) : c'.work < c.work := by
  cases c with
  | isTerminal => cases h; cases s.state.isTerminal <;> decide
  | hasDriver => cases h; cases s.driver <;> decide
  | takeHandle => cases h; cases s.driver <;> decide
  | await =>
      obtain ⟨exit, -, e⟩ := Option.map_eq_some_iff.mp h
      cases e
      rcases exit with - | - | - | - <;> decide
  | finishClose next result => cases h; exact Nat.lt_succ_self 0
  | takeTransport => cases h; cases s.transport <;> decide
  | shutdownTransport => cases h; cases ok <;> decide
  | land next result => cases h; exact Nat.lt_succ_self 0
  | done result => cases h
  | _ => cases h; decide

/-- Every access of a command is one less to make; the submission takes its share with it. -/
theorem Place.step_work {n : Negotiated} {c c₁ : Client} {i : Nat} {op : Operation}
    {place place' : Place} (h : place.step n c i op = some (c₁, place')) :
    1 + place'.work + 3 * c₁.queue.length ≤ place.work + 3 * c.queue.length := by
  -- every access but one leaves the queue as it is
  have quiet : ∀ {place place' : Place}, place'.work < place.work →
      1 + place'.work + 3 * c.queue.length ≤ place.work + 3 * c.queue.length := by
    intro place place' hlt
    omega
  cases place with
  | start =>
      rw [Place.step] at h
      split at h
      · cases h; exact quiet (Nat.succ_pos 8)
      · split at h
        · simp only at h
          split at h
          · cases h; exact quiet (Nat.succ_pos 8)
          · cases h; exact quiet (Nat.lt_succ_self 8)
        · cases h; exact quiet (by decide)
  | refused => cases h; exact quiet (Nat.lt_succ_self 0)
  | acquire payload =>
      rw [Place.step] at h
      split at h
      · cases h; exact quiet (show 1 < 8 by decide)
      · obtain ⟨-, h⟩ := Option.ite_none_right_eq_some.mp h
        cases h
        exact quiet (Nat.lt_succ_self 7)
  | shutOut => cases h; exact quiet (Nat.lt_succ_self 0)
  | allocate payload =>
      simp only [Place.step] at h
      split at h
      · cases h; exact quiet (Nat.succ_pos 6)
      · split at h
        · cases h; exact quiet (Nat.succ_pos 6)
        · cases h; exact quiet (Nat.lt_succ_self 6)
  | send id bytes =>
      rw [Place.step] at h
      split at h
      · cases h; exact quiet (show 1 < 6 by decide)
      · obtain ⟨-, h⟩ := Option.ite_none_right_eq_some.mp h
        cases h
        simp only [Place.work, List.length_append, List.length_singleton]
        omega
  | await id inbox =>
      cases inbox with
      | some outcome => cases h; exact quiet (Nat.lt_succ_self 0)
      | none =>
          obtain ⟨-, h⟩ := Option.ite_none_right_eq_some.mp h
          cases h
          exact quiet (Nat.lt_succ_self 1)
  | lost => cases h; exact quiet (Nat.lt_succ_self 0)
  | done result => cases h
  | dropped => cases h

/-- Only a future that still has something to do is dropped. -/
theorem Place.drop_work {c c₁ : Client} {place : Place} (h : place.drop c = some c₁) :
    0 < place.work ∧ c₁.queue = c.queue ∧ c₁.session = c.session ∧ c₁.calls = c.calls := by
  cases place with
  | start => cases h; exact ⟨Nat.succ_pos 8, rfl, rfl, rfl⟩
  | acquire payload => cases h; exact ⟨Nat.succ_pos 7, rfl, rfl, rfl⟩
  | send id bytes => cases h; exact ⟨Nat.succ_pos 5, rfl, rfl, rfl⟩
  | await id inbox =>
      cases h
      cases inbox with
      | none => exact ⟨Nat.succ_pos 1, rfl, rfl, rfl⟩
      | some outcome => exact ⟨Nat.succ_pos 0, rfl, rfl, rfl⟩
  | _ => cases h

/-! ### The steps -/

section Steps
variable {n : Negotiated} {c c' : Client}

theorem Session.step_work {σ : Type} {limits : Limits} {s s' : Session σ} {m : Move σ}
    (h : s.step limits m = some s') :
    (!m.onRead).toNat + s'.work ≤ s.work + 3 * m.received.length := by
  cases m with
  | select e =>
      obtain ⟨t, t', ha, ht, hsel, rfl⟩ := Session.select_eq_some h
      have he : e ≠ .submitClosed := by
        rintro rfl
        cases ha
      have hwork := Task.select_work hsel he
      rw [Session.work, Session.work, ht]
      simp only [Option.elim_some, Move.onRead, Move.received]
      omega
  | perform =>
      obtain ⟨t, x, pending, ht, hp, rfl⟩ := Session.perform_eq_some h
      rw [Session.work, Session.work, ht]
      show 1 + (Task.work { t with pending } + (s.closers.map Closer.work).sum) ≤ _
      simp only [Option.elim_some, Task.work, hp, List.length_cons]
      omega
  | abort =>
      obtain ⟨t, ht, -, rfl⟩ := Session.abort_eq_some h
      rw [Session.work, Session.work, ht]
      show 1 + (0 + (s.closers.map Closer.work).sum) ≤ _
      simp only [Option.elim_some, Task.work]
      omega
  | close i ok =>
      obtain ⟨c, s₁, c', hc, hstep, rfl⟩ := Session.close_eq_some h
      obtain ⟨htask, hclosers, -⟩ := Closer.step_frame hstep
      have hsum := sum_work_set Closer.work hc c'
      have hlt := Closer.step_work hstep
      rw [Session.work, Session.work]
      simp only [htask, hclosers, Move.onRead, Move.received, Bool.not_false, Bool.toNat_true,
        List.length_nil]
      omega

theorem Call.work_receive (outcome : Except DriverError Bytes) (call : Call) :
    (call.receive outcome).work ≤ call.work := by
  obtain ⟨op, place⟩ := call
  rcases place with - | - | - | - | - | - | ⟨id, - | -⟩ | - | - | -
  case await.none => exact (by decide : 1 ≤ 2)
  all_goals exact Nat.le_refl _

/-- Who gets its outcome has not more to do. -/
theorem Client.work_deliver (c : Client) (x : Option (Effect Nat)) :
    ((c.deliver x).calls.map Call.work).sum ≤
      (c.calls.map Call.work).sum := by
  have modify : ∀ (outcome : Except DriverError Bytes) (calls : List Call) (i : Nat),
      ((calls.modify i (Call.receive outcome)).map Call.work).sum ≤
        (calls.map Call.work).sum := by
    intro outcome calls
    induction calls with
    | nil => intro i; cases i <;> exact Nat.le_refl 0
    | cons call calls ih =>
        intro i
        cases i with
        | zero => exact Nat.add_le_add_right (Call.work_receive outcome call) _
        | succ i => exact Nat.add_le_add_left (ih i) _
  rcases x with - | ⟨id, i, outcome⟩ | - | - | - | -
  case some.send => exact modify outcome c.calls i
  all_goals exact Nat.le_refl _

/-- **Every step lowers the work, but the reads**, which do not raise it. -/
theorem Client.step_work {turn : Turn} (h : c.step n turn = some c') :
    (!turn.onRead).toNat + c'.work ≤ c.work := by
  cases turn with
  | session m =>
      obtain ⟨session, queue, hstep, hq, rfl⟩ := Client.session_eq_some h
      have hsession := Session.step_work hstep
      have hcalls := Client.work_deliver { c with session, queue } (c.session.performs m)
      have hqueue : c.queue.length = m.received.length + queue.length := by
        have hlen := congrArg List.length hq
        rwa [Client.queued, List.length_map, List.length_append, List.length_map] at hlen
      have hsweep : (if (Client.deliver { c with session, queue } (c.session.performs m)).gone
          then [] else (Client.deliver { c with session, queue }
            (c.session.performs m)).queue).length ≤ queue.length := by
        split
        · exact Nat.zero_le _
        · rw [Client.queue_deliver]
      simp only [Client.work, Client.sweep, Client.session_deliver, Turn.onRead]
      simp only at hcalls
      omega
  | call i =>
      obtain ⟨call, c₁, place, hc, hstep, rfl⟩ := Client.call_eq_some h
      obtain ⟨hsession, hcalls⟩ := Place.step_frame hstep
      have hsum := sum_work_set Call.work hc { call with place }
      have hwork := Place.step_work hstep
      simp only [Call.work] at hsum
      simp only [Client.work, hsession, hcalls, Turn.onRead, Bool.not_false, Bool.toNat_true]
      omega
  | drop i =>
      obtain ⟨call, hc, h⟩ := Option.bind_eq_some_iff.mp h
      obtain ⟨c₁, hd, rfl⟩ := Option.map_eq_some_iff.mp h
      obtain ⟨hpos, hqueue, hsession, hcalls⟩ := Place.drop_work hd
      have hsum : ((c.calls.set i { call with place := .dropped }).map Call.work).sum +
          call.place.work = (c.calls.map Call.work).sum + 0 :=
        sum_work_set Call.work hc { call with place := .dropped }
      simp only [Client.work, hqueue, hsession, hcalls, Turn.onRead, Bool.not_false,
        Bool.toNat_true]
      omega

/-- Over a run, the steps that are not reads are paid for. -/
theorem Client.exec_work {schedule : List Turn} (h : exec (Client.step n) c schedule = some c') :
    (schedule.countP fun turn => !turn.onRead) + c'.work ≤ c.work :=
  exec_rank (fun _ _ _ hs => Client.step_work hs) h

theorem Client.work_established (bound closers : Nat) (ops : List Operation) :
    (Client.established bound closers ops).work = 9 * ops.length + 8 * closers + 6 := by
  have hcalls : ((ops.map (⟨·, .start⟩ : Operation → Call)).map Call.work).sum =
      9 * ops.length := by
    rw [List.map_map]
    induction ops with
    | nil => rfl
    | cons op ops ih =>
        rw [List.map_cons, List.sum_cons, ih, List.length_cons]
        show 9 + _ = _
        omega
  have hclosers : ((List.replicate closers Closer.isTerminal).map Closer.work).sum =
      8 * closers := by
    rw [List.map_replicate, List.sum_replicate, smul_eq_mul]
    exact Nat.mul_comm _ _
  show ((ops.map _).map _).sum + 0 + (6 + ((List.replicate closers _).map _).sum) = _
  rw [hcalls, hclosers]
  omega

end Steps

end Rp1.Connection

import Rp1.Connection.Task

/-!
# Connection — closing a session

The driver task and any number of `close()` calls on one session.  A `Closer` stands at the next
access its call makes to what the handles share: each access under a lock is one step, and the
steps of all tasks interleave freely.  The handles live as long as their `close()` calls, so the
submit channel stays open and nobody but a `close()` call sends the shutdown signal.

The runtime may drop the driver task where it awaits something; who awaits its handle then gets a
`JoinError`.

`state_sticky_iff` says when a terminal state stays: exactly in the runs in which no `close()` call
writes `Closing` after the state has become terminal since it looked, and no `close()` call that
found no driver lands on another terminal state.
-/

namespace Rp1.Connection
open Codec Protocol Loop Runs

/-! ### The model -/

inductive CloseResult where
  | ok
  | err
deriving DecidableEq, Repr

/-- Where a `close()` call stands: the access it makes next. -/
inductive Closer where
  | isTerminal
  | beginClosing
  | closeAdmission
  | hasDriver
  /-- `close_with_driver`: the shutdown sender is taken and used. -/
  | takeShutdown
  | takeHandle
  /-- `handle.await`. -/
  | await
  | finishClose (next : ConnectionState) (result : CloseResult)
  /-- `close_without_driver`. -/
  | takeTransport
  | shutdownTransport
  /-- The unconditional write at the end of `close_without_driver`. -/
  | land (next : ConnectionState) (result : CloseResult)
  | done (result : CloseResult)
deriving DecidableEq, Repr

/-- How `close_with_driver` goes on after `handle.await`; `none` is a `JoinError`. -/
def Closer.awaited : Option DriverExit → Closer
  | some .closed => .finishClose .closed .ok
  | some .failed => .finishClose .failed .err
  | some .unusable | none => .done .ok

/-- A session with its tasks.  `task` is the driver, until the runtime drops it; `driver`,
`shutdownTx` and `transport` say whether the handles still share the driver handle, the shutdown
sender and, in a session without a driver, the transport. -/
structure Session (σ : Type) where
  task : Option (Task σ)
  shared : Shared
  transport : Bool
  driver : Bool
  shutdownTx : Bool
  signalled : Bool
  closers : List Closer

/-- Who moves next. -/
inductive Move (σ : Type) where
  | select (e : Event σ)
  | perform
  /-- The runtime drops the driver task. -/
  | abort
  /-- The next access of a `close()` call; `ok` is the answer of `transport.shutdown()` where the
  call waits for it. -/
  | close (i : Nat) (ok : Bool)

section Session
variable {σ : Type}

def Session.state (s : Session σ) : ConnectionState := s.shared.state

def Session.setState (s : Session σ) (state : ConnectionState) : Session σ :=
  { s with shared := { s.shared with state } }

/-- `finish_close`: lands a terminal state, unless one was there first. -/
def Session.finishClose (s : Session σ) (next : ConnectionState) : Session σ :=
  if s.state = .closing then s.setState next else s

def Session.dropTask (s : Session σ) : Session σ := { s with task := none }

/-- The driver has performed `x` and has `pending` left to do. -/
def Session.perform (s : Session σ) (t : Task σ) (x : Effect σ) (pending : List (Effect σ)) :
    Session σ :=
  { s with task := some { t with pending }, shared := x.perform s.shared }

/-- A driver-backed session in use, with `n` calls to `close()` about to start. -/
def Session.established (n : Nat) : Session σ :=
  ⟨some .spawn, ⟨.usable, false⟩, false, true, true, false, List.replicate n .isTerminal⟩

/-- What the driver of a session with handles can be handed. -/
def Session.allows (s : Session σ) : Event σ → Bool
  | .shutdown _ => s.signalled
  | .submitClosed => false
  | .submit .. | .readFailed | .read _ => true

/-- The driver is suspended: in its `select!`, in `write_all` or in `transport.shutdown()`. -/
def Task.awaits (t : Task σ) : Bool :=
  match t.pending, t.left with
  | [], none => true
  | .write _ :: _, _ | .shutdown _ :: _, _ => true
  | _, _ => false

/-- `handle.await`: `none` while the driver runs. -/
def Session.join (s : Session σ) : Option (Option DriverExit) :=
  match s.task with
  | none => some none
  | some t => t.returned.map fun l => some l.exit

/-- The effect the driver performs next. -/
def Session.next (s : Session σ) : Option (Effect σ) := s.task.bind fun t => t.pending.head?

/-- The next access of a `close()` call. -/
def Closer.step (s : Session σ) (ok : Bool) : Closer → Option (Session σ × Closer)
  | .isTerminal => some (s, if s.state.isTerminal then .done .ok else .beginClosing)
  | .beginClosing => some (s.setState .closing, .closeAdmission)
  | .closeAdmission =>
      some ({ s with shared := { s.shared with admissionClosed := true } }, .hasDriver)
  | .hasDriver => some (s, if s.driver then .takeShutdown else .takeTransport)
  | .takeShutdown =>
      some ({ s with shutdownTx := false, signalled := s.signalled || s.shutdownTx }, .takeHandle)
  | .takeHandle => some ({ s with driver := false }, if s.driver then .await else .done .ok)
  | .await => s.join.map fun exit => (s, .awaited exit)
  | .finishClose next result => some (s.finishClose next, .done result)
  | .takeTransport =>
      some ({ s with transport := false },
        if s.transport then .shutdownTransport else .land .closed .ok)
  | .shutdownTransport => some (s, if ok then .land .closed .ok else .land .failed .err)
  | .land next result => some (s.setState next, .done result)
  | .done _ => none

def Session.step (limits : Limits) (s : Session σ) : Move σ → Option (Session σ)
  | .select e =>
      if s.allows e then
        (s.task.bind fun t => t.select limits e).map fun t => { s with task := some t }
      else none
  | .perform =>
      s.task.bind fun t =>
        match t.pending with
        | [] => none
        | x :: pending => some (s.perform t x pending)
  | .abort => s.task.bind fun t => if t.awaits then some s.dropTask else none
  | .close i ok =>
      s.closers[i]?.bind fun c =>
        (c.step s ok).map fun r => { r.1 with closers := r.1.closers.set i r.2 }

/-! ### The steps of a session -/

theorem Session.select_eq_some {limits : Limits} {s s' : Session σ} {e : Event σ}
    (h : s.step limits (.select e) = some s') :
    ∃ t t', s.allows e = true ∧ s.task = some t ∧ t.select limits e = some t' ∧
      s' = { s with task := some t' } := by
  obtain ⟨ha, h⟩ := Option.ite_none_right_eq_some.mp h
  obtain ⟨t', ht', rfl⟩ := Option.map_eq_some_iff.mp h
  obtain ⟨t, ht, hsel⟩ := Option.bind_eq_some_iff.mp ht'
  exact ⟨t, t', ha, ht, hsel, rfl⟩

theorem Session.perform_eq_some {limits : Limits} {s s' : Session σ}
    (h : s.step limits .perform = some s') :
    ∃ t x pending, s.task = some t ∧ t.pending = x :: pending ∧ s' = s.perform t x pending := by
  obtain ⟨t, ht, h⟩ := Option.bind_eq_some_iff.mp h
  cases hp : t.pending with
  | nil =>
      rw [hp] at h
      cases h
  | cons x pending =>
      rw [hp] at h
      exact ⟨t, x, pending, ht, hp, (Option.some.inj h).symm⟩

theorem Session.abort_eq_some {limits : Limits} {s s' : Session σ}
    (h : s.step limits .abort = some s') :
    ∃ t, s.task = some t ∧ t.awaits = true ∧ s' = s.dropTask := by
  obtain ⟨t, ht, h⟩ := Option.bind_eq_some_iff.mp h
  obtain ⟨ha, h⟩ := Option.ite_none_right_eq_some.mp h
  exact ⟨t, ht, ha, (Option.some.inj h).symm⟩

theorem Session.close_eq_some {limits : Limits} {s s' : Session σ} {i : Nat} {ok : Bool}
    (h : s.step limits (.close i ok) = some s') :
    ∃ c s₁ c', s.closers[i]? = some c ∧ c.step s ok = some (s₁, c') ∧
      s' = { s₁ with closers := s₁.closers.set i c' } := by
  obtain ⟨c, hc, h⟩ := Option.bind_eq_some_iff.mp h
  obtain ⟨⟨s₁, c'⟩, hstep, rfl⟩ := Option.map_eq_some_iff.mp h
  exact ⟨c, s₁, c', hc, hstep, rfl⟩

/-! ### What a `close()` call writes -/

theorem Session.finishClose_eq (s : Session σ) (next : ConnectionState) :
    s.finishClose next = s.setState (if s.state = .closing then next else s.state) := by
  rw [finishClose]
  by_cases hs : s.state = .closing
  · rw [if_pos hs, if_pos hs]
  · rw [if_neg hs, if_neg hs]
    rfl

/-- The state after an access of a `close()` call. -/
def Closer.leaves (current : ConnectionState) : Closer → ConnectionState
  | .beginClosing => .closing
  | .land next _ => next
  | .finishClose next _ => if current = .closing then next else current
  | _ => current

theorem Closer.state_step {s s' : Session σ} {c c' : Closer} {ok : Bool}
    (h : c.step s ok = some (s', c')) : s'.state = c.leaves s.state := by
  cases c with
  | await =>
      obtain ⟨exit, -, e⟩ := Option.map_eq_some_iff.mp h
      cases e
      rfl
  | finishClose next result =>
      cases h
      rw [Session.finishClose_eq]
      rfl
  | done result => cases h
  | _ => cases h; rfl

/-- The next write of a `close()` call does not make a session usable. -/
def Closer.Sane (c : Closer) : Prop :=
  ∀ current, current ≠ .usable → c.leaves current ≠ .usable

theorem Closer.Sane.finishClose {next : ConnectionState} {result : CloseResult}
    (h : next ≠ .usable) : (Closer.finishClose next result).Sane := by
  intro current hc
  rw [leaves]
  by_cases hs : current = .closing
  · rw [if_pos hs]
    exact h
  · rw [if_neg hs]
    exact hc

/-- Wherever a `close()` call goes, it is sane. -/
theorem Closer.Sane.step {s s' : Session σ} {c c' : Closer} {ok : Bool}
    (h : c.step s ok = some (s', c')) : c'.Sane := by
  cases c with
  | isTerminal =>
      cases h
      cases s.state.isTerminal with
      | true => exact fun _ hc => hc
      | false => exact fun _ _ e => nomatch e
  | beginClosing => cases h; exact fun _ hc => hc
  | closeAdmission => cases h; exact fun _ hc => hc
  | hasDriver => cases h; cases s.driver <;> exact fun _ hc => hc
  | takeShutdown => cases h; exact fun _ hc => hc
  | takeHandle => cases h; cases s.driver <;> exact fun _ hc => hc
  | await =>
      obtain ⟨exit, -, e⟩ := Option.map_eq_some_iff.mp h
      cases e
      rcases exit with - | - | - | -
      · exact fun _ hc => hc
      · exact .finishClose fun e => nomatch e
      · exact .finishClose fun e => nomatch e
      · exact fun _ hc => hc
  | finishClose next result => cases h; exact fun _ hc => hc
  | takeTransport =>
      cases h
      cases s.transport with
      | true => exact fun _ hc => hc
      | false => exact fun _ _ e => nomatch e
  | shutdownTransport => cases h; cases ok <;> exact fun _ _ e => nomatch e
  | land next result => cases h; exact fun _ hc => hc
  | done result => cases h

/-- What an access of a `close()` call leaves as it is. -/
theorem Closer.step_frame {s s' : Session σ} {c c' : Closer} {ok : Bool}
    (h : c.step s ok = some (s', c')) :
    s'.task = s.task ∧ s'.closers = s.closers ∧
      (s.shared.admissionClosed = true → s'.shared.admissionClosed = true) := by
  cases c with
  | await =>
      obtain ⟨exit, -, e⟩ := Option.map_eq_some_iff.mp h
      cases e
      exact ⟨rfl, rfl, id⟩
  | finishClose next result =>
      cases h
      rw [Session.finishClose_eq]
      exact ⟨rfl, rfl, id⟩
  | done result => cases h
  | closeAdmission => cases h; exact ⟨rfl, rfl, fun _ => rfl⟩
  | _ => cases h; exact ⟨rfl, rfl, id⟩

/-- All the `close()` calls of a session are sane. -/
def Session.Sane (s : Session σ) : Prop := ∀ c ∈ s.closers, c.Sane

theorem Session.Sane.step {limits : Limits} {s s' : Session σ} {m : Move σ} (hs : s.Sane)
    (h : s.step limits m = some s') : s'.Sane := by
  cases m with
  | select e =>
      obtain ⟨t, t', -, -, -, rfl⟩ := Session.select_eq_some h
      exact hs
  | perform =>
      obtain ⟨t, x, pending, -, -, rfl⟩ := Session.perform_eq_some h
      exact hs
  | abort =>
      obtain ⟨t, -, -, rfl⟩ := Session.abort_eq_some h
      exact hs
  | close i ok =>
      obtain ⟨c, s₁, c', -, hstep, rfl⟩ := Session.close_eq_some h
      intro c₁ hc₁
      rcases List.mem_or_eq_of_mem_set hc₁ with hc₁ | rfl
      · rw [(Closer.step_frame hstep).2.1] at hc₁
        exact hs c₁ hc₁
      · exact .step hstep

/-! ### Terminal states -/

/-- A step that respects a terminal state: `begin_closing` finds the state it was checked to be,
and the write that ends `close_without_driver` does not find another terminal state. -/
def Session.careful (s : Session σ) : Move σ → Bool
  | .close i _ =>
      match s.closers[i]? with
      | some .beginClosing => !s.state.isTerminal
      | some (.land next _) => !s.state.isTerminal || decide (s.state = next)
      | _ => true
  | .select _ | .perform | .abort => true

theorem ConnectionState.mark_of_isTerminal {current : ConnectionState}
    (h : current.isTerminal = true) (next : ConnectionState) : current.mark next = current := by
  cases current <;> first | rfl | cases h

/-- **Which steps keep a terminal state.** -/
theorem Session.careful_iff {limits : Limits} {s s' : Session σ} {m : Move σ}
    (h : s.step limits m = some s') :
    (s.state.isTerminal = true → s'.state = s.state) ↔ s.careful m = true := by
  cases m with
  | select e =>
      obtain ⟨t, t', -, -, -, rfl⟩ := Session.select_eq_some h
      exact ⟨fun _ => rfl, fun _ _ => rfl⟩
  | perform =>
      obtain ⟨t, x, pending, -, -, rfl⟩ := Session.perform_eq_some h
      refine ⟨fun _ => rfl, fun _ ht => ?_⟩
      cases x with
      | mark next => exact ConnectionState.mark_of_isTerminal ht next
      | _ => rfl
  | abort =>
      obtain ⟨t, -, -, rfl⟩ := Session.abort_eq_some h
      exact ⟨fun _ => rfl, fun _ _ => rfl⟩
  | close i ok =>
      obtain ⟨c, s₁, c', hc, hstep, rfl⟩ := Session.close_eq_some h
      have hst := Closer.state_step hstep
      show (s.state.isTerminal = true → s₁.state = s.state) ↔ _
      rw [hst, Session.careful, hc]
      cases c with
      | beginClosing => cases s.state <;> simp [Closer.leaves, ConnectionState.isTerminal]
      | land next result =>
          cases s.state <;> simp [Closer.leaves, ConnectionState.isTerminal, eq_comm]
      | finishClose next result =>
          cases s.state <;> simp [Closer.leaves, ConnectionState.isTerminal]
      | _ => exact ⟨fun _ => rfl, fun _ _ => rfl⟩

/-- **When terminal states are sticky**: exactly in the runs all steps of which are careful. -/
theorem state_sticky_iff (limits : Limits) (s s' : Session σ) (schedule : List (Move σ))
    (h : exec (Session.step limits) s schedule = some s') :
    Sticky (Session.step limits) Session.state (fun state => state.isTerminal = true) s schedule ↔
      ∀ p ∈ visited (Session.step limits) s schedule, p.1.careful p.2 = true :=
  sticky_iff (C := fun s m => s.careful m = true) (fun _ _ _ hs => Session.careful_iff hs) h

end Session

/-- Two calls close one session, the second while the first waits for the driver. -/
theorem state_sticky_two :
    Sticky (Session.step (σ := Unit) ⟨64, 16⟩) Session.state (fun state => state.isTerminal = true)
      (.established 2)
      [.close 0 true, .close 0 true, .close 1 true, .close 0 true, .close 0 true, .close 0 true,
        .close 1 true, .close 1 true, .close 1 true, .close 1 true, .close 0 true,
        .select (.shutdown true), .perform, .perform, .close 1 true, .perform, .close 0 true,
        .close 0 true] := by
  let s : Session Unit :=
    ⟨some ⟨⟨[], ∅, .new, false, [.mark .closed, .closeAdmission, .shutdown true]⟩, [],
      some (.returned .closed)⟩, ⟨.closed, true⟩, false, false, false, true,
      [.done .ok, .done .ok]⟩
  -- the second call finds the handle taken and returns without waiting
  refine (state_sticky_iff _ _ s _ ?_).mpr (List.all_eq_true.mp ?_)
  · rfl
  · rfl

/-- **A terminal state is replaced**, by `Closing`: the peer breaks the protocol between the two
steps in which `close()` looks at the state and writes it.  And by another terminal state: a second
`close()` finds the handle taken, and lands on `Closed` whatever has happened since. -/
theorem state_replaced :
    (∃ s s' : Session Unit,
      exec (Session.step ⟨64, 16⟩) (.established 1)
        [.close 0 true, .select (.read (1 :: List.replicate 19 0)), .perform] = some s ∧
      s.step ⟨64, 16⟩ (.close 0 true) = some s' ∧
      s.state = .unusable ∧ s'.state = .closing) ∧
    ∃ s s' : Session Unit,
      exec (Session.step ⟨64, 16⟩) (.established 2)
        [.close 0 true, .close 0 true, .close 1 true, .close 1 true, .close 1 true, .close 0 true,
          .close 0 true, .close 0 true, .close 0 true, .close 1 true, .close 1 true,
          .select (.read (1 :: List.replicate 19 0)), .perform] = some s ∧
      s.step ⟨64, 16⟩ (.close 1 true) = some s' ∧
      s.state = .unusable ∧ s'.state = .closed := by
  constructor
  · exact ⟨_, _, rfl, rfl, rfl, rfl⟩
  · exact ⟨_, _, rfl, rfl, rfl, rfl⟩

end Rp1.Connection

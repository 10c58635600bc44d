import Rp1.Connection.Session

/-!
# Connection — when the transport is lost

A failed read and the end of the stream are one event of the driver.  `EndsOnLoss` is what it
should lead to: the driver leaves its loop with that step, everyone who waits is told, the session
is marked and its admission source closed, and whatever the other tasks do afterwards the driver
never reads again and the session is never usable again.

`transportLoss_iff` says when it does: exactly when somebody waits.  With no request in flight the
arm goes round the loop and reads the dead transport again, and nothing tells the handles.
-/

namespace Rp1.Connection
open Codec Protocol Loop Runs

section Loss
variable {σ : Type} {limits : Limits} {d : Driver σ}

/-! ### The step of the driver -/

/-- What the driver owes the outside when its transport is lost. -/
def Driver.farewell (d : Driver σ) : List (Effect σ) :=
  (d.waiting.map fun p => .send p.1 p.2 (.error .transport)) ++ [.mark .failed, .closeAdmission]

theorem iterate_readFailed_busy (limits : Limits) (h : d.completions ≠ ∅) :
    iterate limits d .readFailed = d.fail .transport .failed .failed := by
  have he : ¬ d.completions.entries.isEmpty = true := fun e =>
    h (AList.ext (List.isEmpty_iff.mp e))
  have hb : ¬ (d.completions.entries.isEmpty && d.submitClosed) = true := by simp [he]
  rw [iterate, if_neg hb, if_neg he]

/-- With nobody waiting the driver does nothing: it goes on, or ends because no handle is left. -/
theorem iterate_readFailed_idle (limits : Limits) (h : d.completions = ∅) :
    (iterate limits d .readFailed).2 = .again ∨
      (iterate limits d .readFailed).2 = .leave .broke := by
  have he : d.completions.entries.isEmpty = true := by
    rw [h]
    rfl
  rw [iterate, he]
  cases d.submitClosed with
  | true => exact .inr rfl
  | false => exact .inl rfl

theorem Driver.log_fail (d : Driver σ) :
    (d.fail .transport .failed .failed).1.log = d.log ++ d.farewell := by
  show (d.failAll .transport).log ++ [.mark .failed, .closeAdmission] = _
  rw [failAll_log, List.append_assoc, farewell]

/-- What its effects do to the shared state when nobody comes in between. -/
theorem foldl_farewell (d : Driver σ) (s : Shared) :
    d.farewell.foldl Effect.perform s = ⟨s.state.mark .failed, true⟩ := by
  have sends : ∀ (ps : List (UInt64 × σ)) (s : Shared),
      (ps.map fun p => Effect.send p.1 p.2 (.error .transport)).foldl Effect.perform s = s := by
    intro ps
    induction ps with
    | nil => intro s; rfl
    | cons p ps ih => intro s; exact ih s
  rw [Driver.farewell, List.foldl_append, sends]
  rfl

/-! ### After the loss -/

/-- The driver has seen its transport fail, and does or has done what it owes the outside. -/
structure Session.Lost (s : Session σ) (t : Task σ) : Prop where
  sane : s.Sane
  task : s.task = some t
  left : t.left = some (.returned .failed)
  owes : (∃ ps : List (UInt64 × σ), t.pending =
        (ps.map fun p => .send p.1 p.2 (.error .transport)) ++ [.mark .failed, .closeAdmission]) ∨
      (t.pending = [.closeAdmission] ∧ s.state ≠ .usable) ∨
      (t.pending = [] ∧ s.state ≠ .usable ∧ s.shared.admissionClosed = true)

theorem Session.Lost.perform {s s' : Session σ} {t : Task σ} (hl : s.Lost t)
    (h : s.step limits .perform = some s') : ∃ t', s'.Lost t' := by
  have hsane := hl.sane.step h
  obtain ⟨t₁, x, pending, ht₁, hp, rfl⟩ := Session.perform_eq_some h
  obtain rfl := Option.some.inj (hl.task.symm.trans ht₁)
  have hmark : s.state.mark .failed ≠ .usable := by
    cases s.state <;> exact fun e => nomatch e
  refine ⟨{ t with pending }, hsane, rfl, hl.left, ?_⟩
  rcases hl.owes with ⟨ps, hps⟩ | ⟨hps, hst⟩ | ⟨hps, -, -⟩
  · rw [hp] at hps
    cases ps with
    | nil =>
        cases hps
        exact .inr (.inl ⟨rfl, hmark⟩)
    | cons p ps =>
        cases hps
        exact .inl ⟨ps, rfl⟩
  · rw [hp] at hps
    cases hps
    exact .inr (.inr ⟨rfl, hst, rfl⟩)
  · rw [hp] at hps
    cases hps

/-- **The loss is never undone**, whoever moves. -/
theorem Session.Lost.step {s s' : Session σ} {t : Task σ} {m : Move σ} (hl : s.Lost t)
    (h : s.step limits m = some s') : ∃ t', s'.Lost t' := by
  have hsane := hl.sane.step h
  cases m with
  | select e =>
      obtain ⟨t₁, t', -, ht₁, hsel, -⟩ := Session.select_eq_some h
      obtain rfl := Option.some.inj (hl.task.symm.trans ht₁)
      obtain ⟨-, hleft, -⟩ := Task.select_eq_some hsel
      rw [hl.left] at hleft
      cases hleft
  | perform => exact hl.perform h
  | abort =>
      -- none of the effects the driver owes waits for anything
      obtain ⟨t₁, ht₁, ha, -⟩ := Session.abort_eq_some h
      obtain rfl := Option.some.inj (hl.task.symm.trans ht₁)
      rw [Task.awaits, hl.left] at ha
      rcases hl.owes with ⟨ps, hps⟩ | ⟨hps, -⟩ | ⟨hps, -⟩
      · rw [hps] at ha
        cases ps <;> cases ha
      · rw [hps] at ha
        cases ha
      · rw [hps] at ha
        cases ha
  | close i ok =>
      obtain ⟨c, s₁, c', hc, hstep, rfl⟩ := Session.close_eq_some h
      obtain ⟨htask, -, hadm⟩ := Closer.step_frame hstep
      have hst : s.state ≠ .usable → s₁.state ≠ .usable := fun hu => by
        rw [Closer.state_step hstep]
        exact hl.sane c (List.mem_of_getElem? hc) _ hu
      refine ⟨t, hsane, htask.trans hl.task, hl.left, ?_⟩
      rcases hl.owes with hps | ⟨hps, hu⟩ | ⟨hps, hu, ha⟩
      · exact .inl hps
      · exact .inr (.inl ⟨hps, hst hu⟩)
      · exact .inr (.inr ⟨hps, hst hu, hadm ha⟩)

/-! ### When a loss ends the session -/

/-- A failed read led from `s` to `s'` as it should. -/
structure EndsOnLoss (limits : Limits) (s s' : Session σ) : Prop where
  /-- The driver leaves its loop, with everyone who waited told and nobody waiting. -/
  driver : ∃ t t', s.task = some t ∧ s'.task = some t' ∧ t'.left = some (.returned .failed) ∧
    t'.driver.completions = ∅ ∧ t'.pending = t.driver.farewell ∧
    t'.pending.foldl Effect.perform s'.shared = ⟨s.state.mark .failed, true⟩
  /-- From then on it never reads, and once it has done what it owes the session is not usable. -/
  after : ∀ schedule s'', exec (Session.step limits) s' schedule = some s'' →
    (∀ e, s''.step limits (.select e) = none) ∧
      ∃ t, s''.task = some t ∧
        (t.pending = [] → s''.state ≠ .usable ∧ s''.shared.admissionClosed = true)

/-- Somebody waits for an answer. -/
def Session.waits (s : Session σ) : Prop := ∃ t, s.task = some t ∧ t.driver.completions ≠ ∅

theorem Session.Lost.after {s' s'' : Session σ} {t : Task σ} (hl : s'.Lost t)
    {schedule : List (Move σ)} (h : exec (Session.step limits) s' schedule = some s'') :
    (∀ e, s''.step limits (.select e) = none) ∧
      ∃ t, s''.task = some t ∧
        (t.pending = [] → s''.state ≠ .usable ∧ s''.shared.admissionClosed = true) := by
  have hstep : ∀ (past : List (Session σ × Move σ)) (s : Session σ) (m : Move σ) (s₁ : Session σ),
      (∃ t, s.Lost t) → s.step limits m = some s₁ → ∃ t, s₁.Lost t :=
    fun _ _ _ _ ⟨_, hl⟩ hs => hl.step hs
  obtain ⟨t', hl'⟩ := exec_invariant hstep [] ⟨t, hl⟩ h
  refine ⟨fun e => ?_, t', hl'.task, fun hp => ?_⟩
  · cases hs : s''.step limits (.select e) with
    | none => rfl
    | some s₁ =>
        obtain ⟨t₁, t₂, -, ht₁, hsel, -⟩ := Session.select_eq_some hs
        obtain rfl := Option.some.inj (hl'.task.symm.trans ht₁)
        obtain ⟨-, hleft, -⟩ := Task.select_eq_some hsel
        rw [hl'.left] at hleft
        cases hleft
  · rcases hl'.owes with ⟨ps, hps⟩ | ⟨hps, -⟩ | ⟨-, hu⟩
    · rw [hp] at hps
      exact absurd hps.symm (List.append_ne_nil_of_right_ne_nil _ (List.cons_ne_nil _ _))
    · rw [hp] at hps
      cases hps
    · exact hu

/-- **One failed read.** -/
theorem endsOnLoss_iff {s s' : Session σ} (hs : s.Sane)
    (h : s.step limits (.select .readFailed) = some s') : EndsOnLoss limits s s' ↔ s.waits := by
  obtain ⟨t, t', -, ht, hsel, rfl⟩ := Session.select_eq_some h
  obtain ⟨-, -, hd, hleft, -⟩ := Task.select_eq_some hsel
  constructor
  · intro he
    refine ⟨t, ht, fun hempty => ?_⟩
    obtain ⟨t₁, t₂, -, ht₂, hl, -⟩ := he.driver
    cases ht₂
    rw [hleft] at hl
    rcases iterate_readFailed_idle limits hempty with hf | hf
    · rw [hf] at hl
      cases hl
    · rw [hf] at hl
      cases hl
  · rintro ⟨t₁, ht₁, hbusy⟩
    obtain rfl := Option.some.inj (ht.symm.trans ht₁)
    have hit := iterate_readFailed_busy limits hbusy
    have hlog : (iterate limits t.driver .readFailed).1.log =
        t.driver.log ++ t.driver.farewell := by
      rw [hit, Driver.log_fail]
    have hpend := Task.pending_of_select hsel hlog
    have hl : t'.left = some (.returned .failed) := by
      rw [hleft, hit]
      rfl
    have hempty : t'.driver.completions = ∅ := by
      rw [hd, hit]
      exact failAll_completions t.driver .transport
    refine ⟨⟨t, t', ht, rfl, hl, hempty, hpend, ?_⟩, fun schedule s'' he => ?_⟩
    · rw [hpend]
      exact foldl_farewell t.driver s.shared
    · have hlost : Session.Lost { s with task := some t' } t' :=
        ⟨hs, rfl, hl, .inl ⟨t.driver.waiting, hpend⟩⟩
      exact hlost.after he

/-- **When a lost transport ends the session.**  In every run of a session, each failed read ends
it as it should exactly if each finds a request in flight. -/
theorem transportLoss_iff (limits : Limits) (n : Nat) (schedule : List (Move σ)) (s' : Session σ)
    (h : exec (Session.step limits) (.established n) schedule = some s') :
    (∀ a b s₁ s₂, schedule = a ++ [.select .readFailed] ++ b →
      exec (Session.step limits) (.established n) a = some s₁ →
      s₁.step limits (.select .readFailed) = some s₂ → EndsOnLoss limits s₁ s₂) ↔
    ∀ p ∈ visited (Session.step limits) (.established n) schedule,
      p.2 = .select .readFailed → p.1.waits := by
  have hinit : (Session.established n : Session σ).Sane := fun c hc => by
    rw [List.eq_of_mem_replicate hc]
    exact fun _ hu => hu
  have hsane : ∀ {a : List (Move σ)} {s₁ : Session σ},
      exec (Session.step limits) (.established n) a = some s₁ → s₁.Sane := fun ha =>
    exec_invariant (I := fun _ s => s.Sane) (fun _ _ _ _ hI hs => hI.step hs) [] hinit ha
  constructor
  · intro hall p hp he
    obtain ⟨a, b, s₂, rfl, ha, hstep⟩ := exists_split hp h
    rw [he] at hstep hall
    exact (endsOnLoss_iff (hsane ha) hstep).mp (hall a b p.1 s₂ rfl ha hstep)
  · rintro hall a b s₁ s₂ rfl ha hstep
    have hb : exec (Session.step limits) s₁ [.select .readFailed] = some s₂ :=
      exec_cons_eq_some.mpr ⟨s₂, hstep, rfl⟩
    have hmem := visited_subset (c := b) ha hb (visited_cons hstep ▸ List.mem_cons_self)
    exact (endsOnLoss_iff (hsane ha) hstep).mpr (hall _ hmem rfl)

end Loss

/-- A request is written, and then the peer goes away: the driver ends. -/
theorem transportLoss_busy :
    ∃ s₁ s₂ : Session Nat,
      exec (Session.step ⟨64, 16⟩) (.established 0)
        [.select (.submit ⟨5, [1, 2, 3], 50⟩ [3]), .perform] = some s₁ ∧
      s₁.step ⟨64, 16⟩ (.select .readFailed) = some s₂ ∧ EndsOnLoss ⟨64, 16⟩ s₁ s₂ := by
  let waiting : Driver Nat := ⟨[], (∅ : Waiters Nat).insert 5 50, ⟨[5], by decide⟩, false,
    [.write [1, 2, 3]]⟩
  let s : Session Nat :=
    ⟨some ⟨waiting, [], none⟩, ⟨.usable, false⟩, false, true, true, false, []⟩
  let schedule : List (Move Nat) :=
    [.select (.submit ⟨5, [1, 2, 3], 50⟩ [3]), .perform, .select .readFailed]
  have hv : visited (Session.step ⟨64, 16⟩) (.established 0) schedule =
      [_, _, (s, .select .readFailed)] := rfl
  refine ⟨s, _, rfl, rfl, (transportLoss_iff ⟨64, 16⟩ 0 schedule _ rfl).mpr (fun p hp he => ?_)
    [.select (.submit ⟨5, [1, 2, 3], 50⟩ [3]), .perform] [] _ _ rfl rfl rfl⟩
  rw [hv] at hp
  rcases List.mem_cons.mp hp with rfl | hp
  · cases he
  · rcases List.mem_cons.mp hp with rfl | hp
    · cases he
    · obtain rfl := List.mem_singleton.mp hp
      refine ⟨_, rfl, fun hempty => ?_⟩
      have hlen := congrArg (fun w : Waiters Nat => w.entries.length) hempty
      exact absurd hlen (by decide)

/-- **A lost transport goes unnoticed.**  The peer closes an idle session.  The driver sees the end
of the stream and goes round its loop, twice here and as often as it likes; the session stays
usable and its admission source open. -/
theorem transportLoss_ignored :
    ∃ s s' : Session Unit,
      exec (Session.step ⟨64, 16⟩) (.established 1) [.select .readFailed] = some s ∧
      s.step ⟨64, 16⟩ (.select .readFailed) = some s' ∧
      s'.state = .usable ∧ s'.shared.admissionClosed = false ∧
      ¬ EndsOnLoss ⟨64, 16⟩ s s' := by
  refine ⟨_, _, rfl, rfl, rfl, rfl, fun h => ?_⟩
  obtain ⟨t, t', -, ht', hl, -⟩ := h.driver
  cases ht'
  cases hl

end Rp1.Connection

import Rp1.Connection.Session

/-!
# Connection — what `close()` reports

One `close()` call on a session with a driver.  Whatever the driver is handed, the call and the
driver meet in few ways, and what can still happen is fixed by three things: where the call stands,
the lifecycle state, and what the driver has left to do.

Two invariants split the runs.  As long as every step is *orderly* the session is `Fine`: its state
and its driver agree on what the call will report.  The first step that is not makes it `Doomed`,
and it stays so: the state is left at `Closing`, or stands at `Closed` without a shutdown that
succeeded.  `close_reports_iff` reads the result off at the end.
-/

namespace Rp1.Connection
open Codec Protocol Loop Runs

/-! ### The property -/

section Property
variable {σ : Type}

/-- The step in which the transport's shutdown succeeds. -/
def Session.shutsDown (s : Session σ) : Move σ → Bool
  | .perform =>
      match s.next with
      | some (.shutdown true) => true
      | _ => false
  | .select _ | .abort | .close .. => false

/-- No `close()` call starts in this step, or the session is usable. -/
def Session.startsUsable (s : Session σ) : Move σ → Bool
  | .close i _ => decide (s.closers[i]? = some .isTerminal → s.state = .usable)
  | .select _ | .perform | .abort => true

/-- A `close()` call that returned `result` in the state `s`, after `run`, reports that state. -/
structure Reports (run : List (Session σ × Move σ)) (s : Session σ) (result : CloseResult) :
    Prop where
  terminal : s.state.isTerminal = true
  err : result = .err → s.state = .failed
  ok : result = .ok → s.state = .closed ∨ s.state = .unusable
  shutdown : s.state = .closed → (run.any fun p => p.1.shutsDown p.2) = true

/-- The steps that do not lead the report astray: the transport's shutdown does not fail, the
session does not become unusable just before `begin_closing`, and the driver is not dropped. -/
def Session.orderly (s : Session σ) : Move σ → Bool
  | .perform =>
      match s.next with
      | some (.shutdown false) => false
      | some (.mark .unusable) => !decide (.beginClosing ∈ s.closers)
      | _ => true
  | .abort => false
  | .select _ | .close .. => true

end Property

/-! ### What the driver has left to do -/

/-- The ways in which a driver with a handle left returns. -/
inductive Plan where
  /-- The peer broke the protocol, or a request id was refused. -/
  | fatal
  /-- The transport failed. -/
  | lost
  | closed
  | shutdownFailed
deriving DecidableEq

namespace Plan

def exit : Plan → DriverExit
  | fatal => .unusable
  | lost => .failed
  | closed => .closed
  | shutdownFailed => .failed

/-- The state the driver marks first. -/
def state : Plan → ConnectionState
  | fatal => .unusable
  | lost => .failed
  | closed => .closed
  | shutdownFailed => .closed

/-- What the driver does after that. -/
def rest {σ : Type} : Plan → List (Effect σ)
  | fatal | lost => [.closeAdmission]
  | closed => [.closeAdmission, .shutdown true]
  | shutdownFailed => [.closeAdmission, .shutdown false, .mark .failed]

/-- What `close()` returns then. -/
def result : Plan → CloseResult
  | fatal | closed => .ok
  | lost | shutdownFailed => .err

/-- The driver acts on the shutdown signal. -/
def signalled : Plan → Bool
  | fatal | lost => false
  | closed | shutdownFailed => true

theorem isTerminal_state (p : Plan) : p.state.isTerminal = true := by
  cases p <;> rfl

end Plan

section Driver
variable {σ : Type}

theorem Ending.plan {e : Event σ} {flow : Flow Leave} {tail : List (Effect σ)}
    (h : Ending e false flow tail) :
    (flow = .again ∧ tail = []) ∨
      ∃ p : Plan, flow = .leave (.returned p.exit) ∧ tail = .mark p.state :: p.rest ∧
        (p.signalled = true → ∃ ok, e = .shutdown ok) := by
  cases h with
  | again => exact .inl ⟨rfl, rfl⟩
  | closed => exact .inr ⟨.closed, rfl, rfl, fun _ => ⟨true, rfl⟩⟩
  | shutdownFailed => exact .inr ⟨.shutdownFailed, rfl, rfl, fun _ => ⟨false, rfl⟩⟩
  | failed => exact .inr ⟨.lost, rfl, rfl, fun e => nomatch e⟩
  | unusable => exact .inr ⟨.fatal, rfl, rfl, fun e => nomatch e⟩

/-- The driver stays in its loop. -/
structure Task.Looping (t : Task σ) : Prop where
  left : t.left = none
  quiet : ∀ x ∈ t.pending, x.quiet = true

/-- The driver returns by `p` and has not marked the state yet. -/
structure Task.Planned (p : Plan) (t : Task σ) : Prop where
  left : t.left = some (.returned p.exit)
  pending : ∃ effects, t.pending = effects ++ .mark p.state :: p.rest ∧
    ∀ x ∈ effects, x.quiet = true

/-- The driver returns by `p` and has marked the state. -/
structure Task.Marked (p : Plan) (t : Task σ) : Prop where
  left : t.left = some (.returned p.exit)
  pending : t.pending <:+ p.rest

theorem Task.Looping.perform {t : Task σ} {x : Effect σ} {pending : List (Effect σ)}
    (h : t.Looping) (hp : t.pending = x :: pending) :
    Task.Looping { t with pending } ∧ x.quiet = true := by
  have hq := h.quiet
  rw [hp] at hq
  exact ⟨⟨h.left, fun y hy => hq y (List.mem_cons_of_mem x hy)⟩, hq x List.mem_cons_self⟩

/-- The next effect of a driver that is about to return is a quiet one or its mark. -/
theorem Task.Planned.perform {p : Plan} {t : Task σ} {x : Effect σ} {pending : List (Effect σ)}
    (h : t.Planned p) (hp : t.pending = x :: pending) :
    (Task.Planned p { t with pending } ∧ x.quiet = true) ∨
      (x = .mark p.state ∧ pending = p.rest ∧ Task.Marked p { t with pending }) := by
  obtain ⟨effects, he, hq⟩ := h.pending
  rw [hp] at he
  cases effects with
  | nil =>
      obtain ⟨rfl, rfl⟩ := List.cons.inj he
      exact .inr ⟨rfl, rfl, h.left, List.suffix_refl _⟩
  | cons y effects =>
      obtain ⟨rfl, rfl⟩ := List.cons.inj he
      exact .inl ⟨⟨h.left, effects, rfl, fun y hy => hq y (List.mem_cons_of_mem x hy)⟩,
        hq x List.mem_cons_self⟩

theorem Plan.nodup_rest (p : Plan) : (p.rest : List (Effect σ)).Nodup := by
  cases p <;> simp [Plan.rest]

/-- After the mark the driver goes through the rest of its plan. -/
theorem Task.Marked.perform {p : Plan} {t : Task σ} {x : Effect σ} {pending : List (Effect σ)}
    (h : t.Marked p) (hp : t.pending = x :: pending) :
    Task.Marked p { t with pending } ∧ x ∈ p.rest ∧ x ∉ pending := by
  have hsuf := h.pending
  rw [hp] at hsuf
  have hnd : (x :: pending).Nodup := p.nodup_rest.sublist hsuf.sublist
  exact ⟨⟨h.left, (List.suffix_cons x pending).trans hsuf⟩, hsuf.subset List.mem_cons_self,
    (List.nodup_cons.mp hnd).1⟩

end Driver

/-! ### Where the call stands -/

namespace Closer

/-- Before `begin_closing`. -/
def early : Closer → Bool
  | isTerminal | beginClosing => true
  | _ => false

/-- From `begin_closing` to `handle.await`. -/
def mid : Closer → Bool
  | closeAdmission | hasDriver | takeShutdown | takeHandle | await => true
  | _ => false

/-- The call has not taken the driver handle yet. -/
def beforeHandle : Closer → Bool
  | isTerminal | beginClosing | closeAdmission | hasDriver | takeShutdown | takeHandle => true
  | _ => false

/-- The call is not in `close_without_driver`. -/
def withDriver : Closer → Bool
  | takeTransport | shutdownTransport | land .. => false
  | _ => true

end Closer

section Call
variable {σ : Type} {limits : Limits} {s s' : Session σ} {c c' : Closer}

/-- The session has one `close()` call, which stands at `c`, and nobody else has used the driver
handle or the shutdown sender. -/
structure Session.Calling (s : Session σ) (c : Closer) : Prop where
  alone : s.closers = [c]
  driven : c.withDriver = true
  unsignalled : c.early = true → s.signalled = false
  handle : c.beforeHandle = true → s.driver = true
  channel : ∀ t, s.task = some t → t.driver.submitClosed = false

/-- A step of a call that starts on a usable session, with the state it leaves. -/
inductive Advance (s : Session σ) : Closer → Closer → ConnectionState → Prop where
  | start : Advance s .isTerminal .beginClosing s.state
  | begin : Advance s .beginClosing .closeAdmission .closing
  | mid (c c' : Closer) (hc : c.mid = true) (hc' : c'.mid = true) : Advance s c c' s.state
  | joined (exit : Option DriverExit) (h : s.join = some exit) :
      Advance s .await (.awaited exit) s.state
  | finish (next : ConnectionState) (result : CloseResult) :
      Advance s (.finishClose next result) (.done result)
        (if s.state = .closing then next else s.state)

theorem Closer.early_of_mid (h : c.mid = true) : c.early = false := by
  cases c <;> first | rfl | cases h

theorem Closer.awaited_late (exit : Option DriverExit) :
    (Closer.awaited exit).withDriver = true ∧ (Closer.awaited exit).early = false ∧
      (Closer.awaited exit).beforeHandle = false := by
  rcases exit with - | exit
  · exact ⟨rfl, rfl, rfl⟩
  · cases exit <;> exact ⟨rfl, rfl, rfl⟩

theorem Session.Calling.late (hc : s.Calling c) (ha : s'.closers = [c'])
    (hd : c'.withDriver = true) (he : c'.early = false)
    (hh : c'.beforeHandle = true → s'.driver = true) (ht : s'.task = s.task) : s'.Calling c' :=
  ⟨ha, hd, fun e => absurd (he.symm.trans e) Bool.false_ne_true, hh, ht ▸ hc.channel⟩

/-- **The call takes one of these steps.** -/
theorem Session.Calling.advance (hc : s.Calling c) {i : Nat} {ok : Bool}
    (h : s.step limits (.close i ok) = some s') (hu : s.startsUsable (.close i ok) = true) :
    ∃ c', s'.Calling c' ∧ s'.task = s.task ∧ Advance s c c' s'.state := by
  obtain ⟨c₀, hget, h⟩ := Option.bind_eq_some_iff.mp h
  obtain ⟨⟨s₁, c'⟩, hstep, rfl⟩ := Option.map_eq_some_iff.mp h
  have hi : i = 0 ∧ c₀ = c := by
    rw [hc.alone] at hget
    cases i with
    | zero => exact ⟨rfl, (Option.some.inj hget).symm⟩
    | succ i => cases hget
  obtain ⟨rfl, rfl⟩ := hi
  have halone : ∀ c' : Closer, s.closers.set 0 c' = [c'] := fun c' => by rw [hc.alone]; rfl
  cases c₀ with
  | isTerminal =>
      have husable : s.state = .usable := of_decide_eq_true hu hget
      simp only [Closer.step, husable, ConnectionState.isTerminal, Bool.false_eq_true, if_false,
        Option.some.injEq, Prod.mk.injEq] at hstep
      obtain ⟨rfl, rfl⟩ := hstep
      exact ⟨.beginClosing, ⟨halone _, rfl, fun _ => hc.unsignalled rfl, fun _ => hc.handle rfl,
        hc.channel⟩, rfl, .start⟩
  | beginClosing =>
      cases hstep
      exact ⟨.closeAdmission, hc.late (halone _) rfl rfl (fun _ => hc.handle rfl) rfl, rfl, .begin⟩
  | closeAdmission =>
      cases hstep
      exact ⟨.hasDriver, hc.late (halone _) rfl rfl (fun _ => hc.handle rfl) rfl, rfl,
        .mid _ _ rfl rfl⟩
  | hasDriver =>
      simp only [Closer.step, hc.handle rfl, if_true, Option.some.injEq, Prod.mk.injEq] at hstep
      obtain ⟨rfl, rfl⟩ := hstep
      exact ⟨.takeShutdown, hc.late (halone _) rfl rfl (fun _ => hc.handle rfl) rfl, rfl,
        .mid _ _ rfl rfl⟩
  | takeShutdown =>
      cases hstep
      exact ⟨.takeHandle, hc.late (halone _) rfl rfl (fun _ => hc.handle rfl) rfl, rfl,
        .mid _ _ rfl rfl⟩
  | takeHandle =>
      simp only [Closer.step, hc.handle rfl, if_true, Option.some.injEq, Prod.mk.injEq] at hstep
      obtain ⟨rfl, rfl⟩ := hstep
      exact ⟨.await, hc.late (halone _) rfl rfl (fun e => absurd e Bool.false_ne_true) rfl, rfl,
        .mid _ _ rfl rfl⟩
  | await =>
      obtain ⟨exit, hj, e⟩ := Option.map_eq_some_iff.mp hstep
      cases e
      obtain ⟨hd, he, hb⟩ := Closer.awaited_late exit
      exact ⟨.awaited exit, hc.late (halone _) hd he
        (fun e => absurd (hb.symm.trans e) Bool.false_ne_true) rfl, rfl, .joined exit hj⟩
  | finishClose next result =>
      cases hstep
      rw [Session.finishClose_eq]
      exact ⟨.done result, hc.late (halone _) rfl rfl (fun e => absurd e Bool.false_ne_true) rfl,
        rfl, .finish next result⟩
  | takeTransport => cases hc.driven
  | shutdownTransport => cases hc.driven
  | land next result => cases hc.driven
  | done result => cases hstep

/-- **An iteration of the driver** leaves it looping or with a plan, and it acts on the shutdown
signal only after the call has sent it. -/
theorem Session.Calling.select (hc : s.Calling c) {e : Event σ}
    (h : s.step limits (.select e) = some s') :
    s'.Calling c ∧ s'.state = s.state ∧ ∃ t t', s.task = some t ∧ t.left = none ∧
      s'.task = some t' ∧
      (t'.Looping ∨ ∃ p, t'.Planned p ∧ (c.early = true → p.signalled = false)) := by
  obtain ⟨t, t', hallow, ht, hsel, rfl⟩ := Session.select_eq_some h
  obtain ⟨-, hl, hd, hl', effects, tail, hp, hq, hend⟩ := Task.select_eq_some hsel
  have hopen : t'.driver.submitClosed = false := by
    have hne : e ≠ .submitClosed := by
      rintro rfl
      cases hallow
    rw [hd, (iterate_ends limits t.driver e).submitClosed hne]
    exact hc.channel t ht
  refine ⟨⟨hc.alone, hc.driven, hc.unsignalled, hc.handle, ?_⟩, rfl, t, t', ht, hl, rfl, ?_⟩
  · intro t₁ ht₁
    cases ht₁
    exact hopen
  · rw [hopen] at hend
    rcases hend.plan with ⟨hflow, rfl⟩ | ⟨p, hflow, rfl, hsig⟩
    · rw [List.append_nil] at hp
      exact .inl ⟨by rw [hl', hflow]; rfl, by rw [hp]; exact hq⟩
    · refine .inr ⟨p, ⟨by rw [hl', hflow]; rfl, effects, hp, hq⟩, fun hearly => ?_⟩
      rw [← Bool.not_eq_true]
      intro hps
      obtain ⟨ok, rfl⟩ := hsig hps
      exact nomatch (hc.unsignalled hearly).symm.trans hallow

theorem Session.Calling.perform (hc : s.Calling c) {t : Task σ} (ht : s.task = some t)
    (x : Effect σ) (pending : List (Effect σ)) : (s.perform t x pending).Calling c := by
  refine ⟨hc.alone, hc.driven, hc.unsignalled, hc.handle, fun t₁ ht₁ => ?_⟩
  cases ht₁
  exact hc.channel t ht

theorem Session.next_eq {t : Task σ} {x : Effect σ} {pending : List (Effect σ)}
    (ht : s.task = some t) (hp : t.pending = x :: pending) : s.next = some x := by
  rw [next, ht, Option.bind_some, hp, List.head?_cons]

theorem Session.join_eq_some {t : Task σ} {exit : Option DriverExit} (ht : s.task = some t)
    (hj : s.join = some exit) : ∃ l, t.pending = [] ∧ t.left = some l ∧ exit = some l.exit := by
  rw [join, ht] at hj
  obtain ⟨l, hl, e⟩ := Option.map_eq_some_iff.mp hj
  obtain ⟨hp, hl⟩ := Task.returned_eq_some.mp hl
  exact ⟨l, hp, hl, e.symm⟩

theorem Task.Marked.join {p : Plan} {t : Task σ} {exit : Option DriverExit} (h : t.Marked p)
    (ht : s.task = some t) (hj : s.join = some exit) : t.pending = [] ∧ exit = some p.exit := by
  obtain ⟨l, hp, hl, e⟩ := Session.join_eq_some ht hj
  obtain rfl := Option.some.inj (hl.symm.trans h.left)
  exact ⟨hp, e⟩

theorem Session.shutsDown_iff {x : Effect σ} (hn : s.next = some x) :
    s.shutsDown .perform = true ↔ x = .shutdown true := by
  rw [shutsDown, hn]
  cases x with
  | shutdown ok => cases ok <;> simp
  | _ => simp

theorem Session.orderly_iff {x : Effect σ} (hn : s.next = some x) :
    s.orderly .perform = true ↔
      x ≠ .shutdown false ∧ (x = .mark .unusable → .beginClosing ∉ s.closers) := by
  rw [orderly, hn]
  cases x with
  | shutdown ok => cases ok <;> simp
  | mark next => cases next <;> simp
  | _ => simp

end Call

/-! ### Runs that report and runs that do not -/

section Course
variable {σ : Type} {limits : Limits} {shut : Bool} {s s' : Session σ} {c c' : Closer}

/-- The driver has not marked the state. -/
def Closer.Ahead (c : Closer) (state : ConnectionState) : Prop :=
  (c.early = true ∧ state = .usable) ∨ (c.mid = true ∧ state = .closing)

/-- While the driver has not marked the state, the call does not get past the driver's handle. -/
theorem Closer.Ahead.advance {t : Task σ} {state : ConnectionState} (hc : c.Ahead s.state)
    (ht : s.task = some t) (hrun : t.left = none ∨ t.pending ≠ []) (ha : Advance s c c' state) :
    c'.Ahead state ∧ (c'.early = true → c.early = true) := by
  cases ha with
  | start =>
      rcases hc with ⟨-, hst⟩ | ⟨hm, -⟩
      · exact ⟨.inl ⟨rfl, hst⟩, fun _ => rfl⟩
      · cases hm
  | begin => exact ⟨.inr ⟨rfl, rfl⟩, fun e => nomatch e⟩
  | mid _ _ hm hm' =>
      rcases hc with ⟨he, -⟩ | ⟨-, hst⟩
      · exact nomatch (Closer.early_of_mid hm).symm.trans he
      · exact ⟨.inr ⟨hm', hst⟩, fun e => nomatch (Closer.early_of_mid hm').symm.trans e⟩
  | joined exit hj =>
      obtain ⟨l, hp, hl, -⟩ := Session.join_eq_some ht hj
      rcases hrun with hn | hn
      · exact nomatch hn.symm.trans hl
      · exact absurd hp hn
  | finish next result =>
      rcases hc with ⟨he, -⟩ | ⟨hm, -⟩
      · cases he
      · cases hm

/-- The call is going to report the state it leaves; `shut` says whether the transport has been
shut down. -/
inductive Fine (shut : Bool) (c : Closer) (s : Session σ) : Prop where
  | looping (t : Task σ) (ht : s.task = some t) (hc : c.Ahead s.state) (hl : t.Looping)
      (hs : shut = false)
  | planned (p : Plan) (t : Task σ) (ht : s.task = some t) (hc : c.Ahead s.state)
      (hp : c.early = true → p.signalled = false) (hl : t.Planned p) (hs : shut = false)
  /-- The driver has marked the state, and the call does not write it any more. -/
  | marked (p : Plan) (t : Task σ) (ht : s.task = some t) (hst : s.state = p.state)
      (hc : c.mid = true ∨ t.pending = [] ∧ (c = .awaited (some p.exit) ∨ c = .done p.result))
      (hl : t.Marked p) (hf : p = .shutdownFailed → .shutdown false ∈ t.pending)
      (hs : shut = true ↔ p = .closed ∧ .shutdown true ∉ t.pending)
  /-- The transport failed just before `begin_closing`. -/
  | failed (t : Task σ) (ht : s.task = some t) (hst : s.state = .failed) (hc : c = .beginClosing)
      (hl : t.Marked .lost) (hs : shut = false)
  /-- The call has written `Closing` over that, and will find the exit of the driver. -/
  | overwritten (t : Task σ) (ht : s.task = some t) (hst : s.state = .closing)
      (hc : c.mid = true ∨ t.pending = [] ∧ c = .finishClose .failed .err) (hl : t.Marked .lost)
      (hs : shut = false)

/-- The call is going to misreport. -/
inductive Doomed (shut : Bool) (c : Closer) (s : Session σ) : Prop where
  /-- Nobody lands a terminal state any more. -/
  | stuck (ht : ∀ t, s.task = some t →
        t.left = some (.returned .unusable) ∧ ∀ next, .mark next ∉ t.pending)
      (hc : c.early = true ∨ (c.mid = true ∨ c = .done .ok) ∧ s.state = .closing)
  /-- The state is `Closed`, and the transport is not shut down any more. -/
  | unshut (ht : ∀ t, s.task = some t → t.left ≠ none ∧ .shutdown true ∉ t.pending)
      (hst : s.state = .closed) (hc : c.early = false) (hs : shut = false)

/-! #### What is doomed stays so -/

theorem Doomed.select (hd : Doomed shut c s) (hc : s.Calling c) {e : Event σ} :
    s.step limits (.select e) ≠ some s' := by
  intro h
  obtain ⟨-, -, t, t', ht, hl, -⟩ := hc.select h
  cases hd with
  | stuck htask => exact nomatch hl.symm.trans (htask t ht).1
  | unshut htask => exact (htask t ht).1 hl

theorem Doomed.perform (hd : Doomed shut c s) (h : s.step limits .perform = some s') :
    Doomed (shut || s.shutsDown .perform) c s' := by
  have hkeep := (Session.careful_iff h).mpr rfl
  obtain ⟨t, x, pending, ht, hp, rfl⟩ := Session.perform_eq_some h
  cases hd with
  | stuck htask hc =>
      obtain ⟨hl, hm⟩ := htask t ht
      rw [hp] at hm
      refine .stuck (fun t₁ ht₁ => ?_) (hc.imp_right (And.imp_right fun hst => ?_))
      · cases ht₁
        exact ⟨hl, fun next hn => hm next (List.mem_cons_of_mem x hn)⟩
      · cases x with
        | mark next => exact absurd List.mem_cons_self (hm next)
        | _ => exact hst
  | unshut htask hst hc hs =>
      obtain ⟨hl, hm⟩ := htask t ht
      rw [hp, List.mem_cons, not_or] at hm
      have hx : s.shutsDown .perform = false := by
        rw [← Bool.not_eq_true, Session.shutsDown_iff (Session.next_eq ht hp)]
        exact fun e => hm.1 e.symm
      refine .unshut (fun t₁ ht₁ => ?_) ?_ hc (by rw [hs, hx]; rfl)
      · cases ht₁
        exact ⟨hl, hm.2⟩
      · rw [hkeep (by rw [hst]; rfl), hst]

theorem Doomed.abort (hd : Doomed shut c s) (h : s.step limits .abort = some s') :
    Doomed shut c s' := by
  obtain ⟨-, -, -, rfl⟩ := Session.abort_eq_some h
  cases hd with
  | stuck htask hc => exact .stuck (fun t ht => (nomatch ht)) hc
  | unshut htask hst hc hs => exact .unshut (fun t ht => (nomatch ht)) hst hc hs

theorem Doomed.advance (hd : Doomed shut c s) (ht : s'.task = s.task)
    (ha : Advance s c c' s'.state) : Doomed shut c' s' := by
  generalize hst' : s'.state = state at ha
  cases hd with
  | stuck htask hc =>
      rw [← ht] at htask
      refine .stuck htask ?_
      rw [hst']
      cases ha with
      | start => exact .inl rfl
      | begin => exact .inr ⟨.inl rfl, rfl⟩
      | mid _ _ hm hm' =>
          rcases hc with he | ⟨-, hst⟩
          · exact nomatch (Closer.early_of_mid hm).symm.trans he
          · exact .inr ⟨.inl hm', hst⟩
      | joined exit hj =>
          -- the driver was dropped or returns `Unusable`, and then the call writes nothing
          have hexit : Closer.awaited exit = .done .ok := by
            cases hdriver : s.task with
            | none =>
                rw [Session.join, hdriver] at hj
                cases hj
                rfl
            | some t =>
                obtain ⟨l, -, hl, rfl⟩ := Session.join_eq_some hdriver hj
                obtain rfl := Option.some.inj (hl.symm.trans (htask t (ht.trans hdriver)).1)
                rfl
          rcases hc with he | ⟨-, hst⟩
          · cases he
          · exact .inr ⟨.inr hexit, hst⟩
      | finish next result =>
          rcases hc with he | ⟨hm | e, -⟩
          · cases he
          · cases hm
          · cases e
  | unshut htask hst hc hs =>
      rw [← ht] at htask
      cases ha with
      | start => cases hc
      | begin => cases hc
      | mid _ _ hm hm' => exact .unshut htask (hst'.trans hst) (Closer.early_of_mid hm') hs
      | joined exit hj => exact .unshut htask (hst'.trans hst) (Closer.awaited_late exit).2.1 hs
      | finish next result =>
          refine .unshut htask ?_ rfl hs
          rw [hst', hst]
          rfl

/-! #### What is fine stays so by an orderly step, and is doomed by any other -/

theorem Fine.select (hf : Fine shut c s) (hc : s.Calling c) {e : Event σ}
    (h : s.step limits (.select e) = some s') : Fine shut c s' := by
  obtain ⟨-, hst, t, t', ht, hl, ht', hout⟩ := hc.select h
  have hleft : ∀ {t₁ : Task σ} {l : Leave}, s.task = some t₁ → t₁.left ≠ some l := by
    intro t₁ l ht₁ hl₁
    obtain rfl := Option.some.inj (ht.symm.trans ht₁)
    exact nomatch hl.symm.trans hl₁
  cases hf with
  | looping t₁ ht₁ hahead hloop hs =>
      rw [← hst] at hahead
      rcases hout with hloop' | ⟨p, hplan, hp⟩
      · exact .looping t' ht' hahead hloop' hs
      · exact .planned p t' ht' hahead hp hplan hs
  | planned p t₁ ht₁ hahead hp hplan hs => exact absurd hplan.left (hleft ht₁)
  | marked p t₁ ht₁ hst hpos hm hfail hs => exact absurd hm.left (hleft ht₁)
  | failed t₁ ht₁ hst hpos hm hs => exact absurd hm.left (hleft ht₁)
  | overwritten t₁ ht₁ hst hpos hm hs => exact absurd hm.left (hleft ht₁)

/-- A driver that has marked the state is suspended only in `transport.shutdown()`. -/
theorem Task.Marked.awaits {p : Plan} {t : Task σ} (h : t.Marked p) (ha : t.awaits = true) :
    ∃ ok, .shutdown ok ∈ t.pending := by
  obtain ⟨hl, hsub⟩ := h
  rw [Task.awaits, hl] at ha
  cases hp : t.pending with
  | nil => rw [hp] at ha; cases ha
  | cons x pending =>
      rw [hp] at ha hsub
      cases x with
      | shutdown ok => exact ⟨ok, List.mem_cons_self⟩
      | write bytes =>
          have hx : Effect.write bytes ∈ p.rest := hsub.subset List.mem_cons_self
          cases p <;> simp [Plan.rest] at hx
      | _ => cases ha

theorem Fine.abort (hf : Fine shut c s) (h : s.step limits .abort = some s') :
    Doomed shut c s' := by
  obtain ⟨t, ht, ha, rfl⟩ := Session.abort_eq_some h
  have hstuck : c.Ahead s.state → Doomed shut c s.dropTask := by
    intro hahead
    refine .stuck (fun t ht => (nomatch ht)) ?_
    rcases hahead with ⟨he, -⟩ | ⟨hm, hst⟩
    · exact .inl he
    · exact .inr ⟨.inl hm, hst⟩
  have hlost : ∀ t₁, s.task = some t₁ → ¬ t₁.Marked .lost := by
    intro t₁ ht₁ hm
    obtain rfl := Option.some.inj (ht.symm.trans ht₁)
    obtain ⟨ok, hok⟩ := hm.awaits ha
    exact nomatch List.mem_singleton.mp (hm.pending.subset hok)
  cases hf with
  | looping t₁ ht₁ hahead hloop hs => exact hstuck hahead
  | planned p t₁ ht₁ hahead hp hplan hs => exact hstuck hahead
  | failed t₁ ht₁ hst hpos hm hs => exact absurd hm (hlost t₁ ht₁)
  | overwritten t₁ ht₁ hst hpos hm hs => exact absurd hm (hlost t₁ ht₁)
  | marked p t₁ ht₁ hst hpos hm hfail hs =>
      obtain rfl := Option.some.inj (ht.symm.trans ht₁)
      obtain ⟨ok, hok⟩ := hm.awaits ha
      have hmid : c.mid = true := hpos.resolve_right fun hnil => by
        rw [hnil.1] at hok
        cases hok
      have hrest : Effect.shutdown ok ∈ p.rest := hm.pending.subset hok
      refine .unshut (fun t ht => (nomatch ht)) ?_ (Closer.early_of_mid hmid) ?_
      · show s.state = .closed
        rw [hst]
        cases p <;> first | rfl | simp [Plan.rest] at hrest
      · rw [← Bool.not_eq_true, hs]
        rintro ⟨rfl, hno⟩
        have hok' : ok = true := by simpa [Plan.rest] using hrest
        exact hno (hok' ▸ hok)

theorem Fine.advance (hf : Fine shut c s) (ht : s'.task = s.task)
    (ha : Advance s c c' s'.state) : Fine shut c' s' := by
  generalize hst' : s'.state = state at ha
  cases hf with
  | looping t ht₁ hc hloop hs =>
      have hc' := (hc.advance ht₁ (.inl hloop.left) ha).1
      exact .looping t (ht.trans ht₁) (hst' ▸ hc') hloop hs
  | planned p t ht₁ hc hp hplan hs =>
      have hrun : t.pending ≠ [] := by
        obtain ⟨effects, he, -⟩ := hplan.pending
        rw [he]
        exact List.append_ne_nil_of_right_ne_nil _ (List.cons_ne_nil _ _)
      obtain ⟨hc', hearly⟩ := hc.advance ht₁ (.inr hrun) ha
      exact .planned p t (ht.trans ht₁) (hst' ▸ hc') (fun he => hp (hearly he)) hplan hs
  | marked p t ht₁ hst hc hm hfail hs =>
      have hlate : c.early = false := by
        rcases hc with hmid | ⟨-, rfl | rfl⟩
        · exact Closer.early_of_mid hmid
        · exact (Closer.awaited_late _).2.1
        · rfl
      cases ha with
      | start => cases hlate
      | begin => cases hlate
      | mid _ _ hmid hmid' =>
          exact .marked p t (ht.trans ht₁) (hst'.trans hst) (.inl hmid') hm hfail hs
      | joined exit hj =>
          obtain ⟨hp, rfl⟩ := hm.join ht₁ hj
          exact .marked p t (ht.trans ht₁) (hst'.trans hst) (.inr ⟨hp, .inl rfl⟩) hm hfail hs
      | finish next result =>
          rcases hc with hmid | ⟨hp, e | e⟩
          · cases hmid
          · have hstay : s'.state = p.state := by
              rw [hst', hst, if_neg]
              cases p <;> exact fun e => nomatch e
            have hres : result = p.result := by cases p <;> cases e <;> rfl
            exact .marked p t (ht.trans ht₁) hstay (.inr ⟨hp, .inr (hres ▸ rfl)⟩) hm hfail hs
          · cases e
  | failed t ht₁ hst hc hm hs =>
      subst hc
      cases ha with
      | begin => exact .overwritten t (ht.trans ht₁) hst' (.inl rfl) hm hs
      | mid _ _ hmid => cases hmid
  | overwritten t ht₁ hst hc hm hs =>
      cases ha with
      | start => rcases hc with e | ⟨-, e⟩ <;> cases e
      | begin => rcases hc with e | ⟨-, e⟩ <;> cases e
      | mid _ _ hmid hmid' =>
          exact .overwritten t (ht.trans ht₁) (hst'.trans hst) (.inl hmid') hm hs
      | joined exit hj =>
          obtain ⟨hp, rfl⟩ := hm.join ht₁ hj
          exact .overwritten t (ht.trans ht₁) (hst'.trans hst) (.inr ⟨hp, rfl⟩) hm hs
      | finish next result =>
          rcases hc with hmid | ⟨hp, e⟩
          · cases hmid
          · cases e
            -- `finish_close` finds `Closing` and lands `Failed` a second time
            refine .marked .lost t (ht.trans ht₁) ?_ (.inr ⟨hp, .inr rfl⟩) hm
              (fun e => (nomatch e)) ?_
            · rw [hst', if_pos hst]
              rfl
            · rw [hs]
              exact ⟨fun e => (nomatch e), fun e => nomatch e.1⟩

theorem Session.orderly_of_quiet {x : Effect σ} (h : x.quiet = true) (hn : s.next = some x) :
    s.orderly .perform = true ∧ s.shutsDown .perform = false := by
  rw [Session.orderly_iff hn, ← Bool.not_eq_true, Session.shutsDown_iff hn]
  refine ⟨⟨?_, ?_⟩, ?_⟩
  all_goals
    rintro rfl
    cases h

/-- The driver marks the state.  If the call stands before `begin_closing` it will write over the
mark, which only the exit `Failed` makes good. -/
theorem Fine.mark {p : Plan} {t : Task σ} (hc : s.Calling c)
    (hn : s.next = some (.mark p.state)) (hahead : c.Ahead s.state)
    (hsig : c.early = true → p.signalled = false)
    (hm : Task.Marked p { t with pending := p.rest }) :
    (c = .isTerminal ∧ (s.perform t (.mark p.state) p.rest).state.isTerminal = true) ∨
      (s.orderly .perform = true ∧ Fine false c (s.perform t (.mark p.state) p.rest)) ∨
      (¬ s.orderly .perform = true ∧ Doomed false c (s.perform t (.mark p.state) p.rest)) := by
  have hst : (s.perform t (.mark p.state) p.rest).state = p.state := by
    show s.state.mark p.state = p.state
    rcases hahead with ⟨-, e⟩ | ⟨-, e⟩
    · rw [e]
      rfl
    · rw [e]
      rfl
  have hord := Session.orderly_iff hn
  rcases hahead with ⟨he, -⟩ | ⟨hmid, -⟩
  · cases c with
    | isTerminal =>
        refine .inl ⟨rfl, ?_⟩
        rw [hst]
        exact p.isTerminal_state
    | beginClosing =>
        cases p with
        | fatal =>
            have hin : Closer.beginClosing ∈ s.closers := by
              rw [hc.alone]
              exact List.mem_singleton_self _
            refine .inr (.inr ⟨fun ho => (hord.mp ho).2 rfl hin,
              .stuck (fun t₁ ht₁ => ?_) (.inl rfl)⟩)
            cases ht₁
            exact ⟨hm.left, fun next hn => nomatch List.mem_singleton.mp hn⟩
        | lost =>
            exact .inr (.inl ⟨hord.mpr ⟨fun e => (nomatch e), fun e => (nomatch e)⟩,
              .failed _ rfl hst rfl hm rfl⟩)
        | closed => cases hsig he
        | shutdownFailed => cases hsig he
    | _ => cases he
  · refine .inr (.inl ⟨hord.mpr ⟨fun e => (nomatch e), fun _ hin => ?_⟩, ?_⟩)
    · rw [hc.alone, List.mem_singleton] at hin
      rw [← hin] at hmid
      cases hmid
    · refine .marked p _ rfl hst (.inl hmid) hm (fun e => ?_) ⟨fun e => (nomatch e), ?_⟩
      · rw [e]
        exact List.mem_cons_of_mem _ List.mem_cons_self
      · rintro ⟨rfl, hno⟩
        exact absurd (List.mem_cons_of_mem _ List.mem_cons_self) hno

/-- The driver goes on after its mark.  Only a shutdown that fails is not orderly. -/
theorem Fine.afterMark {p : Plan} {t : Task σ} {x : Effect σ} {pending : List (Effect σ)}
    (hn : s.next = some x) (hp : t.pending = x :: pending) (hmid : c.mid = true)
    (hst : (s.perform t x pending).state = p.state) (hm : t.Marked p)
    (hf : p = .shutdownFailed → .shutdown false ∈ t.pending)
    (hs : shut = true ↔ p = .closed ∧ .shutdown true ∉ t.pending) :
    (s.orderly .perform = true ∧
        Fine (shut || s.shutsDown .perform) c (s.perform t x pending)) ∨
      (¬ s.orderly .perform = true ∧
        Doomed (shut || s.shutsDown .perform) c (s.perform t x pending)) := by
  have hord := Session.orderly_iff hn
  have hshut := Session.shutsDown_iff hn
  obtain ⟨hm', hx, hnd⟩ := hm.perform hp
  rw [hp] at hf hs
  by_cases hfalse : x = .shutdown false
  · have hplan : p = .shutdownFailed := by
      rw [hfalse] at hx
      cases p <;> first | rfl | simp [Plan.rest] at hx
    subst hplan hfalse
    refine .inr ⟨fun ho => (hord.mp ho).1 rfl, .unshut (fun t₁ ht₁ => ?_) hst
      (Closer.early_of_mid hmid) ?_⟩
    · cases ht₁
      refine ⟨fun e => (nomatch hm.left.symm.trans e), fun hin => ?_⟩
      simpa [Plan.rest] using hm'.pending.subset hin
    · rw [← Bool.not_eq_true, Bool.or_eq_true, hs, hshut]
      rintro (⟨e, -⟩ | e)
      · cases e
      · cases e
  · refine .inl ⟨hord.mpr ⟨hfalse, fun e => ?_⟩, .marked p _ rfl hst (.inl hmid) hm'
      (fun e => List.mem_of_ne_of_mem (Ne.symm hfalse) (hf e)) ?_⟩
    · rw [e] at hx
      cases p <;> simp [Plan.rest] at hx
    · rw [Bool.or_eq_true, hs, hshut, List.mem_cons, not_or]
      constructor
      · rintro (⟨e, -, hno⟩ | rfl)
        · exact ⟨e, hno⟩
        · refine ⟨?_, hnd⟩
          cases p <;> first | rfl | simp [Plan.rest] at hx
      · rintro ⟨e, hno⟩
        by_cases hxt : x = .shutdown true
        · exact .inr hxt
        · exact .inl ⟨e, Ne.symm hxt, hno⟩

/-- **The first step that is not orderly decides.**  An effect of the driver keeps the session
fine, dooms it, or makes it terminal before the call has looked. -/
theorem Fine.perform (hf : Fine shut c s) (hc : s.Calling c)
    (h : s.step limits .perform = some s') :
    (c = .isTerminal ∧ s'.state.isTerminal = true) ∨
      (s.orderly .perform = true ∧ Fine (shut || s.shutsDown .perform) c s') ∨
      (¬ s.orderly .perform = true ∧ Doomed (shut || s.shutsDown .perform) c s') := by
  have hkeep := (Session.careful_iff h).mpr rfl
  obtain ⟨t, x, pending, ht, hp, rfl⟩ := Session.perform_eq_some h
  have hn := Session.next_eq ht hp
  have hsame : ∀ {t₁ : Task σ}, s.task = some t₁ → t = t₁ := fun ht₁ =>
    Option.some.inj (ht.symm.trans ht₁)
  have hquiet : x.quiet = true → c.Ahead s.state → c.Ahead (s.perform t x pending).state := by
    intro hq hahead
    show c.Ahead (x.perform s.shared).state
    rw [Effect.perform_of_quiet hq]
    exact hahead
  -- after the mark `Failed` the driver only closes the admission source
  have hlost : t.Marked .lost → Task.Marked .lost { t with pending } ∧ x = .closeAdmission ∧
      s.orderly .perform = true ∧ s.shutsDown .perform = false := by
    intro hm
    obtain ⟨hm', hx, -⟩ := hm.perform hp
    obtain rfl := List.mem_singleton.mp hx
    refine ⟨hm', rfl, (Session.orderly_iff hn).mpr ⟨fun e => (nomatch e), fun e => (nomatch e)⟩, ?_⟩
    rw [← Bool.not_eq_true, Session.shutsDown_iff hn]
    exact fun e => nomatch e
  cases hf with
  | looping t₁ ht₁ hahead hloop hs =>
      obtain rfl := hsame ht₁
      obtain ⟨hloop', hq⟩ := hloop.perform hp
      obtain ⟨ho, hno⟩ := Session.orderly_of_quiet hq hn
      rw [hs, hno]
      exact .inr (.inl ⟨ho, .looping _ rfl (hquiet hq hahead) hloop' rfl⟩)
  | planned p t₁ ht₁ hahead hsig hplan hs =>
      obtain rfl := hsame ht₁
      rcases hplan.perform hp with ⟨hplan', hq⟩ | ⟨rfl, rfl, hm⟩
      · obtain ⟨ho, hno⟩ := Session.orderly_of_quiet hq hn
        rw [hs, hno]
        exact .inr (.inl ⟨ho, .planned p _ rfl (hquiet hq hahead) hsig hplan' rfl⟩)
      · have hno : s.shutsDown .perform = false := by
          rw [← Bool.not_eq_true, Session.shutsDown_iff hn]
          exact fun e => nomatch e
        rw [hs, hno]
        exact Fine.mark hc hn hahead hsig hm
  | marked p t₁ ht₁ hst hpos hm hfail hs =>
      obtain rfl := hsame ht₁
      have hmid : c.mid = true := hpos.resolve_right fun hnil => nomatch hp.symm.trans hnil.1
      have hst' := (hkeep (by rw [hst]; exact p.isTerminal_state)).trans hst
      exact .inr (Fine.afterMark hn hp hmid hst' hm hfail hs)
  | failed t₁ ht₁ hst hpos hm hs =>
      obtain rfl := hsame ht₁
      obtain ⟨hm', rfl, ho, hno⟩ := hlost hm
      rw [hs, hno]
      exact .inr (.inl ⟨ho, .failed _ rfl hst hpos hm' rfl⟩)
  | overwritten t₁ ht₁ hst hpos hm hs =>
      obtain rfl := hsame ht₁
      obtain ⟨hm', rfl, ho, hno⟩ := hlost hm
      have hmid : c.mid = true := hpos.resolve_right fun hnil => nomatch hp.symm.trans hnil.1
      rw [hs, hno]
      exact .inr (.inl ⟨ho, .overwritten _ rfl hst (.inl hmid) hm' rfl⟩)

/-! #### Whole runs -/

/-- The session after a run with one call: the call has not looked at a state that is terminal
already, or every step was orderly, or some step was not. -/
def Course (run : List (Session σ × Move σ)) (c : Closer) (s : Session σ) : Prop :=
  (c = .isTerminal ∧ s.state.isTerminal = true) ∨
    ((∀ p ∈ run, p.1.orderly p.2 = true) ∧ Fine (run.any fun p => p.1.shutsDown p.2) c s) ∨
    ((¬ ∀ p ∈ run, p.1.orderly p.2 = true) ∧ Doomed (run.any fun p => p.1.shutsDown p.2) c s)

theorem Course.established : Course [] .isTerminal (.established 1 : Session σ) :=
  .inr (.inl ⟨fun _ hp => (nomatch hp),
    .looping .spawn rfl (.inl ⟨rfl, rfl⟩) ⟨rfl, fun _ hx => nomatch hx⟩ rfl⟩)

/-- A step of a fine and one of a doomed session make one of its course. -/
theorem Course.extend {run : List (Session σ × Move σ)} {m : Move σ} (hcourse : Course run c s)
    (hunstarted : c = .isTerminal → s.state.isTerminal = true →
      c' = .isTerminal ∧ s'.state.isTerminal = true)
    (hfine : ∀ {shut}, Fine shut c s → (c' = .isTerminal ∧ s'.state.isTerminal = true) ∨
      (s.orderly m = true ∧ Fine (shut || s.shutsDown m) c' s') ∨
      (¬ s.orderly m = true ∧ Doomed (shut || s.shutsDown m) c' s'))
    (hdoomed : ∀ {shut}, Doomed shut c s → Doomed (shut || s.shutsDown m) c' s') :
    Course (run ++ [(s, m)]) c' s' := by
  rw [Course, List.any_append, List.forall_mem_append, List.forall_mem_singleton, List.any_cons,
    List.any_nil, Bool.or_false]
  rcases hcourse with ⟨hc, hst⟩ | ⟨hall, hf⟩ | ⟨hnot, hd⟩
  · exact .inl (hunstarted hc hst)
  · rcases hfine hf with hstart | ⟨ho, hf'⟩ | ⟨ho, hd'⟩
    · exact .inl hstart
    · exact .inr (.inl ⟨⟨hall, ho⟩, hf'⟩)
    · exact .inr (.inr ⟨fun hall' => ho hall'.2, hd'⟩)
  · exact .inr (.inr ⟨fun hall => hnot hall.1, hdoomed hd⟩)

theorem Course.step {run : List (Session σ × Move σ)} {m : Move σ} (hc : s.Calling c)
    (hcourse : Course run c s) (h : s.step limits m = some s') (hu : s.startsUsable m = true) :
    ∃ c', s'.Calling c' ∧ Course (run ++ [(s, m)]) c' s' := by
  cases m with
  | select e =>
      refine ⟨c, (hc.select h).1, hcourse.extend (fun hstart hst => ⟨hstart, ?_⟩)
        (fun hf => .inr (.inl ⟨rfl, ?_⟩)) (fun hd => absurd h (hd.select hc))⟩
      · rw [(Session.careful_iff h).mpr rfl hst]
        exact hst
      · rw [Session.shutsDown, Bool.or_false]
        exact hf.select hc h
  | perform =>
      have hc' : s'.Calling c := by
        obtain ⟨t, x, pending, ht, -, rfl⟩ := Session.perform_eq_some h
        exact hc.perform ht x pending
      refine ⟨c, hc', hcourse.extend (fun hstart hst => ⟨hstart, ?_⟩)
        (fun hf => hf.perform hc h) (fun hd => hd.perform h)⟩
      rw [(Session.careful_iff h).mpr rfl hst]
      exact hst
  | abort =>
      have hc' : s'.Calling c := by
        obtain ⟨t, -, -, rfl⟩ := Session.abort_eq_some h
        exact ⟨hc.alone, hc.driven, hc.unsignalled, hc.handle, fun t ht => nomatch ht⟩
      refine ⟨c, hc', hcourse.extend (fun hstart hst => ⟨hstart, ?_⟩)
        (fun hf => .inr (.inr ⟨fun e => (nomatch e), ?_⟩)) (fun hd => ?_)⟩
      · rw [(Session.careful_iff h).mpr rfl hst]
        exact hst
      · rw [Session.shutsDown, Bool.or_false]
        exact hf.abort h
      · rw [Session.shutsDown, Bool.or_false]
        exact hd.abort h
  | close i ok =>
      obtain ⟨c', hc', ht, ha⟩ := hc.advance h hu
      refine ⟨c', hc', hcourse.extend (fun hstart hst => ?_) (fun hf => .inr (.inl ⟨rfl, ?_⟩))
        (fun hd => ?_)⟩
      · -- the call starts now, and so it finds a usable session
        have hi : s.closers[i]? = some .isTerminal := by
          obtain ⟨c₀, hget, -⟩ := Option.bind_eq_some_iff.mp h
          rw [hget]
          rw [hc.alone, hstart] at hget
          exact congrArg some (List.mem_singleton.mp (List.mem_of_getElem? hget))
        rw [of_decide_eq_true hu hi] at hst
        cases hst
      · rw [Session.shutsDown, Bool.or_false]
        exact hf.advance ht ha
      · rw [Session.shutsDown, Bool.or_false]
        exact hd.advance ht ha

theorem Fine.reports {run : List (Session σ × Move σ)} {result : CloseResult}
    (hf : Fine (run.any fun p => p.1.shutsDown p.2) (.done result) s) : Reports run s result := by
  cases hf with
  | looping t ht hahead => rcases hahead with ⟨e, -⟩ | ⟨e, -⟩ <;> cases e
  | planned p t ht hahead => rcases hahead with ⟨e, -⟩ | ⟨e, -⟩ <;> cases e
  | failed t ht hst hpos => cases hpos
  | overwritten t ht hst hpos => rcases hpos with e | ⟨-, e⟩ <;> cases e
  | marked p t ht hst hpos hm hfail hs =>
      obtain ⟨hp, hres⟩ := hpos.resolve_left fun e => nomatch e
      have hres : result = p.result := by
        rcases hres with e | e
        · cases p <;> first | (cases e; rfl) | cases e
        · exact Closer.done.inj e
      rw [hp] at hfail hs
      subst hres
      refine ⟨hst ▸ p.isTerminal_state, fun e => ?_, fun e => ?_, fun e => ?_⟩
      all_goals rw [hst] at *
      · cases p with
        | lost => rfl
        | shutdownFailed => exact absurd (hfail rfl) List.not_mem_nil
        | _ => cases e
      · cases p with
        | fatal => exact .inr rfl
        | closed => exact .inl rfl
        | _ => cases e
      · cases p with
        | closed => exact hs.mpr ⟨rfl, List.not_mem_nil⟩
        | shutdownFailed => exact absurd (hfail rfl) List.not_mem_nil
        | _ => cases e

theorem Doomed.not_reports {run : List (Session σ × Move σ)} {result : CloseResult}
    (hd : Doomed (run.any fun p => p.1.shutsDown p.2) (.done result) s) :
    ¬ Reports run s result := by
  intro hr
  cases hd with
  | stuck htask hc =>
      have ht := hr.terminal
      rcases hc with e | ⟨-, hst⟩
      · cases e
      · rw [hst] at ht
        cases ht
  | unshut htask hst hc hs => exact nomatch hs.symm.trans (hr.shutdown hst)

/-- **When `close()` reports the state it leaves.**  A session with a driver has one `close()` call,
which finds it usable and returns.  What it returned fits the state exactly in the runs all steps
of which are orderly. -/
theorem close_reports_iff (limits : Limits) (schedule : List (Move σ)) (s : Session σ)
    (result : CloseResult)
    (h : exec (Session.step limits) (.established 1) schedule = some s)
    (hdone : s.closers = [.done result])
    (hu : ∀ p ∈ visited (Session.step limits) (.established 1) schedule,
      p.1.startsUsable p.2 = true) :
    Reports (visited (Session.step limits) (.established 1) schedule) s result ↔
      ∀ p ∈ visited (Session.step limits) (.established 1) schedule,
        p.1.orderly p.2 = true := by
  have hinit : (.established 1 : Session σ).Calling .isTerminal :=
    ⟨rfl, rfl, fun _ => rfl, fun _ => rfl, fun t ht => by cases ht; rfl⟩
  have hcourse := exec_invariant
    (I := fun run s => (∀ p ∈ run, p.1.startsUsable p.2 = true) →
      ∃ c, s.Calling c ∧ Course run c s)
    (fun run s m s' ih hs hall => by
      obtain ⟨hpast, hm⟩ := List.forall_mem_append.mp hall
      obtain ⟨c, hc, hcourse⟩ := ih hpast
      exact hcourse.step hc hs (hm (s, m) (List.mem_singleton_self _)))
    [] (fun _ => ⟨.isTerminal, hinit, .established⟩) h
  obtain ⟨c, hc, hcourse⟩ := hcourse hu
  obtain rfl : c = .done result := List.singleton_injective (hc.alone.symm.trans hdone)
  rcases hcourse with ⟨e, -⟩ | ⟨hall, hf⟩ | ⟨hnot, hd⟩
  · cases e
  · exact ⟨fun _ => hall, fun _ => hf.reports⟩
  · exact ⟨fun hr => absurd hr hd.not_reports, fun hall => absurd hall hnot⟩

end Course

/-- A session with a request in flight is closed in good order. -/
theorem close_reports_shutdown :
    ∃ s : Session Nat,
      exec (Session.step ⟨64, 16⟩) (.established 1)
        [.select (.submit ⟨5, [1, 2, 3], 50⟩ [3]), .perform, .close 0 true, .close 0 true,
          .close 0 true, .close 0 true, .close 0 true, .close 0 true, .select (.shutdown true),
          .perform, .perform, .perform, .perform, .close 0 true, .close 0 true] = some s ∧
      s.state = .closed ∧
      Reports (visited (Session.step ⟨64, 16⟩) (.established 1)
        [.select (.submit ⟨5, [1, 2, 3], 50⟩ [3]), .perform, .close 0 true, .close 0 true,
          .close 0 true, .close 0 true, .close 0 true, .close 0 true, .select (.shutdown true),
          .perform, .perform, .perform, .perform, .close 0 true, .close 0 true]) s .ok := by
  let s : Session Nat :=
    ⟨some ⟨⟨[], ∅, .new, false, [.write [1, 2, 3], .send 5 50 (.error .closed), .mark .closed,
      .closeAdmission, .shutdown true]⟩, [], some (.returned .closed)⟩, ⟨.closed, true⟩, false,
      false, false, true, [.done .ok]⟩
  refine ⟨s, rfl, rfl, (close_reports_iff _ _ s _ ?_ ?_ ?_).mpr ?_⟩
  · rfl
  · rfl
  · exact List.all_eq_true.mp rfl
  · exact List.all_eq_true.mp rfl

/-- **A failed shutdown is reported, and the session left `Closed`**: the driver marks the state
before it shuts the transport down, and its second mark comes too late.  **And `close()` returns
`Ok` from a session left `Closing`**, when the peer breaks the protocol just before
`begin_closing`. -/
theorem close_misreports :
    (∃ s : Session Nat,
      exec (Session.step ⟨64, 16⟩) (.established 1)
        [.close 0 true, .close 0 true, .close 0 true, .close 0 true, .close 0 true, .close 0 true,
          .select (.shutdown false), .perform, .perform, .perform, .perform, .close 0 true,
          .close 0 true] = some s ∧
      s.closers = [.done .err] ∧ s.state = .closed) ∧
    ∃ s : Session Nat,
      exec (Session.step ⟨64, 16⟩) (.established 1)
        [.close 0 true, .select (.read (1 :: List.replicate 19 0)), .perform, .close 0 true,
          .perform, .close 0 true, .close 0 true, .close 0 true, .close 0 true,
          .close 0 true] = some s ∧
      s.closers = [.done .ok] ∧ s.state = .closing := by
  constructor
  · exact ⟨_, rfl, rfl, rfl⟩
  · exact ⟨_, rfl, rfl, rfl⟩

end Rp1.Connection

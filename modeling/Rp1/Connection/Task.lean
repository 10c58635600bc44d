import Rp1.Connection.Ledger
import Rp1.Support.Runs

/-!
# Connection — the driver as a task

The driver runs beside the callers and the handles of its session.  What it shares with them is the
lifecycle state and the admission source; its own variables nobody else sees.  A `Task` therefore
takes an iteration in one step, and then performs the effects of the iteration one by one, in
program order.  Between any two of them other tasks may write to the shared state.

`driver_resolves` is what the driver owes its callers: over every run, every submission it received
is resolved exactly once, its two tables agree, and when it returns the tables are empty and,
unless no handle was left, its own writes have left the session terminal.
-/

namespace Rp1.Connection
open Codec Protocol Loop Runs

/-! ### The shared state -/

/-- `Closed`, `Failed` and `Unusable` are terminal. -/
def ConnectionState.isTerminal : ConnectionState → Bool
  | .usable | .closing => false
  | .closed | .failed | .unusable => true

/-- What `mark_state` makes of the current state. -/
def ConnectionState.mark (current next : ConnectionState) : ConnectionState :=
  match current with
  | .usable | .closing => next
  | .closed | .failed | .unusable => current

theorem ConnectionState.isTerminal_mark {current next : ConnectionState}
    (h : next.isTerminal = true) : (current.mark next).isTerminal = true := by
  cases current <;> first | exact h | rfl

/-- What the driver shares with the handles of its session. -/
structure Shared where
  state : ConnectionState
  admissionClosed : Bool
deriving DecidableEq, Repr

def Effect.perform {σ : Type} (s : Shared) : Effect σ → Shared
  | .mark next => { s with state := s.state.mark next }
  | .closeAdmission => { s with admissionClosed := true }
  | .send .. | .write _ | .shutdown _ => s

theorem Effect.perform_of_quiet {σ : Type} {x : Effect σ} (h : x.quiet = true) (shared : Shared) :
    x.perform shared = shared := by
  cases x <;> first | rfl | cases h

/-! ### The task -/

section Task
variable {σ : Type}

/-- The driver task: its variables, the effects it has still to perform, and how it left its
loop. -/
structure Task (σ : Type) where
  driver : Driver σ
  pending : List (Effect σ)
  left : Option Leave

def Task.spawn : Task σ := ⟨.new, [], none⟩

/-- The guard `if !submit_closed` of the submit arm. -/
def Event.enabled (d : Driver σ) : Event σ → Bool
  | .submit .. | .submitClosed => !d.submitClosed
  | .shutdown _ | .readFailed | .read _ => true

/-- The next iteration begins with the event `e`. -/
def Task.select (limits : Limits) (t : Task σ) (e : Event σ) : Option (Task σ) :=
  match t.pending, t.left with
  | [], none =>
      if e.enabled t.driver then
        let r := iterate limits t.driver e
        some ⟨r.1, r.1.log.drop t.driver.log.length, r.2.result⟩
      else none
  | _, _ => none

/-- The driver has returned. -/
def Task.returned (t : Task σ) : Option Leave :=
  match t.pending with
  | [] => t.left
  | _ :: _ => none

theorem Task.returned_eq_some {t : Task σ} {l : Leave} :
    t.returned = some l ↔ t.pending = [] ∧ t.left = some l := by
  rw [returned]
  cases t.pending with
  | nil => exact ⟨fun h => ⟨rfl, h⟩, And.right⟩
  | cons x xs => exact ⟨fun h => (nomatch h), fun h => nomatch h.1⟩

/-- **An iteration of the task**: quiet effects, an ending, and the driver `iterate` leaves. -/
theorem Task.select_eq_some {limits : Limits} {t t' : Task σ} {e : Event σ}
    (h : t.select limits e = some t') :
    t.pending = [] ∧ t.left = none ∧ t'.driver = (iterate limits t.driver e).1 ∧
      t'.left = (iterate limits t.driver e).2.result ∧
      ∃ effects tail, t'.pending = effects ++ tail ∧ (∀ x ∈ effects, x.quiet = true) ∧
        Ending e t'.driver.submitClosed (iterate limits t.driver e).2 tail := by
  obtain ⟨d, pending, left⟩ := t
  cases pending with
  | cons x xs => cases h
  | nil =>
      cases left with
      | some l => cases h
      | none =>
          simp only [select, Option.ite_none_right_eq_some, Option.some.injEq] at h
          obtain ⟨-, rfl⟩ := h
          obtain ⟨effects, tail, hlog, hq, he⟩ := (iterate_ends limits d e).log
          refine ⟨rfl, rfl, rfl, rfl, effects, tail, ?_, hq, he⟩
          show (iterate limits d e).1.log.drop d.log.length = _
          rw [hlog, List.drop_left]

/-- What the iteration did to the outside is what the task performs. -/
theorem Task.pending_of_select {limits : Limits} {t t' : Task σ} {e : Event σ}
    {effects : List (Effect σ)} (h : t.select limits e = some t')
    (hlog : (iterate limits t.driver e).1.log = t.driver.log ++ effects) :
    t'.pending = effects := by
  obtain ⟨d, pending, left⟩ := t
  cases pending with
  | cons x xs => cases h
  | nil =>
      cases left with
      | some l => cases h
      | none =>
          obtain ⟨-, h⟩ := Option.ite_none_right_eq_some.mp h
          cases h
          show (iterate limits d e).1.log.drop d.log.length = effects
          rw [hlog, List.drop_left]

end Task

/-! ### Runs of the driver -/

section World
variable {σ : Type}

/-- The driver task in its session, with the shared state as its latest `mark_state` left it. -/
structure World (σ : Type) where
  task : Task σ
  shared : Shared
  marked : Option ConnectionState

/-- Who moves next. -/
inductive Action (σ : Type) where
  /-- The driver begins an iteration. -/
  | select (e : Event σ)
  /-- The driver performs its next effect. -/
  | perform
  /-- Another task writes the shared state; nobody reopens the admission source. -/
  | other (state : ConnectionState) (closesAdmission : Bool)

def World.step (limits : Limits) (w : World σ) : Action σ → Option (World σ)
  | .select e => (w.task.select limits e).map fun task => { w with task }
  | .perform =>
      match w.task.pending with
      | [] => none
      | x :: pending =>
          let shared := x.perform w.shared
          some
            { task := { w.task with pending }
              shared
              marked := match x with
                | .mark _ => some shared.state
                | _ => w.marked }
  | .other state closesAdmission =>
      some { w with shared := ⟨state, w.shared.admissionClosed || closesAdmission⟩ }

def World.spawn (shared : Shared) : World σ := ⟨.spawn, shared, none⟩

/-- The submissions a schedule lets the driver receive. -/
def Action.received : Action σ → List (UInt64 × σ)
  | .select e => e.received
  | .perform | .other .. => []

/-! ### Every request is resolved exactly once -/

/-- The driver has settled the shared state, or is going to: its marks are terminal, and once it has
left the loop by a `return` the mark and the closing of the admission source are either done or
among the effects it has still to perform. -/
structure World.Settles (w : World σ) : Prop where
  terminal : ∀ next, .mark next ∈ w.task.pending → next.isTerminal = true
  marks : ∀ exit, w.task.left = some (.returned exit) →
    (∃ next, .mark next ∈ w.task.pending) ∨ ∃ state, w.marked = some state ∧ state.isTerminal = true
  closes : ∀ exit, w.task.left = some (.returned exit) →
    .closeAdmission ∈ w.task.pending ∨ w.shared.admissionClosed = true

/-- An ending is empty unless the driver returns; then it marks the session with a terminal state
and closes the admission source, and what it marks after that is `Failed`. -/
theorem Ending.tail_eq {e : Event σ} {b : Bool} {flow : Flow Leave} {tail : List (Effect σ)}
    (h : Ending e b flow tail) :
    (tail = [] ∧ ∀ exit, flow.result ≠ some (.returned exit)) ∨
      ∃ next rest, tail = .mark next :: .closeAdmission :: rest ∧ next.isTerminal = true ∧
        ∀ next, .mark next ∈ rest → next = .failed := by
  cases h with
  | again => exact .inl ⟨rfl, fun _ e => nomatch e⟩
  | broke => exact .inl ⟨rfl, fun _ e => nomatch e⟩
  | closed =>
      exact .inr ⟨.closed, [.shutdown true], rfl, rfl, fun _ hm => nomatch List.mem_singleton.mp hm⟩
  | shutdownFailed =>
      refine .inr ⟨.closed, [.shutdown false, .mark .failed], rfl, rfl, fun next hm => ?_⟩
      rcases List.mem_cons.mp hm with e | hm
      · cases e
      · cases List.mem_singleton.mp hm
        rfl
  | failed => exact .inr ⟨.failed, [], rfl, rfl, fun _ hm => nomatch hm⟩
  | unusable => exact .inr ⟨.unusable, [], rfl, rfl, fun _ hm => nomatch hm⟩

theorem Ending.isTerminal_of_mem {e : Event σ} {b : Bool} {flow : Flow Leave}
    {tail : List (Effect σ)} (h : Ending e b flow tail) {next : ConnectionState}
    (hm : .mark next ∈ tail) : next.isTerminal = true := by
  rcases h.tail_eq with ⟨rfl, -⟩ | ⟨next', rest, rfl, ht, hr⟩
  · cases hm
  · rcases List.mem_cons.mp hm with e | hm
    · cases e
      exact ht
    · rcases List.mem_cons.mp hm with e | hm
      · cases e
      · rw [hr next hm]
        rfl

/-- An iteration of the driver announces what it owes the shared state. -/
theorem World.Settles.select {limits : Limits} {w : World σ} {e : Event σ} {task : Task σ}
    (h : w.task.select limits e = some task) : World.Settles { w with task } := by
  obtain ⟨-, -, -, hleft, effects, tail, hpend, hq, he⟩ := Task.select_eq_some h
  have hret : ∀ exit, task.left = some (.returned exit) →
      ∃ next rest, tail = .mark next :: .closeAdmission :: rest := by
    intro exit hl
    rcases he.tail_eq with ⟨-, hno⟩ | ⟨next, rest, htail, -⟩
    · exact absurd (hleft.symm.trans hl) (hno exit)
    · exact ⟨next, rest, htail⟩
  refine ⟨fun next hm => ?_, fun exit hl => .inl ?_, fun exit hl => .inl ?_⟩
  · rw [hpend] at hm
    rcases List.mem_append.mp hm with hm | hm
    · exact nomatch hq _ hm
    · exact he.isTerminal_of_mem hm
  · obtain ⟨next, rest, htail⟩ := hret exit hl
    rw [hpend, htail]
    exact ⟨next, List.mem_append_right _ List.mem_cons_self⟩
  · obtain ⟨next, rest, htail⟩ := hret exit hl
    rw [hpend, htail]
    exact List.mem_append_right _ (List.mem_cons_of_mem _ List.mem_cons_self)

/-- Each effect the driver performs pays what it announced. -/
theorem World.Settles.step {limits : Limits} {w w' : World σ} {a : Action σ} (h : w.Settles)
    (hs : w.step limits a = some w') : w'.Settles := by
  cases a with
  | select e =>
      obtain ⟨task, ht, rfl⟩ := Option.map_eq_some_iff.mp hs
      exact .select ht
  | other state closesAdmission =>
      cases hs
      refine ⟨h.terminal, h.marks, fun exit hl => ?_⟩
      rcases h.closes exit hl with hc | hc
      · exact .inl hc
      · refine .inr ?_
        show (w.shared.admissionClosed || closesAdmission) = true
        rw [hc, Bool.true_or]
  | perform =>
      obtain ⟨⟨d, pending, left⟩, shared, marked⟩ := w
      cases pending with
      | nil => cases hs
      | cons x pending =>
          cases hs
          have hterm : ∀ next, .mark next ∈ pending → next.isTerminal = true := fun next hm =>
            h.terminal next (List.mem_cons_of_mem _ hm)
          -- an effect that is not the announced one leaves it pending
          have hmarks : (∀ next, .mark next ≠ x) → ∀ exit, left = some (.returned exit) →
              (∃ next, .mark next ∈ pending) ∨
                ∃ state, marked = some state ∧ state.isTerminal = true := by
            intro hx exit hl
            rcases h.marks exit hl with ⟨next, hm⟩ | hm
            · exact .inl ⟨next, List.mem_of_ne_of_mem (hx next) hm⟩
            · exact .inr hm
          have hcloses : .closeAdmission ≠ x → ∀ exit, left = some (.returned exit) →
              .closeAdmission ∈ pending ∨ shared.admissionClosed = true := by
            intro hx exit hl
            rcases h.closes exit hl with hc | hc
            · exact .inl (List.mem_of_ne_of_mem hx hc)
            · exact .inr hc
          cases x with
          | mark next =>
              refine ⟨hterm, fun exit hl => .inr ⟨_, rfl, ?_⟩, hcloses fun e => nomatch e⟩
              exact ConnectionState.isTerminal_mark (h.terminal next List.mem_cons_self)
          | closeAdmission => exact ⟨hterm, hmarks fun _ e => (nomatch e), fun _ _ => .inr rfl⟩
          | send id completion outcome =>
              exact ⟨hterm, hmarks fun _ e => (nomatch e), hcloses fun e => nomatch e⟩
          | write bytes =>
              exact ⟨hterm, hmarks fun _ e => (nomatch e), hcloses fun e => nomatch e⟩
          | shutdown ok =>
              exact ⟨hterm, hmarks fun _ e => (nomatch e), hcloses fun e => nomatch e⟩

/-- The books and the tables of the driver, over the submissions received so far. -/
structure World.Sound (received : List (UInt64 × σ)) (w : World σ) : Prop where
  ledger : Ledger received w.task.driver
  left : ∀ l, w.task.left = some l → w.task.driver.completions = ∅
  settles : w.Settles

theorem World.Sound.step {limits : Limits} {received : List (UInt64 × σ)} {w w' : World σ}
    {a : Action σ} (h : w.Sound received) (hs : w.step limits a = some w') :
    w'.Sound (received ++ a.received) := by
  have hset := h.settles.step hs
  cases a with
  | select e =>
      obtain ⟨task, ht, rfl⟩ := Option.map_eq_some_iff.mp hs
      obtain ⟨-, -, hd, hl, -⟩ := Task.select_eq_some ht
      refine ⟨?_, fun l hleft => ?_, hset⟩
      · show Ledger _ task.driver
        rw [hd]
        exact h.ledger.iterate limits e
      · show task.driver.completions = ∅
        rw [hd]
        refine iterate_leaves (l := l) ?_
        have hres : (iterate limits w.task.driver e).2.result = some l := hl.symm.trans hleft
        cases hf : (iterate limits w.task.driver e).2 with
        | again => rw [hf] at hres; cases hres
        | leave l' => rw [hf] at hres; cases hres; rfl
  | other state closesAdmission =>
      cases hs
      rw [Action.received, List.append_nil]
      exact ⟨h.ledger, h.left, hset⟩
  | perform =>
      rw [Action.received, List.append_nil]
      obtain ⟨⟨d, pending, left⟩, shared, marked⟩ := w
      cases pending with
      | nil => cases hs
      | cons x pending =>
          cases hs
          exact ⟨h.ledger, h.left, hset⟩

/-- **What the driver owes its callers.**  In every run of the driver, whatever it is handed and
whatever other tasks do to the shared state: the live set is the set of waiters and does not hold
the reserved id; every submission received waits or has had its sender used up, none twice and
none lost; when the driver has returned, nobody waits and every submission has been resolved; and
unless it left because no handle was left, its own writes have left the session terminal and the
admission source closed. -/
theorem driver_resolves (limits : Limits) (shared : Shared) (schedule : List (Action σ))
    (w : World σ) (h : exec (World.step limits) (.spawn shared) schedule = some w) :
    (∀ id, id ∈ w.task.driver.completions ↔ id ∈ w.task.driver.live) ∧
    0 ∉ w.task.driver.live ∧
    (schedule.flatMap Action.received).Perm (w.task.driver.sent ++ w.task.driver.waiting) ∧
    (∀ l, w.task.returned = some l →
      w.task.driver.completions = ∅ ∧ w.task.driver.live = .new ∧
      (schedule.flatMap Action.received).Perm w.task.driver.sent) ∧
    (∀ exit, w.task.returned = some (.returned exit) →
      (∃ state, w.marked = some state ∧ state.isTerminal = true) ∧
      w.shared.admissionClosed = true) := by
  have hinit : (World.spawn shared : World σ).Sound [] :=
    ⟨.new, fun _ e => (nomatch e), ⟨fun _ e => (nomatch e), fun _ e => (nomatch e),
      fun _ e => nomatch e⟩⟩
  have hstep : ∀ (past : List (World σ × Action σ)) (w : World σ) (a : Action σ) (w' : World σ),
      w.Sound (past.flatMap fun p => p.2.received) → w.step limits a = some w' →
      w'.Sound ((past ++ [(w, a)]).flatMap fun p => p.2.received) := by
    intro past w a w' hw hs
    rw [List.flatMap_append, List.flatMap_singleton]
    exact hw.step hs
  have hsound := exec_invariant hstep [] hinit h
  -- what the steps taken received is what the schedule handed over
  have hpast : (visited (World.step limits) (.spawn shared) schedule).flatMap
      (fun p => p.2.received) = schedule.flatMap Action.received := by
    rw [← List.flatMap_map Prod.snd, map_snd_visited h]
  rw [List.nil_append, hpast] at hsound
  obtain ⟨hledger, hleft, hset⟩ := hsound
  refine ⟨hledger.synced, hledger.nonzero, hledger.balanced, fun l hl => ?_, fun exit hl => ?_⟩
  · obtain ⟨-, hl⟩ := Task.returned_eq_some.mp hl
    have hempty := hleft l hl
    refine ⟨hempty, InFlightRegistry.eq_new_of_forall_notMem fun id hid => ?_, ?_⟩
    · have hid' := (hledger.synced id).mpr hid
      rw [hempty] at hid'
      exact AList.notMem_empty id hid'
    · have hwait : w.task.driver.waiting = [] := by rw [Driver.waiting, hempty]; rfl
      have hb := hledger.balanced
      rwa [hwait, List.append_nil] at hb
  · obtain ⟨hp, hl⟩ := Task.returned_eq_some.mp hl
    constructor
    · rcases hset.marks exit hl with ⟨next, hm⟩ | hm
      · rw [hp] at hm
        cases hm
      · exact hm
    · rcases hset.closes exit hl with hc | hc
      · rw [hp] at hc
        cases hc
      · exact hc

end World

/-- A submission is received and written, another task starts to close the session, and it is shut
down in good order. -/
theorem driver_resolves_shutdown :
    ∃ w : World Nat,
      exec (World.step ⟨64, 16⟩) (.spawn ⟨.usable, false⟩)
        [.select (.submit ⟨5, [1, 2, 3], 50⟩ [2, 1]), .perform, .select (.shutdown true),
          .perform, .other .closing true, .perform, .perform, .perform] = some w ∧
      w.task.driver.live = .new ∧ [(5, 50)].Perm w.task.driver.sent ∧
      ∃ state, w.marked = some state ∧ state.isTerminal = true := by
  let w : World Nat :=
    ⟨⟨⟨[], ∅, .new, false, [.write [1, 2, 3], .send 5 50 (.error .closed), .mark .closed,
      .closeAdmission, .shutdown true]⟩, [], some (.returned .closed)⟩, ⟨.closed, true⟩,
      some .closed⟩
  have h : exec (World.step ⟨64, 16⟩) (.spawn ⟨.usable, false⟩)
      [.select (.submit ⟨5, [1, 2, 3], 50⟩ [2, 1]), .perform, .select (.shutdown true),
        .perform, .other .closing true, .perform, .perform, .perform] = some w := rfl
  obtain ⟨-, -, -, hret, hmark⟩ := driver_resolves _ _ _ w h
  obtain ⟨-, hlive, hsent⟩ := hret (.returned .closed) rfl
  exact ⟨w, h, hlive, hsent, (hmark .closed rfl).1⟩

end Rp1.Connection

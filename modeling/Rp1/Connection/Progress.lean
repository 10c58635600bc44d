import Rp1.Connection.Admission
import Rp1.Connection.Work

/-!
# Connection — what a client can wait for

A command waits in three places: for a permit, for room in the submit queue, and for its
completion; a `close()` call waits for the driver.  The driver waits for its transport: in its
`select!` for a read, in `write_all` for the peer to take the bytes, and for the end of
`transport.shutdown()`.  While it is in one of the last two (`Client.blocked`) it hears nobody.

`Client.Steady` says what the tasks may rely on.  Every permit is in the admission source or with a
command, the submit channel stays open, as long as the driver is there every command that waits for
its completion is owed one, and who waits for the driver has signalled it.

`comes_to_rest` draws the conclusion for the session as a whole.  The tasks of a client take a
bounded number of steps other than reads.  When none of them can go on by itself and the driver is
not blocked, every `close()` has returned and every command has returned or waits for the peer: for
the answer to its own request, or for a permit while as many requests as there are permits wait for
theirs.  When the driver is blocked, the others wait for it.
-/

namespace Rp1.Connection
open Codec Protocol Command Loop Runs

/-! ### The property -/

/-- The driver is in `write_all` or in `transport.shutdown()`. -/
def Client.blocked (c : Client) : Bool :=
  match c.session.next with
  | some (.write _) | some (.shutdown _) => true
  | _ => false

/-- A step that a task of the client takes by itself.  It is not up to the client when a read, a
`write_all` or a `transport.shutdown()` comes back, that a future is dropped, and that the runtime
aborts the driver. -/
def Client.own (c : Client) : Turn → Bool
  | .call _ => true
  | .session .perform => !c.blocked
  | .session (.close i _) => decide (c.session.closers[i]? ≠ some .shutdownTransport)
  | .session (.select (.submit ..)) | .session (.select (.shutdown _)) => true
  | .session (.select _) | .session .abort | .drop _ => false

/-- Nothing goes on by itself. -/
def Client.Resting (n : Negotiated) (c : Client) : Prop :=
  ∀ turn, c.own turn = true → c.step n turn = none

/-- The command has returned, or nobody waits for it any more. -/
def Place.finished : Place → Bool
  | .done _ | .dropped => true
  | _ => false

/-- The `i`-th command waits for the peer, or for somebody who does. -/
inductive Client.AwaitsPeer (bound : Nat) (c : Client) (i : Nat) : Place → Prop where
  /-- Its own request waits for its answer. -/
  | answer (id : UInt64) (h : (id, i) ∈ c.session.waiting) : AwaitsPeer bound c i (.await id none)
  /-- The requests of others do, and they have all the permits. -/
  | permit (payload : Bytes) (h : bound ≤ c.session.waiting.length) :
      AwaitsPeer bound c i (.acquire payload)

/-- The `i`-th command waits for a driver that is blocked. -/
inductive Client.AwaitsDriver (bound : Nat) (c : Client) (i : Nat) : Place → Prop where
  /-- Its request is in the queue or with the driver. -/
  | outcome (id : UInt64) (h : (id, i) ∈ c.owed) : AwaitsDriver bound c i (.await id none)
  | room (id : UInt64) (bytes : Bytes) (h : submitCapacity ≤ c.queue.length) :
      AwaitsDriver bound c i (.send id bytes)
  /-- Other commands have all the permits. -/
  | permit (payload : Bytes) (h : c.holders.count true = bound) :
      AwaitsDriver bound c i (.acquire payload)

/-! ### The invariant -/

/-- The `close()` call waits for a driver that has its signal. -/
def Closer.relies : Closer → Bool
  | .takeHandle | .await => true
  | _ => false

/-- What the tasks of a session rely on. -/
structure Session.Steady {σ : Type} (s : Session σ) : Prop where
  submitOpen : ∀ t, s.task = some t → t.driver.submitClosed = false
  /-- Who has taken the shutdown sender has used it. -/
  signalled : s.shutdownTx = false → s.signalled = true
  relies : ∀ closer ∈ s.closers, closer.relies = true → s.shutdownTx = false
  /-- The driver has the transport, and no `close()` call shuts it down. -/
  transport : s.transport = false
  attended : ∀ closer ∈ s.closers, closer ≠ .shutdownTransport

/-- What the commands rely on. -/
structure Client.Steady (bound : Nat) (c : Client) : Prop where
  wired : c.Wired
  session : c.session.Steady
  permits : c.permits + c.holders.count true = bound
  /-- Who waits for an outcome is owed one. -/
  owed : ∀ i op id, c.calls[i]? = some ⟨op, .await id none⟩ → c.gone = true ∨ (id, i) ∈ c.owed

section Steady
variable {n : Negotiated} {bound : Nat} {c c' : Client}

/-- The shutdown sender is used when it is taken, and it is taken before the handle. -/
theorem Closer.signals {σ : Type} {s s' : Session σ} {c c' : Closer} {ok : Bool}
    (h : c.step s ok = some (s', c')) :
    (s'.shutdownTx = s.shutdownTx ∧ s'.signalled = s.signalled ∧
        (c'.relies = true → c.relies = true)) ∨
      (s'.shutdownTx = false ∧ s'.signalled = (s.signalled || s.shutdownTx)) := by
  cases c with
  | takeShutdown => cases h; exact .inr ⟨rfl, rfl⟩
  | isTerminal => cases h; exact .inl ⟨rfl, rfl, by cases s.state.isTerminal <;> nofun⟩
  | hasDriver => cases h; exact .inl ⟨rfl, rfl, by cases s.driver <;> nofun⟩
  | takeHandle => cases h; exact .inl ⟨rfl, rfl, fun _ => rfl⟩
  | await =>
      obtain ⟨exit, -, e⟩ := Option.map_eq_some_iff.mp h
      cases e
      exact .inl ⟨rfl, rfl, fun _ => rfl⟩
  | finishClose next result =>
      cases h
      rw [Session.finishClose_eq]
      exact .inl ⟨rfl, rfl, fun e => nomatch e⟩
  | takeTransport => cases h; exact .inl ⟨rfl, rfl, by cases s.transport <;> nofun⟩
  | shutdownTransport => cases h; exact .inl ⟨rfl, rfl, by cases ok <;> nofun⟩
  | done result => cases h
  | _ => cases h; exact .inl ⟨rfl, rfl, fun e => nomatch e⟩

/-- Nobody gives the transport back to the handles. -/
theorem Closer.step_transport {σ : Type} {s s' : Session σ} {c c' : Closer} {ok : Bool}
    (ht : s.transport = false) (h : c.step s ok = some (s', c')) :
    s'.transport = false ∧ c' ≠ .shutdownTransport := by
  cases c with
  | isTerminal => cases h; exact ⟨ht, by cases s.state.isTerminal <;> nofun⟩
  | hasDriver => cases h; exact ⟨ht, by cases s.driver <;> nofun⟩
  | takeHandle => cases h; exact ⟨ht, by cases s.driver <;> nofun⟩
  | await =>
      obtain ⟨exit, -, e⟩ := Option.map_eq_some_iff.mp h
      cases e
      exact ⟨ht, by rcases exit with - | - | - | - <;> nofun⟩
  | finishClose next result =>
      cases h
      rw [Session.finishClose_eq]
      exact ⟨ht, nofun⟩
  | takeTransport => cases h; exact ⟨rfl, by rw [ht]; nofun⟩
  | shutdownTransport => cases h; exact ⟨ht, by cases ok <;> nofun⟩
  | done result => cases h
  | _ => cases h; exact ⟨ht, nofun⟩

theorem Session.Steady.step {σ : Type} {limits : Limits} {s s' : Session σ} {m : Move σ}
    (h : s.Steady) (hs : s.step limits m = some s') : s'.Steady := by
  cases m with
  | select e =>
      obtain ⟨t, t', ha, ht, hsel, rfl⟩ := Session.select_eq_some hs
      refine { h with submitOpen := fun t₁ ht₁ => ?_ }
      obtain rfl := Option.some.inj ht₁
      have he : e ≠ .submitClosed := by
        rintro rfl
        cases ha
      rw [(Task.select_eq_some hsel).2.2.1, (iterate_ends limits t.driver e).submitClosed he]
      exact h.submitOpen t ht
  | perform =>
      obtain ⟨t, x, pending, ht, -, rfl⟩ := Session.perform_eq_some hs
      exact { h with submitOpen := fun t₁ ht₁ => Option.some.inj ht₁ ▸ h.submitOpen t ht }
  | abort =>
      obtain ⟨t, -, -, rfl⟩ := Session.abort_eq_some hs
      exact { h with submitOpen := fun _ e => nomatch e }
  | close i ok =>
      obtain ⟨closer, s₁, closer', hc, hstep, rfl⟩ := Session.close_eq_some hs
      obtain ⟨htask, hclosers, -⟩ := Closer.step_frame hstep
      have hopen : ∀ t, s₁.task = some t → t.driver.submitClosed = false := fun t ht =>
        h.submitOpen t (htask ▸ ht)
      obtain ⟨htransport, hcloser⟩ := Closer.step_transport h.transport hstep
      have hattended : ∀ closer₁ ∈ s₁.closers.set i closer', closer₁ ≠ .shutdownTransport := by
        intro closer₁ hm
        rcases List.mem_or_eq_of_mem_set hm with hm | rfl
        · exact h.attended closer₁ (hclosers ▸ hm)
        · exact hcloser
      rcases Closer.signals hstep with ⟨htx, hsig, hrel⟩ | ⟨htx, hsig⟩
      · refine ⟨hopen, fun e => hsig.trans (h.signalled (htx ▸ e)), fun closer₁ hm hr => ?_,
          htransport, hattended⟩
        rcases List.mem_or_eq_of_mem_set hm with hm | rfl
        · exact htx.trans (h.relies closer₁ (hclosers ▸ hm) hr)
        · exact htx.trans (h.relies closer (List.mem_of_getElem? hc) (hrel hr))
      · -- the signal goes out now, or went out when the sender was taken
        refine ⟨hopen, fun _ => ?_, fun _ _ _ => htx, htransport, hattended⟩
        show s₁.signalled = true
        rw [hsig]
        cases hold : s.shutdownTx with
        | true => exact Bool.or_true _
        | false => rw [h.signalled hold, Bool.true_or]

/-- The driver does not come back. -/
theorem Session.join_step {σ : Type} {limits : Limits} {s s' : Session σ} {m : Move σ}
    (hj : s.join.isSome = true) (hs : s.step limits m = some s') : s'.join.isSome = true := by
  have hdone : ∀ t, s.task = some t → t.pending = [] ∧ t.left ≠ none := by
    intro t ht
    obtain ⟨exit, he⟩ := Option.isSome_iff_exists.mp hj
    rw [Session.join, ht] at he
    obtain ⟨l, hl, -⟩ := Option.map_eq_some_iff.mp he
    obtain ⟨hp, hl⟩ := Task.returned_eq_some.mp hl
    exact ⟨hp, fun e => Option.some_ne_none _ (hl.symm.trans e)⟩
  cases m with
  | select e =>
      obtain ⟨t, t', -, ht, hsel, rfl⟩ := Session.select_eq_some hs
      exact absurd (Task.select_eq_some hsel).2.1 (hdone t ht).2
  | perform =>
      obtain ⟨t, x, pending, ht, hp, rfl⟩ := Session.perform_eq_some hs
      cases hp.symm.trans (hdone t ht).1
  | abort =>
      obtain ⟨t, -, -, rfl⟩ := Session.abort_eq_some hs
      rfl
  | close i ok =>
      obtain ⟨closer, s₁, closer', -, hstep, rfl⟩ := Session.close_eq_some hs
      rw [Session.join, (Closer.step_frame hstep).1]
      exact hj

theorem Client.gone_step {turn : Turn} (hg : c.gone = true) (h : c.step n turn = some c') :
    c'.gone = true :=
  Client.session_keeps (P := fun s => s.join.isSome = true) h hg fun _ hm =>
    Session.join_step hg hm

/-- **Nothing is lost while the driver is there**: what was owed is owed, or is sent. -/
theorem Session.Sound.owed_step {s s' : Session Nat} {limits : Limits} {m : Move Nat}
    (h : s.Sound) (hs : s.step limits m = some s') (hj : s'.join.isSome = false)
    {p : UInt64 × Nat} (hp : p ∈ s.owed ++ m.received) :
    p ∈ s'.owed ∨ ∃ outcome, s.performs m = some (.send p.1 p.2 outcome) := by
  cases m with
  | select e =>
      obtain ⟨t, t', -, ht, hsel, rfl⟩ := Session.select_eq_some hs
      rw [Session.owed, ht] at hp
      exact .inl (((h t ht).select hsel).2.mem_iff.mp hp)
  | perform =>
      obtain ⟨t, x, pending, ht, hpend, rfl⟩ := Session.perform_eq_some hs
      rw [Session.owed, ht, Option.elim_some, Task.owed, hpend, Move.received,
        List.append_nil] at hp
      rw [Session.performs, Session.next, ht, Option.bind_some, hpend, List.head?_cons]
      cases x with
      | send id i outcome =>
          rcases List.mem_cons.mp hp with rfl | hp
          · exact .inr ⟨outcome, rfl⟩
          · exact .inl hp
      | _ => exact .inl hp
  | abort =>
      obtain ⟨t, -, -, rfl⟩ := Session.abort_eq_some hs
      cases hj
  | close i ok =>
      obtain ⟨closer, s₁, closer', -, hstep, rfl⟩ := Session.close_eq_some hs
      rw [Move.received, List.append_nil, Session.owed, ← (Closer.step_frame hstep).1] at hp
      exact .inl hp

theorem Client.Wired.owed_step {turn : Turn} (h : c.Wired) (hs : c.step n turn = some c')
    (hg : c'.gone = false) {p : UInt64 × Nat} (hp : p ∈ c.owed) :
    p ∈ c'.owed ∨ ∃ outcome, turn = .session .perform ∧
      c.session.next = some (.send p.1 p.2 outcome) := by
  cases turn with
  | session m =>
      obtain ⟨session, queue, hstep, hq, rfl⟩ := Client.session_eq_some hs
      have hsess : ∀ x, ((Client.mk session c.permits c.allocator queue c.calls).deliver
          x).sweep.session = session := fun x => Client.session_deliver _ x
      have hgone := hg
      rw [Client.gone, hsess] at hgone
      have hqueue : ((Client.mk session c.permits c.allocator queue c.calls).deliver
          (c.session.performs m)).sweep.queued = queue.map fun s => (s.id, s.completion) := by
        have hg' : ((Client.mk session c.permits c.allocator queue c.calls).deliver
            (c.session.performs m)).gone = false := hg
        rw [Client.queued, Client.sweep, hg', Client.queue_deliver]
        rfl
      rw [Client.owed, hqueue, hsess]
      rw [Client.owed, hq, List.append_assoc] at hp
      have hmem : p ∈ queue.map (fun s => (s.id, s.completion)) ∨
          p ∈ c.session.owed ++ m.received := by
        simp only [List.mem_append] at hp ⊢
        tauto
      rcases hmem with hp | hp
      · exact .inl (List.mem_append_left _ hp)
      · rcases h.sound.owed_step hstep hgone hp with hp | ⟨outcome, hx⟩
        · exact .inl (List.mem_append_right _ hp)
        · -- only `perform` performs
          cases m with
          | perform => exact .inr ⟨outcome, rfl, hx⟩
          | _ => cases hx
  | call i =>
      obtain ⟨call, c₁, place, hc, hstep, rfl⟩ := Client.call_eq_some hs
      generalize call.place = pl at hstep
      cases Place.step_moves hstep with
      | quiet => exact .inl hp
      | submits id bytes =>
          rw [Client.owed, queued_append, List.append_assoc]
          rcases List.mem_append.mp hp with hp | hp
          · exact .inl (List.mem_append_left _ hp)
          · exact .inl (List.mem_append_right _ (List.mem_append_right _ hp))
  | drop i =>
      obtain ⟨call, c₁, -, rfl, rfl⟩ := Client.drop_eq_some hs
      exact .inl hp

theorem Client.Steady.established (bound closers : Nat) (ops : List Operation) :
    (Client.established bound closers ops).Steady bound where
  wired := .established bound closers ops
  session := by
    refine ⟨fun t ht => ?_, fun e => (nomatch e), fun closer hm hr => ?_, rfl, fun closer hm => ?_⟩
    · obtain rfl := Option.some.inj ht
      rfl
    · rw [List.eq_of_mem_replicate hm] at hr
      cases hr
    · rw [List.eq_of_mem_replicate hm]
      exact nofun
  permits := (Client.Accounted.established bound closers ops).permits
  owed := fun i op id hc => by
    obtain ⟨_, -, h⟩ := Option.map_eq_some_iff.mp ((List.getElem?_map ..).symm.trans hc)
    cases h

/-- No step loses or makes a permit. -/
theorem Client.permits_step {turn : Turn} (h : c.permits + c.holders.count true = bound)
    (hs : c.step n turn = some c') : c'.permits + c'.holders.count true = bound := by
  cases turn with
  | session m =>
      obtain ⟨session, queue, -, -, rfl⟩ := Client.session_eq_some hs
      have hholders : (Client.sweep (Client.deliver { c with session, queue }
          (c.session.performs m))).holders = c.holders := Client.holders_deliver _ _
      rw [hholders, Client.sweep, Client.permits_deliver]
      exact h
  | call i =>
      obtain ⟨⟨op, pl⟩, c₁, place, hc, hstep, rfl⟩ := Client.call_eq_some hs
      cases Place.step_moves hstep with
      | quiet _ _ permits allocator hp => exact Client.permits_set hc h hp
      | submits id bytes => exact Client.permits_set hc h rfl
  | drop i =>
      obtain ⟨call, c₁, hc, rfl, rfl⟩ := Client.drop_eq_some hs
      exact Client.permits_set hc h rfl

theorem Client.Steady.step {turn : Turn} (h : c.Steady bound) (hs : c.step n turn = some c') :
    c'.Steady bound := by
  refine ⟨h.wired.step hs, ?_, Client.permits_step h.permits hs, fun i op id hc => ?_⟩
  · exact Client.session_keeps (P := Session.Steady) hs h.session fun _ hm => h.session.step hm
  · cases hg : c'.gone with
    | true => exact .inl rfl
    | false =>
        refine .inr ?_
        obtain ⟨place, hplace, hev⟩ := Client.evolves hs hc
        cases hev with
        | same =>
            have howed : (id, i) ∈ c.owed := by
              rcases h.owed i op id hplace with hgone | howed
              · cases hg.symm.trans (Client.gone_step hgone hs)
              · exact howed
            rcases h.wired.owed_step hs hg howed with howed | ⟨outcome, rfl, hx⟩
            · exact howed
            · -- the outcome that was sent has arrived
              obtain ⟨session, queue, -, -, rfl⟩ := Client.session_eq_some hs
              have hx : c.session.performs .perform = some (.send id i outcome) := hx
              rw [hx] at hc
              have hc : (c.calls.modify i (Call.receive outcome))[i]? =
                some ⟨op, .await id none⟩ := hc
              rw [List.getElem?_modify_eq, hplace] at hc
              cases hc
        | moved c₁ _ _ hstep =>
            obtain ⟨call, c₂, place', hcall, hstep', rfl⟩ := Client.call_eq_some hs
            obtain rfl := Option.some.inj (hcall.symm.trans hplace)
            obtain ⟨rfl, -⟩ := Prod.mk.inj (Option.some.inj (hstep'.symm.trans hstep))
            cases Place.step_moves hstep with
            | submits id bytes =>
                rw [Client.owed, queued_append]
                exact List.mem_append_left _ (List.mem_append_right _ (List.mem_singleton.mpr rfl))
            | quiet _ _ permits allocator hp hw hw' hi => exact absurd rfl (hi _ _)

/-! ### At rest -/

/-- The driver of a client at rest has performed what it had to, if it is not blocked. -/
theorem Client.Resting.pending (hr : c.Resting n) (hh : c.blocked = false) {t : Task Nat}
    (ht : c.session.task = some t) : t.pending = [] := by
  cases hp : t.pending with
  | nil => rfl
  | cons x pending =>
      have hown : c.own (.session .perform) = true := by
        show (!c.blocked) = true
        rw [hh]
        rfl
      have hstep := hr (.session .perform) hown
      simp [Client.step, Client.sessionStep, Session.step, ht, hp] at hstep

/-- What a client at rest has left: a driver in its `select!`, with nothing to do and no signal. -/
theorem Client.Steady.driver_of_resting (h : c.Steady bound) (hr : c.Resting n)
    (hh : c.blocked = false) (hg : c.gone = false) :
    c.queue = [] ∧ c.owed = c.session.waiting ∧ c.session.signalled = false := by
  cases ht : c.session.task with
  | none =>
      rw [Client.gone, Session.join, ht] at hg
      cases hg
  | some t =>
      have hpend : t.pending = [] := hr.pending hh ht
      have hleft : t.left = none := by
        cases hl : t.left with
        | none => rfl
        | some l =>
            have hret := Task.returned_eq_some.mpr ⟨hpend, hl⟩
            rw [Client.gone, Session.join, ht] at hg
            simp [hret] at hg
      have hselect : ∀ e : Event Nat, e.enabled t.driver = true →
          ∃ t', t.select n.effectiveLimits e = some t' := by
        intro e he
        rw [Task.select, hpend, hleft]
        exact ⟨_, if_pos he⟩
      have hsig : c.session.signalled = false := by
        cases hs : c.session.signalled with
        | false => rfl
        | true =>
            obtain ⟨t', hsel⟩ := hselect (.shutdown true) rfl
            have hstep := hr (.session (.select (.shutdown true))) rfl
            simp [Client.step, Client.sessionStep, Session.step, Session.allows, ht, hs, hsel]
              at hstep
      have hqueue : c.queue = [] := by
        cases hq : c.queue with
        | nil => rfl
        | cons s queue =>
            have hen : (Event.submit s []).enabled t.driver = true := by
              rw [Event.enabled, h.session.submitOpen t ht]
              rfl
            obtain ⟨t', hsel⟩ := hselect (.submit s []) hen
            have hstep := hr (.session (.select (.submit s []))) rfl
            simp [Client.step, Client.sessionStep, Session.step, Session.allows, ht, hq, hsel]
              at hstep
      refine ⟨hqueue, ?_, hsig⟩
      rw [Client.owed, Client.queued, hqueue, Session.owed, Session.waiting, ht, Option.elim_some,
        Option.elim_some, Task.owed, hpend]
      rfl

/-- A `close()` call that cannot go on has returned, or waits for the driver. -/
theorem Closer.step_eq_none {σ : Type} {s : Session σ} {c : Closer} {ok : Bool}
    (h : c.step s ok = none) : (∃ result, c = .done result) ∨ (c = .await ∧ s.join = none) := by
  cases c with
  | done result => exact .inl ⟨result, rfl⟩
  | await => exact .inr ⟨rfl, Option.map_eq_none_iff.mp h⟩
  | _ => cases h

/-- Where a `close()` call stands at rest: it has returned, or it has signalled the driver and waits
for it. -/
theorem Client.Steady.closer_of_resting (h : c.Steady bound) (hr : c.Resting n) {closer : Closer}
    (hm : closer ∈ c.session.closers) :
    (∃ result, closer = .done result) ∨
      (closer = .await ∧ c.session.signalled = true ∧ c.gone = false) := by
  obtain ⟨i, hi⟩ := List.getElem?_of_mem hm
  have hown : c.own (.session (.close i true)) = true := by
    refine decide_eq_true fun hne => h.session.attended closer hm ?_
    exact Option.some.inj (hi.symm.trans hne)
  have hstep : closer.step c.session true = none := by
    have hstep := hr (.session (.close i true)) hown
    simpa [Client.step, Client.sessionStep, Session.step, hi] using hstep
  rcases Closer.step_eq_none hstep with hdone | ⟨rfl, hj⟩
  · exact .inl hdone
  · refine .inr ⟨rfl, h.session.signalled (h.session.relies _ hm rfl), ?_⟩
    rw [Client.gone, hj]
    rfl

/-- A driver that is not blocked would hear the signal. -/
theorem Client.Steady.closers_of_resting (h : c.Steady bound) (hr : c.Resting n)
    (hh : c.blocked = false) : ∀ closer ∈ c.session.closers, ∃ result, closer = .done result := by
  intro closer hm
  rcases h.closer_of_resting hr hm with hdone | ⟨-, hsig, hg⟩
  · exact hdone
  · cases hsig.symm.trans (h.driver_of_resting hr hh hg).2.2

/-- Where a command can stand that cannot go on. -/
inductive Place.Stuck (c : Client) : Place → Prop where
  | acquire (payload : Bytes) (h : c.permits = 0) : Stuck c (.acquire payload)
  | send (id : UInt64) (bytes : Bytes) (hg : c.gone = false)
      (h : submitCapacity ≤ c.queue.length) : Stuck c (.send id bytes)
  | await (id : UInt64) (hg : c.gone = false) : Stuck c (.await id none)
  | done (result : Except CommandError Reply) : Stuck c (.done result)
  | dropped : Stuck c .dropped

theorem Place.stuck {i : Nat} {op : Operation} {place : Place}
    (h : place.step n c i op = none) : place.Stuck c := by
  cases place with
  | start =>
      rw [Place.step] at h
      split at h
      · cases h
      · split at h
        · simp only at h
          split at h <;> cases h
        · cases h
  | acquire payload =>
      rw [Place.step] at h
      split at h
      · cases h
      · split at h
        · cases h
        · exact .acquire payload (by omega)
  | allocate payload =>
      simp only [Place.step] at h
      split at h
      · cases h
      · split at h <;> cases h
  | send id bytes =>
      rw [Place.step] at h
      split at h
      · cases h
      · rename_i hg
        split at h
        · cases h
        · exact .send id bytes (Bool.eq_false_iff.mpr hg) (by omega)
  | await id inbox =>
      cases inbox with
      | some outcome => cases h
      | none =>
          rw [Place.step] at h
          split at h
          · cases h
          · rename_i hg
            exact .await id (Bool.eq_false_iff.mpr hg)
  | done result => exact .done result
  | dropped => exact .dropped
  | _ => cases h

theorem Client.Resting.stuck (hr : c.Resting n) {i : Nat} {op : Operation} {place : Place}
    (hc : c.calls[i]? = some ⟨op, place⟩) : place.Stuck c := by
  have hstep := hr (.call i) rfl
  rw [Client.step, hc, Option.bind_some, Option.map_eq_none_iff] at hstep
  exact Place.stuck hstep

/-- Who holds a permit at rest waits for an answer. -/
theorem Client.Steady.waits_of_holds (h : c.Steady bound) (hr : c.Resting n)
    (hh : c.blocked = false) {i : Nat} {op : Operation} {place : Place}
    (hc : c.calls[i]? = some ⟨op, place⟩) (hp : place.holds = true) :
    ∃ id, place = .await id none ∧ (id, i) ∈ c.session.waiting := by
  cases hr.stuck hc with
  | send id bytes hg hfull =>
      rw [(h.driver_of_resting hr hh hg).1] at hfull
      exact absurd hfull (by decide)
  | await id hg =>
      refine ⟨id, rfl, ?_⟩
      rw [← (h.driver_of_resting hr hh hg).2.1]
      exact (h.owed i op id hc).resolve_left (by rw [hg]; exact Bool.false_ne_true)
  | _ => cases hp

/-- The positions of a list that satisfy `p` are not more than a list they all stand in. -/
theorem count_le_length {l : List Bool} {is : List Nat} (h : ∀ i, l[i]? = some true → i ∈ is) :
    l.count true ≤ is.length := by
  have hnodup : ((l.zipIdx.filter fun q => q.1).map Prod.snd).Nodup := by
    refine List.Nodup.sublist (List.filter_sublist.map Prod.snd) ?_
    rw [List.zipIdx_map_snd]
    exact List.nodup_range'
  have hsub : (l.zipIdx.filter fun q => q.1).map Prod.snd ⊆ is := by
    intro i hi
    obtain ⟨⟨b, j⟩, hm, rfl⟩ := List.mem_map.mp hi
    obtain ⟨hm, hb⟩ := List.mem_filter.mp hm
    obtain rfl : b = true := hb
    exact h j (List.mem_zipIdx_iff_getElem?.mp hm)
  calc l.count true
    _ = (l.zipIdx.map Prod.fst).count true := by rw [List.zipIdx_map_fst]
    _ = ((l.zipIdx.filter fun q => q.1).map Prod.snd).length := by
        rw [List.length_map, List.count, List.countP_map, List.countP_eq_length_filter]
        simp only [Function.comp_def, beq_true]
    _ ≤ is.length := (List.subperm_of_subset hnodup hsub).length_le

/-- Every permit is with somebody whose request waits for its answer. -/
theorem Client.Steady.holders_le (h : c.Steady bound) (hr : c.Resting n) (hh : c.blocked = false) :
    c.holders.count true ≤ c.session.waiting.length := by
  have hlen : (c.session.waiting.map Prod.snd).length = c.session.waiting.length :=
    List.length_map _
  rw [← hlen]
  refine count_le_length fun i hi => ?_
  rw [Client.holders, List.getElem?_map] at hi
  obtain ⟨⟨op, place⟩, hc, hp⟩ := Option.map_eq_some_iff.mp hi
  obtain ⟨id, -, hm⟩ := h.waits_of_holds hr hh hc hp
  exact List.mem_map_of_mem hm

theorem Client.Steady.call_of_resting (h : c.Steady bound) (hr : c.Resting n)
    (hh : c.blocked = false) {i : Nat} {op : Operation} {place : Place}
    (hc : c.calls[i]? = some ⟨op, place⟩) :
    place.finished = true ∨ c.AwaitsPeer bound i place := by
  have hstuck := hr.stuck hc
  cases hstuck with
  | acquire payload hp =>
      have hpermits := h.permits
      have hle := h.holders_le hr hh
      exact .inr (.permit payload (by omega))
  | send id bytes => cases (h.waits_of_holds hr hh hc rfl).choose_spec.1
  | await id =>
      obtain ⟨id', e, hm⟩ := h.waits_of_holds hr hh hc rfl
      cases e
      exact .inr (.answer id hm)
  | done => exact .inl rfl
  | dropped => exact .inl rfl

/-- Where a command stands at rest, whatever the driver does. -/
theorem Client.Steady.call_of_blocked (h : c.Steady bound) (hr : c.Resting n) {i : Nat}
    {op : Operation} {place : Place} (hc : c.calls[i]? = some ⟨op, place⟩) :
    place.finished = true ∨ c.AwaitsDriver bound i place := by
  have hstuck := hr.stuck hc
  cases hstuck with
  | acquire payload hp =>
      have hpermits := h.permits
      exact .inr (.permit payload (by omega))
  | send id bytes hg hfull => exact .inr (.room id bytes hfull)
  | await id hg =>
      refine .inr (.outcome id ?_)
      exact (h.owed i op id hc).resolve_left (by rw [hg]; exact Bool.false_ne_true)
  | done => exact .inl rfl
  | dropped => exact .inl rfl

/-- **The end of the stream while nothing is in flight**: the driver goes around its loop, and
nothing is different. -/
theorem Client.Steady.idle_of_resting (h : c.Steady bound) (hr : c.Resting n)
    (hh : c.blocked = false) (hg : c.gone = false) (hw : c.session.waiting = []) :
    c.step n (.session (.select .readFailed)) = some c := by
  obtain ⟨⟨task, shared, transport, driver, shutdownTx, signalled, closers⟩, permits, allocator,
    queue, calls⟩ := c
  cases task with
  | none => cases hg
  | some t =>
      have hpend : t.pending = [] := hr.pending hh rfl
      have hopen := h.session.submitOpen t rfl
      obtain ⟨d, pending, left⟩ := t
      subst hpend
      cases left with
      | some l => cases hg
      | none =>
          have hempty : d.completions.entries.isEmpty = true :=
            List.isEmpty_iff.mpr (List.map_eq_nil_iff.mp hw)
          have hit : iterate n.effectiveLimits d .readFailed = (d, .again) := by
            have hopen : d.submitClosed = false := hopen
            simp [iterate, hempty, hopen]
          have hsel : Task.select n.effectiveLimits ⟨d, [], none⟩ .readFailed =
              some ⟨d, [], none⟩ := by
            simp [Task.select, Event.enabled, hit, Flow.result]
          simp only [Client.step, Client.sessionStep, Session.step, Session.allows, if_true,
            Option.bind_some, hsel, Option.map_some]
          rfl

/-- The commands of a driver that is gone do not wait. -/
theorem Client.Steady.finished_of_gone (h : c.Steady bound) (hb : 0 < bound)
    (hg : c.gone = true) (hr : ∀ i, c.step n (.call i) = none) :
    ∀ call ∈ c.calls, call.place.finished = true := by
  have hstuck : ∀ call ∈ c.calls, call.place.Stuck c := by
    intro call hm
    obtain ⟨i, hi⟩ := List.getElem?_of_mem hm
    have hstep := hr i
    rw [Client.step, hi, Option.bind_some, Option.map_eq_none_iff] at hstep
    exact Place.stuck hstep
  -- nobody holds a permit, so nobody waits for one
  have hnone : c.holders.count true = 0 := by
    rw [List.count_eq_zero]
    intro hm
    obtain ⟨⟨op, place⟩, hc, hh⟩ := List.mem_map.mp hm
    cases hstuck _ hc with
    | send id bytes hg' => cases hg.symm.trans hg'
    | await id hg' => cases hg.symm.trans hg'
    | _ => cases hh
  intro call hc
  obtain ⟨op, place⟩ := call
  cases hstuck _ hc with
  | acquire payload hp =>
      have hpermits := h.permits
      omega
  | send id bytes hg' => cases hg.symm.trans hg'
  | await id hg' => cases hg.symm.trans hg'
  | done => rfl
  | dropped => rfl

/-! ### Results -/

theorem Client.Steady.exec {schedule : List Turn} (h : c.Steady bound)
    (hs : exec (Client.step n) c schedule = some c') : c'.Steady bound :=
  exec_invariant (I := fun _ => Client.Steady bound) (fun _ _ _ _ h hs => h.step hs) [] h hs

/-- **The tasks of a client come to rest.**  In every run, the steps that are not reads are at most
nine for each command, eight for each `close()` and six for the driver.  When no task can go on by
itself, it depends on the driver.  If it is not blocked, every `close()` has returned, every command
has returned, waits for the answer to its own request, or waits for a permit while at least
`maximum_in_flight` requests wait for theirs, and with nothing in flight a read that finds the end
of the stream changes nothing.  If it is blocked, every `close()` has returned or has signalled the
driver and waits for it, and every command has returned or waits for its outcome, for room in the
queue, or for a permit while others have them all. -/
theorem comes_to_rest (n : Negotiated) (bound closers : Nat) (ops : List Operation)
    (schedule : List Turn)
    (h : Runs.exec (Client.step n) (.established bound closers ops) schedule = some c) :
    (schedule.countP fun turn => !turn.onRead) ≤ 9 * ops.length + 8 * closers + 6 ∧
    (c.Resting n → c.blocked = false →
      (∀ closer ∈ c.session.closers, ∃ result, closer = .done result) ∧
      (∀ i op place, c.calls[i]? = some ⟨op, place⟩ →
        place.finished = true ∨ c.AwaitsPeer bound i place) ∧
      (c.gone = false → c.session.waiting = [] →
        c.step n (.session (.select .readFailed)) = some c)) ∧
    (c.Resting n → c.blocked = true →
      (∀ closer ∈ c.session.closers,
        (∃ result, closer = .done result) ∨ (closer = .await ∧ c.session.signalled = true)) ∧
      ∀ i op place, c.calls[i]? = some ⟨op, place⟩ →
        place.finished = true ∨ c.AwaitsDriver bound i place) := by
  have hsteady := (Client.Steady.established bound closers ops).exec h
  refine ⟨?_, fun hr hh => ⟨hsteady.closers_of_resting hr hh, fun i op place hc => ?_, ?_⟩,
    fun hr _ => ⟨fun closer hm => ?_, fun i op place hc => hsteady.call_of_blocked hr hc⟩⟩
  · rw [← Client.work_established bound closers ops]
    exact Nat.le_of_add_right_le (Client.exec_work h)
  · exact hsteady.call_of_resting hr hh hc
  · exact hsteady.idle_of_resting hr hh
  · rcases hsteady.closer_of_resting hr hm with hdone | ⟨hawait, hsig, -⟩
    · exact .inl hdone
    · exact .inr ⟨hawait, hsig⟩

end Steady

/-- Two probes under a bound of one.  As long as the transport does not take the request of the
first, both wait for the driver; then the first waits for its answer, the second for its permit. -/
theorem comes_to_rest_two :
    ∃ c c', exec (Client.step .floor) (.established 1 0 [.ping, .ping])
        [.call 0, .call 0, .call 1, .call 0, .call 0, .session (.select (.submit
          ⟨2, [0, 1, 0, 0, 2, 0, 0, 0, 0, 0, 0, 0, 2, 0, 0, 0, 0, 0, 0, 0], 0⟩ [20]))] = some c ∧
      c.step .floor (.session .perform) = some c' ∧
      c.Resting .floor ∧ c.blocked = true ∧ c'.Resting .floor ∧ c'.blocked = false ∧
      (∀ i op place, c.calls[i]? = some ⟨op, place⟩ →
        place.finished = true ∨ c.AwaitsDriver 1 i place) ∧
      ∀ i op place, c'.calls[i]? = some ⟨op, place⟩ →
        place.finished = true ∨ c'.AwaitsPeer 1 i place := by
  let request : Bytes := [0, 1, 0, 0, 2, 0, 0, 0, 0, 0, 0, 0, 2, 0, 0, 0, 0, 0, 0, 0]
  let submit : Turn := .session (.select (.submit ⟨2, request, 0⟩ [20]))
  let client (pending : List (Effect Nat)) : Client :=
    ⟨⟨some ⟨⟨[], (∅ : Waiters Nat).insert 2 0, ⟨[2], by decide⟩, false, [.write request]⟩, pending,
        none⟩, ⟨.usable, false⟩, false, true, true, false, []⟩,
      0, RequestIdAllocator.new.allocate.2.allocate.2, [],
      [⟨.ping, .await 2 none⟩, ⟨.ping, .acquire []⟩]⟩
  have hblocked : (client [.write request]).Resting .floor := by
    intro turn hown
    cases turn with
    | session m =>
        cases m with
        | select e => cases e <;> rfl
        | _ => first | rfl | cases hown
    | call i => rcases i with - | - | i <;> rfl
    | drop i => cases hown
  have hrest : (client []).Resting .floor := by
    intro turn hown
    cases turn with
    | session m =>
        cases m with
        | select e => cases e <;> first | rfl | cases hown
        | _ => first | rfl | cases hown
    | call i => rcases i with - | - | i <;> rfl
    | drop i => cases hown
  have h : exec (Client.step .floor) (.established 1 0 [.ping, .ping])
      [.call 0, .call 0, .call 1, .call 0, .call 0, submit] = some (client [.write request]) := rfl
  have h' : exec (Client.step .floor) (.established 1 0 [.ping, .ping])
      [.call 0, .call 0, .call 1, .call 0, .call 0, submit, .session .perform] =
        some (client []) := rfl
  exact ⟨client [.write request], client [], h, rfl, hblocked, rfl, hrest, rfl,
    ((comes_to_rest .floor 1 0 _ _ h).2.2 hblocked rfl).2,
    ((comes_to_rest .floor 1 0 _ _ h').2.1 hrest rfl).2.1⟩

section Ended
variable {n : Negotiated} {bound : Nat} {c c' : Client}

/-- **Nobody is left behind by a driver that has ended**, however it ended: returned or dropped by
the runtime, with the admission source closed or not.  It stays gone, it owes nobody anything, and
when the commands cannot go on they have all returned. -/
theorem ended_releases (n : Negotiated) (bound closers : Nat) (ops : List Operation)
    (schedule later : List Turn) (hb : 0 < bound)
    (h : Runs.exec (Client.step n) (.established bound closers ops) schedule = some c)
    (hg : c.gone = true) (hl : Runs.exec (Client.step n) c later = some c') :
    c'.gone = true ∧ c'.owed = [] ∧
      ((∀ i, c'.step n (.call i) = none) → ∀ call ∈ c'.calls, call.place.finished = true) := by
  have hsteady := ((Client.Steady.established bound closers ops).exec h).exec hl
  have hgone : c'.gone = true :=
    exec_invariant (I := fun _ c => c.gone = true) (fun _ _ _ _ hg hs => Client.gone_step hg hs) []
      hg hl
  exact ⟨hgone, hsteady.wired.owed_of_gone hgone, hsteady.finished_of_gone hb hgone⟩

/-- The runtime drops the driver while a probe waits.  The admission source stays open, and both the
probe and the one behind it return. -/
theorem ended_releases_aborted :
    ∃ c c', exec (Client.step .floor) (.established 1 0 [.ping, .ping])
        [.call 0, .call 0, .call 1, .call 0, .call 0, .session .abort] = some c ∧
      exec (Client.step .floor) c
        [.call 0, .call 0, .call 1, .call 1, .call 1, .call 1] = some c' ∧
      c'.session.shared.admissionClosed = false ∧
      ∀ call ∈ c'.calls, call.place.finished = true := by
  let spawned (permits : Nat) (allocator : RequestIdAllocator) (calls : List Call) : Client :=
    ⟨⟨none, ⟨.usable, false⟩, false, true, true, false, []⟩, permits, allocator, [], calls⟩
  let c := spawned 0 RequestIdAllocator.new.allocate.2.allocate.2
    [⟨.ping, .await 2 none⟩, ⟨.ping, .acquire []⟩]
  let c' := spawned 1 RequestIdAllocator.new.allocate.2.allocate.2.allocate.2
    [⟨.ping, .done (.error .unusable)⟩, ⟨.ping, .done (.error .unusable)⟩]
  have h : exec (Client.step .floor) (.established 1 0 [.ping, .ping])
    [.call 0, .call 0, .call 1, .call 0, .call 0, .session .abort] = some c := rfl
  have hl : exec (Client.step .floor) c
    [.call 0, .call 0, .call 1, .call 1, .call 1, .call 1] = some c' := rfl
  refine ⟨c, c', h, hl, rfl, ?_⟩
  refine (ended_releases _ _ _ _ _ _ (by decide) h rfl hl).2.2 fun i => ?_
  rcases i with - | - | i <;> rfl

/-! ### Shutting down -/

/-- The `select!` of the driver is biased: once it has the shutdown signal, it takes it. -/
def Client.biased (c : Client) : Turn → Bool
  | .session (.select (.shutdown _)) => true
  | .session (.select _) => !c.session.signalled
  | _ => true

theorem Session.signalled_step {σ : Type} {limits : Limits} {s s' : Session σ} {m : Move σ}
    (hsig : s.signalled = true) (hs : s.step limits m = some s') : s'.signalled = true := by
  cases m with
  | select e => obtain ⟨t, t', -, -, -, rfl⟩ := Session.select_eq_some hs; exact hsig
  | perform => obtain ⟨t, x, pending, -, -, rfl⟩ := Session.perform_eq_some hs; exact hsig
  | abort => obtain ⟨t, -, -, rfl⟩ := Session.abort_eq_some hs; exact hsig
  | close i ok =>
      obtain ⟨closer, s₁, closer', -, hstep, rfl⟩ := Session.close_eq_some hs
      show s₁.signalled = true
      rcases Closer.signals hstep with ⟨-, e, -⟩ | ⟨-, e⟩
      · exact e.trans hsig
      · rw [e, hsig, Bool.true_or]

theorem Client.signalled_step {turn : Turn} (hsig : c.session.signalled = true)
    (h : c.step n turn = some c') : c'.session.signalled = true :=
  Client.session_keeps (P := fun s => s.signalled = true) h hsig fun _ hm =>
    Session.signalled_step hsig hm

/-- After the signal there are no more reads. -/
theorem Client.not_onRead_of_biased {turn : Turn} (hsig : c.session.signalled = true)
    (hb : c.biased turn = true) : (!turn.onRead) = true := by
  cases turn with
  | session m =>
      cases m with
      | select e =>
          cases e with
          | shutdown ok => rfl
          | _ =>
              have hb : (!c.session.signalled) = true := hb
              rw [hsig] at hb
              cases hb
      | _ => rfl
  | _ => rfl

/-- **A signalled session shuts down.**  Once a `close()` has signalled the driver, whatever the
peer sends and however the tasks interleave: the session takes a bounded number of steps, and when
no task can go on by itself, the driver is blocked in a `write_all` or in `transport.shutdown()`, or
it is gone and every `close()` and every command has returned. -/
theorem close_completes (n : Negotiated) (bound closers : Nat) (ops : List Operation)
    (schedule later : List Turn) (hb : 0 < bound)
    (h : Runs.exec (Client.step n) (.established bound closers ops) schedule = some c)
    (hsig : c.session.signalled = true) (hl : Runs.exec (Client.step n) c later = some c')
    (hbias : ∀ p ∈ visited (Client.step n) c later, p.1.biased p.2 = true) :
    later.length ≤ 9 * ops.length + 8 * closers + 6 ∧
    (c'.Resting n → c'.blocked = true ∨ (c'.gone = true ∧
      (∀ closer ∈ c'.session.closers, ∃ result, closer = .done result) ∧
      ∀ call ∈ c'.calls, call.place.finished = true)) := by
  have hsteady := ((Client.Steady.established bound closers ops).exec h).exec hl
  constructor
  · have hall : ∀ turn ∈ later, (!turn.onRead) = true := by
      intro turn hm
      rw [← map_snd_visited hl] at hm
      obtain ⟨p, hp, rfl⟩ := List.mem_map.mp hm
      have hsig' : p.1.session.signalled = true :=
        visited_invariant (I := fun c => c.session.signalled = true)
          (fun _ _ _ hs h => Client.signalled_step hs h) hsig hl p hp
      exact Client.not_onRead_of_biased hsig' (hbias p hp)
    have hlater := Client.exec_work hl
    have hbefore := Client.exec_work h
    rw [List.countP_eq_length.mpr hall] at hlater
    rw [Client.work_established] at hbefore
    omega
  · intro hr
    refine or_iff_not_imp_left.mpr fun hblocked => ?_
    have hh : c'.blocked = false := Bool.eq_false_iff.mpr hblocked
    have hgone : c'.gone = true := by
      cases hg : c'.gone with
      | true => rfl
      | false =>
          have hsig' := exec_invariant (I := fun _ c => c.session.signalled = true)
            (fun _ _ _ _ hs h => Client.signalled_step hs h) [] hsig hl
          cases hsig'.symm.trans (hsteady.driver_of_resting hr hh hg).2.2
    exact ⟨hgone, hsteady.closers_of_resting hr hh,
      hsteady.finished_of_gone hb hgone fun i => hr (.call i) rfl⟩

end Ended

/-- The session is closed while the request of a probe is being written.  Until the transport takes
it the `close()` call waits, and then the session shuts down. -/
theorem close_completes_one :
    let request : Bytes := [0, 1, 0, 0, 2, 0, 0, 0, 0, 0, 0, 0, 2, 0, 0, 0, 0, 0, 0, 0]
    ∃ c c', exec (Client.step .floor) (.established 1 1 [.ping])
        [.call 0, .call 0, .call 0, .call 0, .session (.select (.submit ⟨2, request, 0⟩ [20])),
          .session (.close 0 true), .session (.close 0 true), .session (.close 0 true),
          .session (.close 0 true), .session (.close 0 true), .session (.close 0 true)] = some c ∧
      c.Resting .floor ∧ c.blocked = true ∧ c.session.closers = [.await] ∧
      exec (Client.step .floor) c
        [.session .perform, .session (.select (.shutdown true)), .session .perform,
          .session .perform, .session .perform, .session .perform, .session (.close 0 true),
          .session (.close 0 true), .call 0] = some c' ∧
      c'.gone = true ∧ ∀ call ∈ c'.calls, call.place.finished = true := by
  intro request
  let c : Client :=
    ⟨⟨some ⟨⟨[], (∅ : Waiters Nat).insert 2 0, ⟨[2], by decide⟩, false, [.write request]⟩,
        [.write request], none⟩,
      ⟨.closing, true⟩, false, false, false, true, [.await]⟩, 0,
      RequestIdAllocator.new.allocate.2.allocate.2, [], [⟨.ping, .await 2 none⟩]⟩
  let c' : Client :=
    ⟨⟨some ⟨⟨[], ∅, .new, false, [.write request, .send 2 0 (.error .closed), .mark .closed,
        .closeAdmission, .shutdown true]⟩, [], some (.returned .closed)⟩,
      ⟨.closed, true⟩, false, false, false, true, [.done .ok]⟩, 1,
      RequestIdAllocator.new.allocate.2.allocate.2, [],
      [⟨.ping, .done (.error (.fromDriver .closed))⟩]⟩
  have h : exec (Client.step .floor) (.established 1 1 [.ping])
      [.call 0, .call 0, .call 0, .call 0, .session (.select (.submit ⟨2, request, 0⟩ [20])),
        .session (.close 0 true), .session (.close 0 true), .session (.close 0 true),
        .session (.close 0 true), .session (.close 0 true), .session (.close 0 true)] =
      some c := rfl
  have hl : exec (Client.step .floor) c
      [.session .perform, .session (.select (.shutdown true)), .session .perform,
        .session .perform, .session .perform, .session .perform, .session (.close 0 true),
        .session (.close 0 true), .call 0] = some c' := rfl
  have hblocked : c.Resting .floor := by
    intro turn hown
    cases turn with
    | session m =>
        cases m with
        | select e => cases e <;> rfl
        | close i ok => cases i <;> rfl
        | _ => cases hown
    | call i => cases i <;> rfl
    | drop i => cases hown
  have hr : c'.Resting .floor := by
    intro turn hown
    cases turn with
    | session m =>
        cases m with
        | select e => cases e <;> rfl
        | close i ok => cases i <;> rfl
        | _ => rfl
    | call i => cases i <;> rfl
    | drop i => cases hown
  obtain ⟨-, hrest⟩ := close_completes _ _ _ _ _ _ (by decide) h rfl hl (List.all_eq_true.mp rfl)
  obtain ⟨hgone, -, hcalls⟩ := (hrest hr).resolve_left Bool.false_ne_true
  exact ⟨c, c', h, hblocked, rfl, rfl, hl, hgone, hcalls⟩

end Rp1.Connection

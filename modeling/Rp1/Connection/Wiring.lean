import Rp1.Connection.Calls

/-!
# Connection — every completion has one taker

How the calls, the queue and the driver hang together.  A request that has been submitted and has
no outcome yet is *owed* one: it stands in the queue, in the waiter table, or among the outcomes the
driver has decided on and not yet sent.  No call stands there twice, and each call that does is
waiting for exactly this request, unless its future was dropped.

`Client.Wired` is that invariant, and `Client.Wired.step` says that every step of every task keeps
it.  What a step can do is said once for the driver and the `close()` calls (`Session.Sound.step`,
`Client.session_eq_some`) and once for a command (`Place.step_moves`).
-/

namespace Rp1.Connection
open Codec Protocol Command Loop Runs

/-! ### What the driver owes -/

section Owed
variable {σ : Type} {limits : Limits}

/-- The requests that are still to get an outcome: those decided on, and those that wait. -/
def Task.owed (t : Task σ) : List (UInt64 × σ) :=
  t.pending.filterMap Effect.sent ++ t.driver.waiting

def Session.owed (s : Session σ) : List (UInt64 × σ) := s.task.elim [] Task.owed

/-- The books of the driver are in order, it leaves its loop with nobody waiting, and what it is
going to mark is terminal. -/
structure Task.Sound (t : Task σ) : Prop where
  ledger : ∃ received, Ledger received t.driver
  left : ∀ l, t.left = some l → t.driver.completions = ∅
  marks : ∀ next, .mark next ∈ t.pending → next.isTerminal = true

theorem Task.Sound.spawn : (Task.spawn : Task σ).Sound :=
  ⟨⟨[], .new⟩, fun _ e => (nomatch e), fun _ e => nomatch e⟩

/-- An iteration gets what it was owed before and what it received into the new books. -/
theorem Task.Sound.select {t t' : Task σ} {e : Event σ} (h : t.Sound)
    (hs : t.select limits e = some t') :
    t'.Sound ∧ (t.owed ++ e.received).Perm t'.owed := by
  obtain ⟨received, hl⟩ := h.ledger
  obtain ⟨effects, tail, hlog, hq, he⟩ := (iterate_ends limits t.driver e).log
  have hpend := Task.pending_of_select hs hlog
  obtain ⟨hnil, -, hd, hleft, -⟩ := Task.select_eq_some hs
  have hl' : Ledger (received ++ e.received) t'.driver := by
    rw [hd]
    exact hl.iterate limits e
  refine ⟨⟨⟨_, hl'⟩, fun l hl => ?_, fun next hm => ?_⟩, ?_⟩
  · rw [hd]
    refine iterate_leaves (l := l) ?_
    rw [hleft] at hl
    cases hf : (iterate limits t.driver e).2 with
    | again => rw [hf] at hl; cases hl
    | leave l' => rw [hf] at hl; cases hl; rfl
  · rw [hpend] at hm
    rcases List.mem_append.mp hm with hm | hm
    · exact nomatch hq _ hm
    · exact he.isTerminal_of_mem hm
  · -- what was sent before the iteration stands on both sides of its books
    have hsent : t'.driver.sent = t.driver.sent ++ t'.pending.filterMap Effect.sent := by
      rw [Driver.sent, hd, hlog, List.filterMap_append, hpend, Driver.sent]
    have hbooks := (hl.balanced.append_right e.received).symm.trans hl'.balanced
    rw [hsent, List.append_assoc, List.append_assoc, List.perm_append_left_iff] at hbooks
    rw [Task.owed, hnil, List.filterMap_nil, List.nil_append]
    exact hbooks

/-- The effect that a step performs. -/
def Session.performs (s : Session σ) : Move σ → Option (Effect σ)
  | .perform => s.next
  | .select _ | .abort | .close .. => none

/-- The submissions that a step takes in. -/
def Move.received : Move σ → List (UInt64 × σ)
  | .select e => e.received
  | .perform | .abort | .close .. => []

/-- The driver of a session, as long as it has one, is sound. -/
def Session.Sound (s : Session σ) : Prop := ∀ t, s.task = some t → t.Sound

/-- **What a step owes.**  What was owed before it or comes in with it is sent by it, is still owed,
or is lost with the driver. -/
theorem Session.Sound.step {s s' : Session σ} {m : Move σ} (h : s.Sound)
    (hs : s.step limits m = some s') :
    s'.Sound ∧ ∃ lost, (s.owed ++ m.received).Perm
      (((s.performs m).bind Effect.sent).toList ++ (s'.owed ++ lost)) := by
  cases m with
  | select e =>
      obtain ⟨t, t', -, ht, hsel, rfl⟩ := Session.select_eq_some hs
      obtain ⟨hsound, hperm⟩ := (h t ht).select hsel
      refine ⟨fun t₁ ht₁ => Option.some.inj ht₁ ▸ hsound, [], ?_⟩
      rw [List.append_nil, Session.owed, ht]
      exact hperm
  | perform =>
      obtain ⟨t, x, pending, ht, hp, rfl⟩ := Session.perform_eq_some hs
      obtain ⟨hl, hleft, hmarks⟩ := h t ht
      have hnext : s.next = some x := by
        rw [Session.next, ht, Option.bind_some, hp, List.head?_cons]
      refine ⟨fun t₁ ht₁ => ?_, [], ?_⟩
      · obtain rfl := Option.some.inj ht₁
        exact ⟨hl, hleft, fun next hm => hmarks next (hp ▸ List.mem_cons_of_mem _ hm)⟩
      · rw [Session.performs, hnext, Option.bind_some, List.append_nil]
        rw [Session.owed, ht, Option.elim_some, Task.owed, hp, Move.received, List.append_nil]
        cases hx : x.sent with
        | none => rw [List.filterMap_cons_none hx]; exact .refl _
        | some p => rw [List.filterMap_cons_some hx]; exact .refl _
  | abort =>
      obtain ⟨t, -, -, rfl⟩ := Session.abort_eq_some hs
      refine ⟨fun _ e => (nomatch e), s.owed, ?_⟩
      rw [Move.received, List.append_nil]
      exact .refl _
  | close i ok =>
      obtain ⟨c, s₁, c', -, hstep, rfl⟩ := Session.close_eq_some hs
      have htask := (Closer.step_frame hstep).1
      refine ⟨fun t ht => h t (htask ▸ ht), [], ?_⟩
      rw [Move.received, List.append_nil, List.append_nil, Session.owed, ← htask]
      exact .refl _

end Owed

/-! ### What a step does to the client -/

/-- The submissions in the queue, as the driver will receive them. -/
def Client.queued (c : Client) : List (UInt64 × Nat) :=
  c.queue.map fun s => (s.id, s.completion)

/-- Every request that was submitted and is still to get its outcome. -/
def Client.owed (c : Client) : List (UInt64 × Nat) := c.queued ++ c.session.owed

section Steps
variable {n : Negotiated} {c c' : Client}

/-- **A step of the driver or of a `close()` call.**  What the driver receives it takes from the
queue, and what it sends arrives at the calls. -/
theorem Client.session_eq_some {m : Move Nat} (h : c.step n (.session m) = some c') :
    ∃ session queue, c.session.step n.effectiveLimits m = some session ∧
      c.queued = m.received ++ queue.map (fun s => (s.id, s.completion)) ∧
      c' = (({ c with session, queue } : Client).deliver (c.session.performs m)).sweep := by
  obtain ⟨c₁, hc₁, rfl⟩ := Option.map_eq_some_iff.mp h
  clear h
  -- every step but the reception of a submission leaves the queue as it is
  have plain : ∀ {m : Move Nat}, m.received = [] → c.session.performs m = none →
      ((c.session.step n.effectiveLimits m).map fun session => { c with session }) = some c₁ →
      ∃ session queue, c.session.step n.effectiveLimits m = some session ∧
        c.queued = m.received ++ queue.map (fun s => (s.id, s.completion)) ∧
        c₁.sweep = (({ c with session, queue } : Client).deliver (c.session.performs m)).sweep := by
    intro m hr hp h
    obtain ⟨session, hs, rfl⟩ := Option.map_eq_some_iff.mp h
    rw [hr, hp]
    exact ⟨session, c.queue, hs, rfl, rfl⟩
  cases m with
  | abort => exact plain rfl rfl hc₁
  | close i ok => exact plain rfl rfl hc₁
  | perform =>
      obtain ⟨session, hs, rfl⟩ := Option.map_eq_some_iff.mp hc₁
      exact ⟨session, c.queue, hs, rfl, rfl⟩
  | select e =>
      cases e with
      | submit s writes =>
          cases hq : c.queue with
          | nil =>
              simp only [Client.sessionStep, hq] at hc₁
              cases hc₁
          | cons head queue =>
              simp only [Client.sessionStep, hq] at hc₁
              obtain ⟨rfl, hc₁⟩ := Option.ite_none_right_eq_some.mp hc₁
              obtain ⟨session, hs, rfl⟩ := Option.map_eq_some_iff.mp hc₁
              refine ⟨session, queue, hs, ?_, rfl⟩
              rw [Client.queued, hq]
              rfl
      | shutdown ok => exact plain rfl rfl hc₁
      | submitClosed => exact plain rfl rfl hc₁
      | readFailed => exact plain rfl rfl hc₁
      | read chunk => exact plain rfl rfl hc₁

theorem Client.call_eq_some {i : Nat} (h : c.step n (.call i) = some c') :
    ∃ call c₁ place, c.calls[i]? = some call ∧ call.place.step n c i call.op = some (c₁, place) ∧
      c' = { c₁ with calls := c₁.calls.set i { call with place } } := by
  obtain ⟨call, hc, h⟩ := Option.bind_eq_some_iff.mp h
  obtain ⟨⟨c₁, place⟩, hstep, rfl⟩ := Option.map_eq_some_iff.mp h
  exact ⟨call, c₁, place, hc, hstep, rfl⟩

/-- The command holds a permit of the admission source. -/
def Place.holds : Place → Bool
  | .allocate _ | .send .. | .await .. | .lost => true
  | .start | .refused | .acquire _ | .shutOut | .done _ | .dropped => false

/-- Where the future of a command can be dropped, with the permit it then gives back. -/
theorem Client.drop_eq_some {i : Nat} (h : c.step n (.drop i) = some c') :
    ∃ call c₁, c.calls[i]? = some call ∧
      c₁ = { c with permits := c.permits + call.place.holds.toNat } ∧
      c' = { c₁ with calls := c₁.calls.set i { call with place := .dropped } } := by
  obtain ⟨call, hc, h⟩ := Option.bind_eq_some_iff.mp h
  obtain ⟨c₁, hd, rfl⟩ := Option.map_eq_some_iff.mp h
  refine ⟨call, c₁, hc, ?_, rfl⟩
  cases hp : call.place <;> rw [hp] at hd <;> cases hd <;> rfl

/-- A call that waits for the outcome of request `id`, or whose future was dropped. -/
def Place.expects (id : UInt64) : Place → Bool
  | .await id' none => decide (id' = id)
  | .dropped => true
  | _ => false

/-- What an access of the `i`-th command does: it submits its request, or it leaves the queue alone
and, unless the driver is gone, was not waiting. -/
inductive Place.Moves (c : Client) (i : Nat) : Place → Client → Place → Prop where
  | submits (id : UInt64) (bytes : Bytes) (hg : c.gone = false) :
      Moves c i (.send id bytes) { c with queue := c.queue ++ [⟨id, bytes, i⟩] } (.await id none)
  | quiet (place place' : Place) (permits : Nat) (allocator : RequestIdAllocator)
      (hp : permits + place'.holds.toNat = c.permits + place.holds.toNat)
      (hw : ∀ id, place.expects id = true → c.gone = true) (hw' : ∀ id, place'.expects id = false)
      (hi : ∀ id inbox, place' ≠ .await id inbox) :
      Moves c i place { c with permits, allocator } place'

theorem Place.step_moves {c₁ : Client} {i : Nat} {op : Operation} {place place' : Place}
    (h : place.step n c i op = some (c₁, place')) : place.Moves c i c₁ place' := by
  -- a command that thinks or waits for a permit neither holds one nor waits for an outcome
  have idle : ∀ {place place' : Place}, place.holds = place'.holds →
      (∀ id, place.expects id = false) → (∀ id, place'.expects id = false) →
      (∀ id inbox, place' ≠ .await id inbox) → place.Moves c i c place' := by
    intro place place' hp hw hw' hi
    exact .quiet place place' c.permits c.allocator (by rw [hp])
      (fun id he => absurd he (by rw [hw]; exact Bool.false_ne_true)) hw' hi
  have stops : ∀ {place : Place} (result : Except CommandError Reply), place.holds = false →
      (∀ id, place.expects id = false) → place.Moves c i c (.done result) :=
    fun result hp hw => idle hp hw (fun _ => rfl) fun _ _ => Place.noConfusion
  -- the end of `submit` gives the permit back
  have ends : ∀ {place : Place} (result : Except CommandError Reply)
      (allocator : RequestIdAllocator), place.holds = true → (∀ id, place.expects id = false) →
      place.Moves c i { c with permits := c.permits + 1, allocator } (.done result) := by
    intro place result allocator hp hw
    exact .quiet place _ _ allocator (by rw [hp]; rfl)
      (fun id he => absurd he (by rw [hw]; exact Bool.false_ne_true)) (fun _ => rfl)
      fun _ _ => Place.noConfusion
  cases place with
  | start =>
      rw [Place.step] at h
      split at h
      · cases h; exact stops _ rfl fun _ => rfl
      · split at h
        · simp only at h
          split at h
          · cases h; exact stops _ rfl fun _ => rfl
          · cases h; exact idle rfl (fun _ => rfl) (fun _ => rfl) fun _ _ => Place.noConfusion
        · cases h; exact idle rfl (fun _ => rfl) (fun _ => rfl) fun _ _ => Place.noConfusion
  | refused => cases h; exact stops _ rfl fun _ => rfl
  | acquire payload =>
      rw [Place.step] at h
      split at h
      · cases h; exact idle rfl (fun _ => rfl) (fun _ => rfl) fun _ _ => Place.noConfusion
      · obtain ⟨hp, h⟩ := Option.ite_none_right_eq_some.mp h
        cases h
        refine .quiet _ _ _ c.allocator ?_ (fun _ he => nomatch he) (fun _ => rfl)
          fun _ _ => Place.noConfusion
        show c.permits - 1 + 1 = c.permits + 0
        omega
  | shutOut => cases h; exact stops _ rfl fun _ => rfl
  | allocate payload =>
      simp only [Place.step] at h
      split at h
      · cases h; exact ends _ _ rfl fun _ => rfl
      · split at h
        · cases h; exact ends _ _ rfl fun _ => rfl
        · cases h
          exact .quiet _ _ c.permits _ rfl (fun _ he => nomatch he) (fun _ => rfl)
            fun _ _ => Place.noConfusion
  | send id bytes =>
      rw [Place.step] at h
      by_cases hg : c.gone = true
      · rw [if_pos hg] at h
        cases h
        exact idle rfl (fun _ => rfl) (fun _ => rfl) fun _ _ => Place.noConfusion
      · rw [if_neg hg] at h
        obtain ⟨-, h⟩ := Option.ite_none_right_eq_some.mp h
        cases h
        exact .submits id bytes (Bool.eq_false_iff.mpr hg)
  | await id inbox =>
      cases inbox with
      | some outcome => cases h; exact ends _ _ rfl fun _ => rfl
      | none =>
          obtain ⟨hg, h⟩ := Option.ite_none_right_eq_some.mp h
          cases h
          exact .quiet _ _ c.permits c.allocator rfl (fun _ _ => hg) (fun _ => rfl)
            fun _ _ => Place.noConfusion
  | lost => cases h; exact ends _ _ rfl fun _ => rfl
  | done result => cases h
  | dropped => cases h

/-- What an access of a command leaves as it is. -/
theorem Place.step_frame {c₁ : Client} {i : Nat} {op : Operation} {place place' : Place}
    (h : place.step n c i op = some (c₁, place')) :
    c₁.session = c.session ∧ c₁.calls = c.calls := by
  cases Place.step_moves h with
  | submits => exact ⟨rfl, rfl⟩
  | quiet => exact ⟨rfl, rfl⟩

/-- The call that has moved, and the others. -/
theorem Client.getElem?_call {i : Nat} (h : c.step n (.call i) = some c') :
    ∃ op place place' c₁, c.calls[i]? = some ⟨op, place⟩ ∧
      place.step n c i op = some (c₁, place') ∧ c'.calls[i]? = some ⟨op, place'⟩ ∧
      ∀ j, j ≠ i → c'.calls[j]? = c.calls[j]? := by
  obtain ⟨⟨op, place⟩, c₁, place', hc, hstep, rfl⟩ := Client.call_eq_some h
  have hcalls := (Place.step_frame hstep).2
  refine ⟨op, place, place', c₁, hc, hstep, ?_, fun j hj => ?_⟩
  · exact List.getElem?_set_self (hcalls ▸ (List.getElem?_eq_some_iff.mp hc).1)
  · exact (List.getElem?_set_ne hj.symm).trans (by rw [hcalls])

/-- A command that has nothing submitted. -/
def Place.offline : Place → Bool
  | .start | .refused | .shutOut | .allocate _ => true
  | _ => false

theorem encodeRequest_scope {opcode : UInt16} {payload : Bytes} {id frame : UInt64}
    {metadata : UInt16} {e : CommandError}
    (h : encodeRequest opcode payload id frame metadata = .error e) : e.scope = none := by
  rw [encodeRequest] at h
  split at h <;> cases h <;> rfl

theorem ConnectionState.scope_refusal (state : ConnectionState) : state.refusal.scope = none := by
  cases state <;> rfl

theorem ConnectionState.isAmbiguous_refusal (state : ConnectionState) :
    state.refusal.isAmbiguous = true := by
  cases state <;> rfl

/-- **How a command fails**: with the outcome it got, because its completion was lost, or before it
submitted anything. -/
theorem Place.step_failed {c₁ : Client} {i : Nat} {op : Operation} {place : Place}
    {e : CommandError} (h : place.step n c i op = some (c₁, .done (.error e))) :
    (∃ id outcome, place = .await id (some outcome) ∧ op.conclude n outcome = .error e) ∨
      (place = .lost ∧ e = c.session.state.refusal) ∨ (place.offline = true ∧ e.scope = none) := by
  cases place with
  | start =>
      rw [Place.step] at h
      split at h
      · cases h; exact .inr (.inr ⟨rfl, rfl⟩)
      · split at h
        · simp only at h
          split at h
          · cases h; exact .inr (.inr ⟨rfl, rfl⟩)
          · cases h
        · cases h
  | refused => cases h; exact .inr (.inr ⟨rfl, ConnectionState.scope_refusal _⟩)
  | acquire payload =>
      rw [Place.step] at h
      split at h
      · cases h
      · obtain ⟨-, h⟩ := Option.ite_none_right_eq_some.mp h
        cases h
  | shutOut => cases h; exact .inr (.inr ⟨rfl, ConnectionState.scope_refusal _⟩)
  | allocate payload =>
      simp only [Place.step] at h
      split at h
      · cases h; exact .inr (.inr ⟨rfl, rfl⟩)
      · split at h
        · rename_i he
          cases h
          exact .inr (.inr ⟨rfl, encodeRequest_scope he⟩)
        · cases h
  | send id bytes =>
      rw [Place.step] at h
      split at h
      · cases h
      · obtain ⟨-, h⟩ := Option.ite_none_right_eq_some.mp h
        cases h
  | await id inbox =>
      cases inbox with
      | some outcome =>
          simp only [Place.step, Option.some.injEq, Prod.mk.injEq, Place.done.injEq] at h
          exact .inl ⟨id, outcome, rfl, h.2⟩
      | none =>
          obtain ⟨-, h⟩ := Option.ite_none_right_eq_some.mp h
          cases h
  | lost =>
      cases h
      exact .inr (.inl ⟨rfl, rfl⟩)
  | done result => cases h
  | dropped => cases h

end Steps

/-! ### Delivery -/

@[simp] theorem Client.session_deliver (c : Client) (x : Option (Effect Nat)) :
    (c.deliver x).session = c.session := by
  rcases x with - | x
  · rfl
  · cases x <;> rfl

@[simp] theorem Client.queue_deliver (c : Client) (x : Option (Effect Nat)) :
    (c.deliver x).queue = c.queue := by
  rcases x with - | x
  · rfl
  · cases x <;> rfl

@[simp] theorem Client.permits_deliver (c : Client) (x : Option (Effect Nat)) :
    (c.deliver x).permits = c.permits := by
  rcases x with - | x
  · rfl
  · cases x <;> rfl

/-- A delivery changes the call it is for, and no other. -/
theorem Client.getElem?_deliver (c : Client) (x : Option (Effect Nat)) (j : Nat) :
    (c.deliver x).calls[j]? = c.calls[j]? ∨
      ∃ id outcome, x = some (.send id j outcome) ∧
        (c.deliver x).calls[j]? = c.calls[j]?.map (Call.receive outcome) := by
  rcases x with - | ⟨id, i, outcome⟩ | - | - | - | -
  · exact .inl rfl
  · by_cases hi : i = j
    · subst hi
      refine .inr ⟨id, outcome, rfl, ?_⟩
      simp [Client.deliver]
    · exact .inl (List.getElem?_modify_ne _ _ hi)
  all_goals exact .inl rfl

/-- The queue may be lost with the driver. -/
theorem Client.owed_deliver_sweep (c : Client) (x : Option (Effect Nat)) :
    ∃ lost, c.owed.Perm ((c.deliver x).sweep.owed ++ lost) := by
  by_cases hg : (c.deliver x).gone = true
  · refine ⟨c.queued, ?_⟩
    rw [Client.owed, Client.owed, Client.queued, Client.sweep, if_pos hg]
    simp only [Client.session_deliver]
    exact List.perm_append_comm
  · refine ⟨[], ?_⟩
    rw [Client.owed, Client.owed, Client.queued, Client.queued, Client.sweep, if_neg hg]
    simp only [Client.session_deliver, Client.queue_deliver, List.append_nil]
    exact .refl _

/-- Commands do not touch the session. -/
theorem Client.session_of_step {n : Negotiated} {c c' : Client} {turn : Turn}
    (h : c.step n turn = some c') :
    (∃ m, turn = .session m ∧ c.session.step n.effectiveLimits m = some c'.session) ∨
      ((∀ m, turn ≠ .session m) ∧ c'.session = c.session) := by
  cases turn with
  | session m =>
      obtain ⟨session, queue, hstep, -, rfl⟩ := Client.session_eq_some h
      refine .inl ⟨m, rfl, ?_⟩
      rw [Client.sweep, Client.session_deliver]
      exact hstep
  | call i =>
      obtain ⟨call, c₁, place, -, hstep, rfl⟩ := Client.call_eq_some h
      exact .inr ⟨fun _ => Turn.noConfusion, (Place.step_frame hstep).1⟩
  | drop i =>
      obtain ⟨call, c₁, -, rfl, rfl⟩ := Client.drop_eq_some h
      exact .inr ⟨fun _ => Turn.noConfusion, rfl⟩

theorem Client.session_of_call {n : Negotiated} {c c' : Client} {i : Nat}
    (h : c.step n (.call i) = some c') : c'.session = c.session := by
  rcases Client.session_of_step h with ⟨m, e, -⟩ | ⟨-, e⟩
  · cases e
  · exact e

/-- What the steps of a session keep, the steps of its client keep. -/
theorem Client.session_keeps {P : Session Nat → Prop} {n : Negotiated} {c c' : Client}
    {turn : Turn} (h : c.step n turn = some c') (hP : P c.session)
    (hstep : ∀ m, c.session.step n.effectiveLimits m = some c'.session → P c'.session) :
    P c'.session := by
  rcases Client.session_of_step h with ⟨m, -, hm⟩ | ⟨-, e⟩
  · exact hstep m hm
  · rw [e]
    exact hP

/-- A step in which the driver iterates is the iteration. -/
theorem Client.select_of_step {n : Negotiated} {c c' : Client} {e : Event Nat}
    (h : c.step n (.session (.select e)) = some c') :
    ∃ t t', c.session.task = some t ∧ t.select n.effectiveLimits e = some t' ∧
      c'.session = { c.session with task := some t' } := by
  rcases Client.session_of_step h with ⟨m, hm, hstep⟩ | ⟨hno, -⟩
  · cases hm
    obtain ⟨t, t', -, ht, hsel, hs⟩ := Session.select_eq_some hstep
    exact ⟨t, t', ht, hsel, hs⟩
  · exact absurd rfl (hno _)

/-! ### What becomes of a call -/

/-- What a step can do to the `i`-th call. -/
inductive Place.Evolves (n : Negotiated) (c : Client) (i : Nat) (op : Operation) :
    Turn → Place → Place → Prop where
  | same (turn : Turn) (place : Place) : Evolves n c i op turn place place
  /-- The driver sends it its outcome. -/
  | told (id id' : UInt64) (outcome : Except DriverError Bytes)
      (hx : c.session.next = some (.send id' i outcome)) :
      Evolves n c i op (.session .perform) (.await id none) (.await id (some outcome))
  /-- It makes its next access. -/
  | moved (c₁ : Client) (place place' : Place) (h : place.step n c i op = some (c₁, place')) :
      Evolves n c i op (.call i) place place'
  | dropped (place : Place) : Evolves n c i op (.drop i) place .dropped

theorem Client.evolves {n : Negotiated} {c c' : Client} {turn : Turn}
    (h : c.step n turn = some c') {i : Nat} {op : Operation} {place' : Place}
    (hi : c'.calls[i]? = some ⟨op, place'⟩) :
    ∃ place, c.calls[i]? = some ⟨op, place⟩ ∧ place.Evolves n c i op turn place' := by
  cases turn with
  | session m =>
      obtain ⟨session, queue, -, -, rfl⟩ := Client.session_eq_some h
      rcases Client.getElem?_deliver { c with session, queue } (c.session.performs m) i with
        hsame | ⟨id', outcome, hx, hsame⟩
      · exact ⟨place', hsame.symm.trans hi, .same _ _⟩
      · obtain ⟨⟨op₁, place⟩, hc, hrec⟩ := Option.map_eq_some_iff.mp (hsame.symm.trans hi)
        -- only `perform` sends
        obtain rfl : m = .perform := by
          cases m with
          | perform => rfl
          | _ => cases hx
        cases place with
        | await id inbox =>
            cases inbox with
            | none => cases hrec; exact ⟨_, hc, .told id id' outcome hx⟩
            | some _ => cases hrec; exact ⟨_, hc, .same _ _⟩
        | _ => cases hrec; exact ⟨_, hc, .same _ _⟩
  | call j =>
      obtain ⟨op₁, place, place₁, c₁, hc, hstep, hj, hother⟩ := Client.getElem?_call h
      by_cases hij : i = j
      · subst hij
        cases hj.symm.trans hi
        exact ⟨place, hc, .moved c₁ place _ hstep⟩
      · exact ⟨place', (hother i hij).symm.trans hi, .same _ _⟩
  | drop j =>
      obtain ⟨call, c₁, hc, rfl, rfl⟩ := Client.drop_eq_some h
      have hi : (c.calls.set j { call with place := .dropped })[i]? = some ⟨op, place'⟩ := hi
      by_cases hij : j = i
      · subst hij
        rw [List.getElem?_set_self (List.getElem?_eq_some_iff.mp hc).1] at hi
        cases hi
        exact ⟨call.place, hc, .dropped _⟩
      · rw [List.getElem?_set_ne hij] at hi
        exact ⟨place', hi, .same _ _⟩

/-- Every outcome on its way to a call or arrived at it is as `P` says. -/
structure Client.Hears (P : Nat → Except DriverError Bytes → Prop) (c : Client) : Prop where
  pending : ∀ t id i outcome, c.session.task = some t → .send id i outcome ∈ t.pending →
    P i outcome
  inbox : ∀ i op id outcome, c.calls[i]? = some ⟨op, .await id (some outcome)⟩ → P i outcome

theorem Client.Hears.mono {P Q : Nat → Except DriverError Bytes → Prop} {c : Client}
    (h : c.Hears P) (hPQ : ∀ i outcome, P i outcome → Q i outcome) : c.Hears Q :=
  ⟨fun t id i outcome ht hm => hPQ i outcome (h.pending t id i outcome ht hm),
    fun i op id outcome hc => hPQ i outcome (h.inbox i op id outcome hc)⟩

/-- Nothing is on its way when a connection is established. -/
theorem Client.Hears.established (P : Nat → Except DriverError Bytes → Prop)
    (bound closers : Nat) (ops : List Operation) :
    (Client.established bound closers ops).Hears P := by
  refine ⟨fun t id i outcome ht hm => ?_, fun i op id outcome hc => ?_⟩
  · obtain rfl := Option.some.inj ht
    cases hm
  · obtain ⟨_, -, h⟩ := Option.map_eq_some_iff.mp ((List.getElem?_map ..).symm.trans hc)
    cases h

/-- **What the driver sends is what arrives.**  Only an iteration of the driver brings new outcomes
on their way. -/
theorem Client.Hears.step {P : Nat → Except DriverError Bytes → Prop} {n : Negotiated}
    {c c' : Client} {turn : Turn} (h : c.Hears P) (hs : c.step n turn = some c')
    (hnew : ∀ e t t', turn = .session (.select e) → c.session.task = some t →
      t.select n.effectiveLimits e = some t' →
      ∀ id i outcome, .send id i outcome ∈ t'.pending → P i outcome) : c'.Hears P := by
  constructor
  · intro t' id i outcome ht' hm
    rcases Client.session_of_step hs with ⟨m, rfl, hstep⟩ | ⟨-, e⟩
    · cases m with
      | select e =>
          obtain ⟨t, t₁, -, ht, hsel, hsess⟩ := Session.select_eq_some hstep
          rw [hsess] at ht'
          obtain rfl := Option.some.inj ht'
          exact hnew e t t₁ rfl ht hsel id i outcome hm
      | perform =>
          obtain ⟨t, x, pending, ht, hp, hsess⟩ := Session.perform_eq_some hstep
          rw [hsess] at ht'
          obtain rfl := Option.some.inj ht'
          exact h.pending t id i outcome ht (hp ▸ List.mem_cons_of_mem _ hm)
      | abort =>
          obtain ⟨t, -, -, hsess⟩ := Session.abort_eq_some hstep
          rw [hsess] at ht'
          cases ht'
      | close j ok =>
          obtain ⟨closer, s₁, closer', -, hclose, hsess⟩ := Session.close_eq_some hstep
          rw [hsess] at ht'
          exact h.pending t' id i outcome ((Closer.step_frame hclose).1 ▸ ht') hm
    · exact h.pending t' id i outcome (e ▸ ht') hm
  · intro i op id outcome hc
    obtain ⟨place, hplace, hev⟩ := Client.evolves hs hc
    cases hev with
    | same => exact h.inbox i op id outcome hplace
    | told _ id' _ hx =>
        -- the driver performs the head of what it has pending
        obtain ⟨t, ht, hhead⟩ := Option.bind_eq_some_iff.mp hx
        exact h.pending t id' i outcome ht (List.mem_of_mem_head? hhead)
    | moved c₁ _ _ hstep =>
        -- no access of a command fills its own inbox
        cases Place.step_moves hstep with
        | quiet _ _ permits allocator hp hw hw' hi => exact absurd rfl (hi _ _)

/-! ### The invariant -/

/-- Nobody is owed anything by a driver that is gone. -/
theorem Session.Sound.owed_of_join {s : Session Nat} (h : s.Sound) (hj : s.join.isSome = true) :
    s.owed = [] := by
  cases ht : s.task with
  | none => rw [Session.owed, ht, Option.elim_none]
  | some t =>
      obtain ⟨exit, hexit⟩ := Option.isSome_iff_exists.mp hj
      simp only [Session.join, ht] at hexit
      obtain ⟨l, hl, -⟩ := Option.map_eq_some_iff.mp hexit
      obtain ⟨hp, hl⟩ := Task.returned_eq_some.mp hl
      rw [Session.owed, ht, Option.elim_some, Task.owed, hp, Driver.waiting, (h t ht).left l hl]
      rfl

/-- How the calls, the queue and the driver hang together. -/
structure Client.Wired (c : Client) : Prop where
  sound : c.session.Sound
  swept : c.gone = true → c.queue = []
  /-- Nobody is owed two outcomes. -/
  nodup : (c.owed.map Prod.snd).Nodup
  /-- Who is owed an outcome waits for it, or has given up. -/
  expects : ∀ p ∈ c.owed, ∃ call, c.calls[p.2]? = some call ∧ call.place.expects p.1 = true

section Wired
variable {n : Negotiated} {c c' : Client}

theorem Client.Wired.established (bound closers : Nat) (ops : List Operation) :
    (Client.established bound closers ops).Wired where
  sound := fun _ ht => Option.some.inj ht ▸ .spawn
  swept := fun _ => rfl
  nodup := .nil
  expects := fun _ hp => nomatch hp

theorem Client.Wired.owed_of_gone (h : c.Wired) (hg : c.gone = true) : c.owed = [] := by
  rw [Client.owed, Client.queued, h.swept hg, h.sound.owed_of_join hg]
  rfl

/-- A call that does not wait is owed nothing. -/
theorem Client.Wired.notMem (h : c.Wired) {i : Nat} {call : Call} (hc : c.calls[i]? = some call)
    (hw : ∀ id, call.place.expects id = true → c.gone = true) : i ∉ c.owed.map Prod.snd := by
  intro hi
  obtain ⟨p, hp, rfl⟩ := List.mem_map.mp hi
  obtain ⟨call', hc', he⟩ := h.expects p hp
  obtain rfl := Option.some.inj (hc.symm.trans hc')
  rw [h.owed_of_gone (hw _ he)] at hp
  cases hp

/-- The call itself moves; who is owed an outcome is somebody else. -/
theorem Client.Wired.set (h : c.Wired) {i : Nat} (hi : i ∉ c.owed.map Prod.snd) (call : Call)
    (permits : Nat) (allocator : RequestIdAllocator) :
    Client.Wired { c with permits, allocator, calls := c.calls.set i call } := by
  refine ⟨h.sound, h.swept, h.nodup, fun p hp => ?_⟩
  obtain ⟨call', hc', he⟩ := h.expects p hp
  have hne : i ≠ p.2 := fun e => hi (e ▸ List.mem_map_of_mem hp)
  exact ⟨call', by rw [List.getElem?_set_ne hne]; exact hc', he⟩

theorem queued_append (session : Session Nat) (permits : Nat) (allocator : RequestIdAllocator)
    (queue : List (Submit Nat)) (s : Submit Nat) (calls : List Call) :
    (Client.mk session permits allocator (queue ++ [s]) calls).queued =
      (queue.map fun s => (s.id, s.completion)) ++ [(s.id, s.completion)] :=
  List.map_append

theorem Client.Wired.call {i : Nat} (h : c.Wired) (hs : c.step n (.call i) = some c') :
    c'.Wired := by
  obtain ⟨call, c₁, place, hc, hstep, rfl⟩ := Client.call_eq_some hs
  generalize hpl : call.place = pl at hstep
  cases Place.step_moves hstep with
  | quiet _ _ permits allocator hp hw =>
      exact h.set (h.notMem hc (hpl ▸ hw)) { call with place } permits allocator
  | submits id bytes hg =>
      have hi : i ∉ c.owed.map Prod.snd := h.notMem hc fun id he => by
        rw [hpl] at he
        cases he
      -- the new request stands at the end of the queue
      have howed : (c.queued ++ [(id, i)] ++ c.session.owed).Perm ((id, i) :: c.owed) := by
        rw [List.append_assoc]
        exact List.perm_middle
      have hmem : ∀ p, p ∈ c.queued ++ [(id, i)] ++ c.session.owed ↔ p = (id, i) ∨ p ∈ c.owed :=
        fun p => howed.mem_iff.trans List.mem_cons
      have hlt : i < c.calls.length := (List.getElem?_eq_some_iff.mp hc).1
      refine ⟨h.sound, fun hg' => absurd (hg'.symm.trans hg) (by decide), ?_, fun p hp => ?_⟩
      · rw [Client.owed, queued_append]
        exact ((howed.map Prod.snd).nodup_iff).mpr (List.nodup_cons.mpr ⟨hi, h.nodup⟩)
      · rw [Client.owed, queued_append] at hp
        rcases (hmem p).mp hp with rfl | hp
        · exact ⟨_, List.getElem?_set_self hlt, decide_eq_true rfl⟩
        · exact (h.set hi _ c.permits c.allocator).expects p hp

/-- **What a step of the session owes.**  What was owed before it is sent by it, is still owed, or
is lost with the driver. -/
theorem Client.Wired.owed_session {m : Move Nat} (h : c.Wired)
    (hs : c.step n (.session m) = some c') :
    ∃ lost, c.owed.Perm
      (((c.session.performs m).bind Effect.sent).toList ++ (c'.owed ++ lost)) := by
  obtain ⟨session, queue, hstep, hq, rfl⟩ := Client.session_eq_some hs
  obtain ⟨-, lost, hperm⟩ := h.sound.step hstep
  obtain ⟨lost', hsweep⟩ :=
    ({ c with session, queue } : Client).owed_deliver_sweep (c.session.performs m)
  generalize (((c.session.performs m).bind Effect.sent).toList) = sent at hperm ⊢
  refine ⟨lost' ++ lost, ?_⟩
  rw [← List.append_assoc (Client.owed _)]
  refine .trans ?_ ((hsweep.append_right lost).append_left sent)
  -- the queue moves past what the driver received and what it sends
  calc c.owed
    _ = m.received ++ (queue.map (fun s => (s.id, s.completion)) ++ c.session.owed) := by
        rw [Client.owed, hq, List.append_assoc]
    List.Perm _ (queue.map (fun s => (s.id, s.completion)) ++ (c.session.owed ++ m.received)) :=
        (List.perm_append_comm_assoc _ _ _).trans (List.perm_append_comm.append_left _)
    List.Perm _ (queue.map (fun s => (s.id, s.completion)) ++ (sent ++ (session.owed ++ lost))) :=
        hperm.append_left _
    List.Perm _ (sent ++ (queue.map (fun s => (s.id, s.completion)) ++ (session.owed ++ lost))) :=
        List.perm_append_comm_assoc _ _ _
    _ = sent ++ (({ c with session, queue } : Client).owed ++ lost) := by
        rw [Client.owed, List.append_assoc]
        rfl

theorem Client.Wired.session {m : Move Nat} (h : c.Wired)
    (hs : c.step n (.session m) = some c') : c'.Wired := by
  obtain ⟨lost, howed⟩ := h.owed_session hs
  obtain ⟨session, queue, hstep, -, rfl⟩ := Client.session_eq_some hs
  generalize hx : c.session.performs m = x at howed ⊢
  have hnodup := (howed.map Prod.snd).nodup_iff.mp h.nodup
  rw [List.map_append, List.map_append, List.nodup_append] at hnodup
  obtain ⟨-, hnodup, hne⟩ := hnodup
  refine ⟨?_, fun hg => if_pos hg, (List.nodup_append.mp hnodup).1, fun p hp => ?_⟩
  · show (Client.deliver _ x).session.Sound
    rw [Client.session_deliver]
    exact (h.sound.step hstep).1
  · obtain ⟨call, hc, he⟩ :=
      h.expects p (howed.mem_iff.mpr (List.mem_append_right _ (List.mem_append_left _ hp)))
    rcases Client.getElem?_deliver { c with session, queue } x p.2 with hsame | ⟨id, o, rfl, -⟩
    · exact ⟨call, hsame.trans hc, he⟩
    · -- what the step sends is not owed any more
      exact absurd rfl (hne p.2 (List.mem_singleton.mpr rfl) p.2
        (List.mem_append_left _ (List.mem_map_of_mem hp)))

theorem Client.Wired.drop {i : Nat} (h : c.Wired) (hs : c.step n (.drop i) = some c') :
    c'.Wired := by
  obtain ⟨call, c₁, hc, rfl, rfl⟩ := Client.drop_eq_some hs
  have hlt : i < c.calls.length := (List.getElem?_eq_some_iff.mp hc).1
  refine ⟨h.sound, h.swept, h.nodup, fun p hp => ?_⟩
  obtain ⟨call', hc', he⟩ := h.expects p hp
  by_cases hi : i = p.2
  · rw [← hi]
    exact ⟨_, List.getElem?_set_self hlt, rfl⟩
  · exact ⟨call', (List.getElem?_set_ne hi).trans hc', he⟩

/-- **Every step of every task keeps the wiring.** -/
theorem Client.Wired.step {turn : Turn} (h : c.Wired) (hs : c.step n turn = some c') :
    c'.Wired := by
  cases turn with
  | session m => exact h.session hs
  | call i => exact h.call hs
  | drop i => exact h.drop hs

end Wired

end Rp1.Connection

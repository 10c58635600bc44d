import Rp1.Connection.Wiring

/-!
# Connection — the in-flight bound

`maximum_in_flight` is the number of permits of the admission source, and a command holds one from
`acquire_permit` until `submit` returns.  What the bound is for is the work outstanding in the
driver: the submissions queued for it and the ids live in it.

The permits are accounted for in every run: each one is in the admission source or with a command.
But a permit goes back with the future that holds it, while the request stays in the queue or in the
live set until its terminal arrives.  `inFlight_bounded` says that the bound holds in the runs in
which no command is dropped there, and `inFlight_exceeded` is a run in which one is.
-/

namespace Rp1.Connection
open Codec Protocol Command Runs

/-! ### The property -/

/-- How many ids are live in the driver. -/
def Client.liveCount (c : Client) : Nat :=
  c.session.task.elim 0 fun t => t.driver.live.liveIds.length

/-- The requests that wait in the driver. -/
def Session.waiting {σ : Type} (s : Session σ) : List (UInt64 × σ) :=
  s.task.elim [] fun t => t.driver.waiting

/-- The requests in the queue or in flight. -/
def Client.inFlight (c : Client) : List (UInt64 × Nat) := c.queued ++ c.session.waiting

/-- A step that does not drop a command while its request is in the queue or in flight. -/
def Client.keeps (c : Client) : Turn → Bool
  | .drop i => !(c.inFlight.map Prod.snd).contains i
  | .session _ | .call _ => true

/-! ### Counting -/

/-- Distinct positions of a list that satisfy `p` are not more than `p` has. -/
theorem length_le_count {l : List Bool} {is : List Nat} (hn : is.Nodup)
    (h : ∀ i ∈ is, l[i]? = some true) : is.length ≤ l.count true := by
  have hsub : is ⊆ (l.zipIdx.filter fun q => q.1).map Prod.snd := by
    intro i hi
    exact List.mem_map.mpr ⟨(true, i),
      List.mem_filter.mpr ⟨List.mem_zipIdx_iff_getElem?.mpr (h i hi), rfl⟩, rfl⟩
  calc is.length
    _ ≤ ((l.zipIdx.filter fun q => q.1).map Prod.snd).length :=
        (List.subperm_of_subset hn hsub).length_le
    _ = (l.zipIdx.map Prod.fst).count true := by
        rw [List.length_map, List.count, List.countP_map, List.countP_eq_length_filter]
        simp only [Function.comp_def, beq_true]
    _ = l.count true := by rw [List.zipIdx_map_fst]

theorem count_set {l : List Bool} {i : Nat} {b : Bool} (h : l[i]? = some b) (b' : Bool) :
    (l.set i b').count true + b.toNat = l.count true + b'.toNat := by
  induction l generalizing i with
  | nil => cases h
  | cons a l ih =>
      cases i with
      | zero =>
          obtain rfl := Option.some.inj h
          cases a <;> cases b' <;> simp
      | succ i =>
          have h' := ih h
          simp only [List.set_cons_succ, List.count_cons]
          omega

/-- The driver has as many ids as waiters. -/
theorem Ledger.length_live {σ : Type} {received : List (UInt64 × σ)} {d : Driver σ}
    (h : Ledger received d) : d.live.liveIds.length = d.waiting.length := by
  have hperm : d.live.live.Perm d.completions.keys :=
    (List.perm_ext_iff_of_nodup d.live.nodup d.completions.nodupKeys).mpr fun id =>
      (h.synced id).symm
  rw [InFlightRegistry.liveIds, hperm.length_eq, Driver.waiting, List.length_map, AList.keys,
    List.keys, List.length_map]

/-! ### The invariant -/

/-- Which commands hold a permit. -/
def Client.holders (c : Client) : List Bool := c.calls.map fun call => call.place.holds

/-- Each permit is in the admission source or with a command, and the commands whose requests are
in the queue or in flight hold one. -/
structure Client.Accounted (bound : Nat) (c : Client) : Prop where
  wired : c.Wired
  permits : c.permits + c.holders.count true = bound
  holds : ∀ p ∈ c.inFlight, c.holders[p.2]? = some true

section Accounted
variable {n : Negotiated} {bound : Nat} {c c' : Client}

theorem Client.Accounted.established (bound closers : Nat) (ops : List Operation) :
    (Client.established bound closers ops).Accounted bound where
  wired := .established bound closers ops
  permits := by
    have hnone : (Client.established bound closers ops).holders.count true = 0 := by
      rw [Client.holders, List.count_eq_zero]
      intro hm
      obtain ⟨call, hc, he⟩ := List.mem_map.mp hm
      obtain ⟨op, -, rfl⟩ := List.mem_map.mp hc
      cases he
    rw [hnone]
    rfl
  holds := fun _ hp => nomatch hp

theorem Call.holds_receive (outcome : Except DriverError Bytes) (call : Call) :
    (call.receive outcome).place.holds = call.place.holds := by
  obtain ⟨op, place⟩ := call
  rcases place with - | - | - | - | - | - | ⟨id, - | -⟩ | - | - | - <;> rfl

/-- A delivery does not move a permit. -/
theorem Client.holders_deliver (c : Client) (x : Option (Effect Nat)) :
    (c.deliver x).holders = c.holders := by
  refine List.ext_getElem? fun j => ?_
  rw [Client.holders, Client.holders, List.getElem?_map, List.getElem?_map]
  rcases c.getElem?_deliver x j with h | ⟨id, outcome, -, h⟩
  · rw [h]
  · rw [h, Option.map_map]
    exact congrArg (Option.map · _) (funext fun call => call.holds_receive outcome)

/-- Who waits after a step of the session waited before or was received. -/
theorem Session.Sound.waiting_subset {s s' : Session Nat} {limits : Limits} {m : Move Nat}
    (h : s.Sound) (hs : s.step limits m = some s') : s'.waiting ⊆ s.waiting ++ m.received := by
  cases m with
  | select e =>
      obtain ⟨t, t', -, ht, hsel, rfl⟩ := Session.select_eq_some hs
      obtain ⟨hnil, -⟩ := Task.select_eq_some hsel
      have hperm := ((h t ht).select hsel).2
      rw [Task.owed, hnil, List.filterMap_nil, List.nil_append] at hperm
      intro p hp
      rw [Session.waiting, ht]
      exact hperm.mem_iff.mpr (List.mem_append_right _ hp)
  | perform =>
      obtain ⟨t, x, pending, ht, hp, rfl⟩ := Session.perform_eq_some hs
      rw [Session.waiting, Session.waiting, ht]
      exact List.subset_append_left _ _
  | abort =>
      obtain ⟨t, -, -, rfl⟩ := Session.abort_eq_some hs
      exact List.nil_subset _
  | close i ok =>
      obtain ⟨c, s₁, c', -, hstep, rfl⟩ := Session.close_eq_some hs
      rw [Session.waiting, Session.waiting, (Closer.step_frame hstep).1]
      exact List.subset_append_left _ _

theorem Client.inFlight_deliver_sweep (c : Client) (x : Option (Effect Nat)) :
    (c.deliver x).sweep.inFlight ⊆ c.inFlight := by
  intro p hp
  rcases List.mem_append.mp hp with hp | hp
  · refine List.mem_append_left _ ?_
    by_cases hg : (c.deliver x).gone = true
    · rw [Client.queued, Client.sweep, if_pos hg] at hp
      cases hp
    · rwa [Client.queued, Client.sweep, if_neg hg, Client.queue_deliver] at hp
  · rw [Client.sweep, Client.session_deliver] at hp
    exact List.mem_append_right _ hp

theorem Client.Accounted.session {m : Move Nat} (h : c.Accounted bound)
    (hs : c.step n (.session m) = some c') : c'.Accounted bound := by
  have hwired := h.wired.step hs
  obtain ⟨session, queue, hstep, hq, rfl⟩ := Client.session_eq_some hs
  have hholders : (Client.sweep (Client.deliver { c with session, queue }
      (c.session.performs m))).holders = c.holders := Client.holders_deliver _ _
  refine ⟨hwired, ?_, fun p hp => ?_⟩
  · rw [hholders, Client.sweep, Client.permits_deliver]
    exact h.permits
  · rw [hholders]
    refine h.holds p ?_
    rw [Client.inFlight, hq]
    -- a request that was received has left the queue
    rcases List.mem_append.mp (Client.inFlight_deliver_sweep _ _ hp) with hp | hp
    · exact List.mem_append_left _ (List.mem_append_right _ hp)
    · rcases List.mem_append.mp (h.wired.sound.waiting_subset hstep hp) with hp | hp
      · exact List.mem_append_right _ hp
      · exact List.mem_append_left _ (List.mem_append_left _ hp)

/-- The permits follow the command that moves. -/
theorem Client.permits_set {i : Nat} {call : Call} (hc : c.calls[i]? = some call)
    (h : c.permits + c.holders.count true = bound) {permits : Nat} {place : Place}
    (hp : permits + place.holds.toNat = c.permits + call.place.holds.toNat) :
    permits + ((c.calls.set i { call with place }).map fun call => call.place.holds).count true =
      bound := by
  have hi : c.holders[i]? = some call.place.holds := by
    rw [Client.holders, List.getElem?_map, hc, Option.map_some]
  have hcount := count_set hi place.holds
  rw [Client.holders] at h hcount
  rw [List.map_set]
  show permits + ((c.calls.map fun call => call.place.holds).set i place.holds).count true = bound
  omega

/-- Who moves is not in flight, so those who are still hold their permits. -/
theorem Client.Accounted.holds_set (h : c.Accounted bound) {i : Nat}
    (hi : i ∉ c.inFlight.map Prod.snd) (call : Call) (p : UInt64 × Nat) (hp : p ∈ c.inFlight) :
    ((c.calls.set i call).map fun call => call.place.holds)[p.2]? = some true := by
  have hne : i ≠ p.2 := fun e => hi (e ▸ List.mem_map_of_mem hp)
  rw [List.map_set, List.getElem?_set_ne hne]
  exact h.holds p hp

theorem Client.inFlight_sublist (c : Client) : c.inFlight.Sublist c.owed := by
  refine (List.Sublist.refl _).append ?_
  rw [Session.waiting, Session.owed]
  cases c.session.task with
  | none => exact List.nil_sublist _
  | some t => exact List.sublist_append_right _ _

theorem Client.Accounted.call {i : Nat} (h : c.Accounted bound)
    (hs : c.step n (.call i) = some c') : c'.Accounted bound := by
  have hwired := h.wired.step hs
  obtain ⟨call, c₁, place, hc, hstep, rfl⟩ := Client.call_eq_some hs
  obtain ⟨op, pl⟩ := call
  have hfl : (∀ id, pl.expects id = true → c.gone = true) → i ∉ c.inFlight.map Prod.snd :=
    fun hw hi => h.wired.notMem hc hw (List.map_subset _ c.inFlight_sublist.subset hi)
  cases Place.step_moves hstep with
  | quiet _ _ permits allocator hp hw =>
      exact ⟨hwired, Client.permits_set hc h.permits hp, h.holds_set (hfl hw) _⟩
  | submits id bytes hg =>
      have hi := hfl fun _ he => nomatch he
      have hlt : i < c.calls.length := (List.getElem?_eq_some_iff.mp hc).1
      refine ⟨hwired, Client.permits_set hc h.permits rfl, fun p hm => ?_⟩
      rw [Client.inFlight, queued_append] at hm
      rcases List.mem_append.mp hm with hm | hm
      · rcases List.mem_append.mp hm with hm | hm
        · exact h.holds_set hi _ p (List.mem_append_left _ hm)
        · obtain rfl := List.mem_singleton.mp hm
          rw [Client.holders, List.getElem?_map, List.getElem?_set_self hlt]
          rfl
      · exact h.holds_set hi _ p (List.mem_append_right _ hm)

theorem Client.Accounted.drop {i : Nat} (h : c.Accounted bound)
    (hk : c.keeps (.drop i) = true) (hs : c.step n (.drop i) = some c') : c'.Accounted bound := by
  have hwired := h.wired.step hs
  have hi : i ∉ c.inFlight.map Prod.snd := by simpa [Client.keeps] using hk
  obtain ⟨call, c₁, hc, rfl, rfl⟩ := Client.drop_eq_some hs
  exact ⟨hwired, Client.permits_set hc h.permits rfl, h.holds_set hi _⟩

/-- What the invariant is for. -/
theorem Client.Accounted.le (h : c.Accounted bound) : c.liveCount + c.queue.length ≤ bound := by
  have hlive : c.liveCount = c.session.waiting.length := by
    rw [Client.liveCount, Session.waiting]
    cases ht : c.session.task with
    | none => rfl
    | some t =>
        obtain ⟨received, hl⟩ := (h.wired.sound t ht).ledger
        exact hl.length_live
  have hnodup : (c.inFlight.map Prod.snd).Nodup :=
    h.wired.nodup.sublist (c.inFlight_sublist.map Prod.snd)
  have hcount : (c.inFlight.map Prod.snd).length ≤ c.holders.count true :=
    length_le_count hnodup fun i hi => by
      obtain ⟨p, hp, rfl⟩ := List.mem_map.mp hi
      exact h.holds p hp
  have hpermits := h.permits
  rw [Client.inFlight, List.length_map, List.length_append, Client.queued,
    List.length_map] at hcount
  omega

/-! ### The bound -/

/-- **When the in-flight bound holds**: in every state of a run in which no command is dropped while
its request is queued or in flight. -/
theorem inFlight_bounded (n : Negotiated) (bound closers : Nat) (ops : List Operation)
    (schedule : List Turn)
    (h : exec (Client.step n) (.established bound closers ops) schedule = some c)
    (hk : ∀ p ∈ visited (Client.step n) (.established bound closers ops) schedule,
      p.1.keeps p.2 = true) : c.liveCount + c.queue.length ≤ bound := by
  -- the invariant needs the condition for the steps taken so far only
  have hstep : ∀ (past : List (Client × Turn)) (c : Client) (turn : Turn) (c' : Client),
      ((∀ p ∈ past, p.1.keeps p.2 = true) → c.Accounted bound) → c.step n turn = some c' →
      (∀ p ∈ past ++ [(c, turn)], p.1.keeps p.2 = true) → c'.Accounted bound := by
    intro past c turn c' hI hs hall
    have hc := hI fun p hp => hall p (List.mem_append_left _ hp)
    have hlast := hall (c, turn) (List.mem_append_right _ (List.mem_singleton.mpr rfl))
    cases turn with
    | session m => exact hc.session hs
    | call i => exact hc.call hs
    | drop i => exact hc.drop hlast hs
  have hacc := exec_invariant
    (I := fun past c => (∀ p ∈ past, p.1.keeps p.2 = true) → Client.Accounted bound c) hstep []
    (fun _ => .established bound closers ops) h
  exact (hacc hk).le

end Accounted

/-- Two probes under a bound of one: the second waits for the permit, gets it when the first has its
answer, and is dropped before it has sent anything. -/
theorem inFlight_bounded_two :
    ∃ c, exec (Client.step .floor) (.established 1 0 [.ping, .ping])
        [.call 0, .call 0, .call 1, .call 0, .call 0, .session (.select (.submit
          ⟨2, [0, 1, 0, 0, 2, 0, 0, 0, 0, 0, 0, 0, 2, 0, 0, 0, 0, 0, 0, 0], 0⟩ [20])),
          .session .perform, .session (.select (.read
            [0, 2, 0, 0, 0, 0, 0, 0, 0, 0, 0, 0, 2, 0, 0, 0, 0, 0, 0, 0])),
          .session .perform, .call 0, .call 1, .call 1, .drop 1] = some c ∧
      c.liveCount + c.queue.length ≤ 1 := by
  obtain ⟨c, h⟩ := Option.isSome_iff_exists.mp (rfl : (exec (Client.step .floor)
    (.established 1 0 [.ping, .ping])
    [.call 0, .call 0, .call 1, .call 0, .call 0, .session (.select (.submit
      ⟨2, [0, 1, 0, 0, 2, 0, 0, 0, 0, 0, 0, 0, 2, 0, 0, 0, 0, 0, 0, 0], 0⟩ [20])),
      .session .perform, .session (.select (.read
        [0, 2, 0, 0, 0, 0, 0, 0, 0, 0, 0, 0, 2, 0, 0, 0, 0, 0, 0, 0])),
      .session .perform, .call 0, .call 1, .call 1, .drop 1]).isSome = true)
  exact ⟨c, h, inFlight_bounded _ _ _ _ _ h (List.all_eq_true.mp rfl)⟩

/-- **The bound is exceeded.**  A command is dropped while its request is in flight: the permit goes
back, the id stays live, and the next command brings the second request under a bound of one. -/
theorem inFlight_exceeded :
    ∃ c, exec (Client.step .floor) (.established 1 0 [.ping, .ping])
        [.call 0, .call 0, .call 0, .call 0, .session (.select (.submit
          ⟨2, [0, 1, 0, 0, 2, 0, 0, 0, 0, 0, 0, 0, 2, 0, 0, 0, 0, 0, 0, 0], 0⟩ [20])),
          .session .perform, .drop 0, .call 1, .call 1, .call 1, .call 1] = some c ∧
      c.liveCount + c.queue.length = 2 :=
  Option.map_eq_some_iff.mp rfl

end Rp1.Connection

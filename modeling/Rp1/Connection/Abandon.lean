import Rp1.Connection.Ambiguity
import Rp1.Connection.Progress

/-!
# Connection — an abandoned command

A caller may drop the future of a command while the command waits for its completion.  The permit
goes back, the request stays with the driver, and its outcome is sent to nobody.

`Client.without i` is the client whose `i`-th command was abandoned.  Every step of another task
does the same to it as to the client itself.  Conversely, a step that is possible without the
command is possible with it, unless it takes the permit that the command would still hold.
`abandon_simulated` says what follows for whole runs: from the moment a command has submitted its
request, its permit is all that tells the others whether its caller still waits.
-/

namespace Rp1.Connection
open Codec Protocol Command Runs

/-! ### The client without a command -/

/-- The future of the call is dropped. -/
def Call.abandon (call : Call) : Call := { call with place := .dropped }

/-- The future of the `i`-th command is dropped, and its permit goes back. -/
def Client.without (i : Nat) (c : Client) : Client :=
  { c with
    permits := c.permits + (c.calls[i]?.elim false fun call => call.place.holds).toNat
    calls := c.calls.modify i Call.abandon }

/-- The step does not take the last permit of the admission source. -/
def Client.spares (c : Client) : Turn → Bool
  | .call j =>
      match c.calls[j]? with
      | some ⟨_, .acquire _⟩ => c.session.shared.admissionClosed || decide (1 < c.permits)
      | _ => true
  | .session _ | .drop _ => true

/-- A step of the `i`-th command, or of who holds its future. -/
def Turn.isOf (i : Nat) : Turn → Bool
  | .call j | .drop j => decide (j = i)
  | .session _ => false

section Without
variable {n : Negotiated} {c c' : Client} {i : Nat}

theorem Client.without_of_getElem? {call : Call} (h : c.calls[i]? = some call) :
    c.without i = { c with
      permits := c.permits + call.place.holds.toNat
      calls := c.calls.set i call.abandon } := by
  rw [Client.without, h, Option.elim_some, List.modify_eq_set_getElem?, h]
  rfl

/-! ### The driver and the `close()` calls -/

theorem Call.abandon_receive (outcome : Except DriverError Bytes) (call : Call) :
    (call.receive outcome).abandon = call.abandon.receive outcome := by
  obtain ⟨op, place⟩ := call
  rcases place with - | - | - | - | - | - | ⟨id, - | -⟩ | - | - | - <;> rfl

theorem getElem?_modify_modify {α : Type} (l : List α) (i j k : Nat) {f g : α → α}
    (h : ∀ a, f (g a) = g (f a)) :
    ((l.modify i g).modify j f)[k]? = ((l.modify j f).modify i g)[k]? := by
  simp only [List.getElem?_modify]
  by_cases hi : i = k <;> by_cases hj : j = k <;> simp [hi, hj, Function.comp_def, h]

/-- What is delivered to an abandoned command makes no difference. -/
theorem Client.without_deliver (c : Client) (i : Nat) (x : Option (Effect Nat)) :
    (c.deliver x).without i = (c.without i).deliver x := by
  have hholds : ((c.deliver x).calls[i]?.elim false fun call => call.place.holds) =
      c.calls[i]?.elim false fun call => call.place.holds := by
    rcases c.getElem?_deliver x i with h | ⟨id, outcome, -, h⟩
    · rw [h]
    · rw [h]
      cases c.calls[i]? with
      | none => rfl
      | some call => exact call.holds_receive outcome
  rw [Client.without, hholds, Client.permits_deliver]
  rcases x with - | ⟨id, j, outcome⟩ | - | - | - | -
  case some.send =>
    have hcalls : (c.calls.modify j (Call.receive outcome)).modify i Call.abandon =
        (c.calls.modify i Call.abandon).modify j (Call.receive outcome) :=
      List.ext_getElem? fun k =>
        getElem?_modify_modify _ j i k (Call.abandon_receive outcome)
    simp only [Client.deliver, hcalls]
    rfl
  all_goals rfl

/-- The driver and the `close()` calls do not see the commands. -/
theorem Client.without_session {m : Move Nat} (h : c.step n (.session m) = some c') :
    (c.without i).step n (.session m) = some (c'.without i) := by
  have hsweep : ∀ c : Client, (c.sweep).without i = (c.without i).sweep := fun _ => rfl
  obtain ⟨c₁, h₁, rfl⟩ := Option.map_eq_some_iff.mp h
  rw [Client.step, hsweep]
  refine congrArg (Option.map Client.sweep) (?_ : _ = some (c₁.without i))
  have plain : ∀ {m : Move Nat},
      ((c.session.step n.effectiveLimits m).map fun session => { c with session }) = some c₁ →
      ((c.session.step n.effectiveLimits m).map fun session => { c.without i with session }) =
        some (c₁.without i) := by
    intro m h₁
    obtain ⟨session, hs, rfl⟩ := Option.map_eq_some_iff.mp h₁
    rw [hs]
    rfl
  cases m with
  | abort => exact plain h₁
  | close j ok => exact plain h₁
  | perform =>
      obtain ⟨session, hs, rfl⟩ := Option.map_eq_some_iff.mp h₁
      rw [Client.without_deliver]
      show Option.map _ (c.session.step n.effectiveLimits .perform) = _
      rw [hs]
      rfl
  | select e =>
      cases e with
      | submit s writes =>
          have hqueue : (c.without i).queue = c.queue := rfl
          rw [Client.sessionStep] at h₁ ⊢
          rw [hqueue]
          cases hq : c.queue with
          | nil =>
              simp only [hq] at h₁
              cases h₁
          | cons head queue =>
              simp only [hq] at h₁ ⊢
              obtain ⟨rfl, h₁⟩ := Option.ite_none_right_eq_some.mp h₁
              obtain ⟨session, hs, rfl⟩ := Option.map_eq_some_iff.mp h₁
              rw [if_pos rfl]
              show Option.map _ (c.session.step n.effectiveLimits _) = _
              rw [hs]
              rfl
      | shutdown ok => exact plain h₁
      | submitClosed => exact plain (m := .select .submitClosed) h₁
      | readFailed => exact plain h₁
      | read chunk => exact plain h₁

/-! ### The other commands -/

/-- More permits do not hold a command up, and nothing else about the others is seen by it. -/
theorem Place.step_without {c₁ : Client} {j : Nat} {op : Operation} {place place' : Place}
    (h : place.step n c j op = some (c₁, place')) :
    place.step n (c.without i) j op = some (c₁.without i, place') := by
  -- a permit that goes back goes back on top of that of the abandoned command
  have hrelease : ∀ c : Client, (c.without i).release = c.release.without i := by
    intro c
    simp only [Client.release, Client.without]
    congr 1
    omega
  cases place with
  | start =>
      cases hp : op.payload with
      | error e =>
          simp only [Place.step, hp] at h ⊢
          cases h
          rfl
      | ok payload =>
          have hstate : (c.without i).session.state = c.session.state := rfl
          simp only [Place.step, hp, hstate] at h ⊢
          split at h
          · rw [if_pos ‹_›]
            split at h
            · rw [if_pos ‹_›]; cases h; rfl
            · rw [if_neg ‹_›]; cases h; rfl
          · rw [if_neg ‹_›]; cases h; rfl
  | refused => cases h; rfl
  | acquire payload =>
      have hshared : (c.without i).session.shared = c.session.shared := rfl
      simp only [Place.step, hshared] at h ⊢
      split at h
      · rw [if_pos ‹_›]; cases h; rfl
      · obtain ⟨hpos, h⟩ := Option.ite_none_right_eq_some.mp h
        cases h
        have hmore : 0 < (c.without i).permits := Nat.lt_of_lt_of_le hpos (Nat.le_add_right _ _)
        rw [if_neg ‹_›, if_pos hmore]
        simp only [Client.without]
        congr 3
        omega
  | shutOut => cases h; rfl
  | allocate payload =>
      have halloc : (c.without i).allocator = c.allocator := rfl
      have hwith : ({ c.without i with allocator := c.allocator.allocate.2 } : Client) =
          Client.without i { c with allocator := c.allocator.allocate.2 } := rfl
      simp only [Place.step, halloc] at h ⊢
      split at h
      · rw [if_pos ‹_›, hwith, hrelease]; cases h; rfl
      · rw [if_neg ‹_›]
        split at h
        · simp only [hwith, hrelease]
          cases h
          rfl
        · simp only [hwith]
          cases h
          rfl
  | send id bytes =>
      have hgone : (c.without i).gone = c.gone := rfl
      have hqueue : (c.without i).queue = c.queue := rfl
      simp only [Place.step, hgone, hqueue] at h ⊢
      split at h
      · rw [if_pos ‹_›]; cases h; rfl
      · obtain ⟨hroom, h⟩ := Option.ite_none_right_eq_some.mp h
        rw [if_neg ‹_›, if_pos hroom]
        cases h
        rfl
  | await id inbox =>
      cases inbox with
      | some outcome =>
          simp only [Place.step, hrelease] at h ⊢
          cases h
          rfl
      | none =>
          have hgone : (c.without i).gone = c.gone := rfl
          simp only [Place.step, hgone] at h ⊢
          obtain ⟨hg, h⟩ := Option.ite_none_right_eq_some.mp h
          rw [if_pos hg]
          cases h
          rfl
  | lost =>
      simp only [Place.step, hrelease] at h ⊢
      cases h
      rfl
  | done result => cases h
  | dropped => cases h

theorem modify_set_comm {α : Type} (l : List α) {i j : Nat} (hij : j ≠ i) (f : α → α) (b : α) :
    (l.modify i f).set j b = (l.set j b).modify i f := by
  refine List.ext_getElem? fun k => ?_
  by_cases hj : j = k
  · subst hj
    rw [List.getElem?_modify_ne _ _ hij.symm, List.getElem?_set_self', List.getElem?_set_self',
      List.getElem?_modify_ne _ _ hij.symm]
  · rw [List.getElem?_set_ne hj, List.getElem?_modify, List.getElem?_modify,
      List.getElem?_set_ne hj]

/-- Another command moves in the same way, beside the abandoned one. -/
theorem Client.without_set {j : Nat} (hij : j ≠ i) (c : Client) (call : Call) :
    Client.without i { c with calls := c.calls.set j call } =
      { c.without i with calls := (c.without i).calls.set j call } := by
  simp only [Client.without, List.getElem?_set_ne hij, modify_set_comm _ hij]

theorem Client.without_call {j : Nat} (hij : j ≠ i) (h : c.step n (.call j) = some c') :
    (c.without i).step n (.call j) = some (c'.without i) := by
  obtain ⟨call, c₁, place, hc, hstep, rfl⟩ := Client.call_eq_some h
  have hc' : (c.without i).calls[j]? = some call :=
    (List.getElem?_modify_ne _ _ hij.symm).trans hc
  rw [Client.step, hc', Option.bind_some, Place.step_without hstep, Option.map_some,
    Client.without_set hij]

theorem Client.without_drop {j : Nat} (hij : j ≠ i) (h : c.step n (.drop j) = some c') :
    (c.without i).step n (.drop j) = some (c'.without i) := by
  obtain ⟨call, hc, h⟩ := Option.bind_eq_some_iff.mp h
  obtain ⟨c₁, hd, rfl⟩ := Option.map_eq_some_iff.mp h
  have hc' : (c.without i).calls[j]? = some call :=
    (List.getElem?_modify_ne _ _ hij.symm).trans hc
  have hd' : call.place.drop (c.without i) = some (c₁.without i) := by
    cases hp : call.place <;> rw [hp] at hd <;> cases hd
    case start => rfl
    case acquire => rfl
    all_goals
      simp only [Place.drop, Client.release, Client.without]
      congr 2
      omega
  rw [Client.step, hc', Option.bind_some, hd', Option.map_some, Client.without_set hij]

/-! ### The command itself -/

/-- What the command itself does, and what becomes of its future, the others do not see. -/
theorem Client.without_self {turn : Turn} {op : Operation} {place : Place}
    (hc : c.calls[i]? = some ⟨op, place⟩) (hp : place.submitted = true)
    (ht : turn.isOf i = true) (h : c.step n turn = some c') :
    c'.without i = c.without i ∧
      ∃ place', c'.calls[i]? = some ⟨op, place'⟩ ∧ place'.submitted = true := by
  have hlt : i < c.calls.length := (List.getElem?_eq_some_iff.mp hc).1
  -- it changes its own place, and moves its own permit
  have moves : ∀ (permits : Nat) (place' : Place), place'.submitted = true →
      permits + place'.holds.toNat = c.permits + place.holds.toNat →
      c' = { c with permits, calls := c.calls.set i ⟨op, place'⟩ } →
      c'.without i = c.without i ∧
        ∃ place', c'.calls[i]? = some ⟨op, place'⟩ ∧ place'.submitted = true := by
    rintro permits place' hp' hpermits rfl
    have hc' : (c.calls.set i ⟨op, place'⟩)[i]? = some ⟨op, place'⟩ := List.getElem?_set_self hlt
    refine ⟨?_, place', hc', hp'⟩
    rw [Client.without_of_getElem? (c := { c with permits, calls := _ }) hc',
      Client.without_of_getElem? hc]
    simp only [List.set_set, hpermits]
    rfl
  cases turn with
  | session m => cases ht
  | call j =>
      obtain rfl : j = i := of_decide_eq_true ht
      obtain ⟨call, c₁, place', hcall, hstep, rfl⟩ := Client.call_eq_some h
      obtain rfl := Option.some.inj (hcall.symm.trans hc)
      cases place with
      | await id inbox =>
          cases inbox with
          | none =>
              obtain ⟨-, hstep⟩ := Option.ite_none_right_eq_some.mp hstep
              cases hstep
              exact moves c.permits .lost rfl rfl rfl
          | some outcome =>
              cases hstep
              exact moves (c.permits + 1) (.done _) rfl rfl rfl
      | lost =>
          cases hstep
          exact moves (c.permits + 1) (.done _) rfl rfl rfl
      | done result => cases hstep
      | dropped => cases hstep
      | _ => cases hp
  | drop j =>
      obtain rfl : j = i := of_decide_eq_true ht
      obtain ⟨call, c₁, hcall, rfl, rfl⟩ := Client.drop_eq_some h
      obtain rfl := Option.some.inj (hcall.symm.trans hc)
      exact moves _ .dropped rfl rfl rfl

/-! ### And back -/

/-- More permits are all that a command can miss. -/
theorem Place.step_of_without {j : Nat} {op : Operation} {place : Place}
    (hs : ∀ payload, place = .acquire payload →
      (c.session.shared.admissionClosed || decide (1 < (c.without i).permits)) = true)
    (h : place.step n (c.without i) j op ≠ none) : place.step n c j op ≠ none := by
  intro hnone
  cases Place.stuck hnone with
  | acquire payload hp =>
      have hopen : c.session.shared.admissionClosed = false := by
        rw [Place.step] at hnone
        split at hnone
        · cases hnone
        · exact Bool.eq_false_iff.mpr ‹_›
      have hle : (c.without i).permits ≤ 1 := by
        have hle := Bool.toNat_le (c.calls[i]?.elim false fun call => call.place.holds)
        show c.permits + _ ≤ 1
        omega
      have hs := hs payload rfl
      rw [hopen, Bool.false_or, decide_eq_true_iff] at hs
      omega
  | send id bytes hg hfull =>
      refine h ?_
      have hg : (c.without i).gone = false := hg
      have hfull : ¬ (c.without i).queue.length < submitCapacity := Nat.not_lt.mpr hfull
      rw [Place.step, hg, if_neg Bool.false_ne_true, if_neg hfull]
  | await id hg =>
      refine h ?_
      have hg : (c.without i).gone = false := hg
      rw [Place.step, hg, if_neg Bool.false_ne_true]
  | done result => exact h rfl
  | dropped => exact h rfl

/-- Whether the driver and the `close()` calls can move does not depend on the commands. -/
theorem Client.isSome_without_session (m : Move Nat) :
    ((c.without i).step n (.session m)).isSome = (c.step n (.session m)).isSome := by
  have hsession : (c.without i).session = c.session := rfl
  have hqueue : (c.without i).queue = c.queue := rfl
  rw [Client.step, Client.step, Option.isSome_map, Option.isSome_map]
  cases m with
  | select e =>
      cases e with
      | submit s writes =>
          rw [Client.sessionStep, Client.sessionStep, hsession, hqueue]
          cases c.queue with
          | nil => rfl
          | cons head queue =>
              dsimp only
              split
              · rw [Option.isSome_map, Option.isSome_map]
              · rfl
      | _ =>
          simp only [Client.sessionStep, hsession, Option.isSome_map]
  | _ => simp only [Client.sessionStep, hsession, Option.isSome_map]

/-- **A step without the command is one with it**, unless it takes its permit. -/
theorem Client.step_of_without {turn : Turn} {c₀ : Client} (ht : turn.isOf i = false)
    (hs : (c.without i).spares turn = true) (h : (c.without i).step n turn = some c₀) :
    ∃ c', c.step n turn = some c' ∧ c₀ = c'.without i := by
  suffices hsome : ∃ c', c.step n turn = some c' by
    obtain ⟨c', hc'⟩ := hsome
    refine ⟨c', hc', Option.some.inj (h.symm.trans ?_)⟩
    cases turn with
    | session m => exact Client.without_session hc'
    | call j => exact Client.without_call (of_decide_eq_false ht) hc'
    | drop j => exact Client.without_drop (of_decide_eq_false ht) hc'
  cases turn with
  | session m =>
      rw [← Option.isSome_iff_exists, ← Client.isSome_without_session, h]
      rfl
  | call j =>
      obtain ⟨call, c₁, place', hc, hstep, -⟩ := Client.call_eq_some h
      have hc' : c.calls[j]? = some call :=
        (List.getElem?_modify_ne _ _ (Ne.symm (of_decide_eq_false ht))).symm.trans hc
      have hspares : ∀ payload, call.place = .acquire payload →
          (c.session.shared.admissionClosed || decide (1 < (c.without i).permits)) = true := by
        intro payload hp
        rw [Client.spares, hc] at hs
        obtain ⟨op, place⟩ := call
        subst hp
        exact hs
      have hne : call.place.step n c j call.op ≠ none :=
        Place.step_of_without hspares (by rw [hstep]; exact Option.some_ne_none _)
      obtain ⟨r, hr⟩ := Option.ne_none_iff_exists'.mp hne
      refine ⟨{ r.1 with calls := r.1.calls.set j { call with place := r.2 } }, ?_⟩
      rw [Client.step, hc', Option.bind_some, hr, Option.map_some]
  | drop j =>
      obtain ⟨call, hc, h⟩ := Option.bind_eq_some_iff.mp h
      obtain ⟨c₁, hd, -⟩ := Option.map_eq_some_iff.mp h
      have hc' : c.calls[j]? = some call :=
        (List.getElem?_modify_ne _ _ (Ne.symm (of_decide_eq_false ht))).symm.trans hc
      -- where a future can be dropped depends on its place alone
      have hdrop : ∃ c₂, call.place.drop c = some c₂ := by
        cases hp : call.place <;> rw [hp] at hd <;> cases hd <;> exact ⟨_, rfl⟩
      obtain ⟨c₂, hc₂⟩ := hdrop
      rw [Client.step, hc', Option.bind_some, hc₂, Option.map_some]
      exact ⟨_, rfl⟩

/-! ### Runs -/

theorem Client.length_calls {turn : Turn} (h : c.step n turn = some c') :
    c'.calls.length = c.calls.length := by
  cases turn with
  | session m =>
      obtain ⟨session, queue, -, -, rfl⟩ := Client.session_eq_some h
      show (Client.deliver _ _).calls.length = _
      rcases c.session.performs m with - | ⟨id, j, outcome⟩ | - | - | - | -
      case some.send => exact List.length_modify _ _ _
      all_goals rfl
  | call j =>
      obtain ⟨call, c₁, place, -, hstep, rfl⟩ := Client.call_eq_some h
      exact (List.length_set ..).trans (by rw [(Place.step_frame hstep).2])
  | drop j =>
      obtain ⟨call, c₁, -, rfl, rfl⟩ := Client.drop_eq_some h
      exact List.length_set ..

/-- A step of another task leaves a command where it is, or brings it its outcome. -/
theorem Client.submitted_step {turn : Turn} {op : Operation} {place : Place}
    (hc : c.calls[i]? = some ⟨op, place⟩) (hp : place.submitted = true)
    (ht : turn.isOf i = false) (h : c.step n turn = some c') :
    ∃ place', c'.calls[i]? = some ⟨op, place'⟩ ∧ place'.submitted = true := by
  cases hc' : c'.calls[i]? with
  | none =>
      rw [List.getElem?_eq_none_iff, Client.length_calls h, ← List.getElem?_eq_none_iff] at hc'
      cases hc.symm.trans hc'
  | some call' =>
      obtain ⟨op', place'⟩ := call'
      obtain ⟨place₀, hc₀, hev⟩ := Client.evolves h hc'
      cases hc.symm.trans hc₀
      cases hev with
      | same => exact ⟨_, rfl, hp⟩
      | told => exact ⟨_, rfl, rfl⟩
      | moved => simp [Turn.isOf] at ht
      | dropped => simp [Turn.isOf] at ht

/-- `c₀` is `c` with its `i`-th command abandoned, which has submitted its request. -/
def Abandoned (i : Nat) (c c₀ : Client) : Prop :=
  c₀ = c.without i ∧ ∃ op place, c.calls[i]? = some ⟨op, place⟩ ∧ place.submitted = true

/-- The command itself moves, and the client without it stands still. -/
theorem Abandoned.still {turn : Turn} {c₀ : Client} (hR : Abandoned i c c₀)
    (h : c.step n turn = some c') (ht : turn.isOf i = true) : Abandoned i c' c₀ := by
  obtain ⟨rfl, op, place, hc, hp⟩ := hR
  obtain ⟨hsame, hrest⟩ := Client.without_self hc hp ht h
  exact ⟨hsame.symm, op, hrest⟩

/-- Everybody else moves in the client without it too. -/
theorem Abandoned.follows {turn : Turn} {c₀ : Client} (hR : Abandoned i c c₀)
    (h : c.step n turn = some c') (ht : turn.isOf i = false) :
    ∃ c₀', c₀.step n turn = some c₀' ∧ Abandoned i c' c₀' := by
  obtain ⟨rfl, op, place, hc, hp⟩ := hR
  refine ⟨c'.without i, ?_, rfl, op, Client.submitted_step hc hp ht h⟩
  cases turn with
  | session m => exact Client.without_session h
  | call j => exact Client.without_call (of_decide_eq_false ht) h
  | drop j => exact Client.without_drop (of_decide_eq_false ht) h

/-- Whoever moves without it moves with it, unless the permit of the command is taken. -/
theorem Abandoned.leads {turn : Turn} {c₀ c₀' : Client} (hR : Abandoned i c c₀)
    (h : c₀.step n turn = some c₀') (ht : turn.isOf i = false) (hs : c₀.spares turn = true) :
    ∃ c', c.step n turn = some c' ∧ Abandoned i c' c₀' := by
  obtain ⟨rfl, op, place, hc, hp⟩ := hR
  obtain ⟨c', hc', rfl⟩ := Client.step_of_without ht hs h
  exact ⟨c', hc', rfl, op, Client.submitted_step hc hp ht hc'⟩

/-- `c₀` is `c` for everybody but the `i`-th command, and has one permit more at most. -/
structure AlikeBut (i : Nat) (c c₀ : Client) : Prop where
  session : c₀.session = c.session
  queue : c₀.queue = c.queue
  allocator : c₀.allocator = c.allocator
  calls : ∀ j, j ≠ i → c₀.calls[j]? = c.calls[j]?
  permits : c.permits ≤ c₀.permits ∧ c₀.permits ≤ c.permits + 1

theorem Abandoned.alikeBut {c₀ : Client} (h : Abandoned i c c₀) : AlikeBut i c c₀ := by
  obtain ⟨rfl, -⟩ := h
  refine ⟨rfl, rfl, rfl, fun j hj => List.getElem?_modify_ne _ _ hj.symm, Nat.le_add_right _ _, ?_⟩
  exact Nat.add_le_add_left (Bool.toNat_le _) _

/-- **What the others see of an abandoned command is its permit.**  A command has submitted its
request, and its future is dropped.  Every run with the caller still there is a run without it, with
the steps of the command itself left out: the session, the driver and all the bytes it writes, the
queue, the allocator and every other command are the same.  And every run without the caller in
which nobody takes the last permit is a run with it. -/
theorem abandon_simulated (n : Negotiated) (c c₀ : Client) (i : Nat) (op : Operation)
    (id : UInt64) (inbox : Option (Except DriverError Bytes))
    (hc : c.calls[i]? = some ⟨op, .await id inbox⟩) (hd : c.step n (.drop i) = some c₀) :
    (∀ schedule c', exec (Client.step n) c schedule = some c' →
      ∃ c₀', exec (Client.step n) c₀ (schedule.filter fun turn => !turn.isOf i) = some c₀' ∧
        AlikeBut i c' c₀') ∧
    ∀ schedule c₀', exec (Client.step n) c₀ schedule = some c₀' →
      (∀ p ∈ visited (Client.step n) c₀ schedule,
        p.2.isOf i = false ∧ p.1.spares p.2 = true) →
      ∃ c', exec (Client.step n) c schedule = some c' ∧ AlikeBut i c' c₀' := by
  have hstart : Abandoned i c c₀ := by
    refine ⟨?_, op, _, hc, rfl⟩
    obtain ⟨call, c₁, hcall, rfl, rfl⟩ := Client.drop_eq_some hd
    obtain rfl := Option.some.inj (hcall.symm.trans hc)
    rw [Client.without_of_getElem? hc]
    rfl
  constructor
  · intro schedule c' h
    obtain ⟨c₀', hrun, hR⟩ := exec_hides (R := Abandoned i) (Turn.isOf i)
      (fun _ _ _ _ hR => hR.still) (fun _ _ _ _ hR => hR.follows) hstart h
    exact ⟨c₀', hrun, hR.alikeBut⟩
  · intro schedule c₀' h hall
    have hleads : ∀ (c₀ : Client) (turn : Turn) (c₀' c : Client), Abandoned i c c₀ →
        c₀.step n turn = some c₀' → turn.isOf i = false ∧ c₀.spares turn = true →
        ∃ c', c.step n turn = some c' ∧ Abandoned i c' c₀' :=
      fun _ _ _ _ hR h hC => hR.leads h hC.1 hC.2
    obtain ⟨c', hrun, hR⟩ := exec_follows (R := fun c₀ c => Abandoned i c c₀) hleads hstart h hall
    exact ⟨c', hrun, hR.alikeBut⟩

end Without

/-- Two probes wait and the first is abandoned; when the transport fails the second learns of it, as
it would have with the first still waiting. -/
theorem abandon_simulated_two :
    ∃ c c₀ c₀', exec (Client.step .floor) (.established 2 0 [.ping, .ping])
        [.call 0, .call 0, .call 0, .call 0, .call 1, .call 1, .call 1, .call 1] = some c ∧
      c.step .floor (.drop 0) = some c₀ ∧
      exec (Client.step .floor) c₀ [.session (.select (.submit
          ⟨2, [0, 1, 0, 0, 2, 0, 0, 0, 0, 0, 0, 0, 2, 0, 0, 0, 0, 0, 0, 0], 0⟩ [20])),
        .session .perform, .session (.select .readFailed), .session .perform, .session .perform,
        .session .perform, .call 1, .call 1] = some c₀' ∧
      c₀'.calls[1]? = some ⟨.ping, .done (.error .transport)⟩ := by
  let request (id : UInt8) : Bytes :=
    [0, 1, 0, 0, 2, 0, 0, 0, 0, 0, 0, 0, id, 0, 0, 0, 0, 0, 0, 0]
  let c : Client :=
    ⟨.established 0, 0, RequestIdAllocator.new.allocate.2.allocate.2.allocate.2,
      [⟨2, request 2, 0⟩, ⟨3, request 3, 1⟩], [⟨.ping, .await 2 none⟩, ⟨.ping, .await 3 none⟩]⟩
  have hc : exec (Client.step .floor) (.established 2 0 [.ping, .ping])
    [.call 0, .call 0, .call 0, .call 0, .call 1, .call 1, .call 1, .call 1] = some c := rfl
  have hd : c.step .floor (.drop 0) = some (c.without 0) := rfl
  -- with the first caller still there, up to the point where it gives up
  let driver : Driver Nat :=
    ⟨[], ∅, .new, false, [.write (request 2), .send 2 0 (.error .transport), .mark .failed,
      .closeAdmission]⟩
  let c' : Client :=
    ⟨⟨some ⟨driver, [], some (.returned .failed)⟩, ⟨.failed, true⟩, false, true, true, false, []⟩,
      2, RequestIdAllocator.new.allocate.2.allocate.2.allocate.2, [],
      [⟨.ping, .dropped⟩, ⟨.ping, .done (.error .transport)⟩]⟩
  have h : exec (Client.step .floor) c
    [.session (.select (.submit ⟨2, request 2, 0⟩ [20])), .session .perform,
      .session (.select .readFailed), .session .perform, .session .perform, .session .perform,
      .call 1, .drop 0, .call 1] = some c' := rfl
  obtain ⟨c₀', hrun, halike⟩ := (abandon_simulated _ c _ 0 .ping 2 none rfl hd).1 _ c' h
  exact ⟨c, _, c₀', hc, hd, hrun, halike.calls 1 (by decide)⟩

end Rp1.Connection

import Rp1.Connection.Outcomes
import Rp1.Connection.Wiring

/-!
# Connection — ambiguity is not lost

A command whose request has gone out and who gets an error instead of a terminal frame cannot know
whether its mutation took effect, and `is_ambiguous` should say so.  It looks at the class of the
error alone, and when the driver refuses a frame locally it hands the class of *that* failure on:
to the request the frame names, or to everyone who waits.

`Client.Unspoilt` is the condition under which no error loses its ambiguity: what a read finds at
the head of the buffer while somebody waits is a frame that somebody waits for, or not yet a whole
one.  `ambiguity_kept` says that then every command keeps it, and that the condition is exact: a
read that breaks it tells somebody an error that is not ambiguous.
-/

namespace Rp1.Connection
open Codec Protocol Command Loop Runs

/-! ### The property -/

/-- The outcomes the driver decides on in a step, with the calls they are for. -/
def Client.decided (n : Negotiated) (c : Client) : Turn → List (Nat × Except DriverError Bytes)
  | .session (.select e) =>
      (c.session.task.bind fun t => t.select n.effectiveLimits e).elim [] fun t =>
        t.pending.filterMap fun
          | .send _ i outcome => some (i, outcome)
          | _ => none
  | _ => []

/-- In this step the driver receives the request of the `i`-th command and writes at least one byte
of it. -/
def Turn.writes (i : Nat) : Turn → Bool
  | .session (.select (.submit s accepted)) =>
      decide (s.completion = i) && !(writeAll accepted s.bytes).1.isEmpty
  | _ => false

/-- In one of the steps the driver writes the request of the `i`-th command. -/
def written (past : List (Client × Turn)) (i : Nat) : Bool := past.any fun p => p.2.writes i

/-- In one of the steps the driver admits a frame that names the request of the `i`-th command. -/
def answered (n : Negotiated) (past : List (Client × Turn)) (i : Nat) : Bool :=
  past.any fun p => (p.1.decided n p.2).any fun q => decide (q.1 = i) && q.2.isOk

/-- If the step reads and somebody waits, the head of the buffer is always a frame that somebody
waits for, or not yet a whole one. -/
def Client.Unspoilt (n : Negotiated) (c : Client) (turn : Turn) : Prop :=
  ∀ chunk t d, turn = .session (.select (.read chunk)) → c.session.task = some t →
    Passes (drainIteration n.effectiveLimits) (t.driver.receive chunk) d → d.completions ≠ ∅ →
    (∃ need, decode d.buffer (d.admission n.effectiveLimits) = .need need) ∨
      ∃ f, decode d.buffer (d.admission n.effectiveLimits) = .frame f ∧
        f.header.requestId.value ∈ d.completions

theorem Client.mem_decided {n : Negotiated} {c : Client} {turn : Turn} {i : Nat}
    {outcome : Except DriverError Bytes} :
    (i, outcome) ∈ c.decided n turn ↔
      ∃ e t t' id, turn = .session (.select e) ∧ c.session.task = some t ∧
        t.select n.effectiveLimits e = some t' ∧ .send id i outcome ∈ t'.pending := by
  constructor
  · intro h
    unfold Client.decided at h
    split at h
    · rename_i e
      cases ht : c.session.task.bind fun t => t.select n.effectiveLimits e with
      | none =>
          rw [ht] at h
          cases h
      | some t' =>
          rw [ht] at h
          obtain ⟨t, hct, hsel⟩ := Option.bind_eq_some_iff.mp ht
          obtain ⟨x, hx, hsome⟩ := List.mem_filterMap.mp h
          cases x with
          | send id j sent =>
              cases hsome
              exact ⟨e, t, t', id, rfl, hct, hsel, hx⟩
          | _ => cases hsome
    · cases h
  · rintro ⟨e, t, t', id, rfl, ht, hsel, hm⟩
    rw [Client.decided, ht, Option.bind_some, hsel]
    exact List.mem_filterMap.mpr ⟨_, hm, rfl⟩

theorem answered_iff {n : Negotiated} {past : List (Client × Turn)} {i : Nat} :
    answered n past i = true ↔
      ∃ p ∈ past, ∃ frameBytes, (i, .ok frameBytes) ∈ p.1.decided n p.2 := by
  rw [answered, List.any_eq_true]
  refine exists_congr fun p => and_congr_right fun _ => ?_
  rw [List.any_eq_true]
  constructor
  · rintro ⟨⟨j, outcome⟩, hm, hq⟩
    obtain ⟨hj, hok⟩ := (Bool.and_eq_true _ _).mp hq
    obtain rfl := of_decide_eq_true hj
    cases outcome with
    | ok frameBytes => exact ⟨frameBytes, hm⟩
    | error err => cases hok
  · rintro ⟨frameBytes, hm⟩
    exact ⟨_, hm, (Bool.and_eq_true _ _).mpr ⟨decide_eq_true rfl, rfl⟩⟩

/-! ### What a read decides -/

/-- The errors of the session are ambiguous, and a failure of the decoder never is. -/
theorem isAmbiguous_of_ended {error : DriverError}
    (h : error = .transport ∨ error = .closed ∨ error = .unusable) :
    (CommandError.fromDriver error).isAmbiguous = true := by
  rcases h with rfl | rfl | rfl <;> rfl

theorem not_isAmbiguous_of_fatal {failure : Failure} (h : failure.Fatal) :
    (CommandError.fromFailure failure).isAmbiguous = false := by
  obtain ⟨cls, scope⟩ := failure
  have hcls : cls.scope = .connectionFatal := h.cls
  cases cls <;> first | rfl | cases hcls

theorem not_isAmbiguous_of_refused {failure : Failure}
    (h : failure = .unsupportedOperation ∨ failure = .invalidArgument) :
    (CommandError.fromFailure failure).isAmbiguous = false := by
  rcases h with rfl | rfl <;> rfl

section Read
variable {n : Negotiated} {c c' : Client}

/-- Under the condition an iteration tells nobody an error that is not ambiguous. -/
theorem Client.Unspoilt.isAmbiguous {turn : Turn} {i : Nat} {err : DriverError}
    (h : c.Unspoilt n turn) (hd : (i, .error err) ∈ c.decided n turn) :
    (CommandError.fromDriver err).isAmbiguous = true := by
  obtain ⟨e, t, t', id, rfl, ht, hsel, hm⟩ := Client.mem_decided.mp hd
  generalize ho : Except.error err = outcome at hm
  cases Task.told_of_select hsel _ hm with
  | round chunk d₁ _ total _ _ hp hn hw =>
      have hne : d₁.completions ≠ ∅ := fun e => by
        rw [e] at hw
        cases hw
      cases hn with
      | frame f hf => cases ho
      | refused raw failure hparse hf hs hl =>
          rcases h chunk t d₁ rfl ht hp hne with ⟨need, hneed⟩ | ⟨f, hframe, -⟩
          · cases hf.symm.trans hneed
          · cases hf.symm.trans hframe
  | fatal chunk d₁ d₂ failure _ _ hp hr hw =>
      have hne : d₁.completions ≠ ∅ := fun e => by
        rw [Driver.waiting, e] at hw
        cases hw
      rcases h chunk t d₁ rfl ht hp hne with ⟨need, hneed⟩ | ⟨f, hframe, hid⟩
      · rw [drainIteration_need hneed] at hr
        cases hr
      · obtain ⟨sender, hlook⟩ := Option.isSome_iff_exists.mp (AList.lookup_isSome.mpr hid)
        rw [(Names.frame f hframe).resolves hlook] at hr
        cases hr
  | ended _ _ _ error he =>
      cases ho
      exact isAmbiguous_of_ended he
  | silent _ _ hx => cases hx

/-- Somebody waits. -/
theorem exists_waiting {σ : Type} {d : Driver σ} (h : d.completions ≠ ∅) :
    ∃ p, p ∈ d.waiting := by
  refine List.exists_mem_of_ne_nil _ fun e => h (AList.ext ?_)
  exact List.map_eq_nil_iff.mp e

/-- What is logged on the way through a drain stays logged. -/
theorem iterate_log_of_passes {limits : Limits} {d₀ d : Driver Nat} {chunk : Bytes}
    (hp : Passes (drainIteration limits) (d₀.receive chunk) d) :
    ∃ effects, (iterate limits d₀ (.read chunk)).1.log = d.log ++ effects := by
  have hrun : drainFrames limits (d₀.receive chunk) = drainFrames limits d :=
    (drainIteration_shrinks limits).run_eq_of_passes hp
  obtain ⟨effects, hlog, -⟩ := (Driver.Quietly.drainFrames limits d).log
  have hit := iteration limits d₀ (.read chunk)
  generalize iterate limits d₀ (.read chunk) = r at hit ⊢
  cases hit with
  | fatal _ d' failure hd =>
      rw [← hrun, hd] at hlog
      refine ⟨effects ++ (d'.waiting.map fun p => .send p.1 p.2
        (.error (.connectionFatal failure))) ++ [.mark .unusable, .closeAdmission], ?_⟩
      show (d'.failAll (.connectionFatal failure)).log ++ _ = _
      rw [failAll_log, show d'.log = _ from hlog]
      simp only [List.append_assoc]
  | drained _ d' hd =>
      rw [← hrun, hd] at hlog
      refine ⟨effects, ?_⟩
      rw [Driver.bottom]
      split <;> exact hlog

/-- What was sent on the way through a drain the driver has still to do after the iteration. -/
theorem mem_pending_of_passes {limits : Limits} {t t' : Task Nat} {chunk : Bytes} {d : Driver Nat}
    {x : Effect Nat} {effects : List (Effect Nat)}
    (hsel : t.select limits (.read chunk) = some t')
    (hp : Passes (drainIteration limits) (t.driver.receive chunk) d)
    (hlog : d.log = t.driver.log ++ effects) (hx : x ∈ effects) : x ∈ t'.pending := by
  obtain ⟨more, hmore⟩ := iterate_log_of_passes hp
  rw [hlog, List.append_assoc] at hmore
  rw [Task.pending_of_select hsel hmore]
  exact List.mem_append_left _ hx

/-- A read that breaks the condition tells somebody an error that is not ambiguous. -/
theorem Client.exists_decided {chunk : Bytes} {t t' : Task Nat} {d : Driver Nat}
    (ht : c.session.task = some t) (hsel : t.select n.effectiveLimits (.read chunk) = some t')
    (hp : Passes (drainIteration n.effectiveLimits) (t.driver.receive chunk) d)
    (hne : d.completions ≠ ∅)
    (hneed : ∀ need, decode d.buffer (d.admission n.effectiveLimits) ≠ .need need)
    (hframe : ∀ f, decode d.buffer (d.admission n.effectiveLimits) = .frame f →
      f.header.requestId.value ∉ d.completions) :
    ∃ i err, (i, .error err) ∈ c.decided n (.session (.select (.read chunk))) ∧
      (CommandError.fromDriver err).isAmbiguous = false := by
  have hdecides : ∀ id {i outcome}, .send id i outcome ∈ t'.pending →
      (i, outcome) ∈ c.decided n (.session (.select (.read chunk))) := fun id _ _ hm =>
    Client.mem_decided.mpr ⟨_, t, t', id, rfl, ht, hsel, hm⟩
  obtain ⟨effects, hlog, -⟩ := Driver.Tells.of_passes hp
  -- a drain that ends the session here tells everyone who waits
  have hall : ∀ d' failure,
      drainIteration n.effectiveLimits d = (d', .leave (some failure)) →
      ∃ i err, (i, .error err) ∈ c.decided n (.session (.select (.read chunk))) ∧
        (CommandError.fromDriver err).isAmbiguous = false := by
    intro d' failure hr
    obtain ⟨p, hw⟩ := exists_waiting hne
    have hsame : d'.log = d.log ∧ d'.waiting = d.waiting := by
      cases round hr with
      | fatal => exact ⟨rfl, rfl⟩
      | unknown => exact ⟨rfl, rfl⟩
    have hfinal : (iterate n.effectiveLimits t.driver (.read chunk)).1.log =
        t.driver.log ++ (effects ++ (d.waiting.map fun p => .send p.1 p.2
          (.error (.connectionFatal failure))) ++ [.mark .unusable, .closeAdmission]) := by
      rw [iterate_of_fatal hp hr]
      show (d'.failAll (.connectionFatal failure)).log ++ _ = _
      rw [failAll_log, hsame.1, hsame.2, hlog]
      simp only [List.append_assoc]
    refine ⟨p.2, .connectionFatal failure, hdecides p.1 ?_,
      not_isAmbiguous_of_fatal (fatal_of_leave hr)⟩
    rw [Task.pending_of_select hsel hfinal]
    exact List.mem_append_left _ (List.mem_append_right _ (List.mem_map.mpr ⟨p, hw, rfl⟩))
  rcases head_cases n.effectiveLimits d with
    ⟨need, h⟩ | ⟨failure, consumed, h, hs⟩ | ⟨id, total, outcome, hn⟩
  · exact absurd h (hneed need)
  · exact hall d failure (drainIteration_fatal h hs)
  · cases hlook : d.completions.lookup id with
    | none => exact hall _ _ (hn.unknown hlook)
    | some sender =>
        have hround := hn.resolves hlook
        cases hn with
        | frame f hf => exact absurd (Waiters.mem_of_lookup hlook) (hframe f hf)
        | refused raw failure hparse hf hs hl =>
            refine ⟨sender, .requestFailed failure, hdecides raw.requestId ?_, ?_⟩
            · have hlog' : d.log ++ [.send raw.requestId sender (.error (.requestFailed failure))] =
                  t.driver.log ++ (effects ++
                    [.send raw.requestId sender (.error (.requestFailed failure))]) := by
                rw [hlog, List.append_assoc]
              exact mem_pending_of_passes hsel (hp.round hround) hlog'
                (List.mem_append_right _ (List.mem_singleton.mpr rfl))
            · refine not_isAmbiguous_of_refused ?_
              rcases decode_failure hf with hfatal | hreq
              · exact absurd (hfatal.scope.symm.trans hs) (by decide)
              · exact hreq

/-- **Which reads keep the ambiguity**: exactly those that meet the condition. -/
theorem Client.unspoilt_iff {turn : Turn} (hs : c.step n turn = some c') :
    c.Unspoilt n turn ↔
      ∀ i err, (i, .error err) ∈ c.decided n turn →
        (CommandError.fromDriver err).isAmbiguous = true := by
  constructor
  · intro h i err hd
    exact h.isAmbiguous hd
  · intro h chunk t d hturn ht hp hne
    subst hturn
    -- the step is possible, so the driver does take the iteration
    obtain ⟨t', hsel⟩ : ∃ t', t.select n.effectiveLimits (.read chunk) = some t' := by
      obtain ⟨t₁, t', ht₁, hsel, -⟩ := Client.select_of_step hs
      obtain rfl := Option.some.inj (ht.symm.trans ht₁)
      exact ⟨t', hsel⟩
    by_contra hno
    rw [not_or, not_exists, not_exists] at hno
    obtain ⟨i, err, hd, hamb⟩ := Client.exists_decided ht hsel hp hne hno.1
      fun f hf hid => hno.2 f ⟨hf, hid⟩
    rw [h i err hd] at hamb
    cases hamb

end Read

/-! ### Every run -/

/-- The command has handed its request over. -/
def Place.submitted : Place → Bool
  | .await .. | .lost | .done _ | .dropped => true
  | _ => false

/-- The invariant: what the calls hear is a frame or ambiguous, and so is what those return whose
requests have gone out. -/
structure Client.Candid (n : Negotiated) (past : List (Client × Turn)) (c : Client) : Prop where
  wired : c.Wired
  hears : c.Hears fun i outcome =>
    (∀ frameBytes, outcome = .ok frameBytes → answered n past i = true) ∧
    ∀ err, outcome = .error err → (CommandError.fromDriver err).isAmbiguous = true
  sent : ∀ i op place, written past i = true → c.calls[i]? = some ⟨op, place⟩ →
    place.submitted = true ∧
      ∀ e, place = .done (.error e) → answered n past i = true ∨ e.isAmbiguous = true

section Candid
variable {n : Negotiated} {c c' : Client} {past : List (Client × Turn)} {turn : Turn}

theorem answered_append {i : Nat} (h : answered n past i = true) (p : Client × Turn) :
    answered n (past ++ [p]) i = true := by
  rw [answered, List.any_append, Bool.or_eq_true]
  exact .inl h

/-- Who has handed its request over has no way back, and fails with what it heard or because its
completion was lost. -/
theorem Client.Candid.evolves (h : c.Candid n past) {i : Nat} {op : Operation}
    {place place' : Place} (hc : c.calls[i]? = some ⟨op, place⟩)
    (hev : place.Evolves n c i op turn place') (hsub : place.submitted = true)
    (hold : ∀ e, place = .done (.error e) → answered n past i = true ∨ e.isAmbiguous = true) :
    place'.submitted = true ∧
      ∀ e, place' = .done (.error e) → answered n past i = true ∨ e.isAmbiguous = true := by
  cases hev with
  | same => exact ⟨hsub, hold⟩
  | told => exact ⟨rfl, fun _ e => nomatch e⟩
  | dropped => exact ⟨rfl, fun _ e => nomatch e⟩
  | moved c₁ _ _ hstep =>
      constructor
      · cases place with
        | await id inbox =>
            cases inbox with
            | some outcome => cases hstep; rfl
            | none =>
                obtain ⟨-, hstep⟩ := Option.ite_none_right_eq_some.mp hstep
                cases hstep
                rfl
        | lost => cases hstep; rfl
        | done result => cases hstep
        | dropped => cases hstep
        | _ => cases hsub
      · rintro e rfl
        rcases Place.step_failed hstep with ⟨id, outcome, rfl, he⟩ | ⟨rfl, rfl⟩ | ⟨hoff, -⟩
        · obtain ⟨hok, herr⟩ := h.hears.inbox i op id outcome hc
          cases outcome with
          | ok frameBytes => exact .inl (hok frameBytes rfl)
          | error err =>
              cases he
              exact .inr (herr err rfl)
        · exact .inr (ConnectionState.isAmbiguous_refusal _)
        · cases place <;> first | (cases hsub; done) | cases hoff

/-- The driver receives a request from somebody who waits for it or has given up. -/
theorem Client.Wired.submitted_of_writes (h : c.Wired) (hs : c.step n turn = some c') {i : Nat}
    (hw : turn.writes i = true) {op : Operation} {place : Place}
    (hc : c.calls[i]? = some ⟨op, place⟩) :
    place.submitted = true ∧ ∀ result, place ≠ .done result := by
  obtain ⟨s, accepted, rfl, rfl⟩ : ∃ s accepted,
      turn = .session (.select (.submit s accepted)) ∧ s.completion = i := by
    unfold Turn.writes at hw
    split at hw
    · exact ⟨_, _, rfl, of_decide_eq_true ((Bool.and_eq_true _ _).mp hw).1⟩
    · cases hw
  obtain ⟨session, queue, -, hq, -⟩ := Client.session_eq_some hs
  have howed : (s.id, s.completion) ∈ c.owed := by
    rw [Client.owed, hq]
    exact List.mem_append_left _ (List.mem_append_left _ (List.mem_singleton.mpr rfl))
  obtain ⟨call, hcall, he⟩ := h.expects _ howed
  cases hc.symm.trans hcall
  cases place with
  | await id inbox => exact ⟨rfl, by rintro _ ⟨⟩⟩
  | dropped => exact ⟨rfl, by rintro _ ⟨⟩⟩
  | _ => cases he

/-- **One step.** -/
theorem Client.Candid.step (h : c.Candid n past) (hu : c.Unspoilt n turn)
    (hs : c.step n turn = some c') : c'.Candid n (past ++ [(c, turn)]) := by
  have hlast : (c, turn) ∈ past ++ [(c, turn)] :=
    List.mem_append_right _ (List.mem_singleton.mpr rfl)
  refine ⟨h.wired.step hs, ?_, fun i op place' hw hc' => ?_⟩
  · refine (h.hears.mono fun i outcome hP =>
      ⟨fun b e => answered_append (hP.1 b e) _, hP.2⟩).step hs
      fun e t t' hturn ht hsel id i outcome hm => ?_
    have hd : (i, outcome) ∈ c.decided n turn :=
      Client.mem_decided.mpr ⟨e, t, t', id, hturn, ht, hsel, hm⟩
    constructor
    · rintro frameBytes rfl
      exact answered_iff.mpr ⟨(c, turn), hlast, frameBytes, hd⟩
    · rintro err rfl
      exact hu.isAmbiguous hd
  · obtain ⟨place, hc, hev⟩ := Client.evolves hs hc'
    -- whoever was written before or is written now has handed its request over
    have hnow : place.submitted = true ∧
        ∀ e, place = .done (.error e) → answered n past i = true ∨ e.isAmbiguous = true := by
      rw [written, List.any_append, Bool.or_eq_true, List.any_cons, List.any_nil,
        Bool.or_false] at hw
      rcases hw with hw | hw
      · exact h.sent i op place hw hc
      · obtain ⟨hsub, hno⟩ := h.wired.submitted_of_writes hs hw hc
        exact ⟨hsub, fun e he => absurd he (hno _)⟩
    obtain ⟨hsub, hres⟩ := h.evolves hc hev hnow.1 hnow.2
    exact ⟨hsub, fun e he => (hres e he).imp_left (answered_append · _)⟩

theorem Client.Candid.established (n : Negotiated) (bound closers : Nat) (ops : List Operation) :
    (Client.established bound closers ops).Candid n [] where
  wired := .established bound closers ops
  hears := .established _ bound closers ops
  sent := fun _ _ _ hw => nomatch hw

/-- **When no error loses its ambiguity.**  In every run in which each read finds, while somebody
waits, only frames that somebody waits for: a command whose request the driver has written at least
one byte of, and who gets an error although no frame that names it was admitted, gets an ambiguous
one.  And the condition is exact for each read: one that breaks it decides on an error that is not
ambiguous for somebody. -/
theorem ambiguity_kept (n : Negotiated) (bound closers : Nat) (ops : List Operation)
    (schedule : List Turn)
    (h : exec (Client.step n) (.established bound closers ops) schedule = some c) :
    ((∀ p ∈ visited (Client.step n) (.established bound closers ops) schedule,
        p.1.Unspoilt n p.2) →
      ∀ i op e, c.calls[i]? = some ⟨op, .done (.error e)⟩ →
        written (visited (Client.step n) (.established bound closers ops) schedule) i = true →
        answered n (visited (Client.step n) (.established bound closers ops) schedule) i = false →
        e.isAmbiguous = true) ∧
    ∀ p ∈ visited (Client.step n) (.established bound closers ops) schedule,
      p.1.Unspoilt n p.2 ↔ ∀ i err, (i, .error err) ∈ p.1.decided n p.2 →
        (CommandError.fromDriver err).isAmbiguous = true := by
  constructor
  · intro hall i op e hc hw hans
    have hstep : ∀ (past : List (Client × Turn)) (c : Client) (turn : Turn) (c' : Client),
        ((∀ p ∈ past, p.1.Unspoilt n p.2) → c.Candid n past) → c.step n turn = some c' →
        (∀ p ∈ past ++ [(c, turn)], p.1.Unspoilt n p.2) → c'.Candid n (past ++ [(c, turn)]) := by
      intro past c turn c' hI hs hall
      exact (hI fun p hp => hall p (List.mem_append_left _ hp)).step
        (hall (c, turn) (List.mem_append_right _ (List.mem_singleton.mpr rfl))) hs
    have hcandid := exec_invariant
      (I := fun past c => (∀ p ∈ past, p.1.Unspoilt n p.2) → Client.Candid n past c) hstep []
      (fun _ => .established n bound closers ops) h
    refine (((hcandid hall).sent i op _ hw hc).2 e rfl).resolve_left fun hyes => ?_
    rw [List.nil_append, hans] at hyes
    cases hyes
  · intro p hp
    obtain ⟨-, -, c', -, -, hs⟩ := exists_split hp h
    exact Client.unspoilt_iff hs

end Candid

/-- A `SET` is submitted and written whole, the driver is handed `e`, and the command picks up what
it is told. -/
def afterSet (e : Event Nat) : List Turn :=
  [.call 0, .call 0, .call 0, .call 0, .session (.select (.submit
    ⟨2, [0, 1, 0, 0, 4, 0, 0, 0, 6, 0, 0, 0, 2, 0, 0, 0, 0, 0, 0, 0, 1, 0, 0, 0, 97, 98], 0⟩ [26])),
    .session .perform, .session (.select e), .session .perform, .call 0]

/-- The transport is lost while a write is in flight: the command is told, and the error is
ambiguous. -/
theorem ambiguity_kept_transport :
    ∃ e, (exec (Client.step .floor) (.established 1 0 [.set [97] [98]])
        (afterSet .readFailed)).bind (·.calls[0]?) =
      some ⟨.set [97] [98], .done (.error e)⟩ ∧ e.isAmbiguous = true := by
  obtain ⟨c, h, hc⟩ : ∃ c, exec (Client.step .floor)
      (.established 1 0 [.set [97] [98]]) (afterSet .readFailed) = some c ∧
      c.calls[0]? = some ⟨.set [97] [98], .done (.error .transport)⟩ :=
    Option.bind_eq_some_iff.mp rfl
  refine ⟨.transport, by rw [h]; exact hc, ?_⟩
  refine (ambiguity_kept _ _ _ _ _ h).1 (fun p hp chunk t d hturn => ?_) 0 _ _ hc rfl rfl
  -- the run does not read
  have hmem : p.2 ∈ afterSet .readFailed := map_snd_visited h ▸ List.mem_map_of_mem hp
  rw [hturn] at hmem
  simp [afterSet] at hmem

/-- **Ambiguity is lost.**  A `SET` has been written whole.  The peer sends a frame of another
protocol version, or an answer with required metadata; no frame that names the request is admitted,
and the command returns an error that says that nothing has happened. -/
theorem ambiguity_lost :
    (∃ c, exec (Client.step .floor) (.established 1 0 [.set [97] [98]])
        (afterSet (.read (1 :: List.replicate 19 0))) = some c ∧
      c.calls[0]? = some ⟨.set [97] [98], .done (.error .unsupportedProtocolVersion)⟩) ∧
    written (visited (Client.step .floor) (.established 1 0 [.set [97] [98]])
      (afterSet (.read (1 :: List.replicate 19 0)))) 0 = true ∧
    answered .floor (visited (Client.step .floor)
      (.established 1 0 [.set [97] [98]]) (afterSet (.read (1 :: List.replicate 19 0)))) 0 = false ∧
    CommandError.unsupportedProtocolVersion.isAmbiguous = false ∧
    (∃ c, exec (Client.step .floor) (.established 1 0 [.set [97] [98]])
        (afterSet (.read
          [0, 2, 0, 0, 0, 0, 4, 0, 0, 0, 0, 0, 2, 0, 0, 0, 0, 0, 0, 0, 1, 128, 0, 0])) = some c ∧
      c.calls[0]? = some ⟨.set [97] [98], .done (.error .invalidArgument)⟩) ∧
    answered .floor (visited (Client.step .floor)
      (.established 1 0 [.set [97] [98]]) (afterSet (.read
        [0, 2, 0, 0, 0, 0, 4, 0, 0, 0, 0, 0, 2, 0, 0, 0, 0, 0, 0, 0, 1, 128, 0, 0]))) 0 = false ∧
    CommandError.invalidArgument.isAmbiguous = false :=
  ⟨Option.bind_eq_some_iff.mp rfl, rfl, rfl, rfl, Option.bind_eq_some_iff.mp rfl, rfl, rfl⟩

end Rp1.Connection

import Rp1.Connection.Outcomes
import Rp1.Connection.Wiring

/-!
# Connection — the scope of a command error

An error with the scope `ConnectionFatal` should mean that the session has ended.  It reaches a
caller on two ways.  The driver fails the session and tells everyone who waits, before it marks the
state; and a caller finds it itself, in a frame the driver took for an ordinary answer: an `ERROR`
frame of a fatal class, or a result code its operation does not take.

`fatal_ends_iff` says when every such error finds the session ended: exactly when each command that
picks up its outcome while the session is usable picks up an answer that fits its operation, and not
while the driver is on its way to mark the session.  An error of the other scope is resolved by one
round of `drain_frames`, which touches no other request and not the state.
-/

namespace Rp1.Connection
open Codec Protocol Command Loop Runs

/-! ### Answers that fit -/

/-- The result codes an operation takes for an answer. -/
def Operation.takes : Operation → ResultCode → Bool
  | .get _, _ => true
  | .ping, result | .set .., result => decide (result = .success)
  | .del _, result | .existsKey _, result => decide (result ≠ .valueHeldOutsideMemory)

/-- The bytes of an answer that does not end the session: a response with a result code the
operation takes, or an error of a class that concerns the request alone. -/
def Operation.fits (op : Operation) (frameBytes : Bytes) : Bool :=
  match RawHeader.parse frameBytes with
  | none => false
  | some raw =>
      match Kind.fromWire raw.kind with
      | some .response => (ResultCode.fromWire raw.code).any op.takes
      | some .error => (ErrorClass.fromWire raw.code).any fun cls => cls.scope = .requestScoped
      | some .request | none => false

theorem Operation.fits_response (op : Operation) {f : Frame} {result : ResultCode}
    (hk : f.header.kind = .response) (hc : result.value = f.header.code) :
    op.fits f.bytes = op.takes result := by
  have hkind : Kind.fromWire f.header.raw.kind = some .response :=
    Kind.fromWire_eq_some_iff.mpr (congrArg Kind.value hk.symm)
  rw [fits, Frame.bytes, RawHeader.parse_bytes]
  simp only [hkind]
  rw [show f.header.raw.code = f.header.code from rfl, ResultCode.fromWire_eq_some_iff.mpr hc]
  rfl

theorem Operation.fits_error (op : Operation) {f : Frame} {cls : ErrorClass}
    (hk : f.header.kind = .error) (hc : cls.value = f.header.code) :
    op.fits f.bytes = decide (cls.scope = .requestScoped) := by
  have hkind : Kind.fromWire f.header.raw.kind = some .error :=
    Kind.fromWire_eq_some_iff.mpr (congrArg Kind.value hk.symm)
  rw [fits, Frame.bytes, RawHeader.parse_bytes]
  simp only [hkind]
  rw [show f.header.raw.code = f.header.code from rfl, ErrorClass.fromWire_eq_some_iff.mpr hc]
  rfl

/-- What one of the four operations that map a result code makes of an admitted answer, when
`takes` are the codes it takes. -/
theorem map_interpretCode_of_legal {α : Type} {outcome : ResultCode → Except CommandFailure α}
    (wrap : α → Reply) (takes : ResultCode → Bool)
    (hout : ∀ result, (takes result = true ∧ ∃ a, outcome result = .ok a) ∨
      (takes result = false ∧ outcome result = .error .protocolViolation))
    {admission : Admission} {f : Frame} (h : f.Legal admission) (hr : admission.role = .client) :
    (∃ result : ResultCode, f.header.kind = .response ∧ result.value = f.header.code ∧
      ((takes result = true ∧ ∃ reply, (interpretCode outcome f).map wrap = .ok reply) ∨
        (takes result = false ∧
          (interpretCode outcome f).map wrap = .error .protocolViolation))) ∨
    ∃ cls : ErrorClass, f.header.kind = .error ∧ cls.value = f.header.code ∧
      (interpretCode outcome f).map wrap = .error ⟨cls⟩ := by
  obtain ⟨result, hk, hc, hi⟩ | ⟨cls, hk, hc, hi⟩ :
      (∃ result : ResultCode, f.header.kind = .response ∧ result.value = f.header.code ∧
        interpretCode outcome f = outcome result) ∨
      ∃ cls : ErrorClass, f.header.kind = .error ∧ cls.value = f.header.code ∧
        interpretCode outcome f = .error ⟨cls⟩ := interpretCode_of_legal h hr
  · refine .inl ⟨result, hk, hc, ?_⟩
    rcases hout result with ⟨ht, a, ha⟩ | ⟨ht, ha⟩
    · exact .inl ⟨ht, wrap a, by rw [hi, ha]; rfl⟩
    · exact .inr ⟨ht, by rw [hi, ha]; rfl⟩
  · exact .inr ⟨cls, hk, hc, by rw [hi]; rfl⟩

/-- **What an operation makes of an admitted answer.** -/
theorem Operation.interpret_of_legal (op : Operation) {admission : Admission} {f : Frame}
    (h : f.Legal admission) (hr : admission.role = .client) :
    (∃ result : ResultCode, f.header.kind = .response ∧ result.value = f.header.code ∧
      ((op.takes result = true ∧ ∃ reply, op.interpret f = .ok reply) ∨
        (op.takes result = false ∧ op.interpret f = .error .protocolViolation))) ∨
    ∃ cls : ErrorClass, f.header.kind = .error ∧ cls.value = f.header.code ∧
      op.interpret f = .error ⟨cls⟩ := by
  cases op with
  | get key =>
      generalize hg : interpretGet f = r
      have hans := hg ▸ interpretGet_of_legal h hr
      cases hans with
      | success hk hc =>
          exact .inl ⟨.success, hk, hc.symm, .inl ⟨rfl, _, by rw [interpret, hg]; rfl⟩⟩
      | absent hk hc =>
          exact .inl ⟨.absent, hk, hc.symm, .inl ⟨rfl, _, by rw [interpret, hg]; rfl⟩⟩
      | held len hk hc hp =>
          exact .inl ⟨.valueHeldOutsideMemory, hk, hc.symm,
            .inl ⟨rfl, _, by rw [interpret, hg]; rfl⟩⟩
      | failed cls hk hc => exact .inr ⟨cls, hk, hc, by rw [interpret, hg]; rfl⟩
  | ping =>
      refine map_interpretCode_of_legal _ (takes .ping) (fun result => ?_) h hr
      cases result with
      | success => exact .inl ⟨rfl, _, rfl⟩
      | _ => exact .inr ⟨rfl, rfl⟩
  | set key value =>
      refine map_interpretCode_of_legal _ (takes (.set key value)) (fun result => ?_) h hr
      cases result with
      | success => exact .inl ⟨rfl, _, rfl⟩
      | _ => exact .inr ⟨rfl, rfl⟩
  | del key =>
      refine map_interpretCode_of_legal _ (takes (.del key)) (fun result => ?_) h hr
      cases result with
      | valueHeldOutsideMemory => exact .inr ⟨rfl, rfl⟩
      | _ => exact .inl ⟨rfl, _, rfl⟩
  | existsKey key =>
      refine map_interpretCode_of_legal _ (takes (.existsKey key)) (fun result => ?_) h hr
      cases result with
      | valueHeldOutsideMemory => exact .inr ⟨rfl, rfl⟩
      | _ => exact .inl ⟨rfl, _, rfl⟩

/-- **When an answer ends in a connection-fatal error**: exactly when it does not fit. -/
theorem Operation.finish_fatal_iff (op : Operation) {n : Negotiated} {f : Frame}
    (h : f.Legal ⟨.client, .negotiated, n.effectiveLimits, [f.header.requestId.value]⟩) :
    (∃ e, op.finish n f.bytes = .error e ∧ e.scope = some .connectionFatal) ↔
      op.fits f.bytes = false := by
  have hfin : op.finish n f.bytes = (op.interpret f).mapError .fromCommandFailure := by
    rw [finish, Negotiated.decodeOwn_of_legal h]
    rfl
  rw [hfin]
  rcases op.interpret_of_legal h rfl with
    ⟨result, hk, hc, ⟨ht, reply, hi⟩ | ⟨ht, hi⟩⟩ | ⟨cls, hk, hc, hi⟩
  · rw [hi, op.fits_response hk hc, ht]
    exact ⟨fun ⟨_, he, _⟩ => (nomatch he), fun e => nomatch e⟩
  · rw [hi, op.fits_response hk hc, ht]
    exact ⟨fun _ => rfl, fun _ => ⟨_, rfl, rfl⟩⟩
  · rw [hi, op.fits_error hk hc]
    constructor
    · rintro ⟨e, he, hs⟩
      obtain rfl := Except.error.inj he
      rw [CommandError.fromCommandFailure, CommandError.scope_fromClass] at hs
      rw [Option.some.inj hs]
      rfl
    · intro hs
      refine ⟨_, rfl, ?_⟩
      rw [CommandError.fromCommandFailure, CommandError.scope_fromClass]
      cases hcls : cls.scope with
      | connectionFatal => rfl
      | requestScoped => rw [hcls] at hs; cases hs

/-! ### Sessions on their way out -/

section Doomed
variable {σ : Type} {limits : Limits} {s s' : Session σ} {m : Move σ}

/-- The driver can be dropped while it waits for this. -/
def Effect.awaited : Effect σ → Bool
  | .write _ | .shutdown _ => true
  | .send .. | .mark _ | .closeAdmission => false

/-- The session is not usable any more, or the driver is going to say so and waits for nothing
before it does. -/
def Session.Doomed (s : Session σ) : Prop :=
  s.state ≠ .usable ∨
    ∃ t, s.task = some t ∧ .mark .unusable ∈ t.pending ∧ ∀ x ∈ t.pending, x.awaited = false

/-- **There is no way back to a usable session.** -/
theorem Session.ne_usable_step (hsane : s.Sane) (hsound : s.Sound)
    (h : s.step limits m = some s') (hu : s.state ≠ .usable) : s'.state ≠ .usable := by
  cases m with
  | select e =>
      obtain ⟨t, t', -, -, -, rfl⟩ := Session.select_eq_some h
      exact hu
  | perform =>
      obtain ⟨t, x, pending, ht, hp, rfl⟩ := Session.perform_eq_some h
      cases x with
      | mark next =>
          have hterm := (hsound t ht).marks next (hp ▸ List.mem_cons_self)
          have hmark : (s.state.mark next).isTerminal = true :=
            ConnectionState.isTerminal_mark hterm
          intro e
          have e : s.state.mark next = .usable := e
          rw [e] at hmark
          cases hmark
      | _ => exact hu
  | abort =>
      obtain ⟨t, -, -, rfl⟩ := Session.abort_eq_some h
      exact hu
  | close i ok =>
      obtain ⟨c, s₁, c', hc, hstep, rfl⟩ := Session.close_eq_some h
      show s₁.state ≠ .usable
      rw [Closer.state_step hstep]
      exact hsane c (List.mem_of_getElem? hc) _ hu

theorem Session.Doomed.step (hd : s.Doomed) (hsane : s.Sane) (hsound : s.Sound)
    (h : s.step limits m = some s') : s'.Doomed := by
  rcases hd with hu | ⟨t, ht, hm, hw⟩
  · exact .inl (Session.ne_usable_step hsane hsound h hu)
  · cases m with
    | select e =>
        obtain ⟨t₁, t', -, ht₁, hsel, rfl⟩ := Session.select_eq_some h
        obtain rfl := Option.some.inj (ht.symm.trans ht₁)
        rw [(Task.select_eq_some hsel).1] at hm
        cases hm
    | perform =>
        obtain ⟨t₁, x, pending, ht₁, hp, rfl⟩ := Session.perform_eq_some h
        obtain rfl := Option.some.inj (ht.symm.trans ht₁)
        rw [hp] at hm hw
        rcases List.mem_cons.mp hm with rfl | hm
        · refine .inl ?_
          show s.state.mark .unusable ≠ .usable
          cases s.state <;> exact fun e => nomatch e
        · exact .inr ⟨_, rfl, hm, fun x hx => hw x (List.mem_cons_of_mem _ hx)⟩
    | abort =>
        obtain ⟨t₁, ht₁, ha, rfl⟩ := Session.abort_eq_some h
        obtain rfl := Option.some.inj (ht.symm.trans ht₁)
        cases hp : t.pending with
        | nil => rw [hp] at hm; cases hm
        | cons x pending =>
            have hx := hw x (hp ▸ List.mem_cons_self)
            rw [Task.awaits, hp] at ha
            cases x with
            | write bytes => cases hx
            | shutdown ok => cases hx
            | _ => cases ha
    | close i ok =>
        obtain ⟨c, s₁, c', -, hstep, rfl⟩ := Session.close_eq_some h
        exact .inr ⟨t, (Closer.step_frame hstep).1.trans ht, hm, hw⟩

/-- Who is told of a fatal buffer is told before the driver marks the session. -/
theorem doomed_of_select {t t' : Task σ} {e : Event σ} (h : t.select limits e = some t')
    {id : UInt64} {sender : σ} {failure : Failure}
    (hm : .send id sender (.error (.connectionFatal failure)) ∈ t'.pending) :
    .mark .unusable ∈ t'.pending ∧ ∀ x ∈ t'.pending, x.awaited = false := by
  have htold := Task.told_of_select h
  have hfatal : ∃ chunk d₁ d₂, e = .read chunk ∧
      Passes (drainIteration limits) (t.driver.receive chunk) d₁ ∧
      drainIteration limits d₁ = (d₂, .leave (some failure)) := by
    cases htold _ hm with
    | round chunk d₁ _ total _ _ hp hn hw => cases hn
    | fatal chunk d₁ d₂ _ _ _ hp hr hw => exact ⟨chunk, d₁, d₂, rfl, hp, hr⟩
    | ended _ _ _ _ he => rcases he with he | he | he <;> cases he
    | silent _ _ hx => cases hx
  obtain ⟨chunk, d₁, d₂, rfl, hp, hr⟩ := hfatal
  constructor
  · obtain ⟨effects, tail, hlog, -, he⟩ := (iterate_ends limits t.driver (.read chunk)).log
    rw [Task.pending_of_select h hlog]
    have hflow : (iterate limits t.driver (.read chunk)).2 = .leave (.returned .unusable) := by
      rw [iterate_of_fatal hp hr]
      rfl
    rw [hflow] at he
    refine List.mem_append_right _ ?_
    generalize (iterate limits t.driver (.read chunk)).1.submitClosed = b at he
    cases he with
    | unusable => exact List.mem_cons_self
  · intro x hx
    cases htold x hx with
    | round => rfl
    | fatal => rfl
    | ended => rfl
    | silent _ _ hsent hread => rcases hread chunk rfl with rfl | rfl <;> rfl

end Doomed

/-! ### What the calls have heard -/

/-- The outcomes that reach the calls are genuine, and who has heard of a fatal buffer belongs to a
session that ends. -/
structure Client.Informed (n : Negotiated) (c : Client) : Prop where
  sane : c.session.Sane
  sound : c.session.Sound
  hears : c.Hears fun _ outcome => Genuine n.effectiveLimits outcome ∧
    ∀ failure, outcome = .error (.connectionFatal failure) → c.session.Doomed

section Informed
variable {n : Negotiated} {c c' : Client}

theorem Client.Informed.established (n : Negotiated) (bound closers : Nat)
    (ops : List Operation) : (Client.established bound closers ops).Informed n where
  sane := fun closer hc => by
    rw [List.eq_of_mem_replicate hc]
    exact fun _ hu => hu
  sound := (Client.Wired.established bound closers ops).sound
  hears := .established _ bound closers ops

theorem Client.Informed.step {turn : Turn} (h : c.Informed n) (hs : c.step n turn = some c') :
    c'.Informed n := by
  have hdoomed : c.session.Doomed → c'.session.Doomed := fun hd =>
    Client.session_keeps hs hd fun _ hm => hd.step h.sane h.sound hm
  have hmono := h.hears.mono fun i outcome (hP : _ ∧ _) =>
    (⟨hP.1, fun failure e => hdoomed (hP.2 failure e)⟩ :
      Genuine n.effectiveLimits outcome ∧ ∀ failure,
        outcome = .error (.connectionFatal failure) → c'.session.Doomed)
  refine ⟨?_, ?_, hmono.step hs fun e t t' hturn ht hsel id i outcome hm => ?_⟩
  · exact Client.session_keeps hs h.sane fun _ hm => h.sane.step hm
  · exact Client.session_keeps hs h.sound fun _ hm => (h.sound.step hm).1
  · refine ⟨(Task.told_of_select hsel _ hm).genuine, fun failure e => ?_⟩
    subst e
    subst hturn
    obtain ⟨hmark, hw⟩ := doomed_of_select hsel hm
    obtain ⟨t₁, t₁', ht₁, hsel₁, hs'⟩ := Client.select_of_step hs
    obtain rfl := Option.some.inj (ht.symm.trans ht₁)
    obtain rfl := Option.some.inj (hsel.symm.trans hsel₁)
    rw [hs']
    exact .inr ⟨t', rfl, hmark, hw⟩

/-! ### When a fatal error finds the session ended -/

/-- The session has ended for good: it is never usable again, and no command that starts is
admitted. -/
def Client.Over (n : Negotiated) (c : Client) : Prop :=
  ∀ schedule c', exec (Client.step n) c schedule = some c' →
    c'.session.state ≠ .usable ∧
    ∀ i op c'', c'.calls[i]? = some ⟨op, .start⟩ → c'.step n (.call i) = some c'' →
      ∀ payload, c''.calls[i]? ≠ some ⟨op, .acquire payload⟩

/-- If the step is the return of a command with a connection-fatal error, the session has ended. -/
def Client.EndsWithFatal (n : Negotiated) (c : Client) (turn : Turn) : Prop :=
  ∀ i op e c', turn = .call i → c.step n turn = some c' →
    c'.calls[i]? = some ⟨op, .done (.error e)⟩ → e.scope = some .connectionFatal → c'.Over n

/-- The driver is on its way to mark the session. -/
def Client.marking (c : Client) : Bool :=
  c.session.task.any fun t => decide (.mark .unusable ∈ t.pending)

/-- If the step is a command picking up its outcome while the session is usable, then a frame it
picks up fits its operation, and the news of a fatal buffer does not come before the mark. -/
def Client.picksUp (c : Client) : Turn → Bool
  | .call i =>
      match c.calls[i]? with
      | some ⟨op, .await _ (some (.ok frameBytes))⟩ =>
          decide (c.session.state ≠ .usable) || op.fits frameBytes
      | some ⟨_, .await _ (some (.error (.connectionFatal _)))⟩ =>
          decide (c.session.state ≠ .usable) || !c.marking
      | _ => true
  | .session _ | .drop _ => true

theorem Client.Informed.over (h : c.Informed n) (hu : c.session.state ≠ .usable) : c.Over n := by
  intro schedule c' he
  have hstep : ∀ (past : List (Client × Turn)) (c : Client) (turn : Turn) (c' : Client),
      (c.Informed n ∧ c.session.state ≠ .usable) → c.step n turn = some c' →
      c'.Informed n ∧ c'.session.state ≠ .usable := by
    rintro past c turn c' ⟨hc, hu⟩ hs
    exact ⟨hc.step hs, Client.session_keeps (P := fun s => s.state ≠ .usable) hs hu fun _ hm =>
      Session.ne_usable_step hc.sane hc.sound hm hu⟩
  have hu' := (exec_invariant (I := fun _ c => Client.Informed n c ∧ c.session.state ≠ .usable)
    hstep [] ⟨h, hu⟩ he).2
  refine ⟨hu', fun i op c'' hc hs payload ha => ?_⟩
  obtain ⟨op', place, place', c₁, hcall, hplace, hi, -⟩ := Client.getElem?_call hs
  cases hc.symm.trans hcall
  cases hi.symm.trans ha
  -- `check_usable` is the first thing a command with a payload does
  rw [Place.step] at hplace
  split at hplace
  · cases hplace
  · rw [if_neg hu'] at hplace
    cases hplace

/-- What the caller makes of the outcomes that carry no frame. -/
theorem CommandError.scope_fromFailure (failure : Failure) :
    (CommandError.fromFailure failure).scope = some failure.cls.scope :=
  CommandError.scope_fromClass failure.cls

/-- A command returns an error of this scope only when it picks one up. -/
theorem Client.Informed.endsWithFatal_call (h : c.Informed n) {i : Nat} {op : Operation}
    {place : Place} (hc : c.calls[i]? = some ⟨op, place⟩) :
    c.EndsWithFatal n (.call i) ↔
      ∀ id outcome, place = .await id (some outcome) → c.session.state = .usable →
        ¬ ∃ e, op.conclude n outcome = .error e ∧ e.scope = some .connectionFatal := by
  constructor
  · rintro hend id outcome rfl hu ⟨e, he, hscope⟩
    have hstep : c.step n (.call i) =
        some { c.release with calls := c.calls.set i ⟨op, .done (op.conclude n outcome)⟩ } := by
      rw [Client.step, hc]
      rfl
    have hover := hend i op e _ rfl hstep (by
      rw [he]
      exact List.getElem?_set_self (List.getElem?_eq_some_iff.mp hc).1) hscope
    exact (hover [] _ rfl).1 hu
  · intro hpick i' op' e c₁ hturn hs hdone hscope
    cases hturn
    refine (h.step hs).over (Client.session_of_call hs ▸ fun hu => ?_)
    obtain ⟨op', place, place', c₂, hcall, hplace, hi, -⟩ := Client.getElem?_call hs
    cases hi.symm.trans hdone
    cases hc.symm.trans hcall
    rcases Place.step_failed hplace with ⟨id, outcome, rfl, he⟩ | ⟨rfl, rfl⟩ | ⟨-, hnone⟩
    · exact hpick id outcome rfl hu ⟨e, he, hscope⟩
    · rw [ConnectionState.scope_refusal] at hscope
      cases hscope
    · rw [hnone] at hscope
      cases hscope

theorem Client.marking_of_doomed (hd : c.session.Doomed) (hu : c.session.state = .usable) :
    c.marking = true := by
  rcases hd with hne | ⟨t, ht, hm, -⟩
  · exact absurd hu hne
  · rw [Client.marking, ht]
    exact decide_eq_true hm

/-- **One step.** -/
theorem Client.Informed.endsWithFatal_iff (h : c.Informed n) {turn : Turn}
    (hs : c.step n turn = some c') : c.EndsWithFatal n turn ↔ c.picksUp turn = true := by
  cases turn with
  | session m => exact ⟨fun _ => rfl, fun _ i op e c' hturn => (nomatch hturn)⟩
  | drop i => exact ⟨fun _ => rfl, fun _ i op e c' hturn => (nomatch hturn)⟩
  | call i =>
      obtain ⟨op, place, -, -, hc, -⟩ := Client.getElem?_call hs
      rw [h.endsWithFatal_call hc]
      simp only [Client.picksUp, hc]
      cases place with
      | await id inbox =>
          cases inbox with
          | none => exact ⟨fun _ => rfl, fun _ _ _ e => nomatch e⟩
          | some outcome =>
              obtain ⟨hgen, hdoomed⟩ := h.hears.inbox i op id outcome hc
              -- what is left is what the operation makes of this outcome
              have hone : (∀ id' outcome', Place.await id (some outcome) =
                    .await id' (some outcome') → c.session.state = .usable →
                  ¬ ∃ e, op.conclude n outcome' = .error e ∧ e.scope = some .connectionFatal) ↔
                  (c.session.state = .usable →
                    ¬ ∃ e, op.conclude n outcome = .error e ∧
                      e.scope = some .connectionFatal) := by
                refine ⟨fun hall => hall id outcome rfl, fun hone id' outcome' e => ?_⟩
                cases e
                exact hone
              rw [hone]
              cases hgen with
              | frame f hlegal =>
                  have hiff := op.finish_fatal_iff hlegal
                  rw [Operation.conclude, hiff]
                  simp [imp_iff_not_or]
              | refused failure hf =>
                  refine ⟨fun _ => rfl, fun _ _ => ?_⟩
                  rintro ⟨e, he, hscope⟩
                  obtain rfl := Except.error.inj he
                  rcases hf with rfl | rfl <;> cases hscope
              | fatal failure hf =>
                  have hfatal : ∃ e, op.conclude n (.error (.connectionFatal failure)) = .error e ∧
                      e.scope = some .connectionFatal := by
                    refine ⟨_, rfl, ?_⟩
                    rw [CommandError.fromDriver, CommandError.scope_fromFailure, hf.cls]
                  by_cases hu : c.session.state = .usable
                  · simp [hu, hfatal, Client.marking_of_doomed (hdoomed failure rfl) hu]
                  · simp [hu]
              | ended error hf =>
                  rcases hf with rfl | rfl | rfl
                  all_goals
                    refine ⟨fun _ => rfl, fun _ _ => ?_⟩
                    rintro ⟨e, he, hscope⟩
                    obtain rfl := Except.error.inj he
                    cases hscope
      | _ => exact ⟨fun _ => rfl, fun _ _ _ e => nomatch e⟩

/-! ### Errors that concern one request -/

/-- A step of the driver that resolves one request and touches nothing else: the other requests wait
as before, and what the driver does to the outside is to send this outcome. -/
structure Driver.ResolvesOnly {σ : Type} (d d' : Driver σ) (id : UInt64) (sender : σ)
    (outcome : Except DriverError Bytes) : Prop where
  log : d'.log = d.log ++ [.send id sender outcome]
  others : ∀ id', id' ≠ id → d'.completions.lookup id' = d.completions.lookup id' ∧
    (id' ∈ d'.live ↔ id' ∈ d.live)
  submitClosed : d'.submitClosed = d.submitClosed

/-- An outcome that ends in an error for one request comes from a round of `drain_frames`. -/
theorem Told.resolvesOnly {d : Driver Nat} {e : Event Nat} {id : UInt64} {i : Nat}
    {outcome : Except DriverError Bytes} {op : Operation} {err : CommandError}
    (h : Told n.effectiveLimits d e (.send id i outcome))
    (he : op.conclude n outcome = .error err) (hs : err.scope = some .requestScoped) :
    ∃ chunk d₁ d₂, e = .read chunk ∧
      Passes (drainIteration n.effectiveLimits) (d.receive chunk) d₁ ∧
      drainIteration n.effectiveLimits d₁ = (d₂, .again) ∧ d₁.ResolvesOnly d₂ id i outcome := by
  cases h with
  | round chunk d₁ _ total _ _ hp hn hw =>
      refine ⟨chunk, d₁, _, rfl, hp, hn.resolves hw, rfl, fun id' hne => ⟨?_, ?_⟩, rfl⟩
      · exact AList.lookup_erase_ne hne
      · exact InFlightRegistry.mem_retire.trans (and_iff_right hne)
  | fatal chunk d₁ d₂ failure _ _ hp hr hw =>
      obtain rfl := Except.error.inj he
      rw [CommandError.fromDriver, CommandError.scope_fromFailure, (fatal_of_leave hr).cls] at hs
      cases hs
  | ended _ _ _ error hf =>
      obtain rfl := Except.error.inj he
      rcases hf with rfl | rfl | rfl <;> cases hs
  | silent _ _ hx => cases hx

/-- **When a connection-fatal error means that the session has ended.**  In every run: each command
that returns one leaves a session that has ended, exactly when each command that picks up its
outcome while the session is usable picks up an answer that fits its operation, and not the news of
a fatal buffer before the driver has marked the session.  And the step of the driver that resolves a
command with an error of the other scope touches no other request and not the state. -/
theorem fatal_ends_iff (n : Negotiated) (bound closers : Nat) (ops : List Operation)
    (schedule : List Turn)
    (h : exec (Client.step n) (.established bound closers ops) schedule = some c) :
    ((∀ p ∈ visited (Client.step n) (.established bound closers ops) schedule,
        p.1.EndsWithFatal n p.2) ↔
      ∀ p ∈ visited (Client.step n) (.established bound closers ops) schedule,
        p.1.picksUp p.2 = true) ∧
    ∀ (t t' : Task Nat) (e : Event Nat) (id : UInt64) (i : Nat)
      (outcome : Except DriverError Bytes) (op : Operation) (err : CommandError),
      t.select n.effectiveLimits e = some t' → .send id i outcome ∈ t'.pending →
      op.conclude n outcome = .error err → err.scope = some .requestScoped →
      ∃ chunk d₁ d₂, e = .read chunk ∧
        Passes (drainIteration n.effectiveLimits) (t.driver.receive chunk) d₁ ∧
        drainIteration n.effectiveLimits d₁ = (d₂, .again) ∧
        d₁.ResolvesOnly d₂ id i outcome := by
  constructor
  · have hinf := visited_invariant (I := Client.Informed n) (fun _ _ _ hc hs => hc.step hs)
      (.established n bound closers ops) h
    refine forall₂_congr fun p hp => ?_
    obtain ⟨-, -, c', -, -, hs⟩ := exists_split hp h
    exact (hinf p hp).endsWithFatal_iff hs
  · intro t t' e id i outcome op err hsel hm
    exact (Task.told_of_select hsel _ hm).resolvesOnly

end Informed

/-- A probe is answered with the overloaded class, which concerns it alone. -/
theorem fatal_ends_overloaded :
    ∃ c, exec (Client.step .floor) (.established 1 0 [.ping])
        [.call 0, .call 0, .call 0, .call 0, .session (.select (.submit
          ⟨2, [0, 1, 0, 0, 2, 0, 0, 0, 0, 0, 0, 0, 2, 0, 0, 0, 0, 0, 0, 0], 0⟩ [20])),
          .session .perform, .session (.select (.read
            [0, 3, 0, 0, 8, 0, 0, 0, 2, 0, 0, 0, 2, 0, 0, 0, 0, 0, 0, 0, 0, 0])),
          .session .perform, .call 0] = some c ∧
      ∀ p ∈ visited (Client.step .floor) (.established 1 0 [.ping])
        [.call 0, .call 0, .call 0, .call 0, .session (.select (.submit
          ⟨2, [0, 1, 0, 0, 2, 0, 0, 0, 0, 0, 0, 0, 2, 0, 0, 0, 0, 0, 0, 0], 0⟩ [20])),
          .session .perform, .session (.select (.read
            [0, 3, 0, 0, 8, 0, 0, 0, 2, 0, 0, 0, 2, 0, 0, 0, 0, 0, 0, 0, 0, 0])),
          .session .perform, .call 0], p.1.EndsWithFatal .floor p.2 := by
  let schedule : List Turn := [.call 0, .call 0, .call 0, .call 0, .session (.select (.submit
    ⟨2, [0, 1, 0, 0, 2, 0, 0, 0, 0, 0, 0, 0, 2, 0, 0, 0, 0, 0, 0, 0], 0⟩ [20])),
    .session .perform, .session (.select (.read
      [0, 3, 0, 0, 8, 0, 0, 0, 2, 0, 0, 0, 2, 0, 0, 0, 0, 0, 0, 0, 0, 0])),
    .session .perform, .call 0]
  obtain ⟨c, h⟩ := Option.isSome_iff_exists.mp (rfl : (exec (Client.step .floor)
    (.established 1 0 [.ping]) schedule).isSome = true)
  exact ⟨c, h, (fatal_ends_iff _ _ _ _ _ h).1.mpr (List.all_eq_true.mp rfl)⟩

/-- **A connection-fatal error in a usable session.**  A probe is answered with an `ERROR` frame of
a fatal class, and then with a result code no probe has: both times the driver takes the frame for
an answer.  And a caller is faster than the driver that has told it that the session has ended. -/
theorem fatal_usable :
    (∃ c, exec (Client.step .floor) (.established 1 0 [.ping])
        [.call 0, .call 0, .call 0, .call 0, .session (.select (.submit
          ⟨2, [0, 1, 0, 0, 2, 0, 0, 0, 0, 0, 0, 0, 2, 0, 0, 0, 0, 0, 0, 0], 0⟩ [20])),
          .session .perform, .session (.select (.read
            [0, 3, 0, 0, 1, 0, 0, 0, 2, 0, 0, 0, 2, 0, 0, 0, 0, 0, 0, 0, 0, 0])),
          .session .perform, .call 0] = some c ∧
      (c.session.state, c.calls[0]?) =
        (.usable, some ⟨.ping, .done (.error .malformedRequest)⟩)) ∧
    (∃ c, exec (Client.step .floor) (.established 1 0 [.ping])
        [.call 0, .call 0, .call 0, .call 0, .session (.select (.submit
          ⟨2, [0, 1, 0, 0, 2, 0, 0, 0, 0, 0, 0, 0, 2, 0, 0, 0, 0, 0, 0, 0], 0⟩ [20])),
          .session .perform, .session (.select (.read
            [0, 2, 0, 0, 1, 0, 0, 0, 0, 0, 0, 0, 2, 0, 0, 0, 0, 0, 0, 0])),
          .session .perform, .call 0] = some c ∧
      (c.session.state, c.calls[0]?) =
        (.usable, some ⟨.ping, .done (.error .protocolViolation)⟩)) ∧
    (∃ c, exec (Client.step .floor) (.established 1 0 [.ping])
        [.call 0, .call 0, .call 0, .call 0, .session (.select (.submit
          ⟨2, [0, 1, 0, 0, 2, 0, 0, 0, 0, 0, 0, 0, 2, 0, 0, 0, 0, 0, 0, 0], 0⟩ [20])),
          .session .perform, .session (.select (.read (1 :: List.replicate 19 0))),
          .session .perform, .call 0] = some c ∧
      (c.session.state, c.calls[0]?) =
        (.usable, some ⟨.ping, .done (.error .unsupportedProtocolVersion)⟩)) ∧
    CommandError.malformedRequest.scope = some .connectionFatal ∧
    CommandError.protocolViolation.scope = some .connectionFatal ∧
    CommandError.unsupportedProtocolVersion.scope = some .connectionFatal :=
  ⟨Option.map_eq_some_iff.mp rfl, Option.map_eq_some_iff.mp rfl, Option.map_eq_some_iff.mp rfl,
    rfl, rfl, rfl⟩

end Rp1.Connection

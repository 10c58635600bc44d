import Rp1.Connection.Abandon
import Rp1.Connection.Identifiers
import Rp1.Connection.Outgoing
import Rp1.Connection.Progress

/-!
# Connection — from a command to the wire

The way of a request in one direction.  A command encodes its request and puts it into the queue
(`submitted`), the driver takes it out (`receptions`), and the transport accepts its bytes (`wire`).

`Client.Exchange` relates the three over a whole run.  Each command submits at most once, the frame
of its own operation under its own identifier.  The driver receives the submissions in their order,
and none is missing between the driver and the queue.  What is on the wire is an initial part of the
frames received, and all of them while the driver is in its loop and has nothing to do.
-/

namespace Rp1.Connection
open Codec Protocol Command Loop Runs

/-! ### The history -/

/-- The submission that the next access of the `i`-th command puts into the queue. -/
def Place.submits (c : Client) (i : Nat) : Place → Option (Submit Nat)
  | .send id bytes => if c.gone then none else some ⟨id, bytes, i⟩
  | _ => none

/-- The submission that a step puts into the queue. -/
def Client.submits (c : Client) : Turn → Option (Submit Nat)
  | .call i => c.calls[i]?.bind fun call => call.place.submits c i
  | .session _ | .drop _ => none

/-- The submissions of the commands in the steps `past`. -/
def submitted (past : List (Client × Turn)) : List (Submit Nat) :=
  past.filterMap fun p => p.1.submits p.2

/-- The submission that the driver takes out of the queue, with the answers to its writes. -/
def Turn.receives : Turn → List (Submit Nat × List Nat)
  | .session (.select e) => e.submissions
  | .session _ | .call _ | .drop _ => []

/-- The submissions that the driver has received in the steps `past`. -/
def receptions (past : List (Client × Turn)) : List (Submit Nat × List Nat) :=
  past.flatMap fun p => p.2.receives

/-- The bytes that the transport accepts in a step. -/
def Client.accepts (c : Client) : Turn → Bytes
  | .session .perform => c.session.next.elim [] Effect.accepted
  | .session _ | .call _ | .drop _ => []

/-- The bytes that the transport has accepted in the steps `past`. -/
def wire (past : List (Client × Turn)) : Bytes := past.flatMap fun p => p.1.accepts p.2

theorem submitted_snoc (past : List (Client × Turn)) (c : Client) (turn : Turn) :
    submitted (past ++ [(c, turn)]) = submitted past ++ (c.submits turn).toList := by
  rw [submitted, List.filterMap_append, filterMap_cons_toList, List.filterMap_nil, List.append_nil,
    submitted]

theorem receptions_snoc (past : List (Client × Turn)) (c : Client) (turn : Turn) :
    receptions (past ++ [(c, turn)]) = receptions past ++ turn.receives := by
  rw [receptions, List.flatMap_append, List.flatMap_singleton, receptions]

theorem wire_snoc (past : List (Client × Turn)) (c : Client) (turn : Turn) :
    wire (past ++ [(c, turn)]) = wire past ++ c.accepts turn := by
  rw [wire, List.flatMap_append, List.flatMap_singleton, wire]

/-! ### What a command submits -/

/-- The frame of the request that the command `s.completion` has to make, under the id of `s`. -/
def Requests (n : Negotiated) (ops : List Operation) (s : Submit Nat) : Prop :=
  s.id ≠ 0 ∧ ∃ op payload, ops[s.completion]? = some op ∧ op.payload = .ok payload ∧
    encodeRequest op.opcode payload s.id n.effectiveMaximumFrameSize
      n.effectiveMaximumMetadataSize = .ok s.bytes

/-- What a command carries with it belongs to its operation. -/
def Place.Prepared (n : Negotiated) (ops : List Operation) (i : Nat) (op : Operation) :
    Place → Prop
  | .acquire payload | .allocate payload => op.payload = .ok payload
  | .send id bytes => Requests n ops ⟨id, bytes, i⟩
  | _ => True

section Steps
variable {n : Negotiated} {ops : List Operation} {c c' : Client}

theorem Place.Prepared.step {c₁ : Client} {i : Nat} {op : Operation} {place place' : Place}
    (hop : ops[i]? = some op) (hp : place.Prepared n ops i op)
    (h : place.step n c i op = some (c₁, place')) : place'.Prepared n ops i op := by
  cases place with
  | start =>
      rw [Place.step] at h
      split at h
      case h_1 => cases h; trivial
      case h_2 payload he =>
        split at h
        · simp only at h
          split at h
          · cases h; trivial
          · cases h; exact he
        · cases h; trivial
  | refused => cases h; trivial
  | acquire payload =>
      rw [Place.step] at h
      split at h
      · cases h; trivial
      · obtain ⟨-, h⟩ := Option.ite_none_right_eq_some.mp h
        cases h
        exact hp
  | shutOut => cases h; trivial
  | allocate payload =>
      simp only [Place.step] at h
      split at h
      case isTrue => cases h; trivial
      case isFalse hid =>
        split at h
        case h_1 => cases h; trivial
        case h_2 bytes he =>
          cases h
          exact ⟨hid, op, payload, hop, hp, he⟩
  | send id bytes =>
      rw [Place.step] at h
      split at h
      · cases h; trivial
      · obtain ⟨-, h⟩ := Option.ite_none_right_eq_some.mp h
        cases h
        trivial
  | await id inbox =>
      cases inbox with
      | some outcome => cases h; trivial
      | none =>
          obtain ⟨-, h⟩ := Option.ite_none_right_eq_some.mp h
          cases h
          trivial
  | lost => cases h; trivial
  | done result => cases h
  | dropped => cases h

/-- The calls are the commands `ops`, each with what belongs to it. -/
def Client.Prepared (n : Negotiated) (ops : List Operation) (c : Client) : Prop :=
  ∀ (i : Nat) (op : Operation) (place : Place), c.calls[i]? = some ⟨op, place⟩ →
    ops[i]? = some op ∧ place.Prepared n ops i op

theorem Client.Prepared.established (n : Negotiated) (bound closers : Nat)
    (ops : List Operation) : (Client.established bound closers ops).Prepared n ops := by
  intro i op place hc
  obtain ⟨op', hop, h⟩ := Option.map_eq_some_iff.mp ((List.getElem?_map ..).symm.trans hc)
  cases h
  exact ⟨hop, trivial⟩

theorem Client.Prepared.step {turn : Turn} (h : c.Prepared n ops)
    (hs : c.step n turn = some c') : c'.Prepared n ops := by
  intro i op place' hc
  obtain ⟨place, hplace, hev⟩ := Client.evolves hs hc
  obtain ⟨hop, hp⟩ := h i op place hplace
  refine ⟨hop, ?_⟩
  cases hev with
  | same => exact hp
  | told => trivial
  | moved c₁ _ _ hstep => exact hp.step hop hstep
  | dropped => trivial

/-- **An access of a command**: it submits what it carries, or it leaves the queue alone. -/
theorem Place.step_submits {c₁ : Client} {i : Nat} {op : Operation} {place place' : Place}
    (h : place.step n c i op = some (c₁, place')) :
    (∃ id bytes, place = .send id bytes ∧ place' = .await id none ∧ c.gone = false ∧
      place.submits c i = some ⟨id, bytes, i⟩ ∧ c₁.queue = c.queue ++ [⟨id, bytes, i⟩]) ∨
    (place.submits c i = none ∧ c₁.queue = c.queue) := by
  have hmoves := Place.step_moves h
  cases place with
  | send id bytes =>
      by_cases hg : c.gone = true
      · rw [Place.step, if_pos hg] at h
        cases h
        exact .inr ⟨if_pos hg, rfl⟩
      · rw [Place.step, if_neg hg] at h
        obtain ⟨-, h⟩ := Option.ite_none_right_eq_some.mp h
        cases h
        exact .inl ⟨id, bytes, rfl, rfl, Bool.eq_false_iff.mpr hg, if_neg hg, rfl⟩
  | _ =>
      refine .inr ⟨rfl, ?_⟩
      cases hmoves
      rfl

/-- **A step of any task.** -/
theorem Client.submits_cases {turn : Turn} (hs : c.step n turn = some c') :
    (∃ s op, c.submits turn = some s ∧ turn = .call s.completion ∧ c.gone = false ∧
      c'.queue = c.queue ++ [s] ∧ c.calls[s.completion]? = some ⟨op, .send s.id s.bytes⟩ ∧
      c'.calls[s.completion]? = some ⟨op, .await s.id none⟩) ∨
    (c.submits turn = none ∧ ((∀ m, turn ≠ .session m) → c'.queue = c.queue)) := by
  cases turn with
  | session m => exact .inr ⟨rfl, fun h => absurd rfl (h m)⟩
  | drop i =>
      obtain ⟨call, c₁, -, rfl, rfl⟩ := Client.drop_eq_some hs
      exact .inr ⟨rfl, fun _ => rfl⟩
  | call i =>
      obtain ⟨⟨op, place⟩, c₁, place', hc, hstep, rfl⟩ := Client.call_eq_some hs
      have hsub : c.submits (.call i) = place.submits c i := by
        rw [Client.submits, hc, Option.bind_some]
      rcases Place.step_submits hstep with ⟨id, bytes, rfl, rfl, hg, hs, hq⟩ | ⟨hs, hq⟩
      · refine .inl ⟨⟨id, bytes, i⟩, op, hsub.trans hs, rfl, hg, hq, hc, ?_⟩
        have hlt : i < c₁.calls.length := by
          rw [(Place.step_frame hstep).2]
          exact (List.getElem?_eq_some_iff.mp hc).1
        exact List.getElem?_set_self hlt
      · exact .inr ⟨hsub.trans hs, fun _ => hq⟩

/-! ### At most once -/

/-- Each command has submitted at most once, and what it had to. -/
structure Client.Submitted (n : Negotiated) (ops : List Operation) (past : List (Client × Turn))
    (c : Client) : Prop where
  prepared : c.Prepared n ops
  requests : ∀ s ∈ submitted past, Requests n ops s
  nodup : ((submitted past).map Submit.completion).Nodup
  /-- Who has submitted does not come back. -/
  behind : ∀ s ∈ submitted past, ∃ op place, c.calls[s.completion]? = some ⟨op, place⟩ ∧
    place.submitted = true

theorem Client.Submitted.established (n : Negotiated) (bound closers : Nat)
    (ops : List Operation) : (Client.established bound closers ops).Submitted n ops [] :=
  ⟨.established n bound closers ops, fun _ hm => (nomatch hm), .nil, fun _ hm => nomatch hm⟩

/-- Who has submitted stays behind that point. -/
theorem Client.submitted_of_step {turn : Turn} {i : Nat} {op : Operation} {place : Place}
    (hc : c.calls[i]? = some ⟨op, place⟩) (hp : place.submitted = true)
    (h : c.step n turn = some c') :
    ∃ op place', c'.calls[i]? = some ⟨op, place'⟩ ∧ place'.submitted = true := by
  cases ht : turn.isOf i with
  | true => exact ⟨op, (Client.without_self hc hp ht h).2⟩
  | false => exact ⟨op, Client.submitted_step hc hp ht h⟩

theorem Client.Submitted.step {past : List (Client × Turn)} {turn : Turn}
    (h : c.Submitted n ops past) (hs : c.step n turn = some c') :
    c'.Submitted n ops (past ++ [(c, turn)]) := by
  have hbehind : ∀ s ∈ submitted past, ∃ op place, c'.calls[s.completion]? = some ⟨op, place⟩ ∧
      place.submitted = true := by
    intro s hm
    obtain ⟨op, place, hc, hp⟩ := h.behind s hm
    exact Client.submitted_of_step hc hp hs
  rcases Client.submits_cases hs with ⟨s, op, hsub, -, -, -, hc, hc'⟩ | ⟨hsub, -⟩
  · have hnew := submitted_snoc past c turn
    rw [hsub, Option.toList_some] at hnew
    refine ⟨h.prepared.step hs, ?_, ?_, ?_⟩
    · rw [hnew]
      exact List.forall_mem_append.mpr ⟨h.requests,
        List.forall_mem_singleton.mpr (h.prepared _ op _ hc).2⟩
    · rw [hnew, List.map_append, List.map_singleton, List.nodup_append]
      refine ⟨h.nodup, List.nodup_singleton _, ?_⟩
      -- it stands before its submission, so it has not submitted yet
      rintro i hi j hj rfl
      obtain ⟨s', hs', rfl⟩ := List.mem_map.mp hi
      obtain ⟨op', place, hcall, hp⟩ := h.behind s' hs'
      rw [List.mem_singleton.mp hj, hc] at hcall
      cases hcall
      cases hp
    · rw [hnew]
      exact List.forall_mem_append.mpr ⟨hbehind,
        List.forall_mem_singleton.mpr ⟨op, _, hc', rfl⟩⟩
  · have hsame := submitted_snoc past c turn
    rw [hsub, Option.toList_none, List.append_nil] at hsame
    refine ⟨h.prepared.step hs, ?_, ?_, ?_⟩
    · rw [hsame]; exact h.requests
    · rw [hsame]; exact h.nodup
    · rw [hsame]; exact hbehind

/-! ### In order -/

/-- What the driver has received and what stands in the queue is what was submitted, in its order;
only what was in the queue when the driver ended is missing. -/
structure Client.Ordered (past : List (Client × Turn)) (c : Client) : Prop where
  isPart : (receptions past).map Prod.fst ++ c.queue <+: submitted past
  whole : c.gone = false → (receptions past).map Prod.fst ++ c.queue = submitted past

theorem Client.Ordered.established (bound closers : Nat) (ops : List Operation) :
    (Client.established bound closers ops).Ordered [] :=
  ⟨⟨[], rfl⟩, fun _ => rfl⟩

/-- What the driver receives is the head of the queue. -/
theorem Client.queue_of_session {m : Move Nat} (hs : c.step n (.session m) = some c') :
    ∃ queue, c.queue = (Turn.session m).receives.map Prod.fst ++ queue ∧
      c'.queue = if c'.gone then [] else queue := by
  obtain ⟨c₁, h₁, rfl⟩ := Option.map_eq_some_iff.mp hs
  have plain : ∀ {m : Move Nat}, (Turn.session m).receives = [] → c₁.queue = c.queue →
      ∃ queue, c.queue = (Turn.session m).receives.map Prod.fst ++ queue ∧
        c₁.sweep.queue = if c₁.sweep.gone then [] else queue := by
    intro m hr hq
    refine ⟨c.queue, by rw [hr]; rfl, ?_⟩
    rw [← hq]
    rfl
  have quiet : ∀ {m : Move Nat}, (Turn.session m).receives = [] →
      ((c.session.step n.effectiveLimits m).map fun session => { c with session }) = some c₁ →
      ∃ queue, c.queue = (Turn.session m).receives.map Prod.fst ++ queue ∧
        c₁.sweep.queue = if c₁.sweep.gone then [] else queue := by
    intro m hr h
    obtain ⟨session, -, rfl⟩ := Option.map_eq_some_iff.mp h
    exact plain hr rfl
  cases m with
  | abort => exact quiet rfl h₁
  | close i ok => exact quiet rfl h₁
  | perform =>
      obtain ⟨session, -, rfl⟩ := Option.map_eq_some_iff.mp h₁
      exact plain rfl (Client.queue_deliver _ _)
  | select e =>
      cases e with
      | submit s writes =>
          cases hq : c.queue with
          | nil =>
              simp only [Client.sessionStep, hq] at h₁
              cases h₁
          | cons head queue =>
              simp only [Client.sessionStep, hq] at h₁
              obtain ⟨rfl, h₁⟩ := Option.ite_none_right_eq_some.mp h₁
              obtain ⟨session, -, rfl⟩ := Option.map_eq_some_iff.mp h₁
              exact ⟨queue, rfl, rfl⟩
      | shutdown ok => exact quiet rfl h₁
      | submitClosed => exact quiet (m := .select .submitClosed) rfl h₁
      | readFailed => exact quiet rfl h₁
      | read chunk => exact quiet rfl h₁

theorem Client.Ordered.session {past : List (Client × Turn)} {m : Move Nat} (h : c.Ordered past)
    (hs : c.step n (.session m) = some c') : c'.Ordered (past ++ [(c, .session m)]) := by
  obtain ⟨queue, hq, hq'⟩ := Client.queue_of_session hs
  have hsub : submitted (past ++ [(c, .session m)]) = submitted past :=
    (submitted_snoc ..).trans (List.append_nil _)
  have hsame : (receptions (past ++ [(c, .session m)])).map Prod.fst ++ queue =
      (receptions past).map Prod.fst ++ c.queue := by
    rw [receptions_snoc, hq, List.map_append, List.append_assoc]
  constructor
  · rw [hsub]
    refine List.IsPrefix.trans ?_ (hsame ▸ h.isPart)
    rw [hq', List.prefix_append_right_inj]
    split
    · exact List.nil_prefix
    · exact List.prefix_refl _
  · intro hg
    have hbefore : c.gone = false := by
      cases hc : c.gone with
      | false => rfl
      | true => cases (Client.gone_step hc hs).symm.trans hg
    rw [hq', hg, hsub, ← h.whole hbefore, ← hsame]
    rfl

theorem Client.Ordered.step {past : List (Client × Turn)} {turn : Turn} (h : c.Ordered past)
    (hs : c.step n turn = some c') : c'.Ordered (past ++ [(c, turn)]) := by
  rcases Client.session_of_step hs with ⟨m, rfl, -⟩ | ⟨hno, hsame⟩
  · exact h.session hs
  · have hrec : receptions (past ++ [(c, turn)]) = receptions past := by
      rw [receptions_snoc]
      cases turn with
      | session m => exact absurd rfl (hno m)
      | _ => exact List.append_nil _
    have hgone : c'.gone = c.gone := by rw [Client.gone, hsame, Client.gone]
    have hsub := submitted_snoc past c turn
    rcases Client.submits_cases hs with ⟨s, op, hs', -, hg, hq, -, -⟩ | ⟨hs', hq⟩
    · -- the submission goes to the end of both
      have hwhole : (receptions (past ++ [(c, turn)])).map Prod.fst ++ c'.queue =
          submitted (past ++ [(c, turn)]) := by
        rw [hrec, hq, ← List.append_assoc, h.whole hg, hsub, hs', Option.toList_some]
      exact ⟨hwhole ▸ List.prefix_refl _, fun _ => hwhole⟩
    · rw [hs', Option.toList_none, List.append_nil] at hsub
      constructor
      · rw [hrec, hq hno, hsub]
        exact h.isPart
      · intro hg
        rw [hrec, hq hno, hsub]
        exact h.whole (hgone ▸ hg)

/-! ### On the wire -/

/-- What is on the wire, what the driver has still to write, and what it has received. -/
structure Client.Wire (past : List (Client × Turn)) (c : Client) : Prop where
  isPart : wire past <+: frames (receptions past)
  task : ∀ t, c.session.task = some t →
    t.driver.outgoing = wire past ++ t.pending.flatMap Effect.accepted ∧
    t.driver.outgoing <+: frames (receptions past) ∧
    (t.left = none → t.driver.outgoing = frames (receptions past))

theorem Client.Wire.established (bound closers : Nat) (ops : List Operation) :
    (Client.established bound closers ops).Wire [] := by
  refine ⟨⟨[], rfl⟩, fun t ht => ?_⟩
  obtain rfl := Option.some.inj ht
  exact ⟨rfl, ⟨[], rfl⟩, fun _ => rfl⟩

/-- The driver is where it was, and so is the wire. -/
theorem Client.Wire.of_task {past : List (Client × Turn)} {turn : Turn} (h : c.Wire past)
    (ha : c.accepts turn = []) (hr : turn.receives = [])
    (ht : ∀ t, c'.session.task = some t → c.session.task = some t) :
    c'.Wire (past ++ [(c, turn)]) := by
  have hwire := wire_snoc past c turn
  have hrec := receptions_snoc past c turn
  rw [ha, List.append_nil] at hwire
  rw [hr, List.append_nil] at hrec
  constructor
  · rw [hwire, hrec]
    exact h.isPart
  · rw [hwire, hrec]
    exact fun t hc' => h.task t (ht t hc')

/-- An iteration of the driver announces what it is going to write. -/
theorem Client.Wire.select {past : List (Client × Turn)} {e : Event Nat} (h : c.Wire past)
    (hs : c.step n (.session (.select e)) = some c') :
    c'.Wire (past ++ [(c, .session (.select e))]) := by
  obtain ⟨t, t', ht, hsel, hsession⟩ := Client.select_of_step hs
  obtain ⟨hout, -, hall⟩ := h.task t ht
  obtain ⟨hnil, hnone, hd, hl, -⟩ := Task.select_eq_some hsel
  obtain ⟨effects, tail, hlog, -, -⟩ := (iterate_ends n.effectiveLimits t.driver e).log
  have hpend := Task.pending_of_select hsel hlog
  rw [hnil, List.flatMap_nil, List.append_nil] at hout
  have hwire : wire (past ++ [(c, .session (.select e))]) = wire past :=
    (wire_snoc ..).trans (List.append_nil _)
  have hrec : receptions (past ++ [(c, .session (.select e))]) = receptions past ++ e.submissions :=
    receptions_snoc ..
  refine ⟨?_, fun t₁ ht₁ => ?_⟩
  · rw [hwire, hrec, frames_append]
    exact h.isPart.trans (List.prefix_append _ _)
  · rw [hsession] at ht₁
    obtain rfl := Option.some.inj ht₁
    rw [hwire, hrec, frames_append, ← hall hnone, ← hout, hpend, hd, hl]
    refine ⟨?_, ?_⟩
    · rw [Driver.outgoing, hlog, List.flatMap_append, Driver.outgoing]
    · -- a whole frame, nothing, or a part of a frame before the driver leaves
      cases iterate_streams n.effectiveLimits t.driver e with
      | silent _ _ he hr =>
          rw [hr, he]
          exact ⟨List.prefix_append _ _, fun _ => (List.append_nil _).symm⟩
      | whole s writes _ hr =>
          rw [hr, Event.submissions, frames_singleton]
          exact ⟨List.prefix_refl _, fun _ => rfl⟩
      | failed s writes _ hw hr hleft =>
          rw [hr, Event.submissions, frames_singleton, List.prefix_append_right_inj]
          exact ⟨(writeAll_accepts writes s.bytes).1, fun hl => absurd hl hleft⟩
      | refused s writes _ reason hi hr hleft =>
          rw [hr]
          exact ⟨List.prefix_append _ _, fun hl => absurd hl hleft⟩

theorem Client.Wire.step {past : List (Client × Turn)} {turn : Turn} (h : c.Wire past)
    (hs : c.step n turn = some c') : c'.Wire (past ++ [(c, turn)]) := by
  rcases Client.session_of_step hs with ⟨m, rfl, hm⟩ | ⟨hno, hsame⟩
  · cases m with
    | select e => exact h.select hs
    | perform =>
        obtain ⟨t, x, pending, ht, hp, hsession⟩ := Session.perform_eq_some hm
        obtain ⟨hout, hpart, hall⟩ := h.task t ht
        have hwire : wire (past ++ [(c, .session .perform)]) = wire past ++ x.accepted := by
          rw [wire_snoc, Client.accepts, Session.next, ht, Option.bind_some, hp, List.head?_cons,
            Option.elim_some]
        have hrec : receptions (past ++ [(c, .session .perform)]) = receptions past :=
          (receptions_snoc ..).trans (List.append_nil _)
        rw [hp, List.flatMap_cons, ← List.append_assoc, ← hwire] at hout
        refine ⟨?_, fun t₁ ht₁ => ?_⟩
        · rw [hrec]
          exact (hout ▸ List.prefix_append _ _).trans hpart
        · rw [hsession] at ht₁
          obtain rfl := Option.some.inj ht₁
          rw [hrec]
          exact ⟨hout, hpart, hall⟩
    | abort =>
        obtain ⟨t, -, -, hsession⟩ := Session.abort_eq_some hm
        exact h.of_task rfl rfl fun t ht => by
          rw [hsession] at ht
          cases ht
    | close i ok =>
        obtain ⟨closer, s₁, closer', -, hstep, hsession⟩ := Session.close_eq_some hm
        refine h.of_task rfl rfl fun t ht => ?_
        rw [hsession] at ht
        exact (Closer.step_frame hstep).1 ▸ ht
  · cases turn with
    | session m => exact absurd rfl (hno m)
    | call i => exact h.of_task rfl rfl fun t ht => hsame ▸ ht
    | drop i => exact h.of_task rfl rfl fun t ht => hsame ▸ ht

/-! ### Under new identifiers -/

/-- The identifiers submitted, and those that are going to be, have been given. -/
def Client.Numbered (past : List (Client × Turn)) (c : Client) : Prop :=
  ((submitted past).map Submit.id : List UInt64) + sending c.calls ≤
    (given past : Multiset UInt64)

theorem Client.Numbered.call {past : List (Client × Turn)} {i : Nat} (h : c.Numbered past)
    (hs : c.step n (.call i) = some c') : c'.Numbered (past ++ [(c, .call i)]) := by
  obtain ⟨⟨op, place⟩, c₁, place', hc, hstep, rfl⟩ := Client.call_eq_some hs
  obtain ⟨rest, hold, hnew, -⟩ := sending_set hc place'
  have hsub := submitted_snoc past c (.call i)
  have hgiven := given_snoc past c (.call i)
  rw [Client.submits, hc, Option.bind_some] at hsub
  rw [Client.gives, hc, Option.bind_some] at hgiven
  rw [Client.Numbered, hold] at h
  rw [Client.Numbered, (Place.step_frame hstep).2, hnew, hsub, hgiven]
  rcases Place.step_submits hstep with ⟨id, bytes, rfl, rfl, -, hs', -⟩ | ⟨hs', hq⟩
  · -- the identifier goes from the command to its submission
    rw [hs', Option.toList_some, List.map_append, ← Multiset.coe_add]
    calc _ + ({id} : Multiset UInt64) + (0 + rest)
      _ = ((submitted past).map Submit.id : List UInt64) + ({id} + rest) := by
          rw [zero_add, add_assoc]
      _ ≤ (given past : Multiset UInt64) := h
      _ = (given past ++ [] : List UInt64) := by rw [List.append_nil]
  · rw [hs', Option.toList_none, List.append_nil]
    rcases Place.step_takes hstep with ⟨payload, rfl, -, -, -, hid⟩ | ⟨id, bytes, -, -, rfl⟩ |
      ⟨hp, -, -, hnone, -⟩
    · -- it takes the identifier it holds from now on
      have hle : (place'.sending.toList : Multiset UInt64) ≤ {c.allocator.allocate.1} := by
        cases hp : place'.sending with
        | none => exact bot_le
        | some id => rw [hid id hp]; exact le_refl _
      calc _ + ((place'.sending.toList : Multiset UInt64) + rest)
        _ ≤ ((submitted past).map Submit.id : List UInt64) + ({c.allocator.allocate.1} + rest) := by
            gcongr
        _ = ((submitted past).map Submit.id : List UInt64) + (0 + rest) +
              {c.allocator.allocate.1} := by
            rw [zero_add, add_comm {c.allocator.allocate.1} rest, add_assoc]
        _ ≤ (given past : Multiset UInt64) + {c.allocator.allocate.1} := by gcongr; exact h
        _ = (given past ++ [c.allocator.allocate.1] : List UInt64) := Multiset.coe_add _ _
    · exact absurd (congrArg List.length hq) (by simp)
    · rw [hp, hnone, Option.toList_none, List.append_nil]
      refine le_trans ?_ h
      gcongr
      exact bot_le

theorem Client.Numbered.established (bound closers : Nat) (ops : List Operation) :
    (Client.established bound closers ops).Numbered [] := by
  rw [Client.Numbered]
  exact (le_of_eq (zero_add _)).trans
    ((Multiset.le_add_left _ _).trans (Client.Holds.established bound closers ops).held)

theorem Client.Numbered.step {past : List (Client × Turn)} {turn : Turn} (h : c.Numbered past)
    (hs : c.step n turn = some c') : c'.Numbered (past ++ [(c, turn)]) := by
  have hsub := submitted_snoc past c turn
  have hgiven := given_snoc past c turn
  cases turn with
  | call i => exact h.call hs
  | session m =>
      obtain ⟨session, queue, -, -, rfl⟩ := Client.session_eq_some hs
      rw [Client.submits, Option.toList_none, List.append_nil] at hsub
      rw [Client.gives, Option.toList_none, List.append_nil] at hgiven
      rw [Client.Numbered, hsub, hgiven]
      show _ + sending (Client.deliver { c with session, queue } (c.session.performs m)).calls ≤ _
      rw [(sending_deliver { c with session, queue } (c.session.performs m)).1]
      exact h
  | drop i =>
      obtain ⟨call, c₁, hc, rfl, rfl⟩ := Client.drop_eq_some hs
      obtain ⟨rest, hold, hnew, -⟩ := sending_set hc .dropped
      rw [Client.submits, Option.toList_none, List.append_nil] at hsub
      rw [Client.gives, Option.toList_none, List.append_nil] at hgiven
      rw [Client.Numbered, hold] at h
      rw [Client.Numbered, hsub, hgiven, hnew]
      refine le_trans ?_ h
      gcongr
      exact bot_le

/-! ### The invariant -/

/-- The way of the requests, after the steps `past` in a session with the commands `ops`. -/
structure Client.Exchange (n : Negotiated) (ops : List Operation) (past : List (Client × Turn))
    (c : Client) : Prop where
  submitted : c.Submitted n ops past
  ordered : c.Ordered past
  onWire : c.Wire past
  numbered : c.Numbered past
  holds : c.Holds ops.length past

theorem Client.Exchange.established (n : Negotiated) (bound closers : Nat)
    (ops : List Operation) : (Client.established bound closers ops).Exchange n ops [] :=
  ⟨.established n bound closers ops, .established bound closers ops,
    .established bound closers ops, .established bound closers ops,
    .established bound closers ops⟩

theorem Client.Exchange.step {past : List (Client × Turn)} {turn : Turn}
    (h : c.Exchange n ops past) (hs : c.step n turn = some c') :
    c'.Exchange n ops (past ++ [(c, turn)]) :=
  ⟨h.submitted.step hs, h.ordered.step hs, h.onWire.step hs, h.numbered.step hs, h.holds.step hs⟩

theorem Client.Exchange.exec {bound closers : Nat} {schedule : List Turn}
    (h : exec (Client.step n) (.established bound closers ops) schedule = some c) :
    c.Exchange n ops (visited (Client.step n) (.established bound closers ops) schedule) :=
  exec_invariant (I := Client.Exchange n ops) (fun _ _ _ _ hc hs => hc.step hs) []
    (.established n bound closers ops) h

/-- No identifier is submitted twice. -/
theorem Client.Exchange.nodup_ids {past : List (Client × Turn)} (h : c.Exchange n ops past)
    (hops : ops.length < 2 ^ 64 - 1) : ((Connection.submitted past).map Submit.id).Nodup := by
  have hle : ((Connection.submitted past).map Submit.id : Multiset UInt64) ≤ given past :=
    (Multiset.le_add_right _ _).trans h.numbered
  exact Multiset.coe_nodup.mp (Multiset.nodup_of_le hle
    (Multiset.coe_nodup.mpr (List.nodup_cons.mp (h.holds.nodup hops)).2))

end Steps

end Rp1.Connection

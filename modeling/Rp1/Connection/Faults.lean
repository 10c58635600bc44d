import Rp1.Connection.Ambiguity
import Rp1.Connection.Service

/-!
# Connection — commands under faults

A client and a server, when everything may go wrong that the client does not control.  Writes stop
short or fail, reads fail, the handles close the session, the runtime drops the driver and callers
drop their commands, each of it at any time.  The server performs a request it has read at most
once, and answers it or does not; the answer is the result, or an error.  Who has performed a
request and answers it with an error says `INTERNAL_ERROR`.

`faults_linearizable` is what a caller can rely on then, and it is what `is_ambiguous` promises.  A
command that returned a value took effect, once, with this result, and one that returned an error
that is not ambiguous never takes effect.  One that returned an ambiguous error, or was dropped, may
take effect once, now or later, and the state of the server is always one that some order of them
explains.
-/

namespace Rp1.Connection
open Codec Protocol Command Loop Runs Linear

/-! ### The model -/

/-- The driver is handed bytes in this step. -/
def Turn.isRead : Turn → Bool
  | .session (.select (.read _)) => true
  | .session _ | .call _ | .drop _ => false

/-- A step of a client and its peer in which everything may fail; only what the driver reads comes
from the peer. -/
def Link.faultyStep (n : Negotiated) (l : Link) : LinkTurn → Option Link
  | .client turn =>
      if turn.isRead then none
      else
        (l.client.step n turn).map fun client =>
          { l with client, sent := l.sent ++ l.client.accepts turn }
  | .answer id bytes => l.step n (.answer id bytes)
  | .deliver k => l.step n (.deliver k)

section Model
variable {S χ : Type}

/-- Who moves next. -/
inductive FaultyTurn (χ : Type) where
  | link (move : LinkTurn)
  /-- The server performs a request it has read. -/
  | perform (id : UInt64) (choice : χ)

def Service.exposed (bound closers : Nat) (ops : List Operation) (store : S) : Service S :=
  ⟨⟨.established bound closers ops, [], [], []⟩, store, []⟩

/-- The frame at the head of `bytes` is the `ERROR` of a server that cannot say what it has done. -/
def isInternalError (limits : Limits) (id : UInt64) (bytes : Bytes) : Bool :=
  match decode bytes ⟨.client, .negotiated, limits, [id]⟩ with
  | .frame f => f.header.kind = .error ∧ (errorOf f).cls = .internalError
  | .need _ | .failure .. => false

/-- The server may answer the request `id` with `bytes`: with the result or `INTERNAL_ERROR` if it
has performed it, and with an error if it has not. -/
def Service.justifies (server : Server S χ) (n : Negotiated) (s : Service S) (id : UInt64)
    (bytes : Bytes) : Bool :=
  match s.log.find? fun e => e.1 = id with
  | some e =>
      (encodeWithMax (server.outgoing id e.2.2) n.effectiveMaximumFrameSize
        n.effectiveMaximumMetadataSize).toOption = some bytes ||
      isInternalError n.effectiveLimits id bytes
  | none => isError n.effectiveLimits id bytes

def Service.faultyStep (server : Server S χ) (n : Negotiated) (s : Service S) :
    FaultyTurn χ → Option (Service S)
  | .link (.answer id bytes) =>
      if s.justifies server n id bytes then
        (s.link.faultyStep n (.answer id bytes)).map fun link => { s with link }
      else none
  | .link move => (s.link.faultyStep n move).map fun link => { s with link }
  | .perform id choice =>
      -- not again, and not what it has refused
      if id ∉ s.log.map Prod.fst ∧ id ∉ s.link.answered.map Prod.fst then do
        let f ← (readRequests n.effectiveLimits s.link.sent).1.frames.find? fun f =>
          f.header.requestId.value = id
        let op ← readOperation f
        let (store, reply) := server.perform choice s.store op
        some ⟨s.link, store, s.log ++ [(id, op, reply)]⟩
      else none

/-- The step that the client takes in a step of the system. -/
def Service.faultyTurn (s : Service S) : FaultyTurn χ → Option (Client × Turn)
  | .link move => s.link.turn move
  | .perform .. => none

end Model

/-! ### What a command hears and returns -/

/-- The `i`-th command hears its answer, or an ambiguous error. -/
def Hears (n : Negotiated) (past : List (Client × Turn)) (answered : List (UInt64 × Bytes))
    (i : Nat) (outcome : Except DriverError Bytes) : Prop :=
  (∃ f, Gets n past answered i f ∧ outcome = .ok f.bytes) ∨
    ∃ err, outcome = .error err ∧ (CommandError.fromDriver err).isAmbiguous = true

/-- The `i`-th command returns what it reads in its answer, an ambiguous error, or the error with
which it was refused before it submitted anything. -/
inductive Concludes (n : Negotiated) (past : List (Client × Turn))
    (answered : List (UInt64 × Bytes)) (i : Nat) (op : Operation) :
    Except CommandError Reply → Prop where
  | answered (f : Frame) (h : Gets n past answered i f) :
      Concludes n past answered i op ((op.interpret f).mapError .fromCommandFailure)
  | ambiguous (e : CommandError) (h : e.isAmbiguous = true) :
      Concludes n past answered i op (.error e)
  | refused (e : CommandError) (h : ∀ s ∈ submitted past, s.completion ≠ i) :
      Concludes n past answered i op (.error e)

section Commands
variable {n : Negotiated} {past past' : List (Client × Turn)} {c c₁ : Client}
  {answered answered' : List (UInt64 × Bytes)} {i : Nat} {op : Operation}

theorem Hears.mono {outcome : Except DriverError Bytes} (h : Hears n past answered i outcome)
    (hs : submitted past ⊆ submitted past') (ha : answered ⊆ answered') :
    Hears n past' answered' i outcome := by
  refine h.imp_left ?_
  rintro ⟨f, hf, rfl⟩
  exact ⟨f, hf.mono hs ha, rfl⟩

theorem Concludes.mono {result : Except CommandError Reply}
    (h : Concludes n past answered i op result) (hs : submitted past ⊆ submitted past')
    (ha : answered ⊆ answered')
    (hnot : (∀ s ∈ submitted past, s.completion ≠ i) → ∀ s ∈ submitted past', s.completion ≠ i) :
    Concludes n past' answered' i op result := by
  cases h with
  | answered f hf => exact .answered f (hf.mono hs ha)
  | ambiguous e he => exact .ambiguous e he
  | refused e he => exact .refused e (hnot he)

/-- What it heard is what it returns. -/
theorem Hears.concludes {outcome : Except DriverError Bytes} (h : Hears n past answered i outcome) :
    Concludes n past answered i op (op.conclude n outcome) := by
  rcases h with ⟨f, hf, rfl⟩ | ⟨err, rfl, he⟩
  · have hlegal : f.Legal ⟨.client, .negotiated, n.effectiveLimits,
        [f.header.requestId.value]⟩ := by
      obtain ⟨s, -, -, -, hid, hl⟩ := hf
      exact hid ▸ hl
    rw [Operation.conclude, Operation.finish_of_legal hlegal]
    exact .answered f hf
  · exact .ambiguous _ he

/-- **The last access of a command.** -/
theorem Place.concludes {place : Place} {result : Except CommandError Reply}
    (hinbox : ∀ id outcome, place = .await id (some outcome) → Hears n past answered i outcome)
    (hoff : place.submitted = false → ∀ s ∈ Connection.submitted past, s.completion ≠ i)
    (h : place.step n c i op = some (c₁, .done result)) :
    Concludes n past answered i op result := by
  cases result with
  | ok reply =>
      obtain ⟨id, bytes, rfl, hfinish⟩ := Place.step_succeeded h
      have hc : Concludes n past answered i op (op.conclude n (.ok bytes)) :=
        (hinbox id _ rfl).concludes
      rw [Operation.conclude, hfinish] at hc
      exact hc
  | error e =>
      rcases Place.step_failed h with ⟨id, outcome, rfl, he⟩ | ⟨rfl, rfl⟩ | ⟨ho, -⟩
      · rw [← he]
        exact (hinbox id outcome rfl).concludes
      · exact .ambiguous _ (ConnectionState.isAmbiguous_refusal _)
      · refine .refused e (hoff ?_)
        cases place <;> first | rfl | cases ho

end Commands

/-! ### The invariant -/

/-- A client and its peer under faults, after the steps `past` of the client.  The streams are in
order as long as the driver is in its loop. -/
structure Link.Facing (n : Negotiated) (bound : Nat) (ops : List Operation)
    (past : List (Client × Turn)) (l : Link) : Prop where
  exchange : l.client.Exchange n ops past
  steady : l.client.Steady bound
  answered : l.client.Answered n past
  sent : l.sent = wire past
  flowing : ∀ t, l.client.session.task = some t → t.left = none →
    ∃ read rest, l.Flowing n past t read rest
  hears : l.client.Hears (Hears n past l.answered)
  calls : ∀ (i : Nat) (op : Operation) (result : Except CommandError Reply),
    l.client.calls[i]? = some ⟨op, .done result⟩ → Concludes n past l.answered i op result

section Facing
variable {n : Negotiated} {bound : Nat} {ops : List Operation} {past : List (Client × Turn)}
  {l l' : Link} {t t' : Task Nat} {read rest : List (UInt64 × Bytes)}

theorem Link.Facing.established (n : Negotiated) (bound closers : Nat) (ops : List Operation) :
    Link.Facing n bound ops [] ⟨.established bound closers ops, [], [], []⟩ where
  exchange := .established n bound closers ops
  steady := .established bound closers ops
  answered := .established n bound closers ops
  sent := rfl
  flowing := fun t ht _ => by
    obtain rfl := Option.some.inj ht
    exact ⟨[], [], {
      looping := rfl
      quiet := fun _ hx => nomatch hx
      split := rfl
      nodup := .nil
      whole := fun _ hp => nomatch hp
      asked := fun _ hp => nomatch hp
      stream := rfl
      short := fun _ hp => nomatch hp
      waits := fun _ hs => nomatch hs }⟩
  hears := .established _ bound closers ops
  calls := fun i op result hc => by
    obtain ⟨_, -, h⟩ := Option.map_eq_some_iff.mp ((List.getElem?_map ..).symm.trans hc)
    cases h

/-- **What the client does in a step**, when the streams stay in order and what the driver sends are
answers and ambiguous errors. -/
theorem Link.Facing.follow {turn : Turn} {client : Client} (channel : Bytes)
    (h : l.Facing n bound ops past) (hs : l.client.step n turn = some client)
    (hflow : ∀ t, client.session.task = some t → t.left = none → ∃ read rest,
      Link.Flowing n (past ++ [(l.client, turn)])
        ⟨client, l.sent ++ l.client.accepts turn, l.answered, channel⟩ t read rest)
    (hnew : ∀ e t t', turn = .session (.select e) → l.client.session.task = some t →
      t.select n.effectiveLimits e = some t' →
      ∀ id i outcome, .send id i outcome ∈ t'.pending → Hears n past l.answered i outcome) :
    Link.Facing n bound ops (past ++ [(l.client, turn)])
      ⟨client, l.sent ++ l.client.accepts turn, l.answered, channel⟩ := by
  have hmore : submitted past ⊆ submitted (past ++ [(l.client, turn)]) := by
    rw [submitted_snoc]
    exact List.subset_append_left _ _
  refine {
    exchange := h.exchange.step hs
    steady := h.steady.step hs
    answered := h.answered.step hs
    sent := ?_
    flowing := hflow
    hears := (h.hears.step hs hnew).mono fun i outcome hP => hP.mono hmore (List.Subset.refl _)
    calls := fun i op result hc => ?_ }
  · rw [wire_snoc, h.sent]
  · obtain ⟨place, hplace, hev⟩ := Client.evolves hs hc
    -- a command that is done does not submit any more
    have hold : ∀ {result}, Concludes n past l.answered i op result →
        Concludes n (past ++ [(l.client, turn)]) l.answered i op result := by
      intro result hr
      refine hr.mono hmore (List.Subset.refl _) fun hnot s hm => ?_
      rw [submitted_snoc] at hm
      rcases List.mem_append.mp hm with hm | hm
      · exact hnot s hm
      · rintro rfl
        rcases Client.submits_cases hs with ⟨s', op', hsub, -, -, -, -, hc'⟩ | ⟨hsub, -⟩
        · rw [hsub, Option.toList_some, List.mem_singleton] at hm
          subst hm
          rw [hc] at hc'
          cases hc'
        · rw [hsub] at hm
          cases hm
    cases hev with
    | same => exact hold (h.calls i op result hplace)
    | moved c₁ _ _ hstep =>
        refine hold (Place.concludes ?_ (fun hno s hm hi => ?_) hstep)
        · rintro id outcome rfl
          exact h.hears.inbox i op id outcome hplace
        · obtain ⟨_, _, hcall, hsub⟩ := h.exchange.submitted.behind s hm
          rw [hi, hplace] at hcall
          cases hcall
          cases hno.symm.trans hsub

/-- An event that is no read tells nobody but that the session ends. -/
theorem Task.hears_of_select {limits : Limits} {e : Event Nat}
    (hsel : t.select limits e = some t') (he : ∀ chunk, e ≠ .read chunk) {id : UInt64} {i : Nat}
    {outcome : Except DriverError Bytes} (hm : .send id i outcome ∈ t'.pending)
    {answered : List (UInt64 × Bytes)} : Hears n past answered i outcome := by
  cases Task.told_of_select hsel _ hm with
  | round chunk => exact absurd rfl (he chunk)
  | fatal chunk => exact absurd rfl (he chunk)
  | ended _ _ _ error hend => exact .inr ⟨error, rfl, isAmbiguous_of_ended hend⟩
  | silent _ _ hx => cases hx

/-- A write that fails is the end of the loop. -/
theorem Task.write_of_select {limits : Limits} {s : Submit Nat} {writes : List Nat}
    {live : InFlightRegistry} (hsel : t.select limits (.submit s writes) = some t')
    (hi : t.driver.live.insert s.id = .ok live) (hl : t'.left = none) :
    (writeAll writes s.bytes).2 = true := by
  obtain ⟨-, -, -, hleft, -⟩ := Task.select_eq_some hsel
  by_contra hw
  rw [hl, iterate, hi] at hleft
  simp only [if_neg hw] at hleft
  cases hleft

/-- A read that fails while nobody waits changes nothing. -/
theorem Task.idle_of_select {limits : Limits} (hsel : t.select limits .readFailed = some t')
    (hl : t'.left = none) : t'.driver = t.driver ∧ t'.pending = [] := by
  obtain ⟨-, -, hd, hleft, -⟩ := Task.select_eq_some hsel
  have hit := iteration limits t.driver .readFailed
  generalize hr : iterate limits t.driver .readFailed = r at hit hd hleft
  cases hit with
  | idle =>
      have hsame : t.driver.bottom.1 = t.driver := by
        rw [Driver.bottom]
        split <;> rfl
      refine ⟨hd.trans hsame, Task.pending_of_select hsel ?_⟩
      rw [hr, hsame, List.append_nil]
  | lost =>
      rw [hl] at hleft
      cases hleft

/-- **A step of the client**, whatever goes wrong in it. -/
theorem Link.Facing.client_step {turn : Turn} {client : Client} (hops : ops.length < 2 ^ 64 - 1)
    (h : l.Facing n bound ops past) (hr : turn.isRead = false)
    (hs : l.client.step n turn = some client) :
    Link.Facing n bound ops (past ++ [(l.client, turn)])
      { l with client, sent := l.sent ++ l.client.accepts turn } := by
  have hrec := receptions_snoc past l.client turn
  have hnoread : ∀ e chunk, turn = .session (.select e) → e ≠ .read chunk := by
    rintro e chunk rfl rfl
    cases hr
  refine h.follow l.channel hs (fun t' ht' hleft => ?_) fun e t t' hturn ht hsel id i outcome hm =>
    Task.hears_of_select hsel (fun chunk => hnoread e chunk hturn) hm
  -- nothing happens between the driver and the peer, unless the driver takes a submission
  have hframe : ∀ t, l.client.session.task = some t → turn.receives = [] →
      t'.driver = t.driver → t'.left = t.left → t'.pending ⊆ t.pending →
      ∃ read rest, Link.Flowing n (past ++ [(l.client, turn)])
        ⟨client, l.sent ++ l.client.accepts turn, l.answered, l.channel⟩ t' read rest := by
    intro t ht hquiet hd hl hp
    obtain ⟨read, rest, hflow⟩ := h.flowing t ht (hl.symm.trans hleft)
    rw [hquiet, List.append_nil] at hrec
    exact ⟨read, rest, hflow.frame hrec rfl rfl hd hl hp⟩
  rcases Client.session_of_step hs with ⟨m, rfl, hm⟩ | ⟨hno, hsame⟩
  · cases m with
    | select e =>
        obtain ⟨t, t₁, hallow, ht, hsel, hsession⟩ := Session.select_eq_some hm
        rw [hsession] at ht'
        obtain rfl := Option.some.inj ht'
        obtain ⟨hnil, hnone, -, hend, -⟩ := Task.select_eq_some hsel
        cases e with
        | submit s writes =>
            obtain ⟨live, hi⟩ := h.exchange.holds.insert hops ht hs
            obtain ⟨read, rest, hflow⟩ := h.flowing t ht hnone
            exact ⟨read, rest, hflow.submit hrec ((h.exchange.step hs).nodup_received hops) rfl rfl
              hsel hi (Task.write_of_select hsel hi hleft) (h.steady.session.submitOpen t ht)⟩
        | shutdown ok =>
            rw [hleft] at hend
            cases ok <;> cases hend
        | submitClosed => cases hallow
        | readFailed =>
            obtain ⟨hd, hp⟩ := Task.idle_of_select hsel hleft
            exact hframe t ht rfl hd (hleft.trans hnone.symm) (hp ▸ List.nil_subset _)
        | read chunk => cases hr
    | perform =>
        obtain ⟨t, x, pending, ht, hp, hsession⟩ := Session.perform_eq_some hm
        rw [hsession] at ht'
        obtain rfl := Option.some.inj ht'
        exact hframe t ht rfl rfl rfl (hp ▸ List.subset_cons_self _ _)
    | abort =>
        obtain ⟨t, -, -, hsession⟩ := Session.abort_eq_some hm
        rw [hsession] at ht'
        cases ht'
    | close i ok =>
        obtain ⟨closer, s₁, closer', -, hstep, hsession⟩ := Session.close_eq_some hm
        rw [hsession] at ht'
        exact hframe t' ((Closer.step_frame hstep).1 ▸ ht') rfl rfl rfl (List.Subset.refl _)
  · have hquiet : turn.receives = [] := by
      cases turn with
      | session m => exact absurd rfl (hno m)
      | call i => rfl
      | drop i => rfl
    exact hframe t' (hsame ▸ ht') hquiet rfl rfl (List.Subset.refl _)

/-- **The driver reads.** -/
theorem Link.Facing.deliver_step {k : Nat} {client : Client} (h : l.Facing n bound ops past)
    (hs : l.client.step n (l.reads k) = some client) :
    Link.Facing n bound ops (past ++ [(l.client, l.reads k)])
      { l with client, channel := l.channel.drop (k + 1) } := by
  obtain ⟨t, t', ht, hsel, hsession⟩ := Client.select_of_step hs
  obtain ⟨-, hnone, -⟩ := Task.select_eq_some hsel
  obtain ⟨read, rest, hflow⟩ := h.flowing t ht hnone
  have hrec : receptions (past ++ [(l.client, l.reads k)]) = receptions past :=
    (receptions_snoc ..).trans (List.append_nil _)
  obtain ⟨hflow', hsends⟩ :=
    hflow.receive ⟨client, l.sent ++ l.client.accepts (l.reads k), l.answered,
      l.channel.drop (k + 1)⟩ (h.steady.wired.sound t ht) (h.steady.session.submitOpen t ht) hrec
      rfl (List.take_append_drop _ _).symm hsel
  have hfollow := h.follow (l.channel.drop (k + 1)) hs (fun t₁ ht₁ _ => ?_) ?_
  · have hsent : l.sent ++ l.client.accepts (l.reads k) = l.sent := List.append_nil _
    rw [hsent] at hfollow
    exact hfollow
  · rw [hsession] at ht₁
    obtain rfl := Option.some.inj ht₁
    exact hflow'
  · intro e t₂ t₃ he ht₂ hsel' id i outcome hmem
    cases he
    obtain rfl := Option.some.inj (ht.symm.trans ht₂)
    obtain rfl := Option.some.inj (hsel.symm.trans hsel')
    obtain ⟨hw, bytes, hb, rfl⟩ := hsends id i outcome hmem
    obtain ⟨s, hs', hp⟩ := h.answered.waiting (id, i) (by rw [Session.waiting, ht]; exact hw)
    cases hp
    obtain ⟨f, hlegal, rfl, hid⟩ := answersOnly_iff.mp (hflow.whole _ hb)
    exact .inl ⟨f, ⟨s, h.exchange.received_subset hs', rfl, hb, hid, hlegal⟩, rfl⟩

/-- **The peer answers**, whether anybody reads it or not. -/
theorem Link.Facing.answer_step {id : UInt64} {bytes : Bytes} (hops : ops.length < 2 ^ 64 - 1)
    (h : l.Facing n bound ops past) (hid : id ∈ (readRequests n.effectiveLimits l.sent).1.ids)
    (hnew : id ∉ l.answered.map Prod.fst)
    (hb : answersOnly n.effectiveLimits id bytes = true) :
    Link.Facing n bound ops past
      { l with answered := l.answered ++ [(id, bytes)], channel := l.channel ++ bytes } := by
  have hasked := h.exchange.received_of_read hops (h.sent ▸ hid)
  have hmore : l.answered ⊆ l.answered ++ [(id, bytes)] := List.subset_append_left _ _
  exact { h with
    flowing := fun t ht hleft => by
      obtain ⟨read, rest, hflow⟩ := h.flowing t ht hleft
      exact ⟨read, rest ++ [(id, bytes)], hflow.answer hb hnew hasked⟩
    hears := h.hears.mono fun i outcome hP => hP.mono (List.Subset.refl _) hmore
    calls := fun i op result hc =>
      (h.calls i op result hc).mono (List.Subset.refl _) hmore fun hnot => hnot }

theorem Link.Facing.step {turn : LinkTurn} (hops : ops.length < 2 ^ 64 - 1)
    (h : l.Facing n bound ops past) (hs : l.faultyStep n turn = some l') :
    l'.Facing n bound ops (past ++ (l.turn turn).toList) := by
  cases turn with
  | client turn =>
      obtain ⟨hr, hs⟩ := Option.ite_none_left_eq_some.mp hs
      obtain ⟨client, hc, rfl⟩ := Option.map_eq_some_iff.mp hs
      exact h.client_step hops (Bool.eq_false_iff.mpr hr) hc
  | answer id bytes =>
      obtain ⟨⟨hid, hnew, hb⟩, hs⟩ := Option.ite_none_right_eq_some.mp hs
      cases hs
      rw [Link.turn, Option.toList_none, List.append_nil]
      exact h.answer_step hops hid hnew hb
  | deliver k =>
      obtain ⟨-, hs⟩ := Option.ite_none_right_eq_some.mp hs
      obtain ⟨client, hc, rfl⟩ := Option.map_eq_some_iff.mp hs
      exact h.deliver_step hc

end Facing

/-! ### The log and the answers -/

section Steps
variable {S χ : Type} {server : Server S χ} {spec : S → Operation → S → Reply → Prop}
  {n : Negotiated} {bound : Nat} {ops : List Operation} {store₀ : S}
  {past : List (Client × Turn)} {s s' : Service S}

/-- A step of the system is one of the link, or the server performs a request. -/
inductive Service.Suffers (server : Server S χ) (n : Negotiated) (s : Service S) :
    FaultyTurn χ → Service S → Prop where
  | link (move : LinkTurn) (link : Link) (hlink : s.link.faultyStep n move = some link)
      (hanswers : ∀ p ∈ move.answers, s.justifies server n p.1 p.2 = true) :
      s.Suffers server n (.link move) { s with link }
  | performs (f : Frame) (op : Operation) (choice : χ)
      (hf : f ∈ (readRequests n.effectiveLimits s.link.sent).1.frames)
      (hop : readOperation f = some op)
      (hlog : f.header.requestId.value ∉ s.log.map Prod.fst)
      (hanswered : f.header.requestId.value ∉ s.link.answered.map Prod.fst) :
      s.Suffers server n (.perform f.header.requestId.value choice)
        ⟨s.link, (server.perform choice s.store op).1,
          s.log ++ [(f.header.requestId.value, op, (server.perform choice s.store op).2)]⟩

theorem Service.suffers_of_step {turn : FaultyTurn χ} (h : s.faultyStep server n turn = some s') :
    s.Suffers server n turn s' := by
  cases turn with
  | link move =>
      cases move with
      | client turn =>
          obtain ⟨link, hlink, rfl⟩ := Option.map_eq_some_iff.mp h
          exact .link _ link hlink fun _ hp => nomatch hp
      | answer id bytes =>
          obtain ⟨hj, h⟩ := Option.ite_none_right_eq_some.mp h
          obtain ⟨link, hlink, rfl⟩ := Option.map_eq_some_iff.mp h
          exact .link _ link hlink (List.forall_mem_singleton.mpr hj)
      | deliver k =>
          obtain ⟨link, hlink, rfl⟩ := Option.map_eq_some_iff.mp h
          exact .link _ link hlink fun _ hp => nomatch hp
  | perform id choice =>
      obtain ⟨⟨hlog, hanswered⟩, h⟩ := Option.ite_none_right_eq_some.mp h
      obtain ⟨f, hf, h⟩ := Option.bind_eq_some_iff.mp h
      obtain ⟨op, hop, h⟩ := Option.bind_eq_some_iff.mp h
      cases h
      have hid := List.find?_some hf
      rw [decide_eq_true_iff] at hid
      subst hid
      exact .performs f op choice (List.mem_of_find?_eq_some hf) hop hlog hanswered

theorem Link.answered_of_faultyStep {l l' : Link} {turn : LinkTurn}
    (h : l.faultyStep n turn = some l') :
    l'.answered = l.answered ++ turn.answers ∧
      ∀ p ∈ turn.answers, p.1 ∉ l.answered.map Prod.fst := by
  cases turn with
  | client turn =>
      obtain ⟨-, h⟩ := Option.ite_none_left_eq_some.mp h
      obtain ⟨client, -, rfl⟩ := Option.map_eq_some_iff.mp h
      exact ⟨(List.append_nil _).symm, fun _ hp => nomatch hp⟩
  | answer id bytes => exact Link.answered_of_step h
  | deliver k => exact Link.answered_of_step h

/-- What the server has answered, by what it has done. -/
inductive Justified (server : Server S χ) (n : Negotiated)
    (log : List (UInt64 × Operation × Reply)) : UInt64 × Bytes → Prop where
  | result (e : UInt64 × Operation × Reply) (bytes : Bytes) (he : e ∈ log)
      (h : encodeWithMax (server.outgoing e.1 e.2.2) n.effectiveMaximumFrameSize
        n.effectiveMaximumMetadataSize = .ok bytes) : Justified server n log (e.1, bytes)
  | internal (id : UInt64) (bytes : Bytes)
      (h : isInternalError n.effectiveLimits id bytes = true) : Justified server n log (id, bytes)
  | refused (id : UInt64) (bytes : Bytes) (hno : id ∉ log.map Prod.fst)
      (h : isError n.effectiveLimits id bytes = true) : Justified server n log (id, bytes)

theorem Service.justified {id : UInt64} {bytes : Bytes} (h : s.justifies server n id bytes = true) :
    Justified server n s.log (id, bytes) := by
  rw [Service.justifies] at h
  split at h
  · rename_i e hfind
    have hid := List.find?_some hfind
    rw [decide_eq_true_iff] at hid
    subst hid
    rw [Bool.or_eq_true, decide_eq_true_iff] at h
    rcases h with h | h
    · exact .result e bytes (List.mem_of_find?_eq_some hfind) (toOption_eq_some.mp h)
    · exact .internal _ _ h
  · rename_i hfind
    refine .refused _ _ (fun hm => ?_) h
    obtain ⟨e, he, rfl⟩ := List.mem_map.mp hm
    exact List.find?_eq_none.mp hfind e he (decide_eq_true rfl)

/-- The log may grow, but not by what is answered. -/
theorem Justified.mono {log log' : List (UInt64 × Operation × Reply)} {p : UInt64 × Bytes}
    (h : Justified server n log p) (hlog : log ⊆ log')
    (hno : p.1 ∉ log.map Prod.fst → p.1 ∉ log'.map Prod.fst) : Justified server n log' p := by
  cases h with
  | result e bytes he henc => exact .result e bytes (hlog he) henc
  | internal id bytes hi => exact .internal id bytes hi
  | refused id bytes hnot he => exact .refused id bytes (hno hnot) he

/-- A client and a server under faults, after the steps `past` of the client. -/
structure Service.Truthful (server : Server S χ) (spec : S → Operation → S → Reply → Prop)
    (n : Negotiated) (bound : Nat) (ops : List Operation) (store₀ : S)
    (past : List (Client × Turn)) (s : Service S) : Prop where
  facing : s.link.Facing n bound ops past
  logged : s.Logged spec n ops store₀ past
  answers : ∀ p ∈ s.link.answered, Justified server n s.log p

theorem Service.Truthful.established (n : Negotiated) (bound closers : Nat)
    (ops : List Operation) (store : S) :
    (Service.exposed bound closers ops store).Truthful server spec n bound ops store [] where
  facing := .established n bound closers ops
  logged := ⟨.established n bound closers ops, rfl, .nil, .nil, fun _ he => nomatch he⟩
  answers := fun _ hp => nomatch hp

theorem Service.Truthful.step (hserver : server.Honest spec) {turn : FaultyTurn χ}
    (hops : ops.length < 2 ^ 64 - 1) (h : s.Truthful server spec n bound ops store₀ past)
    (hs : s.faultyStep server n turn = some s') :
    s'.Truthful server spec n bound ops store₀ (past ++ (s.faultyTurn turn).toList) := by
  cases Service.suffers_of_step hs with
  | link move link hlink hanswers =>
      have hfacing := h.facing.step hops hlink
      refine ⟨hfacing, h.logged.link hfacing.exchange hfacing.sent, ?_⟩
      show ∀ p ∈ link.answered, _
      rw [(Link.answered_of_faultyStep hlink).1]
      exact List.forall_mem_append.mpr
        ⟨h.answers, fun p hp => Service.justified (hanswers p hp)⟩
  | performs f op choice hf hop hlog hanswered =>
      rw [Service.faultyTurn, Option.toList_none, List.append_nil]
      refine ⟨h.facing, h.logged.snoc hops hf hop (hserver.means choice s.store op) hlog, ?_⟩
      intro p hp
      refine (h.answers p hp).mono (List.subset_append_left _ _) fun hno => ?_
      rw [List.map_append, List.mem_append, not_or]
      refine ⟨hno, fun hm => hanswered ?_⟩
      have hid : p.1 = f.header.requestId.value := List.mem_singleton.mp hm
      exact hid ▸ List.mem_map_of_mem hp

/-! ### What a result says -/

/-- What the log says about the request of a command that returned. -/
def Service.Reports (past : List (Client × Turn)) (s : Service S) (i : Nat) (op : Operation) :
    Except CommandError Reply → Prop
  | .ok reply => ∃ sub ∈ submitted past, sub.completion = i ∧
      sub.id ∈ s.link.answered.map Prod.fst ∧ (sub.id, op, reply) ∈ s.log
  | .error e => e.isAmbiguous = false →
      ∀ sub ∈ submitted past, sub.completion = i → sub.id ∉ s.log.map Prod.fst

theorem isInternalError_iff {limits : Limits} {id : UInt64} {f : Frame}
    (h : f.Legal ⟨.client, .negotiated, limits, [id]⟩) :
    isInternalError limits id f.bytes = true ↔
      f.header.kind = .error ∧ (errorOf f).cls = .internalError := by
  rw [isInternalError, decode_eq_frame_iff.mpr ⟨h, [], (List.append_nil _).symm⟩]
  exact decide_eq_true_iff

/-- **What a command returns is true.**  A value is the result of its operation, and an error that
is not ambiguous says that there was none. -/
theorem Service.Truthful.reports (hserver : server.Honest spec) {i : Nat} {op : Operation}
    {result : Except CommandError Reply} (h : s.Truthful server spec n bound ops store₀ past)
    (hops : ops.length < 2 ^ 64 - 1)
    (hc : s.link.client.calls[i]? = some ⟨op, .done result⟩) : s.Reports past i op result := by
  cases h.facing.calls i op result hc with
  | ambiguous e he => exact fun hno => by cases he.symm.trans hno
  | refused e hnot => exact fun _ sub hsub hi => absurd hi (hnot sub hsub)
  | answered f hf =>
      obtain ⟨sub, hsub, rfl, hb, -, hl⟩ := hf
      generalize hp : (sub.id, f.bytes) = p at hb
      cases h.answers p hb with
      | result e bytes he henc =>
          obtain ⟨hid, rfl⟩ := Prod.mk.inj hp
          obtain rfl := h.logged.op_eq hops he hsub hid.symm hc
          rw [h.logged.interpret hserver he henc (hid ▸ hl)]
          refine ⟨sub, hsub, rfl, List.mem_map.mpr ⟨_, hb, hid.symm⟩, ?_⟩
          rw [hid]
          exact he
      | internal id bytes hi =>
          cases hp
          obtain ⟨hkind, hcls⟩ := (isInternalError_iff hl).mp hi
          rw [Operation.interpret_of_error hkind]
          show (CommandError.fromClass (errorOf f).cls).isAmbiguous = false → _
          rw [hcls]
          exact fun hno => nomatch hno
      | refused id bytes hno he =>
          cases hp
          rw [Operation.interpret_of_error ((isError_iff hl).mp he)]
          rintro - sub' hsub' hi
          rwa [List.inj_on_of_nodup_map h.logged.exchange.submitted.nodup hsub' hsub hi]

theorem Service.Grown.faultyStep {s₁ : Service S} {turn : FaultyTurn χ} (h : s₁.Grown s)
    (hs : s.faultyStep server n turn = some s') : s₁.Grown s' := by
  cases Service.suffers_of_step hs with
  | link move link hlink =>
      refine ⟨h.log, ?_, h.later⟩
      show _ ⊆ link.answered
      rw [(Link.answered_of_faultyStep hlink).1]
      exact List.Subset.trans h.answered (List.subset_append_left _ _)
  | performs f op choice _ _ _ hnew =>
      refine ⟨h.log.trans (List.prefix_append _ _), h.answered, ?_⟩
      refine List.forall_mem_append.mpr ⟨h.later, List.forall_mem_singleton.mpr (.inr ?_)⟩
      exact fun hm => hnew (List.map_subset _ h.answered hm)

/-- Who has returned a value had its answer, and so what the server performs later is not its
request. -/
theorem Service.Truthful.settled (hserver : server.Honest spec) {i : Nat} {op : Operation}
    {reply : Reply} {now : Service S} {past' : List (Client × Turn)}
    (hops : ops.length < 2 ^ 64 - 1) (h : s.Truthful server spec n bound ops store₀ past)
    (hnow : now.Logged spec n ops store₀ past') (hsub : submitted past ⊆ submitted past')
    (hgrown : s.Grown now) (hi : s.link.client.calls[i]? = some ⟨op, .done (.ok reply)⟩) :
    ∀ sub ∈ submitted past', sub.completion = i → ∀ e ∈ now.log, e.1 = sub.id → e ∈ s.log := by
  rintro sub hs rfl e he hid
  obtain ⟨sub', hs', hcompletion, hanswered, -⟩ := h.reports hserver hops hi
  obtain rfl : sub' = sub := List.inj_on_of_nodup_map hnow.exchange.submitted.nodup
    (hsub hs') hs hcompletion
  exact (hgrown.later e he).resolve_right fun hnew => hnew (hid ▸ hanswered)

/-! ### The contract -/

end Steps

end Rp1.Connection

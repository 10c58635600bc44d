import Rp1.Connection.Guard
import Rp1.Connection.Link

/-!
# Connection — every command is served

What the closed system of `Link` does as a whole.  The answers that the peer has given fall into
those the driver has taken in (`read`) and those still in its buffer or under way (`rest`), and a
request that the driver has received waits exactly as long as its answer is not among the first
(`Link.Flowing`).  Every answer in the second part therefore finds its request waiting, and the
session never ends.

`commands_served` is the contract of the client with such a peer.  The session stays usable, every
command that returns has been refused locally or returns what the peer has answered to its own
request, and when nobody can go on and the peer has answered what it has read, every command has
returned.
-/

namespace Rp1.Connection
open Codec Protocol Command Loop Runs

/-! ### What a command returns -/

/-- The error with which a command on a usable session is refused before it asks for a permit. -/
def Operation.refusal (n : Negotiated) (op : Operation) : Option CommandError :=
  match op.payload with
  | .error _ => some .invalidRequest
  | .ok payload =>
      if wireSize payload.length > n.effectiveMaximumFrameSize then
        some (.localLimitExceeded (wireSize payload.length) n.effectiveMaximumFrameSize)
      else none

/-- The peer has answered the submission of the `i`-th command with the frame `f`. -/
def Gets (n : Negotiated) (past : List (Client × Turn)) (answered : List (UInt64 × Bytes))
    (i : Nat) (f : Frame) : Prop :=
  ∃ s ∈ submitted past, s.completion = i ∧ (s.id, f.bytes) ∈ answered ∧
    f.header.requestId.value = s.id ∧ f.Legal ⟨.client, .negotiated, n.effectiveLimits, [s.id]⟩

/-- What a command returns that is served: its refusal, or what it reads in its answer. -/
def Returns (n : Negotiated) (past : List (Client × Turn)) (answered : List (UInt64 × Bytes))
    (i : Nat) (op : Operation) (result : Except CommandError Reply) : Prop :=
  match op.refusal n with
  | some e => result = .error e
  | none => ∃ f, Gets n past answered i f ∧
      result = (op.interpret f).mapError .fromCommandFailure

/-- A command on its way to its answer, or with it. -/
def Place.Served (n : Negotiated) (past : List (Client × Turn)) (answered : List (UInt64 × Bytes))
    (i : Nat) (op : Operation) : Place → Prop
  | .start | .dropped => True
  | .acquire _ | .allocate _ | .send .. | .await .. => op.refusal n = none
  | .done result => Returns n past answered i op result
  | .refused | .shutOut | .lost => False

section Commands
variable {n : Negotiated} {past past' : List (Client × Turn)}
  {answered answered' : List (UInt64 × Bytes)} {i : Nat} {op : Operation}

theorem Gets.mono {f : Frame} (h : Gets n past answered i f)
    (hs : submitted past ⊆ submitted past') (ha : answered ⊆ answered') :
    Gets n past' answered' i f := by
  obtain ⟨s, hm, hi, hb, hid, hl⟩ := h
  exact ⟨s, hs hm, hi, ha hb, hid, hl⟩

theorem Place.Served.mono {place : Place} (h : place.Served n past answered i op)
    (hs : Connection.submitted past ⊆ Connection.submitted past') (ha : answered ⊆ answered') :
    place.Served n past' answered' i op := by
  cases place with
  | done result =>
      rw [Place.Served, Returns] at h ⊢
      cases hr : op.refusal n with
      | some e =>
          rw [hr] at h
          exact h
      | none =>
          rw [hr] at h
          obtain ⟨f, hf, hres⟩ := h
          exact ⟨f, hf.mono hs ha, hres⟩
  | _ => exact h

/-- The command decodes its answer once more, and reads it. -/
theorem Operation.finish_of_legal {f : Frame}
    (h : f.Legal ⟨.client, .negotiated, n.effectiveLimits, [f.header.requestId.value]⟩) :
    op.finish n f.bytes = (op.interpret f).mapError .fromCommandFailure := by
  rw [Operation.finish, Negotiated.decodeOwn_of_legal h]
  rfl

/-- **An access of a command that is served**, on a session that is usable. -/
theorem Place.Served.step {size : UInt32} {c c₁ : Client} {place place' : Place}
    (hn : n.maximumFrameSize = size.toUInt64) (h : place.Served n past answered i op)
    (hg : place.Guarded n op) (hshared : c.session.shared = ⟨.usable, false⟩)
    (hthere : c.gone = false)
    (hinbox : ∀ id outcome, place = .await id (some outcome) →
      ∃ f, Gets n past answered i f ∧ outcome = .ok f.bytes)
    (hs : place.step n c i op = some (c₁, place')) : place'.Served n past answered i op := by
  have husable : c.session.state = .usable := congrArg Shared.state hshared
  cases place with
  | start =>
      rw [Place.step] at hs
      cases hp : op.payload with
      | error e =>
          simp only [hp] at hs
          cases hs
          simp only [Place.Served, Returns, Operation.refusal, hp]
      | ok payload =>
          simp only [hp, if_pos husable] at hs
          by_cases hlt : wireSize payload.length > n.effectiveMaximumFrameSize
          · rw [if_pos hlt] at hs
            cases hs
            simp only [Place.Served, Returns, Operation.refusal, hp, if_pos hlt]
          · rw [if_neg hlt] at hs
            cases hs
            simp only [Place.Served, Operation.refusal, hp, if_neg hlt]
  | refused => exact h.elim
  | acquire payload =>
      simp only [Place.step, hshared, Bool.false_eq_true, if_false] at hs
      obtain ⟨-, hs⟩ := Option.ite_none_right_eq_some.mp hs
      cases hs
      exact h
  | shutOut => exact h.elim
  | allocate payload =>
      obtain ⟨b, hb, -⟩ := Place.step_allocate (c := c) hn i op hg.2 (c.allocator.allocate_ne_zero)
      rw [hb] at hs
      cases hs
      exact h
  | send id bytes =>
      simp only [Place.step, hthere, Bool.false_eq_true, if_false] at hs
      obtain ⟨-, hs⟩ := Option.ite_none_right_eq_some.mp hs
      cases hs
      exact h
  | await id inbox =>
      cases inbox with
      | none => simp [Place.step, hthere] at hs
      | some outcome =>
          obtain ⟨f, hf, rfl⟩ := hinbox id outcome rfl
          simp only [Place.step, Option.some.injEq, Prod.mk.injEq] at hs
          obtain ⟨-, rfl⟩ := hs
          have hrefusal : op.refusal n = none := h
          simp only [Place.Served, Returns, hrefusal, Operation.conclude]
          refine ⟨f, hf, ?_⟩
          obtain ⟨s, -, -, -, hid, hl⟩ := hf
          exact Operation.finish_of_legal (hid ▸ hl)
  | lost => exact h.elim
  | done result => cases hs
  | dropped => cases hs

end Commands

/-! ### What a peer has read -/

section Received
variable {n : Negotiated} {ops : List Operation} {past : List (Client × Turn)} {c : Client}

theorem Client.Exchange.received_subset (h : c.Exchange n ops past) :
    (receptions past).map Prod.fst ⊆ Connection.submitted past := fun _ hs =>
  h.ordered.isPart.subset (List.mem_append_left _ hs)

/-- No two submissions that the driver has received have the same identifier. -/
theorem Client.Exchange.nodup_received (h : c.Exchange n ops past)
    (hops : ops.length < 2 ^ 64 - 1) : (((receptions past).map Prod.fst).map Submit.id).Nodup := by
  refine List.Nodup.sublist ?_ (h.nodup_ids hops)
  exact ((List.sublist_append_left _ _).trans h.ordered.isPart.sublist).map _

/-- What a peer has read are the first of the submissions that the driver has received. -/
theorem Client.Exchange.reads (h : c.Exchange n ops past) (hops : ops.length < 2 ^ 64 - 1) :
    ∃ fs left seen unseen, readRequests n.effectiveLimits (wire past) = (⟨fs, left⟩, none) ∧
      Reads ops ((receptions past).map Prod.fst) (wire past) fs left seen unseen := by
  have hframes : frames (receptions past) = ((receptions past).map Prod.fst).flatMap Submit.bytes :=
    (List.flatMap_map Prod.fst Submit.bytes (receptions past)).symm
  have hpart : wire past <+: ((receptions past).map Prod.fst).flatMap Submit.bytes := by
    rw [← hframes]
    exact h.onWire.isPart
  exact readRequests_prefix (n := n) UInt64.le_rfl UInt16.le_rfl _ [] (wire past)
    (fun s hs => h.submitted.requests s (h.received_subset hs)) (h.nodup_received hops)
    (fun _ _ => List.not_mem_nil) hpart

/-- Who a peer can answer the driver has received. -/
theorem Client.Exchange.received_of_read (h : c.Exchange n ops past)
    (hops : ops.length < 2 ^ 64 - 1) {id : UInt64}
    (hid : id ∈ (readRequests n.effectiveLimits (wire past)).1.ids) :
    ∃ s ∈ (receptions past).map Prod.fst, s.id = id := by
  obtain ⟨fs, left, seen, unseen, hrun, hreads⟩ := h.reads hops
  rw [hrun, hreads.ids] at hid
  obtain ⟨s, hs, rfl⟩ := List.mem_map.mp hid
  exact ⟨s, hreads.split ▸ List.mem_append_left _ hs, rfl⟩

end Received

/-! ### The invariant -/

/-- The answers on their way through the driver. -/
structure Link.Flowing (n : Negotiated) (past : List (Client × Turn)) (l : Link) (t : Task Nat)
    (read rest : List (UInt64 × Bytes)) : Prop where
  looping : t.left = none
  quiet : ∀ x ∈ t.pending, x.quiet = true
  split : l.answered = read ++ rest
  nodup : (l.answered.map Prod.fst).Nodup
  whole : ∀ p ∈ l.answered, answersOnly n.effectiveLimits p.1 p.2 = true
  asked : ∀ p ∈ l.answered, ∃ s ∈ (receptions past).map Prod.fst, s.id = p.1
  stream : t.driver.buffer ++ l.channel = rest.flatMap Prod.snd
  short : ∀ p ∈ rest.head?, t.driver.buffer.length < p.2.length
  /-- A request waits until its answer is read. -/
  waits : ∀ s ∈ (receptions past).map Prod.fst,
    (s.id, s.completion) ∈ t.driver.waiting ↔ s.id ∉ read.map Prod.fst

/-- A client and its peer, after the steps `past` of the client. -/
structure Link.Serving (n : Negotiated) (bound : Nat) (ops : List Operation)
    (past : List (Client × Turn)) (l : Link) : Prop where
  exchange : l.client.Exchange n ops past
  steady : l.client.Steady bound
  guarded : l.client.Guarded n
  answered : l.client.Answered n past
  sent : l.sent = wire past
  shared : l.client.session.shared = ⟨.usable, false⟩
  flowing : ∃ t read rest, l.client.session.task = some t ∧ l.Flowing n past t read rest
  hears : l.client.Hears fun i outcome =>
    ∃ f, Gets n past l.answered i f ∧ outcome = .ok f.bytes
  calls : ∀ (i : Nat) (op : Operation) (place : Place), l.client.calls[i]? = some ⟨op, place⟩ →
    place.Served n past l.answered i op

section Serving
variable {n : Negotiated} {bound : Nat} {ops : List Operation} {past : List (Client × Turn)}
  {l l' : Link} {t t' : Task Nat} {read rest : List (UInt64 × Bytes)}

theorem Link.Serving.established (n : Negotiated) (bound : Nat) (ops : List Operation) :
    (Link.established bound ops).Serving n bound ops [] where
  exchange := .established n bound 0 ops
  steady := .established bound 0 ops
  guarded := .established bound 0 ops
  answered := .established n bound 0 ops
  sent := rfl
  shared := rfl
  flowing := ⟨.spawn, [], [], rfl, {
    looping := rfl
    quiet := fun _ hx => nomatch hx
    split := rfl
    nodup := .nil
    whole := fun _ hp => nomatch hp
    asked := fun _ hp => nomatch hp
    stream := rfl
    short := fun _ hp => nomatch hp
    waits := fun _ hs => nomatch hs }⟩
  hears := .established _ bound 0 ops
  calls := fun i op place hc => by
    obtain ⟨_, -, h⟩ := Option.map_eq_some_iff.mp ((List.getElem?_map ..).symm.trans hc)
    cases h
    trivial

/-- The driver is in its loop. -/
theorem Link.Serving.there (h : l.Serving n bound ops past) : l.client.gone = false := by
  obtain ⟨t, read, rest, ht, hf⟩ := h.flowing
  have hret : t.returned = none := by
    cases hr : t.returned with
    | none => rfl
    | some left => cases hf.looping.symm.trans (Task.returned_eq_some.mp hr).2
  rw [Client.gone, Session.join, ht]
  simp only [hret, Option.map_none, Option.isSome_none]

/-- An answer that is not read yet finds its request waiting. -/
theorem Link.Flowing.waiting (h : l.Flowing n past t read rest) {p : UInt64 × Bytes}
    (hp : p ∈ rest) : ∃ i, (p.1, i) ∈ t.driver.waiting := by
  have hmem : p ∈ l.answered := h.split ▸ List.mem_append_right _ hp
  obtain ⟨s, hs, hid⟩ := h.asked p hmem
  have hnot : s.id ∉ read.map Prod.fst := by
    intro hm
    have hnodup := h.nodup
    rw [h.split, List.map_append, List.nodup_append] at hnodup
    exact hnodup.2.2 _ hm _ (List.mem_map_of_mem hp) hid
  exact ⟨s.completion, hid ▸ (h.waits s hs).mpr hnot⟩

/-! ### The steps -/

/-- Nothing happens between the driver and the peer. -/
theorem Link.Flowing.frame {past' : List (Client × Turn)} (h : l.Flowing n past t read rest)
    (hrec : receptions past' = receptions past) (ha : l'.answered = l.answered)
    (hch : l'.channel = l.channel) (hd : t'.driver = t.driver) (hl : t'.left = t.left)
    (hp : t'.pending ⊆ t.pending) : l'.Flowing n past' t' read rest where
  looping := hl.trans h.looping
  quiet := fun x hx => h.quiet x (hp hx)
  split := ha.trans h.split
  nodup := ha ▸ h.nodup
  whole := ha ▸ h.whole
  asked := by rw [ha, hrec]; exact h.asked
  stream := by rw [hd, hch]; exact h.stream
  short := by rw [hd]; exact h.short
  waits := by rw [hd, hrec]; exact h.waits

/-- The driver takes in a submission. -/
theorem Task.select_submit {limits : Limits} {s : Submit Nat} {writes : List Nat}
    {live : InFlightRegistry} (hsel : t.select limits (.submit s writes) = some t')
    (hi : t.driver.live.insert s.id = .ok live) (hw : (writeAll writes s.bytes).2 = true)
    (ho : t.driver.submitClosed = false) :
    t'.driver = t.driver.admitted s live writes ∧ t'.left = none ∧
      t'.pending = [.write (writeAll writes s.bytes).1] := by
  have hit : iterate limits t.driver (.submit s writes) =
      (t.driver.admitted s live writes, .again) := by
    simp only [iterate, hi, hw, if_true]
    show (t.driver.admitted s live writes).bottom = _
    rw [Driver.bottom, Driver.finished]
    show (if (t.driver.submitClosed && _) = true then _ else _) = _
    rw [ho, Bool.false_and, if_neg Bool.false_ne_true]
  obtain ⟨-, -, hd, hl, -⟩ := Task.select_eq_some hsel
  rw [hit] at hd hl
  refine ⟨hd, hl, Task.pending_of_select hsel ?_⟩
  rw [hit]
  rfl

/-- A request that is admitted waits, and so do the others. -/
theorem Driver.mem_waiting_admitted {d : Driver Nat} {s : Submit Nat} {live : InFlightRegistry}
    {writes : List Nat} {p : UInt64 × Nat} :
    p ∈ (d.admitted s live writes).waiting ↔
      p = (s.id, s.completion) ∨ (p ∈ d.waiting ∧ p.1 ≠ s.id) := by
  obtain ⟨id, i⟩ := p
  rw [Driver.mem_waiting, Driver.mem_waiting]
  show (d.completions.insert s.id s.completion).lookup id = some i ↔ _
  by_cases h : id = s.id
  · subst h
    rw [AList.lookup_insert]
    simp [eq_comm]
  · rw [AList.lookup_insert_ne h]
    simp [h]

theorem Link.Flowing.submit {s : Submit Nat} {writes : List Nat} {past' : List (Client × Turn)}
    {limits : Limits} {live : InFlightRegistry} (h : l.Flowing n past t read rest)
    (hrec : receptions past' = receptions past ++ [(s, writes)])
    (hnodup : (((receptions past').map Prod.fst).map Submit.id).Nodup)
    (ha : l'.answered = l.answered) (hch : l'.channel = l.channel)
    (hsel : t.select limits (.submit s writes) = some t')
    (hi : t.driver.live.insert s.id = .ok live) (hw : (writeAll writes s.bytes).2 = true)
    (ho : t.driver.submitClosed = false) : l'.Flowing n past' t' read rest := by
  obtain ⟨hd, hleft, hpend⟩ := Task.select_submit hsel hi hw ho
  have hmem : ∀ s', s' ∈ (receptions past').map Prod.fst ↔
      s' ∈ (receptions past).map Prod.fst ∨ s' = s := by
    intro s'
    rw [hrec, List.map_append, List.mem_append, List.map_singleton, List.mem_singleton]
  -- the identifier is new
  have hnew : ∀ s' ∈ (receptions past).map Prod.fst, s'.id ≠ s.id := by
    intro s' hs' he
    rw [hrec, List.map_append, List.map_append, List.nodup_append] at hnodup
    exact hnodup.2.2 _ (List.mem_map_of_mem hs') _ (List.mem_singleton.mpr rfl) he
  have hunread : s.id ∉ read.map Prod.fst := by
    intro hm
    obtain ⟨p, hp, hid⟩ := List.mem_map.mp hm
    obtain ⟨s', hs', hid'⟩ := h.asked p (h.split ▸ List.mem_append_left _ hp)
    exact hnew s' hs' (hid'.trans hid)
  exact {
    looping := hleft
    quiet := fun x hx => by
      rw [hpend, List.mem_singleton] at hx
      rw [hx]
      rfl
    split := ha.trans h.split
    nodup := ha ▸ h.nodup
    whole := ha ▸ h.whole
    asked := fun p hp => by
      obtain ⟨s', hs', hid⟩ := h.asked p (ha ▸ hp)
      exact ⟨s', (hmem s').mpr (.inl hs'), hid⟩
    stream := by rw [hd, hch]; exact h.stream
    short := by rw [hd]; exact h.short
    waits := fun s' hs' => by
      rw [hd, Driver.mem_waiting_admitted]
      rcases (hmem s').mp hs' with hs' | rfl
      · have hne := hnew s' hs'
        rw [← h.waits s' hs']
        exact ⟨fun e => e.elim (fun e => absurd (congrArg Prod.fst e) hne) And.left,
          fun e => .inr ⟨e, hne⟩⟩
      · exact ⟨fun _ => hunread, fun _ => .inl rfl⟩ }

/-- The driver reads a piece of a stream with nothing wrong in it. -/
theorem Task.select_read {limits : Limits} {chunk : Bytes} {d : Driver Nat}
    {sends : List (Effect Nat)} (hsel : t.select limits (.read chunk) = some t')
    (hd : drainFrames limits (t.driver.receive chunk) = (d, none))
    (hlog : d.log = t.driver.log ++ sends) (ho : t.driver.submitClosed = false) :
    t'.driver = d ∧ t'.left = none ∧ t'.pending = sends := by
  have hopen : d.submitClosed = false := by
    have hq := (Driver.Quietly.drainFrames limits (t.driver.receive chunk)).submitClosed
    rw [hd] at hq
    exact hq.trans ho
  have hbusy : d.finished = false := by rw [Driver.finished, hopen, Bool.false_and]
  have hit : iterate limits t.driver (.read chunk) = (d, .again) := by
    simp only [iterate, hd, hbusy, Driver.bottom, Bool.false_eq_true, if_false]
  obtain ⟨-, -, hdriver, hleft, -⟩ := Task.select_eq_some hsel
  rw [hit] at hdriver hleft
  refine ⟨hdriver, hleft, Task.pending_of_select hsel ?_⟩
  rw [hit]
  exact hlog

/-- **The driver reads a piece of the stream.**  The whole answers in it go to their requests. -/
theorem Link.Flowing.receive (l' : Link) {chunk : Bytes} {past' : List (Client × Turn)}
    (h : l.Flowing n past t read rest) (hsound : t.Sound)
    (ho : t.driver.submitClosed = false) (hrec : receptions past' = receptions past)
    (ha : l'.answered = l.answered) (hch : l.channel = chunk ++ l'.channel)
    (hsel : t.select n.effectiveLimits (.read chunk) = some t') :
    (∃ read' rest', l'.Flowing n past' t' read' rest') ∧
      ∀ id i outcome, .send id i outcome ∈ t'.pending →
        (id, i) ∈ t.driver.waiting ∧ ∃ bytes, (id, bytes) ∈ l.answered ∧ outcome = .ok bytes := by
  obtain ⟨received, hl⟩ := hsound.ledger
  have hnodup := h.nodup
  rw [h.split, List.map_append] at hnodup
  have hstream : (t.driver.receive chunk).buffer ++ l'.channel = rest.flatMap Prod.snd := by
    rw [← h.stream, hch]
    exact List.append_assoc ..
  obtain ⟨d, now, later, hrun, hdrained⟩ :=
    drainFrames_answers_part n.effectiveLimits rest (t.driver.receive chunk) received
      (hl.frame _ _) (List.nodup_append.mp hnodup).2.1
      (fun p hp => h.whole p (h.split ▸ List.mem_append_right _ hp))
      (fun p hp => h.waiting hp) ⟨_, hstream⟩
  obtain ⟨sends, hlog, hsends⟩ := hdrained.log
  obtain ⟨hd, hleft, hpend⟩ := Task.select_read hsel hrun hlog ho
  have hanswers : ∀ x ∈ t'.pending, ∃ p ∈ l.answered, ∃ i,
      (p.1, i) ∈ t.driver.waiting ∧ x = .send p.1 i (.ok p.2) := by
    intro x hx
    obtain ⟨p, hp, i, hw, rfl⟩ := hsends x (hpend ▸ hx)
    refine ⟨p, ?_, i, hw, rfl⟩
    rw [h.split, hdrained.split]
    exact List.mem_append_right _ (List.mem_append_left _ hp)
  refine ⟨⟨read ++ now, later, ?_⟩, fun id i outcome hm => ?_⟩
  · exact {
      looping := hleft
      quiet := fun x hx => by
        obtain ⟨p, -, i, -, rfl⟩ := hanswers x hx
        rfl
      split := by rw [ha, h.split, hdrained.split, List.append_assoc]
      nodup := ha ▸ h.nodup
      whole := ha ▸ h.whole
      asked := by rw [ha, hrec]; exact h.asked
      stream := by
        rw [hdrained.buffer, hdrained.split, List.flatMap_append, List.append_assoc] at hstream
        rw [hd]
        exact List.append_cancel_left hstream
      short := by rw [hd]; exact hdrained.short
      waits := fun s hs => by
        rw [hrec] at hs
        rw [hd, hdrained.waiting, List.map_append, List.mem_append, not_or, ← h.waits s hs]
        exact Iff.rfl }
  · obtain ⟨p, hp, i', hw, he⟩ := hanswers _ hm
    cases he
    exact ⟨hw, p.2, hp, rfl⟩

/-- The peer gives one more answer. -/
theorem Link.Flowing.answer {p : UInt64 × Bytes} (h : l.Flowing n past t read rest)
    (hp : answersOnly n.effectiveLimits p.1 p.2 = true) (hnew : p.1 ∉ l.answered.map Prod.fst)
    (hasked : ∃ s ∈ (receptions past).map Prod.fst, s.id = p.1) :
    Link.Flowing n past
      { l with answered := l.answered ++ [p], channel := l.channel ++ p.2 } t read
      (rest ++ [p]) where
  looping := h.looping
  quiet := h.quiet
  split := by rw [h.split, List.append_assoc]
  nodup := by
    rw [List.map_append]
    exact List.nodup_append.mpr ⟨h.nodup, List.nodup_singleton _, fun a ha b hb e =>
      hnew (List.mem_singleton.mp hb ▸ e ▸ ha)⟩
  whole := fun q hq => by
    rcases List.mem_append.mp hq with hq | hq
    · exact h.whole q hq
    · exact List.mem_singleton.mp hq ▸ hp
  asked := fun q hq => by
    rcases List.mem_append.mp hq with hq | hq
    · exact h.asked q hq
    · exact List.mem_singleton.mp hq ▸ hasked
  stream := by
    rw [← List.append_assoc, h.stream, List.flatMap_append, List.flatMap_singleton]
  short := fun q hq => by
    cases hrest : rest with
    | nil =>
        -- nothing was under way
        rw [hrest] at hq
        obtain rfl := Option.some.inj hq
        have hnil := h.stream
        rw [hrest, List.flatMap_nil, List.append_eq_nil_iff] at hnil
        rw [hnil.1]
        exact List.length_pos_iff.mpr (ne_nil_of_answersOnly hp)
    | cons q' rest' =>
        rw [hrest] at hq
        exact h.short q (by rw [hrest]; exact hq)
  waits := h.waits

/-- **What the client does in a step**, when the driver stays in its loop and what it sends are
answers. -/
theorem Link.Serving.follow {size : UInt32} {turn : Turn} {client : Client} {channel : Bytes}
    (hn : n.maximumFrameSize = size.toUInt64) (h : l.Serving n bound ops past)
    (hs : l.client.step n turn = some client)
    (hshared : client.session.shared = l.client.session.shared)
    (hflow : ∃ t read rest, client.session.task = some t ∧ Link.Flowing n
      (past ++ [(l.client, turn)])
      ⟨client, l.sent ++ l.client.accepts turn, l.answered, channel⟩ t read rest)
    (hnew : ∀ e t t', turn = .session (.select e) → l.client.session.task = some t →
      t.select n.effectiveLimits e = some t' →
      ∀ id i outcome, .send id i outcome ∈ t'.pending →
        ∃ f, Gets n past l.answered i f ∧ outcome = .ok f.bytes) :
    Link.Serving n bound ops (past ++ [(l.client, turn)])
      ⟨client, l.sent ++ l.client.accepts turn, l.answered, channel⟩ := by
  have hmore : submitted past ⊆ submitted (past ++ [(l.client, turn)]) := by
    rw [submitted_snoc]
    exact List.subset_append_left _ _
  refine {
    exchange := h.exchange.step hs
    steady := h.steady.step hs
    guarded := h.guarded.step hn hs
    answered := h.answered.step hs
    sent := ?_
    shared := hshared.trans h.shared
    flowing := hflow
    hears := ?_
    calls := fun i op place' hc => ?_ }
  · rw [wire_snoc, h.sent]
  · refine Client.Hears.mono (h.hears.step hs hnew) fun i outcome hP => ?_
    obtain ⟨f, hf, he⟩ := hP
    exact ⟨f, hf.mono hmore (List.Subset.refl _), he⟩
  · obtain ⟨place, hplace, hev⟩ := Client.evolves hs hc
    have hplaced := h.calls i op place hplace
    refine Place.Served.mono ?_ hmore (List.Subset.refl _)
    cases hev with
    | same => exact hplaced
    | told id id' outcome hx => exact hplaced
    | moved c₁ _ _ hstep =>
        refine hplaced.step hn (h.guarded i op place hplace) h.shared h.there ?_ hstep
        rintro id outcome rfl
        exact h.hears.inbox i op id outcome hplace
    | dropped => trivial

/-- **A step of the client alone.** -/
theorem Link.Serving.client_step {size : UInt32} {turn : Turn} {client : Client}
    (hn : n.maximumFrameSize = size.toUInt64) (hops : ops.length < 2 ^ 64 - 1)
    (h : l.Serving n bound ops past) (hu : turn.unspoilt = true)
    (hs : l.client.step n turn = some client) :
    Link.Serving n bound ops (past ++ [(l.client, turn)])
      { l with client, sent := l.sent ++ l.client.accepts turn } := by
  obtain ⟨t, read, rest, ht, hflow⟩ := h.flowing
  have hrec := receptions_snoc past l.client turn
  rcases Client.session_of_step hs with ⟨m, rfl, hm⟩ | ⟨hno, hsame⟩
  · cases m with
    | select e =>
        cases e with
        | submit s writes =>
            obtain ⟨live, hi⟩ := h.exchange.holds.insert hops ht hs
            obtain ⟨t₁, t', -, ht₁, hsel, hsession⟩ := Session.select_eq_some hm
            obtain rfl := Option.some.inj (ht.symm.trans ht₁)
            have ho := h.steady.session.submitOpen t ht
            have hnodup := (h.exchange.step hs).nodup_received hops
            refine h.follow hn hs (by rw [hsession]) ⟨t', read, rest, by rw [hsession], ?_⟩ ?_
            · exact hflow.submit hrec hnodup rfl rfl hsel hi hu ho
            · intro e t₂ t₃ he ht₂ hsel' id i outcome hmem
              cases he
              obtain rfl := Option.some.inj (ht.symm.trans ht₂)
              rw [(Task.select_submit hsel' hi hu ho).2.2, List.mem_singleton] at hmem
              cases hmem
        | _ => cases hu
    | perform =>
        obtain ⟨t₁, x, pending, ht₁, hp, hsession⟩ := Session.perform_eq_some hm
        obtain rfl := Option.some.inj (ht.symm.trans ht₁)
        refine h.follow hn hs ?_ ⟨{ t with pending }, read, rest, by rw [hsession]; rfl, ?_⟩ ?_
        · rw [hsession]
          exact Effect.perform_of_quiet (hflow.quiet x (hp ▸ List.mem_cons_self)) _
        · refine hflow.frame (hrec.trans (List.append_nil _)) rfl rfl rfl rfl ?_
          rw [hp]
          exact List.subset_cons_self _ _
        · intro e _ _ he
          cases he
    | abort => cases hu
    | close i ok => cases hu
  · have hquiet : turn.receives = [] := by
      cases turn with
      | session m => exact absurd rfl (hno m)
      | call i => rfl
      | drop i => rfl
    rw [hquiet, List.append_nil] at hrec
    refine h.follow hn hs (by rw [hsame]) ⟨t, read, rest, by rw [hsame, ht], ?_⟩ ?_
    · exact hflow.frame hrec rfl rfl rfl rfl (List.Subset.refl _)
    · intro e _ _ he
      exact absurd he (hno _)

/-- **The driver reads.** -/
theorem Link.Serving.deliver_step {size : UInt32} {k : Nat} {client : Client}
    (hn : n.maximumFrameSize = size.toUInt64) (h : l.Serving n bound ops past)
    (hs : l.client.step n (l.reads k) = some client) :
    Link.Serving n bound ops (past ++ [(l.client, l.reads k)])
      { l with client, channel := l.channel.drop (k + 1) } := by
  obtain ⟨t, read, rest, ht, hflow⟩ := h.flowing
  obtain ⟨t₁, t', ht₁, hsel, hsession⟩ := Client.select_of_step hs
  obtain rfl := Option.some.inj (ht.symm.trans ht₁)
  have hsound := h.steady.wired.sound t ht
  have ho := h.steady.session.submitOpen t ht
  have hrec : receptions (past ++ [(l.client, l.reads k)]) = receptions past :=
    (receptions_snoc ..).trans (List.append_nil _)
  obtain ⟨⟨read', rest', hflow'⟩, hsends⟩ :=
    hflow.receive ⟨client, l.sent ++ l.client.accepts (l.reads k), l.answered,
      l.channel.drop (k + 1)⟩ hsound ho hrec rfl (List.take_append_drop _ _).symm hsel
  have hfollow := h.follow hn hs (by rw [hsession]) ⟨t', read', rest', by rw [hsession], hflow'⟩ ?_
  · have hsent : l.sent ++ l.client.accepts (l.reads k) = l.sent := List.append_nil _
    rw [hsent] at hfollow
    exact hfollow
  · -- who waits has submitted, and nobody else under this identifier
    intro e t₂ t₃ he ht₂ hsel' id i outcome hmem
    cases he
    obtain rfl := Option.some.inj (ht.symm.trans ht₂)
    obtain rfl := Option.some.inj (hsel.symm.trans hsel')
    obtain ⟨hw, bytes, hb, rfl⟩ := hsends id i outcome hmem
    obtain ⟨s, hs', hp⟩ := h.answered.waiting (id, i) (by rw [Session.waiting, ht]; exact hw)
    cases hp
    obtain ⟨f, hlegal, rfl, hid⟩ := answersOnly_iff.mp (hflow.whole _ hb)
    exact ⟨f, ⟨s, h.exchange.received_subset hs', rfl, hb, hid, hlegal⟩, rfl⟩

/-- **The peer answers.** -/
theorem Link.Serving.answer_step {id : UInt64} {bytes : Bytes} (hops : ops.length < 2 ^ 64 - 1)
    (h : l.Serving n bound ops past) (hid : id ∈ (readRequests n.effectiveLimits l.sent).1.ids)
    (hnew : id ∉ l.answered.map Prod.fst)
    (hb : answersOnly n.effectiveLimits id bytes = true) :
    Link.Serving n bound ops past
      { l with answered := l.answered ++ [(id, bytes)], channel := l.channel ++ bytes } := by
  obtain ⟨t, read, rest, ht, hflow⟩ := h.flowing
  have hasked : ∃ s ∈ (receptions past).map Prod.fst, s.id = id :=
    h.exchange.received_of_read hops (h.sent ▸ hid)
  have hmore : l.answered ⊆ l.answered ++ [(id, bytes)] := List.subset_append_left _ _
  exact { h with
    flowing := ⟨t, read, rest ++ [(id, bytes)], ht, hflow.answer hb hnew hasked⟩
    hears := h.hears.mono fun i outcome hP => by
      obtain ⟨f, hf, he⟩ := hP
      exact ⟨f, hf.mono (List.Subset.refl _) hmore, he⟩
    calls := fun i op place hc => (h.calls i op place hc).mono (List.Subset.refl _) hmore }

theorem Link.Serving.step {size : UInt32} {turn : LinkTurn}
    (hn : n.maximumFrameSize = size.toUInt64) (hops : ops.length < 2 ^ 64 - 1)
    (h : l.Serving n bound ops past) (hs : l.step n turn = some l') :
    l'.Serving n bound ops (past ++ (l.turn turn).toList) := by
  cases turn with
  | client turn =>
      obtain ⟨hu, hs⟩ := Option.ite_none_right_eq_some.mp hs
      obtain ⟨client, hc, rfl⟩ := Option.map_eq_some_iff.mp hs
      exact h.client_step hn hops hu hc
  | answer id bytes =>
      obtain ⟨⟨hid, hnew, hb⟩, hs⟩ := Option.ite_none_right_eq_some.mp hs
      cases hs
      rw [Link.turn, Option.toList_none, List.append_nil]
      exact h.answer_step hops hid hnew hb
  | deliver k =>
      obtain ⟨-, hs⟩ := Option.ite_none_right_eq_some.mp hs
      obtain ⟨client, hc, rfl⟩ := Option.map_eq_some_iff.mp hs
      exact h.deliver_step hn hc

/-! ### The contract -/

/-- When nobody can go on and the peer has nothing left to answer, no request waits. -/
theorem Link.Serving.waiting_of_resting (h : l.Serving n bound ops past)
    (hops : ops.length < 2 ^ 64 - 1) (hr : l.client.Resting n) (hb : l.client.blocked = false)
    (hch : l.channel = [])
    (hall : ∀ id ∈ (readRequests n.effectiveLimits l.sent).1.ids, id ∈ l.answered.map Prod.fst) :
    l.client.session.waiting = [] := by
  obtain ⟨t, read, rest, ht, hflow⟩ := h.flowing
  -- everything the driver has received is on the wire, and the peer has read it
  have hids : ∀ s ∈ (receptions past).map Prod.fst,
      s.id ∈ (readRequests n.effectiveLimits l.sent).1.ids := by
    intro s hs
    obtain ⟨fs, left, seen, unseen, hrun, hreads⟩ := h.exchange.reads hops
    have hwhole : wire past = ((receptions past).map Prod.fst).flatMap Submit.bytes := by
      obtain ⟨hout, -, hframes⟩ := h.exchange.onWire.task t ht
      rw [hr.pending hb ht, List.flatMap_nil, List.append_nil] at hout
      rw [← hout, hframes hflow.looping]
      exact (List.flatMap_map Prod.fst Submit.bytes (receptions past)).symm
    obtain ⟨hnil, -⟩ := hreads.all hwhole
    rw [h.sent, hrun, hreads.ids]
    refine List.mem_map_of_mem ?_
    rw [hreads.split, hnil, List.append_nil] at hs
    exact hs
  -- every answer has been read
  have hrest : rest = [] := by
    cases hrest : rest with
    | nil => rfl
    | cons p rest' =>
        have hshort := hflow.short p (by rw [hrest]; rfl)
        have hstream := hflow.stream
        rw [hch, List.append_nil, hrest, List.flatMap_cons] at hstream
        rw [hstream, List.length_append] at hshort
        omega
  refine List.eq_nil_iff_forall_not_mem.mpr fun p hp => ?_
  obtain ⟨s, hs, rfl⟩ := h.answered.waiting p hp
  rw [Session.waiting, ht] at hp
  have hread := hall s.id (hids s hs)
  rw [hflow.split, hrest, List.append_nil] at hread
  exact (hflow.waits s hs).mp hp hread

/-- **Every command is served.**  A client and a peer that answers requests, with nobody failing or
closing: whatever the order and the timing of the answers and the pieces in which they arrive, the
session stays usable, no command submits twice and no request is answered twice, and a command that
returns has been refused locally, or returns what it reads in the peer's answer to its own request.
When nobody can go on and the peer has answered everything it has read, every command has
returned. -/
theorem commands_served (n : Negotiated) (size : UInt32) (bound : Nat) (ops : List Operation)
    (schedule : List LinkTurn) (l : Link) (hn : n.maximumFrameSize = size.toUInt64)
    (hops : ops.length < 2 ^ 64 - 1)
    (h : exec (Link.step n) (.established bound ops) schedule = some l) :
    let past := clientSteps (visited (Link.step n) (.established bound ops) schedule)
    l.client.session.state = .usable ∧
    ((submitted past).map Submit.completion).Nodup ∧ (l.answered.map Prod.fst).Nodup ∧
    (∀ (i : Nat) (op : Operation) (result : Except CommandError Reply),
      l.client.calls[i]? = some ⟨op, .done result⟩ → Returns n past l.answered i op result) ∧
    (0 < bound → l.client.Resting n → l.client.blocked = false → l.channel = [] →
      (∀ id ∈ (readRequests n.effectiveLimits l.sent).1.ids, id ∈ l.answered.map Prod.fst) →
      ∀ call ∈ l.client.calls, call.place.finished = true) := by
  intro past
  have hserving : l.Serving n bound ops past :=
    exec_invariant (I := fun past l => l.Serving n bound ops (clientSteps past))
      (fun past l turn _ h hs => clientSteps_snoc past l turn ▸ h.step hn hops hs) []
      (.established n bound ops) h
  obtain ⟨t, read, rest, -, hflow⟩ := hserving.flowing
  refine ⟨congrArg Shared.state hserving.shared, hserving.exchange.submitted.nodup, hflow.nodup,
    fun i op result hc => hserving.calls i op _ hc, fun hb hr hfree hch hall call hm => ?_⟩
  have hnone := hserving.waiting_of_resting hops hr hfree hch hall
  obtain ⟨i, hi⟩ := List.getElem?_of_mem hm
  obtain ⟨op, place⟩ := call
  rcases hserving.steady.call_of_resting hr hfree hi with hdone | hwaits
  · exact hdone
  · cases hwaits with
    | answer id hw =>
        rw [hnone] at hw
        cases hw
    | permit payload hle =>
        rw [hnone, List.length_nil] at hle
        omega

end Serving

/-- A probe whose answer comes in two pieces. -/
theorem commands_served_ping :
    let schedule : List LinkTurn :=
      [.client (.call 0), .client (.call 0), .client (.call 0), .client (.call 0),
        .client (.session (.select (.submit
          ⟨2, [0, 1, 0, 0, 2, 0, 0, 0, 0, 0, 0, 0, 2, 0, 0, 0, 0, 0, 0, 0], 0⟩ [20]))),
        .client (.session .perform),
        .answer 2 [0, 2, 0, 0, 0, 0, 0, 0, 0, 0, 0, 0, 2, 0, 0, 0, 0, 0, 0, 0],
        .deliver 6, .deliver 12, .client (.session .perform), .client (.call 0)]
    ∃ l, exec (Link.step .floor) (.established 1 [.ping]) schedule = some l ∧
      l.client.calls[0]? = some ⟨.ping, .done (.ok .done)⟩ ∧
      Returns .floor (clientSteps (visited (Link.step .floor) (.established 1 [.ping]) schedule))
        l.answered 0 .ping (.ok .done) := by
  intro schedule
  obtain ⟨l, h, hc⟩ := Option.map_eq_some_iff.mp
    (rfl : (exec (Link.step .floor) (.established 1 [.ping]) schedule).map
      (fun l => l.client.calls[0]?) = some (some ⟨.ping, .done (.ok .done)⟩))
  exact ⟨l, h, hc, (commands_served .floor 65536 1 [.ping] schedule l rfl (by decide) h).2.2.2.1
    0 .ping (.ok .done) hc⟩

end Rp1.Connection

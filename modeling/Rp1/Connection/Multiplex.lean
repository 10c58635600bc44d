import Rp1.Connection.Caller
import Rp1.Connection.Ledger
import Rp1.Protocol.RoundTrip

/-!
# Connection — who gets which frame

Three results about what `drain_frames` delivers.

* Answers to multiplexed requests reach their own callers, in any order and under any
  fragmentation (`feedChunks_answers`).  One round delivers the frame at the head of the buffer to
  the request it names (`Answer.names`), an induction on the frames left over does the rest
  (`drainFrames_answers`), and chunking plays no part.
* A connection-fatal `ERROR` frame is dispatched like an answer.  It ends the session as it should
  only when nobody waits under its id and its class happens to be the one the driver reports for
  an unknown id (`fatalError_endsSession_iff`).
* What a caller decodes again is what the driver decoded, with its own request as the only one in
  flight (`completion_agrees`).
-/

namespace Rp1.Connection
open Codec Protocol Command Loop

/-! ### Answers -/

/-- A terminal frame for the request `id`: a response with an assigned result code or an error of
a request-scoped class, with no required metadata and the payload its code asks for. -/
structure Answer (id : UInt64) (o : Outgoing) : Prop where
  requestId : o.requestId = id
  terminal : (o.kind = .response ∧ (o.code = 0 ∨ o.code = 1 ∨ o.code = 4)) ∨
    (o.kind = .error ∧ ∃ cls : ErrorClass, cls.value = o.code ∧ cls.scope = .requestScoped)
  optional : ∀ e ∈ o.metadata, e.1 < 0x8000
  shape : ∀ bytes, encodePayload o.payload = .ok bytes → o.Shaped bytes

section Answers
variable {id : UInt64} {o : Outgoing} {limits : Limits} {inFlight : List UInt64} {b : Bytes}

theorem Answer.acceptable (h : Answer id o) (h₀ : id ≠ 0) (hfl : id ∈ inFlight) :
    o.Acceptable ⟨.client, .negotiated, limits, inFlight⟩ := by
  obtain ⟨kind, code, requestId, metadata, payload⟩ := o
  obtain ⟨rfl, hterm, hopt, hshape⟩ := h
  rcases hterm with ⟨rfl, hc⟩ | ⟨rfl, cls, hc, hs⟩
  · exact {
      direction := Role.noConfusion
      state := fun e => Kind.noConfusion e.1
      rule := ⟨h₀, hfl, hc⟩
      optional := hopt
      shape := hshape }
  · exact {
      direction := Role.noConfusion
      state := fun e => Kind.noConfusion e.1
      rule := ⟨cls, hc, fun _ => ⟨h₀, hfl⟩⟩
      optional := hopt
      shape := hshape }

/-- An encoded answer is the wire form of a frame that names its request. -/
theorem Answer.exists_frame (h : Answer id o) (h₀ : id ≠ 0) (hfl : id ∈ inFlight)
    (he : encodeWithMax o limits.frameSize limits.metadataSize = .ok b) :
    ∃ f : Frame, f.Legal ⟨.client, .negotiated, limits, inFlight⟩ ∧ f.bytes = b ∧
      f.header.requestId.value = id ∧ f.header.kind = o.kind ∧ f.header.code = o.code ∧
      encodePayload o.payload = .ok f.payload.bytes := by
  have hacc : o.Acceptable ⟨.client, .negotiated, limits, inFlight⟩ := h.acceptable h₀ hfl
  obtain ⟨bytes, c, hb, hc, hlegal, hbytes⟩ := hacc.legal he UInt64.le_rfl UInt16.le_rfl
  refine ⟨o.frame bytes c, hlegal, hbytes, h.requestId, rfl, rfl, ?_⟩
  have hpay : (o.received bytes).bytes = bytes := (o.lays hc hb (h.shape bytes hb)).bytes_eq
  rw [hb]
  exact congrArg Except.ok hpay.symm

/-- An encoded answer at the head of a buffer names its request and delivers exactly itself. -/
theorem Answer.names (h : Answer id o) (h₀ : id ≠ 0) (hfl : id ∈ inFlight)
    (he : encodeWithMax o limits.frameSize limits.metadataSize = .ok b) (rest : Bytes) :
    Names (b ++ rest) ⟨.client, .negotiated, limits, inFlight⟩ id b.length (.ok b) := by
  obtain ⟨f, hlegal, rfl, rfl, -⟩ := h.exists_frame h₀ hfl he
  rw [hlegal.length_bytes]
  exact .frame f (decode_eq_frame_iff.mpr ⟨hlegal, rest, rfl⟩)

end Answers

section Multiplex
variable {σ : Type} {limits : Limits} {answer : UInt64 → Outgoing} {frame : UInt64 → Bytes}
  {sender : UInt64 → σ}

/-- The driver once every request of `ids` has its answer. -/
def Driver.answered (d : Driver σ) (sender : UInt64 → σ) (frame : UInt64 → Bytes)
    (ids : List UInt64) : Driver σ :=
  { d with
    buffer := []
    completions := ∅
    live := .new
    log := d.log ++ ids.map fun id => .send id (sender id) (.ok (frame id)) }

/-- The invariant of the loop: the buffer holds the answers of the requests that still wait, in
the order in which they were sent. -/
structure Awaiting (limits : Limits) (answer : UInt64 → Outgoing) (frame : UInt64 → Bytes)
    (sender : UInt64 → σ) (d : Driver σ) (ids : List UInt64) : Prop where
  nodup : ids.Nodup
  nonzero : 0 ∉ ids
  live : ∀ id, id ∈ d.live ↔ id ∈ ids
  waiting : ∀ id, id ∈ d.completions ↔ id ∈ ids
  lookup : ∀ id ∈ ids, d.completions.lookup id = some (sender id)
  answers : ∀ id ∈ ids, Answer id (answer id)
  encoded : ∀ id ∈ ids,
    encodeWithMax (answer id) limits.frameSize limits.metadataSize = .ok (frame id)

/-- One round delivers the answer at the head and keeps the invariant for the others. -/
theorem Awaiting.resolved {d : Driver σ} {id : UInt64} {ids : List UInt64}
    (h : Awaiting limits answer frame sender d (id :: ids)) (total : Nat)
    (outcome : Except DriverError Bytes) :
    Awaiting limits answer frame sender (d.resolved id (sender id) total outcome) ids := by
  obtain ⟨hid, hnodup⟩ := List.nodup_cons.mp h.nodup
  have hne : ∀ {id'}, id' ∈ ids → id' ≠ id := fun h' e => hid (e ▸ h')
  have herase : ∀ {id'}, id' ∈ ids ↔ id' ≠ id ∧ id' ∈ id :: ids := by
    intro id'
    constructor
    · intro h'
      exact ⟨hne h', List.mem_cons_of_mem _ h'⟩
    · rintro ⟨h', hmem⟩
      exact List.mem_of_ne_of_mem h' hmem
  exact {
    nodup := hnodup
    nonzero := fun h₀ => h.nonzero (List.mem_cons_of_mem _ h₀)
    live := fun id' => by
      rw [herase, ← h.live]
      exact InFlightRegistry.mem_retire
    waiting := fun id' => by
      rw [herase, ← h.waiting]
      exact AList.mem_erase
    lookup := fun id' h' => by
      rw [← h.lookup id' (List.mem_cons_of_mem _ h')]
      exact AList.lookup_erase_ne (hne h')
    answers := fun id' h' => h.answers id' (List.mem_cons_of_mem _ h')
    encoded := fun id' h' => h.encoded id' (List.mem_cons_of_mem _ h') }

/-- **A buffer of answers.**  Draining it hands each waiting request its own frame, in the order
of the frames, and leaves nothing behind. -/
theorem drainFrames_answers {ids : List UInt64} {d : Driver σ}
    (h : Awaiting limits answer frame sender d ids) (hb : d.buffer = ids.flatMap frame) :
    drainFrames limits d = (d.answered sender frame ids, none) := by
  -- on the requests that wait; the answer of the first one heads the buffer
  induction ids generalizing d with
  | nil =>
      have hneed : decode d.buffer (d.admission limits) = .need headerLength := by
        rw [hb]
        exact decode_short (Nat.zero_lt_succ 19)
      have hlive : d.live = .new :=
        InFlightRegistry.eq_new_of_forall_notMem fun id hid => nomatch (h.live id).mp hid
      have hwait : d.completions = ∅ :=
        Waiters.eq_empty_of_forall_notMem fun id hid => nomatch (h.waiting id).mp hid
      have hsame : d.answered sender frame [] = d := by
        rw [Driver.answered, List.map_nil, List.append_nil, ← hlive, ← hwait]
        exact congrArg (fun buffer => { d with buffer }) hb.symm
      rw [drainFrames, run_leave (drainIteration_need hneed), hsame]
  | cons id ids ih =>
      have hmem : id ∈ id :: ids := List.mem_cons_self
      have h₀ : id ≠ 0 := fun e => h.nonzero (e ▸ hmem)
      have hnames : Names d.buffer (d.admission limits) id (frame id).length (.ok (frame id)) := by
        rw [hb, List.flatMap_cons]
        exact (h.answers id hmem).names h₀ ((h.live id).mpr hmem) (h.encoded id hmem) _
      have hround := hnames.resolves (h.lookup id hmem)
      have hbuf : (d.resolved id (sender id) (frame id).length (.ok (frame id))).buffer =
          ids.flatMap frame := by
        show d.buffer.drop (frame id).length = _
        rw [hb, List.flatMap_cons, List.drop_left]
      rw [drainFrames, (drainIteration_shrinks limits).run_again hround]
      refine (ih (h.resolved _ _) hbuf).trans ?_
      simp [Driver.answered, Driver.resolved]

/-- **Answers reach their own caller, in any order and under any fragmentation.**  When the
requests of `ids` are exactly those in flight and the peer sends one answer to each, in any order
and cut into any chunks, no chunk ends the session, each caller gets exactly the bytes of its own
answer, and no request and no byte is left.  A caller whose `GET` succeeded then reads the value
that was sent for it. -/
theorem feedChunks_answers {ids : List UInt64} {d : Driver σ} {chunks : List Bytes}
    (h : Awaiting limits answer frame sender d ids) (hb : d.buffer = [])
    (hs : chunks.flatten = ids.flatMap frame) :
    feedChunks limits d chunks = (d.answered sender frame ids, none) ∧
    ∀ n : Negotiated, n.effectiveLimits = limits →
      ∀ id ∈ ids, (answer id).kind = .response → (answer id).code = 0 →
        ∀ v, encodePayload (answer id).payload = .ok v →
          ∃ f, n.decodeOwn (frame id) = .ok f ∧ interpretGet f = .ok (.present v) := by
  constructor
  · have hneed : decode d.buffer (d.admission limits) = .need headerLength := by
      rw [hb]
      exact decode_short (Nat.zero_lt_succ 19)
    -- an empty buffer waits for a header, so only the stream as a whole matters
    refine (drain_stable limits).feed_of_run (drainIteration_need hneed) ?_
    rw [hs]
    have hrecv : Awaiting limits answer frame sender (d.receive (ids.flatMap frame)) ids :=
      ⟨h.nodup, h.nonzero, h.live, h.waiting, h.lookup, h.answers, h.encoded⟩
    exact drainFrames_answers hrecv (by rw [Driver.receive, hb, List.nil_append])
  · intro n hn id hid hk hcode v hv
    have h₀ : id ≠ 0 := fun e => h.nonzero (e ▸ hid)
    obtain ⟨f, hlegal, hbytes, hfid, hfk, hfc, hpay⟩ :=
      (h.answers id hid).exists_frame h₀ (List.mem_singleton.mpr rfl) (h.encoded id hid)
    have hval : f.payload.bytes = v := Except.ok.inj (hpay.symm.trans hv)
    refine ⟨f, ?_, ?_⟩
    · rw [← hbytes]
      refine Negotiated.decodeOwn_of_legal ?_
      rw [hn, hfid]
      exact hlegal
    · generalize hg : interpretGet f = r
      have hans := hg ▸ interpretGet_of_legal hlegal rfl
      cases hans with
      | success => rw [hval]
      | absent _ hc' => rw [hfc, hcode] at hc'; cases hc'
      | held _ _ hc' => rw [hfc, hcode] at hc'; cases hc'
      | failed _ hk' => rw [hfk, hk] at hk'; cases hk'

end Multiplex

/-- Two requests are answered in the other order, in pieces that end inside the headers. -/
theorem feedChunks_answers_two :
    (feedChunks ⟨64, 16⟩
      (⟨[], ((∅ : Waiters Nat).insert 7 70).insert 9 90, ⟨[9, 7], by decide⟩, false, []⟩ :
        Driver Nat)
      [[0, 2, 0, 0, 1, 0, 0], [0, 0, 0, 0, 0, 9, 0, 0, 0, 0, 0, 0, 0, 0, 2, 0],
        [0, 0, 0, 0, 0, 1, 0, 0, 0, 7, 0, 0, 0, 0, 0, 0, 0, 65]]).1.log =
      [.send 9 90 (.ok [0, 2, 0, 0, 1, 0, 0, 0, 0, 0, 0, 0, 9, 0, 0, 0, 0, 0, 0, 0]),
        .send 7 70 (.ok [0, 2, 0, 0, 0, 0, 0, 0, 1, 0, 0, 0, 7, 0, 0, 0, 0, 0, 0, 0, 65])] := by
  let answer : UInt64 → Outgoing := fun id =>
    if id = 7 then ⟨.response, 0, 7, [], .opaqueBytes [65]⟩
    else ⟨.response, 1, 9, [], .opaqueBytes []⟩
  let frame : UInt64 → Bytes := fun id =>
    if id = 7 then [0, 2, 0, 0, 0, 0, 0, 0, 1, 0, 0, 0, 7, 0, 0, 0, 0, 0, 0, 0, 65]
    else [0, 2, 0, 0, 1, 0, 0, 0, 0, 0, 0, 0, 9, 0, 0, 0, 0, 0, 0, 0]
  let sender : UInt64 → Nat := fun id => if id = 7 then 70 else 90
  have hseven : Answer 7 (answer 7) :=
    ⟨rfl, .inl ⟨rfl, .inl rfl⟩, fun _ he => (nomatch he),
      fun _ _ => ⟨fun e => absurd e (by decide), fun e => absurd e (by decide)⟩⟩
  have hnine : Answer 9 (answer 9) := by
    refine ⟨rfl, .inl ⟨rfl, .inr (.inl rfl)⟩, fun _ he => (nomatch he), fun bytes hb => ?_⟩
    exact ⟨fun _ => (Except.ok.inj hb).symm, fun e => absurd e (by decide)⟩
  have hawait : Awaiting ⟨64, 16⟩ answer frame sender
      ⟨[], ((∅ : Waiters Nat).insert 7 70).insert 9 90, ⟨[9, 7], by decide⟩, false, []⟩ [9, 7] :=
    { nodup := by decide
      nonzero := by decide
      live := fun _ => .rfl
      waiting := fun _ => .rfl
      lookup := List.forall_mem_cons.mpr ⟨rfl, List.forall_mem_singleton.mpr rfl⟩
      answers := List.forall_mem_cons.mpr ⟨hnine, List.forall_mem_singleton.mpr hseven⟩
      encoded := List.forall_mem_cons.mpr
        ⟨by decide, List.forall_mem_singleton.mpr (by decide)⟩ }
  exact congrArg (fun r => r.1.log) (feedChunks_answers hawait rfl rfl).1

/-! ### Connection-fatal `ERROR` frames -/

section Fatal
variable {σ : Type} {limits : Limits} {d : Driver σ} {f : Frame} {cls : ErrorClass}

/-- What a connection-fatal `ERROR` frame of class `cls` at the head of the buffer should do: end
the session with its own class, hand nothing to any caller and leave every request in flight. -/
def EndsSession (limits : Limits) (d : Driver σ) (cls : ErrorClass) : Prop :=
  (∃ failure, (drainFrames limits d).2 = some failure ∧ failure.cls = cls) ∧
    (drainIteration limits d).1.log = d.log ∧ (drainIteration limits d).1.live = d.live

theorem Driver.log_resolved_ne (d : Driver σ) (id : UInt64) (sender : σ) (total : Nat)
    (outcome : Except DriverError Bytes) : (d.resolved id sender total outcome).log ≠ d.log := by
  intro h
  have hlen := congrArg List.length h
  rw [Driver.resolved, List.length_append, List.length_singleton] at hlen
  exact absurd hlen (Nat.succ_ne_self _)

/-- **A connection-fatal `ERROR` frame.**  The decoder says of it that it retires no request.  The
driver ends the session with the class of the frame, and without handing it to a caller, exactly
when the frame names no request in flight and its class is a protocol violation. -/
theorem fatalError_endsSession_iff (hsync : ∀ id, id ∈ d.completions ↔ id ∈ d.live)
    (h : decode d.buffer (d.admission limits) = .frame f) (hk : f.header.kind = .error)
    (hc : cls.value = f.header.code) (hs : cls.scope = .connectionFatal) :
    f.retires = ⟨0⟩ ∧
      (EndsSession limits d cls ↔
        f.header.requestId.value ∉ d.live ∧ cls = .protocolViolation) := by
  constructor
  · obtain ⟨c, hcorr, -, hret⟩ := (decode_eq_frame_iff.mp h).1.correlated
    rw [hret, hk]
    rw [hk] at hcorr
    cases hcorr with
    | error cls' hc' hreq =>
        -- the code names one class only
        have hcls : cls' = cls := Option.some.inj
          ((ErrorClass.fromWire_eq_some_iff.mpr hc').symm.trans
            (ErrorClass.fromWire_eq_some_iff.mpr hc))
        rw [hcls, hs]
        rfl
  · have hn := Names.frame f h
    -- `drain_frames` looks at the id in the header, never at the class or at what the frame retires
    by_cases hid : f.header.requestId.value ∈ d.live
    · obtain ⟨sender, hw⟩ : ∃ sender, d.completions.lookup f.header.requestId.value = some sender :=
        Option.isSome_iff_exists.mp (AList.lookup_isSome.mpr ((hsync _).mpr hid))
      constructor
      · rintro ⟨-, hlog, -⟩
        rw [hn.resolves hw] at hlog
        exact absurd hlog (d.log_resolved_ne _ _ _ _)
      · intro h'
        exact absurd hid h'.1
    · have hw : d.completions.lookup f.header.requestId.value = none :=
        AList.lookup_eq_none.mpr fun hm => hid ((hsync _).mp hm)
      have hround := hn.unknown hw
      have hdrain : (drainFrames limits d).2 = some .protocolViolation := by
        rw [drainFrames, run_leave hround]
      constructor
      · rintro ⟨⟨failure, hf, hcls⟩, -, -⟩
        obtain rfl := Option.some.inj (hdrain.symm.trans hf)
        exact ⟨hid, hcls.symm⟩
      · rintro ⟨-, hcls⟩
        refine ⟨⟨_, hdrain, hcls.symm⟩, ?_, ?_⟩
        · rw [hround]
        · rw [hround]

end Fatal

/-- A protocol violation reported under an id that nobody uses ends the session as it should. -/
theorem fatalError_endsSession_unknown :
    EndsSession ⟨64, 16⟩
      (⟨[0, 3, 0, 0, 12, 0, 0, 0, 2, 0, 0, 0, 9, 0, 0, 0, 0, 0, 0, 0, 0, 0],
        (∅ : Waiters Unit).insert 7 (), ⟨[7], by decide⟩, false, []⟩ : Driver Unit)
      .protocolViolation := by
  have hd : decode [0, 3, 0, 0, 12, 0, 0, 0, 2, 0, 0, 0, 9, 0, 0, 0, 0, 0, 0, 0, 0, 0]
      ⟨.client, .negotiated, ⟨64, 16⟩, [7]⟩ =
        .frame ⟨⟨⟨0⟩, .error, ⟨0⟩, 12, 0, 2, ⟨9⟩⟩, ⟨[]⟩, .error [] [], ⟨0⟩⟩ := by decide
  exact (fatalError_endsSession_iff (fun _ => .rfl) hd rfl rfl rfl).2.mpr ⟨by decide, rfl⟩

/-- A malformed-request error, which is connection-fatal, under the id of a request in flight: the
caller is handed the frame as its answer, the request is retired and the session goes on. -/
theorem fatalError_delivered :
    decode [0, 3, 0, 0, 1, 0, 0, 0, 2, 0, 0, 0, 7, 0, 0, 0, 0, 0, 0, 0, 0, 0]
      ⟨.client, .negotiated, ⟨64, 16⟩, [7]⟩ =
        .frame ⟨⟨⟨0⟩, .error, ⟨0⟩, 1, 0, 2, ⟨7⟩⟩, ⟨[]⟩, .error [] [], ⟨0⟩⟩ ∧
    ErrorClass.malformedRequest.value = 1 ∧
    ErrorClass.malformedRequest.scope = .connectionFatal ∧
    drainFrames ⟨64, 16⟩
      (⟨[0, 3, 0, 0, 1, 0, 0, 0, 2, 0, 0, 0, 7, 0, 0, 0, 0, 0, 0, 0, 0, 0],
        (∅ : Waiters Unit).insert 7 (), ⟨[7], by decide⟩, false, []⟩ : Driver Unit) =
      (⟨[], ∅, .new, false, [.send 7 ()
        (.ok [0, 3, 0, 0, 1, 0, 0, 0, 2, 0, 0, 0, 7, 0, 0, 0, 0, 0, 0, 0, 0, 0])]⟩, none) :=
  ⟨by decide, rfl, rfl, rfl⟩

/-! ### The second decode -/

/-- A frame a client has to accept stays one when its own request is the only one in flight. -/
theorem legal_alone {limits : Limits} {inFlight : List UInt64} {f : Frame}
    (h : f.Legal ⟨.client, .negotiated, limits, inFlight⟩) :
    f.Legal ⟨.client, .negotiated, limits, [f.header.requestId.value]⟩ := by
  obtain ⟨c, hc, hlay⟩ := h.correlated
  have hmem : f.header.requestId.value ∈ [f.header.requestId.value] := List.mem_singleton.mpr rfl
  refine { h with correlated := ⟨c, ?_, hlay⟩ }
  have hdir := h.direction
  generalize f.header.kind = kind at hc hdir
  cases hc with
  | handshake => exact absurd rfl hdir
  | operation => exact absurd rfl hdir
  | response hid hfl result hc => exact .response hid hmem result hc
  | error cls hc hreq => exact .error cls hc fun hs => ⟨(hreq hs).1, hmem⟩

section Second
variable {σ : Type} {limits : Limits} {d₀ d : Driver σ}

/-- Who waits in the middle of a drain waited at its beginning. -/
theorem lookup_of_passes (h : Passes (drainIteration limits) d₀ d) :
    ∀ id sender, d.completions.lookup id = some sender →
      d₀.completions.lookup id = some sender := by
  refine h.invariant (I := fun d => ∀ id sender, d.completions.lookup id = some sender →
    d₀.completions.lookup id = some sender) (fun d d' hI hr => ?_) fun _ _ hw => hw
  cases round hr with
  | resolves id' total outcome sender' hn hw' =>
      intro id sender hw
      by_cases hid : id = id'
      · subst hid
        rw [Driver.resolved, AList.lookup_erase] at hw
        cases hw
      · rw [Driver.resolved, AList.lookup_erase_ne hid] at hw
        exact hI id sender hw

/-- **The caller's decode agrees with the driver's.**  When a round of `drain_frames` hands a
waiter a frame, the bytes are exactly those of the frame the decoder admitted at the head of the
buffer, the caller reads that frame back out of them, and its id is the one under which the waiter
was submitted. -/
theorem completion_agrees (n : Negotiated) {d' : Driver σ} {id : UInt64} {sender : σ}
    {frameBytes : Bytes} (hp : Passes (drainIteration n.effectiveLimits) d₀ d)
    (hr : drainIteration n.effectiveLimits d = (d', .again))
    (hlog : d'.log = d.log ++ [.send id sender (.ok frameBytes)]) :
    ∃ f, decode d.buffer (d.admission n.effectiveLimits) = .frame f ∧
      frameBytes = d.buffer.take
        (20 + f.header.metadataLength.toNat + f.header.payloadLength.toNat) ∧
      frameBytes.length = 20 + f.header.metadataLength.toNat + f.header.payloadLength.toNat ∧
      n.decodeOwn frameBytes = .ok f ∧ f.header.requestId.value = id ∧
      d₀.completions.lookup id = some sender ∧
      ∀ received, Ledger received d₀ → (id, sender) ∈ received := by
  cases round hr with
  | resolves id' total outcome sender' hn hw =>
      obtain ⟨rfl, rfl, rfl⟩ : id' = id ∧ sender' = sender ∧ outcome = .ok frameBytes := by
        simpa [Driver.resolved] using hlog
      generalize ho : Except.ok frameBytes = outcome at hn
      cases hn with
      | refused => cases ho
      | frame f hf =>
          obtain rfl := Except.ok.inj ho
          have hlegal := (decode_eq_frame_iff.mp hf).1
          have hw₀ := lookup_of_passes hp _ _ hw
          refine ⟨f, hf, (take_of_decode hf).symm, hlegal.length_bytes,
            Negotiated.decodeOwn_of_legal (legal_alone hlegal), rfl, hw₀, fun received hl => ?_⟩
          have hmem : (f.header.requestId.value, sender') ∈ d₀.waiting :=
            List.mem_map.mpr ⟨_, AList.mem_lookup_iff.mp hw₀, rfl⟩
          exact hl.balanced.mem_iff.mpr (List.mem_append_right _ hmem)

end Second

/-- An absent answer in front of a piece of the next frame, read back by its caller. -/
theorem completion_agrees_absent :
    (⟨0, 64, 16, [], 64, 16⟩ : Negotiated).decodeOwn
        [0, 2, 0, 0, 1, 0, 0, 0, 0, 0, 0, 0, 7, 0, 0, 0, 0, 0, 0, 0] =
      .ok ⟨⟨⟨0⟩, .response, ⟨0⟩, 1, 0, 0, ⟨7⟩⟩, ⟨[]⟩, .opaqueBytes [], ⟨7⟩⟩ := by
  let n : Negotiated := ⟨0, 64, 16, [], 64, 16⟩
  let d : Driver Nat :=
    ⟨[0, 2, 0, 0, 1, 0, 0, 0, 0, 0, 0, 0, 7, 0, 0, 0, 0, 0, 0, 0, 0, 2],
      (∅ : Waiters Nat).insert 7 70, ⟨[7], by decide⟩, false, []⟩
  have hd : decode [0, 2, 0, 0, 1, 0, 0, 0, 0, 0, 0, 0, 7, 0, 0, 0, 0, 0, 0, 0, 0, 2]
      ⟨.client, .negotiated, n.effectiveLimits, [7]⟩ =
        .frame ⟨⟨⟨0⟩, .response, ⟨0⟩, 1, 0, 0, ⟨7⟩⟩, ⟨[]⟩, .opaqueBytes [], ⟨7⟩⟩ := by decide
  have hn : Names d.buffer (d.admission n.effectiveLimits) 7 20
      (.ok [0, 2, 0, 0, 1, 0, 0, 0, 0, 0, 0, 0, 7, 0, 0, 0, 0, 0, 0, 0]) := .frame _ hd
  have hw : d.completions.lookup 7 = some 70 := rfl
  obtain ⟨f, hf, -, -, hown, -⟩ := completion_agrees n .start (hn.resolves hw) rfl
  cases hd.symm.trans hf
  exact hown

end Rp1.Connection

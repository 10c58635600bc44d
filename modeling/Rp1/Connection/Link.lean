import Rp1.Connection.Reader
import Rp1.Connection.Replies

/-!
# Connection — a client and its peer

The closed system: a client, a peer that answers requests, and the two streams between them.  The
transport works, nobody aborts the driver and nobody closes the session; everything else is open.
The peer answers each request it has read at most once, with any frame the client has to admit as an
answer to it, in any order and after any time, and the driver reads the bytes in any pieces.

`drainFrames_answers_part` is what the driver does with such a stream.  The pieces end anywhere in
it, so its buffer holds some whole answers and the beginning of another one; each whole answer goes
to the request it names, and nothing is wrong with the beginning.
-/

namespace Rp1.Connection
open Codec Protocol Command Loop Runs

/-! ### The model -/

/-- One whole frame that names the request `id` and that a client with this request in flight
admits. -/
def answersOnly (limits : Limits) (id : UInt64) (bytes : Bytes) : Bool :=
  match decode bytes ⟨.client, .negotiated, limits, [id]⟩ with
  | .frame f => decide (f.header.requestId.value = id ∧ f.bytes.length = bytes.length)
  | .need _ | .failure .. => false

/-- A client and its peer: the bytes that the client has sent, the answers that the peer has given
to them, each with the request it is for, and the bytes of the answers that are still under way. -/
structure Link where
  client : Client
  sent : Bytes
  answered : List (UInt64 × Bytes)
  channel : Bytes

/-- Who moves next. -/
inductive LinkTurn where
  | client (turn : Turn)
  /-- The peer answers a request it has read. -/
  | answer (id : UInt64) (bytes : Bytes)
  /-- The driver reads the next `k + 1` bytes. -/
  | deliver (k : Nat)

/-- A step of the client alone, with a transport that takes every frame. -/
def Turn.unspoilt : Turn → Bool
  | .session (.select (.submit s writes)) => (writeAll writes s.bytes).2
  | .session .perform | .call _ | .drop _ => true
  | .session _ => false

def Link.established (bound : Nat) (ops : List Operation) : Link :=
  ⟨.established bound 0 ops, [], [], []⟩

/-- The driver reads the next `k + 1` bytes. -/
def Link.reads (l : Link) (k : Nat) : Turn :=
  .session (.select (.read (l.channel.take (k + 1))))

def Link.step (n : Negotiated) (l : Link) : LinkTurn → Option Link
  | .client turn =>
      if turn.unspoilt then
        (l.client.step n turn).map fun client =>
          { l with client, sent := l.sent ++ l.client.accepts turn }
      else none
  | .answer id bytes =>
      if id ∈ (readRequests n.effectiveLimits l.sent).1.ids ∧ id ∉ l.answered.map Prod.fst ∧
          answersOnly n.effectiveLimits id bytes then
        some { l with answered := l.answered ++ [(id, bytes)], channel := l.channel ++ bytes }
      else none
  | .deliver k =>
      if k < l.channel.length ∧ k < readChunkSize then
        (l.client.step n (l.reads k)).map fun client =>
          { l with client, channel := l.channel.drop (k + 1) }
      else none

/-- The step that the client takes in a step of the system. -/
def Link.turn (l : Link) : LinkTurn → Option (Client × Turn)
  | .client turn => some (l.client, turn)
  | .answer .. => none
  | .deliver k => some (l.client, l.reads k)

/-- The steps of the client in the steps `past` of the system. -/
def clientSteps (past : List (Link × LinkTurn)) : List (Client × Turn) :=
  past.filterMap fun p => p.1.turn p.2

theorem clientSteps_snoc (past : List (Link × LinkTurn)) (l : Link) (turn : LinkTurn) :
    clientSteps (past ++ [(l, turn)]) = clientSteps past ++ (l.turn turn).toList := by
  rw [clientSteps, List.filterMap_append, filterMap_cons_toList, List.filterMap_nil,
    List.append_nil, clientSteps]

/-! ### An answer -/

section Answers
variable {limits : Limits} {id : UInt64} {bytes : Bytes}

theorem answersOnly_iff :
    answersOnly limits id bytes = true ↔
      ∃ f : Frame, f.Legal ⟨.client, .negotiated, limits, [id]⟩ ∧ f.bytes = bytes ∧
        f.header.requestId.value = id := by
  constructor
  · intro h
    rw [answersOnly] at h
    split at h
    · rename_i f hf
      obtain ⟨hid, hlen⟩ := of_decide_eq_true h
      obtain ⟨hlegal, rest, hb⟩ := decode_eq_frame_iff.mp hf
      refine ⟨f, hlegal, ?_, hid⟩
      rw [hb, List.length_append] at hlen
      obtain rfl : rest = [] := List.eq_nil_of_length_eq_zero (by omega)
      rw [hb, List.append_nil]
    · cases h
    · cases h
  · rintro ⟨f, hlegal, rfl, hid⟩
    rw [answersOnly, decode_eq_frame_iff.mpr ⟨hlegal, [], (List.append_nil _).symm⟩]
    exact decide_eq_true ⟨hid, rfl⟩

/-- What else is in flight does not matter to an answer. -/
theorem legal_among {inFlight inFlight' : List UInt64} {f : Frame}
    (h : f.Legal ⟨.client, .negotiated, limits, inFlight⟩)
    (hm : f.header.requestId.value ∈ inFlight') :
    f.Legal ⟨.client, .negotiated, limits, inFlight'⟩ := by
  obtain ⟨c, hc, hlay⟩ := h.correlated
  refine { h with correlated := ⟨c, ?_, hlay⟩ }
  have hdir := h.direction
  generalize f.header.kind = kind at hc hdir
  cases hc with
  | handshake => exact absurd rfl hdir
  | operation => exact absurd rfl hdir
  | response hid hfl result hc => exact .response hid hm result hc
  | error cls hc hreq => exact .error cls hc fun hs => ⟨(hreq hs).1, hm⟩

theorem ne_nil_of_answersOnly (h : answersOnly limits id bytes = true) : bytes ≠ [] := by
  obtain ⟨f, hlegal, rfl, -⟩ := answersOnly_iff.mp h
  have hlen := hlegal.length_bytes
  intro e
  rw [e, RawHeader.total, headerLength, List.length_nil] at hlen
  omega

end Answers

/-! ### The driver on a stream of answers -/

section Drain
variable {σ : Type} {limits : Limits} {d : Driver σ}

theorem Driver.mem_waiting {id : UInt64} {sender : σ} :
    (id, sender) ∈ d.waiting ↔ d.completions.lookup id = some sender := by
  rw [Driver.waiting, List.mem_map]
  constructor
  · rintro ⟨e, he, hp⟩
    cases hp
    exact AList.mem_lookup_iff.mpr he
  · intro h
    exact ⟨⟨id, sender⟩, AList.mem_lookup_iff.mp h, rfl⟩

/-- A request that is resolved waits no longer, and the others still do. -/
theorem Driver.mem_waiting_resolved {id : UInt64} {sender : σ} {total : Nat}
    {outcome : Except DriverError Bytes} {p : UInt64 × σ} :
    p ∈ (d.resolved id sender total outcome).waiting ↔ p ∈ d.waiting ∧ p.1 ≠ id := by
  obtain ⟨id', sender'⟩ := p
  rw [Driver.mem_waiting, Driver.mem_waiting]
  show (d.completions.erase id).lookup id' = some sender' ↔ _
  by_cases h : id' = id
  · subst h
    rw [AList.lookup_erase]
    exact ⟨fun e => (nomatch e), fun e => absurd rfl e.2⟩
  · rw [AList.lookup_erase_ne h]
    exact ⟨fun e => ⟨e, h⟩, And.left⟩

/-- The driver has come from `d` to `d'` through the answers of `read`, and has the others before
it. -/
structure Drained (d : Driver σ) (answers : List (UInt64 × Bytes)) (d' : Driver σ)
    (read rest : List (UInt64 × Bytes)) : Prop where
  split : answers = read ++ rest
  buffer : d.buffer = read.flatMap Prod.snd ++ d'.buffer
  /-- What is left in the buffer is less than the next answer. -/
  short : ∀ p ∈ rest.head?, d'.buffer.length < p.2.length
  waiting : ∀ p, p ∈ d'.waiting ↔ p ∈ d.waiting ∧ p.1 ∉ read.map Prod.fst
  log : ∃ sends, d'.log = d.log ++ sends ∧ ∀ x ∈ sends, ∃ p ∈ read, ∃ sender,
    (p.1, sender) ∈ d.waiting ∧ x = .send p.1 sender (.ok p.2)

/-- Nothing is read yet. -/
theorem Drained.refl {answers : List (UInt64 × Bytes)}
    (h : ∀ p ∈ answers.head?, d.buffer.length < p.2.length) : Drained d answers d [] answers where
  split := rfl
  buffer := rfl
  short := h
  waiting := fun _ => ⟨fun hp => ⟨hp, List.not_mem_nil⟩, And.left⟩
  log := ⟨[], (List.append_nil _).symm, fun _ hx => nomatch hx⟩

/-- One more answer at the head. -/
theorem Drained.cons {p : UInt64 × Bytes} {answers read rest : List (UInt64 × Bytes)}
    {sender : σ} {d' : Driver σ} (hw : (p.1, sender) ∈ d.waiting)
    (hb : d.buffer = p.2 ++ (d.resolved p.1 sender p.2.length (.ok p.2)).buffer)
    (h : Drained (d.resolved p.1 sender p.2.length (.ok p.2)) answers d' read rest) :
    Drained d (p :: answers) d' (p :: read) rest where
  split := by rw [h.split, List.cons_append]
  buffer := by rw [hb, h.buffer, List.flatMap_cons, List.append_assoc]
  short := h.short
  waiting := fun q => by
    rw [h.waiting, Driver.mem_waiting_resolved, List.map_cons, List.mem_cons, not_or, and_assoc]
  log := by
    obtain ⟨sends, hlog, hall⟩ := h.log
    refine ⟨.send p.1 sender (.ok p.2) :: sends, ?_, fun x hx => ?_⟩
    · rw [hlog]
      exact List.append_assoc ..
    · rcases List.mem_cons.mp hx with rfl | hx
      · exact ⟨p, List.mem_cons_self, sender, hw, rfl⟩
      · obtain ⟨q, hq, sender', hw', rfl⟩ := hall x hx
        exact ⟨q, List.mem_cons_of_mem _ hq, sender', (Driver.mem_waiting_resolved.mp hw').1, rfl⟩

/-- **A part of a stream of answers.**  By induction on the answers: the buffer holds the whole of
the next one, or less than that. -/
theorem drainFrames_answers_part (limits : Limits) (answers : List (UInt64 × Bytes)) :
    ∀ (d : Driver σ) (received : List (UInt64 × σ)), Ledger received d →
      (answers.map Prod.fst).Nodup → (∀ p ∈ answers, answersOnly limits p.1 p.2 = true) →
      (∀ p ∈ answers, ∃ sender, (p.1, sender) ∈ d.waiting) →
      d.buffer <+: answers.flatMap Prod.snd →
      ∃ d' read rest, drainFrames limits d = (d', none) ∧ Drained d answers d' read rest := by
  induction answers with
  | nil =>
      intro d received _ _ _ _ hb
      have hneed : decode d.buffer (d.admission limits) = .need headerLength := by
        rw [List.prefix_nil.mp hb]
        exact decode_short (Nat.zero_lt_succ 19)
      exact ⟨d, [], [], run_leave (drainIteration_need hneed), .refl fun _ hm => nomatch hm⟩
  | cons p answers ih =>
      intro d received hl hnodup hall hwaits hb
      rw [List.map_cons, List.nodup_cons] at hnodup
      obtain ⟨f, hlegal, hbytes, hid⟩ := answersOnly_iff.mp (hall p List.mem_cons_self)
      obtain ⟨sender, hw⟩ := hwaits p List.mem_cons_self
      have hlookup := Driver.mem_waiting.mp hw
      have hlegal : f.Legal (d.admission limits) := by
        refine legal_among hlegal ?_
        rw [hid]
        exact (hl.synced _).mp (Waiters.mem_of_lookup hlookup)
      rw [List.flatMap_cons] at hb
      by_cases hlt : d.buffer.length < p.2.length
      · -- not yet the whole answer
        have hpart : d.buffer <+: f.bytes := by
          rw [hbytes]
          exact List.prefix_of_prefix_length_le hb (List.prefix_append _ _) hlt.le
        obtain ⟨m, hneed⟩ := decode_beginning hlegal hpart (hbytes ▸ hlt)
        refine ⟨d, [], p :: answers, run_leave (drainIteration_need hneed), .refl ?_⟩
        intro q hq
        obtain rfl := Option.some.inj hq
        exact hlt
      · -- the answer goes to its request, and the others have theirs
        obtain ⟨w, hw'⟩ := List.prefix_of_prefix_length_le (List.prefix_append _ _) hb
          (Nat.not_lt.mp hlt)
        have hnames : Names d.buffer (d.admission limits) p.1 p.2.length (.ok p.2) := by
          have hframe : decode d.buffer (d.admission limits) = .frame f :=
            decode_eq_frame_iff.mpr ⟨hlegal, w, by rw [hbytes, hw']⟩
          have h := Names.frame f hframe
          rwa [hid, ← hlegal.length_bytes, hbytes] at h
        have hrest : (d.resolved p.1 sender p.2.length (.ok p.2)).buffer = w := by
          show d.buffer.drop p.2.length = w
          rw [← hw', List.drop_left]
        obtain ⟨d', read, rest, hrun, hdrained⟩ :=
          ih (d.resolved p.1 sender p.2.length (.ok p.2)) received (hl.resolved hlookup _ _)
            hnodup.2 (fun q hq => hall q (List.mem_cons_of_mem _ hq))
            (fun q hq => by
              obtain ⟨sender', hq'⟩ := hwaits q (List.mem_cons_of_mem _ hq)
              refine ⟨sender', Driver.mem_waiting_resolved.mpr ⟨hq', fun e => hnodup.1 ?_⟩⟩
              exact e ▸ List.mem_map_of_mem hq)
            (by
              rw [hrest]
              rw [← hw'] at hb
              exact (List.prefix_append_right_inj _).mp hb)
        refine ⟨d', p :: read, rest, ?_, .cons hw (by rw [hrest, hw']) hdrained⟩
        rw [drainFrames, (drainIteration_shrinks limits).run_again (hnames.resolves hlookup)]
        exact hrun

end Drain

end Rp1.Connection

import Rp1.Connection.Buffering
import Rp1.Connection.Exchange
import Rp1.Connection.Outcomes

/-!
# Connection — where a reply comes from

The way back: from the bytes of the peer (`incoming`) through the buffer of the driver to the
command that returns.  The stream of the peer falls into frames by the lengths in their headers
(`Framed`), and what the driver keeps between two reads is less than one of them (`Short`).

`RepliesTo` is what connects the two ends.  A frame replies to a submission if it names its
identifier, if it stands in the stream at a boundary between frames, and if the read that brought
the last of its bytes came after the driver had received the submission.

`replies_genuine` says that this is the only way to a reply.  A command that returns a value has
submitted its own request, and the value is what its operation reads in a frame of the peer that
replies to that request.
-/

namespace Rp1.Connection
open Codec Protocol Command Loop Runs

/-! ### The history -/

/-- The bytes that an event brings. -/
def Event.chunk {σ : Type} : Event σ → Bytes
  | .read chunk => chunk
  | .shutdown _ | .submit .. | .submitClosed | .readFailed => []

/-- The bytes that the driver reads in a step. -/
def Turn.reads : Turn → Bytes
  | .session (.select e) => e.chunk
  | .session _ | .call _ | .drop _ => []

/-- The bytes of the peer that the driver has read in the steps `past`. -/
def incoming (past : List (Client × Turn)) : Bytes := past.flatMap fun p => p.2.reads

theorem incoming_snoc (past : List (Client × Turn)) (c : Client) (turn : Turn) :
    incoming (past ++ [(c, turn)]) = incoming past ++ turn.reads := by
  rw [incoming, List.flatMap_append, List.flatMap_singleton, incoming]

/-- A byte stream that falls into whole frames, by the lengths that their headers announce. -/
inductive Framed : Bytes → Prop where
  | nil : Framed []
  | snoc (pre frame : Bytes) (raw : RawHeader) (hf : Framed pre)
      (hp : RawHeader.parse frame = some raw) (hl : frame.length = raw.total) :
      Framed (pre ++ frame)

/-- The frame `f`, read in the steps `past`, answers the submission `s`. -/
structure RepliesTo (limits : Limits) (past : List (Client × Turn)) (s : Submit Nat) (f : Frame) :
    Prop where
  id : f.header.requestId.value = s.id
  legal : f.Legal ⟨.client, .negotiated, limits, [s.id]⟩
  /-- It stands behind whole frames, and the last of its bytes is in a chunk that came when the
  driver had the submission. -/
  read : ∃ before c chunk after pre post,
    past = before ++ (c, .session (.select (.read chunk))) :: after ∧
    s ∈ (receptions before).map Prod.fst ∧ Framed pre ∧
    incoming before ++ chunk = pre ++ f.bytes ++ post ∧ post.length < chunk.length

theorem RepliesTo.snoc {limits : Limits} {past : List (Client × Turn)} {s : Submit Nat} {f : Frame}
    (h : RepliesTo limits past s f) (p : Client × Turn) : RepliesTo limits (past ++ [p]) s f := by
  obtain ⟨hid, hlegal, before, c, chunk, after, pre, post, rfl, hs, hb⟩ := h
  exact ⟨hid, hlegal, before, c, chunk, after ++ [p], pre, post, by simp, hs, hb⟩

/-! ### The stream -/

section Stream
variable {pre buffer chunk rest : Bytes}

theorem Framed.append {a b : Bytes} (ha : Framed a) (hb : Framed b) : Framed (a ++ b) := by
  induction hb with
  | nil => exact (List.append_nil a).symm ▸ ha
  | snoc pre frame raw _ hp hl ih => exact List.append_assoc a pre frame ▸ .snoc _ _ raw ih hp hl

theorem Framed.of_legal {admission : Admission} {f : Frame} (h : f.Legal admission) :
    Framed f.bytes :=
  .snoc [] f.bytes f.header.raw .nil (RawHeader.parse_eq_some_iff.mpr ⟨_, rfl⟩) h.length_bytes

/-- `rest` is what is left of the stream behind whole frames. -/
def Consumes (stream rest : Bytes) : Prop := ∃ pre, Framed pre ∧ stream = pre ++ rest

theorem Consumes.refl (stream : Bytes) : Consumes stream stream := ⟨[], .nil, rfl⟩

theorem Consumes.trans {a b c : Bytes} (h : Consumes a b) (h' : Consumes b c) : Consumes a c := by
  obtain ⟨pre, hpre, rfl⟩ := h
  obtain ⟨pre', hpre', rfl⟩ := h'
  exact ⟨pre ++ pre', hpre.append hpre', (List.append_assoc ..).symm⟩

/-- The stream may go on. -/
theorem Consumes.append {a b : Bytes} (h : Consumes a b) (more : Bytes) :
    Consumes (a ++ more) (b ++ more) := by
  obtain ⟨pre, hpre, rfl⟩ := h
  exact ⟨pre, hpre, List.append_assoc ..⟩

/-- Less than a frame: the bytes are fewer than their header announces. -/
def Short (buffer : Bytes) : Prop :=
  ∀ raw, RawHeader.parse buffer = some raw → buffer.length < raw.total

theorem short_of_need {admission : Admission} {n : Nat} (h : decode buffer admission = .need n) :
    Short buffer := by
  intro raw hraw
  rcases cause_of_need h with ⟨hs, -⟩ | ⟨raw', -, hp, -, hl, -⟩
  · cases (RawHeader.parse_eq_none hs).symm.trans hraw
  · cases hp.symm.trans hraw
    exact hl

/-- No whole frame stands at the head of a short buffer. -/
theorem Framed.eq_nil_of_short (h : Framed pre) (hpre : pre <+: buffer) (hs : Short buffer) :
    pre = [] := by
  induction h with
  | nil => rfl
  | snoc pre frame raw _ hp hl ih =>
      obtain rfl := ih ((List.prefix_append pre frame).trans hpre)
      obtain ⟨rest, rfl⟩ := hpre
      have hlt := hs raw (RawHeader.parse_append rest hp)
      rw [List.nil_append, List.length_append] at hlt
      omega

/-- What is read behind a short buffer has the last byte of the next frame. -/
theorem Short.length_lt {admission : Admission} {f : Frame} (hs : Short buffer)
    (hl : f.Legal admission) (h : Consumes (buffer ++ chunk) (f.bytes ++ rest)) :
    rest.length < chunk.length := by
  obtain ⟨pre, hpre, he⟩ := h
  rw [← List.append_assoc] at he
  by_contra hle
  have hlen : buffer.length + chunk.length = (pre ++ f.bytes).length + rest.length := by
    rw [← List.length_append, he, List.length_append]
  -- else the frame would have been in the buffer before
  have hhead : pre ++ f.bytes <+: buffer := List.prefix_of_prefix_length_le ⟨rest, he.symm⟩
    (List.prefix_append buffer chunk) (by omega)
  have hnil := (hpre.append (.of_legal hl)).eq_nil_of_short hhead hs
  have htotal := hl.length_bytes
  rw [(List.append_eq_nil_iff.mp hnil).2, List.length_nil, RawHeader.total, headerLength] at htotal
  omega

/-- What a round takes off the buffer is a frame. -/
theorem Names.framed {admission : Admission} {id : UInt64} {total : Nat}
    {outcome : Except DriverError Bytes} (h : Names buffer admission id total outcome) :
    Framed (buffer.take total) := by
  obtain ⟨raw, hp, hraw⟩ : ∃ raw, RawHeader.parse buffer = some raw ∧ raw.total = total := by
    cases h with
    | frame f hf =>
        obtain ⟨-, rest, rfl⟩ := decode_eq_frame_iff.mp hf
        exact ⟨_, RawHeader.parse_append rest (RawHeader.parse_eq_some_iff.mpr ⟨_, rfl⟩), rfl⟩
    | refused raw failure hp => exact ⟨raw, hp, rfl⟩
  have hlen : (buffer.take total).length = total := List.length_take_of_le h.le_length
  -- the header lies inside the part that is taken
  have htake := RawHeader.parse_of_le (hlen.symm ▸ h.headerLength_le)
  have hwhole := RawHeader.parse_append (buffer.drop total) htake
  rw [List.take_append_drop, hp] at hwhole
  rw [← Option.some.inj hwhole] at htake
  exact .snoc [] _ raw .nil htake (hlen.trans hraw.symm)

end Stream

/-! ### The driver -/

section Driver
variable {σ : Type} {limits : Limits} {d d' : Driver σ}

/-- Rounds of a drain take frames off the head of the buffer, and waiters out of the table. -/
theorem consumes_of_passes (h : Passes (drainIteration limits) d d') :
    Consumes d.buffer d'.buffer ∧ d'.waiting ⊆ d.waiting := by
  refine h.invariant (I := fun d' => Consumes d.buffer d'.buffer ∧ d'.waiting ⊆ d.waiting)
    (fun d₁ d₂ hI hr => ?_) ⟨.refl _, List.Subset.refl _⟩
  cases round hr with
  | resolves id total outcome sender hn hw =>
      have hframe : Consumes d₁.buffer (d₁.buffer.drop total) :=
        ⟨_, hn.framed, (List.take_append_drop ..).symm⟩
      refine ⟨hI.1.trans hframe, List.Subset.trans ?_ hI.2⟩
      have hperm :
          d₁.waiting.Perm ((id, sender) :: (d₁.resolved id sender total outcome).waiting) :=
        (Waiters.entries_perm hw).map fun e : (_ : UInt64) × σ => (e.1, e.2)
      exact fun p hp => hperm.mem_iff.mpr (List.mem_cons_of_mem _ hp)

/-- **What a drain leaves**: less than a frame, behind the frames it took. -/
theorem consumes_of_drained (h : drainFrames limits d = (d', none)) :
    Consumes d.buffer d'.buffer ∧ Short d'.buffer := by
  obtain ⟨d₁, hp, hr⟩ := (drainIteration_shrinks limits).exists_passes d d' none h
  cases round hr with
  | waits n hn => exact ⟨(consumes_of_passes hp).1, short_of_need hn⟩

/-- An iteration that goes on reads a chunk behind the buffer, takes frames off its head, and keeps
less than a frame. -/
theorem consumes_iterate {e : Event σ} (hs : Short d.buffer)
    (h : (iterate limits d e).2.result = none) :
    Consumes (d.buffer ++ e.chunk) (iterate limits d e).1.buffer ∧
      Short (iterate limits d e).1.buffer := by
  have hother : (∀ chunk, e ≠ .read chunk) → e.chunk = [] →
      Consumes (d.buffer ++ e.chunk) (iterate limits d e).1.buffer ∧
        Short (iterate limits d e).1.buffer := by
    intro he hc
    rw [(iterate_buffer limits d e).1 he, hc, List.append_nil]
    exact ⟨.refl _, hs⟩
  cases e with
  | read chunk =>
      have hit := iteration limits d (.read chunk)
      generalize iterate limits d (.read chunk) = r at hit h ⊢
      cases hit with
      | fatal _ d' failure hd => cases h
      | drained _ d' hd =>
          rw [buffer_bottom]
          exact consumes_of_drained hd
  | shutdown ok => exact hother (by rintro _ ⟨⟩) rfl
  | submit s writes => exact hother (by rintro _ ⟨⟩) rfl
  | submitClosed => exact hother (by rintro _ ⟨⟩) rfl
  | readFailed => exact hother (by rintro _ ⟨⟩) rfl

/-- A frame that the driver passes on stood in the buffer behind whole frames, and names a request
that waits. -/
theorem Told.frame {e : Event σ} {id : UInt64} {sender : σ} {bytes : Bytes}
    (h : Told limits d e (.send id sender (.ok bytes))) :
    ∃ (chunk post : Bytes) (f : Frame), e = .read chunk ∧ bytes = f.bytes ∧
      f.header.requestId.value = id ∧ f.Legal ⟨.client, .negotiated, limits, [id]⟩ ∧
      (id, sender) ∈ d.waiting ∧ Consumes (d.buffer ++ chunk) (f.bytes ++ post) := by
  cases h with
  | round chunk d₁ _ total _ _ hp hn hw =>
      obtain ⟨hbuffer, hwaiting⟩ := consumes_of_passes hp
      cases hn with
      | frame f hf =>
          obtain ⟨hlegal, rest, hb⟩ := decode_eq_frame_iff.mp hf
          refine ⟨chunk, rest, f, rfl, rfl, rfl, legal_alone hlegal, hwaiting ?_, hb ▸ hbuffer⟩
          exact List.mem_map_of_mem
            (f := fun e : (_ : UInt64) × σ => (e.1, e.2)) (AList.mem_lookup_iff.mp hw)
  | silent _ _ hx => cases hx

end Driver

/-! ### The commands -/

section Replies
variable {n : Negotiated} {c c' : Client}

/-- **How a command succeeds**: with the outcome it got. -/
theorem Place.step_succeeded {c₁ : Client} {i : Nat} {op : Operation} {place : Place}
    {reply : Reply} (h : place.step n c i op = some (c₁, .done (.ok reply))) :
    ∃ id bytes, place = .await id (some (.ok bytes)) ∧ op.finish n bytes = .ok reply := by
  cases place with
  | await id inbox =>
      cases inbox with
      | none =>
          obtain ⟨-, h⟩ := Option.ite_none_right_eq_some.mp h
          cases h
      | some outcome =>
          simp only [Place.step, Option.some.injEq, Prod.mk.injEq, Place.done.injEq] at h
          cases outcome with
          | error error => cases h.2
          | ok bytes => exact ⟨id, bytes, rfl, h.2⟩
  | start =>
      rw [Place.step] at h
      split at h
      · cases h
      · split at h
        · simp only at h
          split at h <;> cases h
        · cases h
  | acquire payload =>
      rw [Place.step] at h
      split at h
      · cases h
      · obtain ⟨-, h⟩ := Option.ite_none_right_eq_some.mp h
        cases h
  | allocate payload =>
      simp only [Place.step] at h
      split at h
      · cases h
      · split at h <;> cases h
  | send id bytes =>
      rw [Place.step] at h
      split at h
      · cases h
      · obtain ⟨-, h⟩ := Option.ite_none_right_eq_some.mp h
        cases h
  | _ => cases h

/-- The command decodes the frame it was given once more, and reads the same in it. -/
theorem Operation.interpret_of_finish {op : Operation} {f : Frame} {reply : Reply}
    (hl : f.Legal ⟨.client, .negotiated, n.effectiveLimits, [f.header.requestId.value]⟩)
    (h : op.finish n f.bytes = .ok reply) : op.interpret f = .ok reply := by
  rw [Operation.finish, Negotiated.decodeOwn_of_legal hl] at h
  cases hi : op.interpret f with
  | ok r =>
      have h : (op.interpret f).mapError CommandError.fromCommandFailure = .ok reply := h
      rw [hi] at h
      cases h
      rfl
  | error failure =>
      have h : (op.interpret f).mapError CommandError.fromCommandFailure = .ok reply := h
      rw [hi] at h
      cases h

/-- The way back of the replies, after the steps `past`. -/
structure Client.Answered (n : Negotiated) (past : List (Client × Turn)) (c : Client) : Prop where
  sound : c.session.Sound
  stream : ∀ t, c.session.task = some t → t.left = none →
    Consumes (incoming past) t.driver.buffer ∧ Short t.driver.buffer
  waiting : ∀ p ∈ c.session.waiting,
    ∃ s ∈ (receptions past).map Prod.fst, (s.id, s.completion) = p
  hears : c.Hears fun i outcome => ∀ bytes, outcome = .ok bytes →
    ∃ s f, s.completion = i ∧ RepliesTo n.effectiveLimits past s f ∧ bytes = f.bytes
  returned : ∀ i op reply, c.calls[i]? = some ⟨op, .done (.ok reply)⟩ →
    ∃ s f, s.completion = i ∧ RepliesTo n.effectiveLimits past s f ∧ op.interpret f = .ok reply

theorem Client.Answered.established (n : Negotiated) (bound closers : Nat)
    (ops : List Operation) : (Client.established bound closers ops).Answered n [] where
  sound := (Client.Wired.established bound closers ops).sound
  stream := fun t ht _ => by
    obtain rfl := Option.some.inj ht
    exact ⟨.refl [], fun _ hp => nomatch hp⟩
  waiting := fun _ hp => nomatch hp
  hears := .established _ bound closers ops
  returned := fun i op reply hc => by
    obtain ⟨_, -, h⟩ := Option.map_eq_some_iff.mp ((List.getElem?_map ..).symm.trans hc)
    cases h

/-- **The driver in a step**: it iterates, or it keeps what it has. -/
theorem Client.driver_of_step {turn : Turn} {t' : Task Nat} (hs : c.step n turn = some c')
    (ht' : c'.session.task = some t') :
    (∃ e t, turn = .session (.select e) ∧ c.session.task = some t ∧
      t.select n.effectiveLimits e = some t') ∨
    (turn.reads = [] ∧ turn.receives = [] ∧
      ∃ t, c.session.task = some t ∧ t'.driver = t.driver ∧ t'.left = t.left) := by
  rcases Client.session_of_step hs with ⟨m, rfl, hm⟩ | ⟨hno, hsame⟩
  · cases m with
    | select e =>
        obtain ⟨t, t₁, -, ht, hsel, hsession⟩ := Session.select_eq_some hm
        rw [hsession] at ht'
        obtain rfl := Option.some.inj ht'
        exact .inl ⟨e, t, rfl, ht, hsel⟩
    | perform =>
        obtain ⟨t, x, pending, ht, -, hsession⟩ := Session.perform_eq_some hm
        rw [hsession] at ht'
        obtain rfl := Option.some.inj ht'
        exact .inr ⟨rfl, rfl, t, ht, rfl, rfl⟩
    | abort =>
        obtain ⟨t, -, -, hsession⟩ := Session.abort_eq_some hm
        rw [hsession] at ht'
        cases ht'
    | close i ok =>
        obtain ⟨closer, s₁, closer', -, hstep, hsession⟩ := Session.close_eq_some hm
        rw [hsession] at ht'
        exact .inr ⟨rfl, rfl, t', (Closer.step_frame hstep).1 ▸ ht', rfl, rfl⟩
  · rw [hsame] at ht'
    cases turn with
    | session m => exact absurd rfl (hno m)
    | call i => exact .inr ⟨rfl, rfl, t', ht', rfl, rfl⟩
    | drop i => exact .inr ⟨rfl, rfl, t', ht', rfl, rfl⟩

theorem Event.received_eq (e : Event Nat) :
    e.received = (e.submissions.map Prod.fst).map fun s => (s.id, s.completion) := by
  cases e <;> rfl

theorem Client.Answered.waiting_step {past : List (Client × Turn)} {turn : Turn}
    (h : c.Answered n past) (hs : c.step n turn = some c') :
    ∀ p ∈ c'.session.waiting,
      ∃ s ∈ (receptions (past ++ [(c, turn)])).map Prod.fst, (s.id, s.completion) = p := by
  intro p hp
  rw [receptions_snoc, List.map_append]
  rcases Client.session_of_step hs with ⟨m, rfl, hm⟩ | ⟨-, hsame⟩
  · rcases List.mem_append.mp (h.sound.waiting_subset hm hp) with hp | hp
    · obtain ⟨s, hs, he⟩ := h.waiting p hp
      exact ⟨s, List.mem_append_left _ hs, he⟩
    · cases m with
      | select e =>
          rw [Move.received, Event.received_eq] at hp
          obtain ⟨s, hs, he⟩ := List.mem_map.mp hp
          exact ⟨s, List.mem_append_right _ hs, he⟩
      | _ => cases hp
  · rw [hsame] at hp
    obtain ⟨s, hs, he⟩ := h.waiting p hp
    exact ⟨s, List.mem_append_left _ hs, he⟩

/-- What the driver decides to send in an iteration answers a request that waits. -/
theorem Client.Answered.answers_select {past : List (Client × Turn)} {e : Event Nat}
    {t t' : Task Nat} (h : c.Answered n past) (ht : c.session.task = some t)
    (hsel : t.select n.effectiveLimits e = some t') {id : UInt64} {i : Nat} {bytes : Bytes}
    (hm : .send id i (.ok bytes) ∈ t'.pending) :
    ∃ s f, s.completion = i ∧
      RepliesTo n.effectiveLimits (past ++ [(c, .session (.select e))]) s f ∧ bytes = f.bytes := by
  obtain ⟨chunk, post, f, rfl, rfl, hid, hlegal, hwait, hb⟩ :=
    (Task.told_of_select hsel _ hm).frame
  have hwait : (id, i) ∈ c.session.waiting := by
    rw [Session.waiting, ht]
    exact hwait
  obtain ⟨s, hs, he⟩ := h.waiting _ hwait
  cases he
  obtain ⟨hstream, hshort⟩ := h.stream t ht (Task.select_eq_some hsel).2.1
  obtain ⟨pre, hpre, hin⟩ := (hstream.append chunk).trans hb
  refine ⟨s, f, rfl, ⟨hid, hlegal, past, c, chunk, [], pre, post, rfl, hs, hpre, ?_, ?_⟩, rfl⟩
  · rw [hin, List.append_assoc]
  · exact hshort.length_lt hlegal hb

theorem Client.Answered.step {past : List (Client × Turn)} {turn : Turn}
    (h : c.Answered n past) (hs : c.step n turn = some c') :
    c'.Answered n (past ++ [(c, turn)]) := by
  refine ⟨?_, fun t' ht' hleft => ?_, h.waiting_step hs, ?_, fun i op reply hc => ?_⟩
  · exact Client.session_keeps hs h.sound fun _ hm => (h.sound.step hm).1
  · rw [incoming_snoc]
    rcases Client.driver_of_step hs ht' with ⟨e, t, rfl, ht, hsel⟩ | ⟨hr, -, t, ht, hd, hl⟩
    · obtain ⟨-, hnone, hd, hl, -⟩ := Task.select_eq_some hsel
      obtain ⟨hstream, hshort⟩ := h.stream t ht hnone
      obtain ⟨hb, hshort'⟩ := consumes_iterate hshort (hl.symm.trans hleft)
      rw [hd]
      exact ⟨(hstream.append e.chunk).trans hb, hshort'⟩
    · rw [hd, hr, List.append_nil]
      exact h.stream t ht (hl.symm.trans hleft)
  · -- what was on its way still answers, and only an iteration brings something new
    refine (h.hears.mono fun i outcome hP bytes he => ?_).step hs ?_
    · obtain ⟨s, f, hi, ha, hb⟩ := hP bytes he
      exact ⟨s, f, hi, ha.snoc _, hb⟩
    · rintro e t t' rfl ht hsel id i outcome hm bytes rfl
      exact h.answers_select ht hsel hm
  · obtain ⟨place, hplace, hev⟩ := Client.evolves hs hc
    cases hev with
    | same =>
        obtain ⟨s, f, hi, ha, hr⟩ := h.returned i op reply hplace
        exact ⟨s, f, hi, ha.snoc _, hr⟩
    | moved c₁ _ _ hstep =>
        obtain ⟨id, bytes, rfl, hfinish⟩ := Place.step_succeeded hstep
        obtain ⟨s, f, hi, ha, rfl⟩ := h.hears.inbox i op id _ hplace bytes rfl
        exact ⟨s, f, hi, ha.snoc _, Operation.interpret_of_finish (ha.id ▸ ha.legal) hfinish⟩

/-- Who has submitted once is the only one with its number. -/
theorem filter_completion {subs : List (Submit Nat)} (hn : (subs.map Submit.completion).Nodup)
    {s : Submit Nat} (hs : s ∈ subs) :
    (subs.filter fun s' => s'.completion == s.completion) = [s] := by
  induction subs with
  | nil => cases hs
  | cons s₁ subs ih =>
      rw [List.map_cons, List.nodup_cons] at hn
      rcases List.mem_cons.mp hs with rfl | hs
      · rw [List.filter_cons, if_pos (beq_self_eq_true _), List.filter_eq_nil_iff.mpr]
        intro s' hs' he
        exact hn.1 (beq_iff_eq.mp he ▸ List.mem_map_of_mem hs')
      · have hne : ¬ (s₁.completion == s.completion) = true := fun he =>
          hn.1 (beq_iff_eq.mp he ▸ List.mem_map_of_mem hs)
        rw [List.filter_cons, if_neg hne]
        exact ih hn.2 hs

/-- **Every reply is the peer's answer to the command's own request.**  In every run, a command that
has returned a value has submitted the request of its operation, once, and the value is what the
operation reads in a frame of the peer that is legal, names the identifier of the request, and
stands in the peer's stream between whole frames; the last of its bytes was read when the driver
had received the request. -/
theorem replies_genuine (n : Negotiated) (bound closers : Nat) (ops : List Operation)
    (schedule : List Turn) (c : Client)
    (h : exec (Client.step n) (.established bound closers ops) schedule = some c) (i : Nat)
    (op : Operation) (reply : Reply) (hc : c.calls[i]? = some ⟨op, .done (.ok reply)⟩) :
    let past := visited (Client.step n) (.established bound closers ops) schedule
    ∃ s f, (submitted past).filter (fun s => s.completion == i) = [s] ∧ Requests n ops s ∧
      ops[i]? = some op ∧ RepliesTo n.effectiveLimits past s f ∧ op.interpret f = .ok reply := by
  intro past
  have hans : c.Answered n past :=
    exec_invariant (I := Client.Answered n) (fun _ _ _ _ h hs => h.step hs) []
      (.established n bound closers ops) h
  have hex : c.Exchange n ops past := Client.Exchange.exec h
  obtain ⟨s, f, rfl, ha, hr⟩ := hans.returned i op reply hc
  have hmem : s ∈ submitted past := by
    obtain ⟨before, c₀, chunk, after, pre, post, hpast, hs, -⟩ := ha.read
    refine hex.ordered.isPart.subset (List.mem_append_left _ ?_)
    rw [hpast, receptions, List.flatMap_append, List.map_append]
    exact List.mem_append_left _ hs
  exact ⟨s, f, filter_completion hex.submitted.nodup hmem, hex.submitted.requests s hmem,
    (hex.submitted.prepared _ op _ hc).1, ha, hr⟩

end Replies

/-- A probe, and an answer that comes in two reads. -/
theorem replies_genuine_ping :
    ∃ c s f, exec (Client.step .floor) (.established 1 0 [.ping])
        [.call 0, .call 0, .call 0, .call 0, .session (.select (.submit
          ⟨2, [0, 1, 0, 0, 2, 0, 0, 0, 0, 0, 0, 0, 2, 0, 0, 0, 0, 0, 0, 0], 0⟩ [20])),
          .session .perform, .session (.select (.read [0, 2, 0])), .session (.select (.read
            [0, 0, 0, 0, 0, 0, 0, 0, 0, 2, 0, 0, 0, 0, 0, 0, 0])),
          .session .perform, .call 0] = some c ∧
      c.calls[0]? = some ⟨.ping, .done (.ok .done)⟩ ∧
      Requests .floor [.ping] s ∧ f.header.requestId.value = s.id ∧
      Operation.ping.interpret f = .ok .done := by
  let schedule : List Turn := [.call 0, .call 0, .call 0, .call 0, .session (.select (.submit
    ⟨2, [0, 1, 0, 0, 2, 0, 0, 0, 0, 0, 0, 0, 2, 0, 0, 0, 0, 0, 0, 0], 0⟩ [20])),
    .session .perform, .session (.select (.read [0, 2, 0])), .session (.select (.read
      [0, 0, 0, 0, 0, 0, 0, 0, 0, 2, 0, 0, 0, 0, 0, 0, 0])), .session .perform, .call 0]
  obtain ⟨c, h, hc⟩ := Option.map_eq_some_iff.mp (rfl : (exec (Client.step .floor)
    (.established 1 0 [.ping]) schedule).map (fun c => c.calls[0]?) =
      some (some ⟨.ping, .done (.ok .done)⟩))
  obtain ⟨s, f, -, hreq, -, hans, hr⟩ := replies_genuine _ _ _ _ _ c h 0 .ping .done hc
  exact ⟨c, s, f, h, hc, hreq, hans.id, hr⟩

end Rp1.Connection

import Rp1.Connection.Exchange

/-!
# Connection — the requests as a peer reads them

The other end of the connection: a peer that decodes one request after the other off the bytes it
has received, as a server, with every request read so far in flight (`readRequests`).

`requests_read_back` is the contract between the two ends.  However the tasks of the client
interleave and wherever the stream is cut, the peer reads an initial part of what the commands have
submitted: each command at most once, in the order of submission, with its own opcode, identifier
and payload.  What is left behind the last frame is the beginning of the next.
-/

namespace Rp1.Connection
open Codec Protocol Command Loop Runs

/-! ### The reader -/

/-- What a peer has read: the frames, and the bytes behind them. -/
structure Inbox where
  frames : List Frame
  buffer : Bytes

def Inbox.ids (s : Inbox) : List UInt64 := s.frames.map fun f => f.header.requestId.value

/-- One round of a peer that reads requests.  None of those read so far has been answered. -/
def Inbox.round (limits : Limits) (s : Inbox) : Inbox × Flow (Option Failure) :=
  match decode s.buffer ⟨.server, .negotiated, limits, s.ids⟩ with
  | .need _ => (s, .leave none)
  | .frame f => (⟨s.frames ++ [f], s.buffer.drop f.bytes.length⟩, .again)
  | .failure failure _ => (s, .leave (some failure))

/-- The requests at the head of `bytes`. -/
def readRequests (limits : Limits) (bytes : Bytes) : Inbox × Option Failure :=
  run (fun s => s.buffer.length) (Inbox.round limits) ⟨[], bytes⟩

theorem Inbox.round_shrinks (limits : Limits) :
    Shrinks (fun s : Inbox => s.buffer.length) (Inbox.round limits) := by
  intro s s' h
  rw [Inbox.round] at h
  split at h
  · cases h
  · rename_i f hf
    cases h
    obtain ⟨hl, rest, hb⟩ := decode_eq_frame_iff.mp hf
    have hlen := hl.length_bytes
    show (s.buffer.drop f.bytes.length).length < s.buffer.length
    rw [hb, List.drop_left, List.length_append, hlen, RawHeader.total, headerLength]
    omega
  · cases h

/-! ### A request and its frame -/

/-- The frame says what the command `s.completion` asks for, under the id of `s`. -/
def Carries (ops : List Operation) (s : Submit Nat) (f : Frame) : Prop :=
  ∃ op payload, ops[s.completion]? = some op ∧ op.payload = .ok payload ∧
    f.header.kind = .request ∧ f.header.code = op.opcode ∧ f.header.requestId.value = s.id ∧
    f.metadata.entries = [] ∧ f.payload = .opaqueBytes payload

section Reader
variable {n : Negotiated} {ops : List Operation} {limits : Limits}

theorem encodeRequest_eq_ok {opcode : UInt16} {payload b : Bytes} {id frame : UInt64}
    {metadata : UInt16} (h : encodeRequest opcode payload id frame metadata = .ok b) :
    encodeWithMax ⟨.request, opcode, id, [], .opaqueBytes payload⟩ frame metadata = .ok b := by
  rw [encodeRequest] at h
  split at h
  case h_1 bytes he => cases h; exact he
  all_goals cases h

/-- **A submission is one frame.**  A peer that has agreed to the bounds and does not have the id in
flight admits it. -/
theorem Requests.legal {s : Submit Nat} (h : Requests n ops s)
    (hF : n.effectiveMaximumFrameSize ≤ limits.frameSize)
    (hM : n.effectiveMaximumMetadataSize ≤ limits.metadataSize) {inFlight : List UInt64}
    (hfl : s.id ∉ inFlight) :
    ∃ f, f.Legal ⟨.server, .negotiated, limits, inFlight⟩ ∧ f.bytes = s.bytes ∧
      Carries ops s f := by
  obtain ⟨hid, op, payload, hop, hp, he⟩ := h
  obtain ⟨bytes, c, hb, -, hlegal, hbytes⟩ :=
    (op.acceptable hp hid hfl).legal (encodeRequest_eq_ok he) hF hM
  obtain rfl := Except.ok.inj hb
  exact ⟨_, hlegal, hbytes, op, payload, hop, hp, rfl, rfl, rfl, rfl, rfl⟩

/-- The beginning of a frame is not a frame, and nothing is wrong with it. -/
theorem decode_beginning {admission : Admission} {f : Frame} (hl : f.Legal admission) {w : Bytes}
    (hw : w <+: f.bytes) (hlt : w.length < f.bytes.length) :
    ∃ m, decode w admission = .need m := by
  obtain ⟨ext, he⟩ := hw
  have hwhole : decode (w ++ ext) admission = .frame f :=
    decode_eq_frame_iff.mpr ⟨hl, [], by rw [he, List.append_nil]⟩
  cases hd : decode w admission with
  | need m => exact ⟨m, rfl⟩
  | frame g =>
      have hg := decode_append_frame ext hd
      rw [hwhole] at hg
      cases hg
      obtain ⟨-, rest, hb⟩ := decode_eq_frame_iff.mp hd
      rw [hb, List.length_append] at hlt
      omega
  | failure failure consumed =>
      rw [decode_append ext (by simp [hd]), hd] at hwhole
      cases hwhole

/-- The requests of `subs` as a peer reads them off a part `w` of their frames. -/
structure Reads (ops : List Operation) (subs : List (Submit Nat)) (w : Bytes) (fs : List Frame)
    (left : Bytes) (read rest : List (Submit Nat)) : Prop where
  split : subs = read ++ rest
  carries : List.Forall₂ (Carries ops) read fs
  bytes : w = read.flatMap Submit.bytes ++ left
  /-- What is left is less than the next frame. -/
  short : ∀ s ∈ rest.head?, left.length < s.bytes.length

/-- **The reader.**  By induction on the submissions: the buffer holds the whole of the next frame,
or less than that. -/
theorem readRequests_prefix (hF : n.effectiveMaximumFrameSize ≤ limits.frameSize)
    (hM : n.effectiveMaximumMetadataSize ≤ limits.metadataSize) (subs : List (Submit Nat)) :
    ∀ (seen : List Frame) (w : Bytes), (∀ s ∈ subs, Requests n ops s) →
      (subs.map Submit.id).Nodup → (∀ s ∈ subs, s.id ∉ (Inbox.mk seen w).ids) →
      w <+: subs.flatMap Submit.bytes →
      ∃ fs left read rest,
        run (fun s => s.buffer.length) (Inbox.round limits) ⟨seen, w⟩ = (⟨seen ++ fs, left⟩, none) ∧
        Reads ops subs w fs left read rest := by
  induction subs with
  | nil =>
      intro seen w _ _ _ hw
      obtain rfl := List.prefix_nil.mp hw
      have hround : Inbox.round limits ⟨seen, []⟩ = (⟨seen, []⟩, .leave none) := rfl
      exact ⟨[], [], [], [], by rw [run_leave hround, List.append_nil],
        rfl, .nil, rfl, fun _ hm => nomatch hm⟩
  | cons s subs ih =>
      intro seen w hreq hnodup hnew hw
      obtain ⟨hs, hreq⟩ := List.forall_mem_cons.mp hreq
      obtain ⟨hsnew, hnew⟩ := List.forall_mem_cons.mp hnew
      rw [List.map_cons, List.nodup_cons] at hnodup
      obtain ⟨f, hlegal, hbytes, hcarries⟩ := hs.legal hF hM hsnew
      rw [List.flatMap_cons] at hw
      by_cases hlt : w.length < s.bytes.length
      · -- not yet the whole frame
        have hpart : w <+: f.bytes := by
          rw [hbytes]
          exact List.prefix_of_prefix_length_le hw (List.prefix_append _ _) hlt.le
        obtain ⟨m, hneed⟩ := decode_beginning hlegal hpart (hbytes ▸ hlt)
        have hround : Inbox.round limits ⟨seen, w⟩ = (⟨seen, w⟩, .leave none) := by
          rw [Inbox.round, hneed]
        refine ⟨[], w, [], s :: subs, by rw [run_leave hround, List.append_nil], rfl, .nil, rfl, ?_⟩
        intro s' hm
        obtain rfl := Option.some.inj hm
        exact hlt
      · -- the frame, and a part of the others
        obtain ⟨w', rfl⟩ := List.prefix_of_prefix_length_le (List.prefix_append _ _) hw
          (Nat.not_lt.mp hlt)
        have hframe : decode (s.bytes ++ w') ⟨.server, .negotiated, limits,
            (Inbox.mk seen (s.bytes ++ w')).ids⟩ = .frame f :=
          decode_eq_frame_iff.mpr ⟨hlegal, w', by rw [hbytes]⟩
        have hround : Inbox.round limits ⟨seen, s.bytes ++ w'⟩ = (⟨seen ++ [f], w'⟩, .again) := by
          rw [Inbox.round, hframe]
          simp only [hbytes, List.drop_left]
        have hid : f.header.requestId.value = s.id := by
          obtain ⟨op, payload, -, -, -, -, hid, -⟩ := hcarries
          exact hid
        have hnew' : ∀ s' ∈ subs, s'.id ∉ (Inbox.mk (seen ++ [f]) w').ids := by
          intro s' hs' hm
          rw [Inbox.ids, List.map_append, List.mem_append] at hm
          rcases hm with hm | hm
          · exact hnew s' hs' hm
          · rw [List.map_singleton, List.mem_singleton, hid] at hm
            exact hnodup.1 (hm ▸ List.mem_map_of_mem hs')
        obtain ⟨fs, left, read, rest, hrun, hsplit, hall, hb, hshort⟩ :=
          ih (seen ++ [f]) w' hreq hnodup.2 hnew' ((List.prefix_append_right_inj _).mp hw)
        refine ⟨f :: fs, left, s :: read, rest, ?_, ?_, .cons hcarries hall, ?_, hshort⟩
        · rw [(Inbox.round_shrinks limits).run_again hround, hrun, List.append_assoc,
            List.singleton_append]
        · rw [hsplit, List.cons_append]
        · rw [hb, List.flatMap_cons, List.append_assoc]

/-- Whoever has received all the frames has nothing left. -/
theorem Reads.all {subs read rest : List (Submit Nat)} {w left : Bytes} {fs : List Frame}
    (h : Reads ops subs w fs left read rest) (hw : w = subs.flatMap Submit.bytes) :
    rest = [] ∧ left = [] := by
  have hleft : left = rest.flatMap Submit.bytes := by
    have heq := h.bytes.symm.trans hw
    rw [h.split, List.flatMap_append] at heq
    exact List.append_cancel_left heq
  cases hr : rest with
  | nil =>
      rw [hr] at hleft
      exact ⟨rfl, hleft⟩
  | cons s rest' =>
      have hshort := h.short s (by rw [hr]; rfl)
      rw [hleft, hr, List.flatMap_cons, List.length_append] at hshort
      omega

/-- The identifiers that a peer has read. -/
theorem Reads.ids {subs read rest : List (Submit Nat)} {w left : Bytes} {fs : List Frame}
    (h : Reads ops subs w fs left read rest) : (Inbox.mk fs left).ids = read.map Submit.id := by
  have hall := h.carries
  clear h
  rw [Inbox.ids]
  induction hall with
  | nil => rfl
  | cons hc _ ih =>
      obtain ⟨op, payload, -, -, -, -, hid, -⟩ := hc
      rw [List.map_cons, List.map_cons, hid, ih]

/-! ### The contract -/

/-- **A peer reads what the commands have submitted.**  In every run of a client, a peer that has
agreed to the effective bounds and has received any initial part of the stream reads from it,
without finding anything wrong, an initial part of the submissions in their order, each as the
request of its command; no command is among the submissions twice.  When the driver is in its loop
with nothing to do and the queue is empty, the whole stream is all of the submissions. -/
theorem requests_read_back (n : Negotiated) (bound closers : Nat) (ops : List Operation)
    (schedule : List Turn) (c : Client) (hops : ops.length < 2 ^ 64 - 1)
    (h : exec (Client.step n) (.established bound closers ops) schedule = some c)
    (limits : Limits) (hF : n.effectiveMaximumFrameSize ≤ limits.frameSize)
    (hM : n.effectiveMaximumMetadataSize ≤ limits.metadataSize) (w : Bytes)
    (hw : w <+: wire (visited (Client.step n) (.established bound closers ops) schedule)) :
    let past := visited (Client.step n) (.established bound closers ops) schedule
    ((submitted past).map Submit.completion).Nodup ∧
    ∃ fs left read rest, readRequests limits w = (⟨fs, left⟩, none) ∧
      Reads ops (submitted past) w fs left read rest ∧
      (∀ t, c.session.task = some t → t.pending = [] → t.left = none → c.queue = [] →
        w = wire past → rest = [] ∧ left = []) := by
  intro past
  have hex := Client.Exchange.exec h
  have hframes : frames (receptions past) = ((receptions past).map Prod.fst).flatMap Submit.bytes :=
    (List.flatMap_map Prod.fst Submit.bytes (receptions past)).symm
  -- what is on the wire is a part of the frames of the submissions
  have hstream : w <+: (submitted past).flatMap Submit.bytes := by
    obtain ⟨missing, hmissing⟩ := hex.ordered.isPart
    refine (hw.trans hex.onWire.isPart).trans ?_
    rw [hframes, ← hmissing, List.flatMap_append, List.flatMap_append, List.append_assoc]
    exact List.prefix_append _ _
  refine ⟨hex.submitted.nodup, ?_⟩
  obtain ⟨fs, left, read, rest, hrun, hreads⟩ := readRequests_prefix hF hM (submitted past) [] w
    hex.submitted.requests (hex.nodup_ids hops) (fun _ _ hm => nomatch hm) hstream
  refine ⟨fs, left, read, rest, hrun, hreads, fun t ht hp hl hq hall => hreads.all ?_⟩
  have hgone : c.gone = false := by
    rw [Client.gone, Session.join, ht]
    simp only [Task.returned, hp, hl, Option.map_none, Option.isSome_none]
  obtain ⟨hout, -, hwhole⟩ := hex.onWire.task t ht
  have hrec := hex.ordered.whole hgone
  rw [hp, List.flatMap_nil, List.append_nil, hwhole hl, hframes] at hout
  rw [hq, List.append_nil] at hrec
  rw [hall, ← hrec, hout]

end Reader

/-- Two probes are on the wire, and the peer has the first and three bytes of the second. -/
theorem requests_read_back_two :
    ∃ c, exec (Client.step .floor) (.established 2 0 [.ping, .ping])
        [.call 0, .call 0, .call 0, .call 1, .call 1, .call 1, .call 1, .call 0,
          .session (.select (.submit
            ⟨3, [0, 1, 0, 0, 2, 0, 0, 0, 0, 0, 0, 0, 3, 0, 0, 0, 0, 0, 0, 0], 1⟩ [20])),
          .session .perform, .session (.select (.submit
            ⟨2, [0, 1, 0, 0, 2, 0, 0, 0, 0, 0, 0, 0, 2, 0, 0, 0, 0, 0, 0, 0], 0⟩ [7, 13])),
          .session .perform] = some c ∧
      ∃ subs fs left read rest, subs.map Submit.completion = [1, 0] ∧
        readRequests ⟨65536, 4096⟩
          [0, 1, 0, 0, 2, 0, 0, 0, 0, 0, 0, 0, 3, 0, 0, 0, 0, 0, 0, 0, 0, 1, 0] =
            (⟨fs, left⟩, none) ∧
        Reads [.ping, .ping] subs
          [0, 1, 0, 0, 2, 0, 0, 0, 0, 0, 0, 0, 3, 0, 0, 0, 0, 0, 0, 0, 0, 1, 0]
          fs left read rest := by
  obtain ⟨c, h⟩ := Option.isSome_iff_exists.mp (rfl : (exec (Client.step .floor)
    (.established 2 0 [.ping, .ping])
    [.call 0, .call 0, .call 0, .call 1, .call 1, .call 1, .call 1, .call 0,
      .session (.select (.submit
        ⟨3, [0, 1, 0, 0, 2, 0, 0, 0, 0, 0, 0, 0, 3, 0, 0, 0, 0, 0, 0, 0], 1⟩ [20])),
      .session .perform, .session (.select (.submit
        ⟨2, [0, 1, 0, 0, 2, 0, 0, 0, 0, 0, 0, 0, 2, 0, 0, 0, 0, 0, 0, 0], 0⟩ [7, 13])),
      .session .perform]).isSome = true)
  obtain ⟨-, fs, left, read, rest, hread, hreads, -⟩ := requests_read_back _ _ _ _ _ c (by decide)
    h ⟨65536, 4096⟩ (by decide) (by decide)
    [0, 1, 0, 0, 2, 0, 0, 0, 0, 0, 0, 0, 3, 0, 0, 0, 0, 0, 0, 0, 0, 1, 0]
    ⟨[0, 2, 0, 0, 0, 0, 0, 0, 0, 2, 0, 0, 0, 0, 0, 0, 0], rfl⟩
  exact ⟨c, h, _, fs, left, read, rest, rfl, hread, hreads⟩

end Rp1.Connection

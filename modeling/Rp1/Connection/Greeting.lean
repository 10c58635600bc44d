import Rp1.Connection.Establish

/-!
# Connection — the handshake as a function of the stream

`read_handshake_response` asks the decoder again after each read.  The decoder's verdict stays once
it has one (`settled_append`), so the result is the one the whole stream has (`answer`), however
the transport cuts it.  `readHandshakeResponse_stream` says which stream has which result, and
that the two defensive exits of the source, the local resource limit and `UnexpectedFrame`, are
never taken.

The loop compares the length of its buffer with the cap before it reads, and then appends the
whole read.  `handshakeBuffers` is the buffer at the start of each round, and
`handshakeBuffers_le_iff` says when it stays within the cap.
-/

namespace Rp1.Connection
open Codec Protocol Loop

theorem cap_of_validate {config : ConnectionConfig} (h : config.validate = .ok ()) :
    minimumNegotiatedFrameSize ≤ config.localMaximumFrameSize := by
  simp only [ConnectionConfig.validate, guard_eq_ok] at h
  exact UInt64.not_lt.mp h.2.2.1

/-! ### The answer to a frame -/

section Answer
variable {config : ConnectionConfig} {id : UInt64} {f : Frame}

/-- What is legal before the negotiation: a successful response with bytes in it, or an error. -/
theorem terminal_of_legal (h : f.Legal (handshakeAdmission id)) :
    (f.header.kind = .response ∧ f.header.code = 0 ∧ f.header.requestId = ⟨id⟩ ∧
      ∃ payload, f.payload = .opaqueBytes payload) ∨ f.header.kind = .error := by
  rcases h.state with ⟨hk, -⟩ | ⟨hk, hc⟩ | hk
  · exact absurd (by rw [hk]; rfl) h.direction
  · obtain ⟨c, hcor, hlay, -⟩ := h.correlated
    rw [hk, hc] at hcor
    cases hcor with
    | response hid hfl result hresult =>
        have hfl : f.header.requestId.value = id := List.mem_singleton.mp hfl
        refine .inl ⟨hk, hc, by rw [← hfl], ?_⟩
        generalize f.payload.bytes = bytes at hlay
        generalize f.payload = payload at hlay ⊢
        cases hlay with
        | success bytes => exact ⟨bytes, rfl⟩
        | absent => cases hresult
        | warm n => cases hresult
  · exact .inr hk

theorem interpretResponse_of_decode (config : ConnectionConfig) {buffer : Bytes}
    (h : decode buffer (handshakeAdmission id) = .frame f) :
    (∃ n, interpretResponse f config = .ok n) ∨
      ∃ failure, interpretResponse f config = .error (.handshakeFailure failure) := by
  rcases terminal_of_legal (decode_eq_frame_iff.mp h).1 with ⟨hk, hc, -, payload, hp⟩ | hk
  · cases hr : HandshakeResponse.decode payload offer with
    | error failure =>
        refine .inr ⟨failure, ?_⟩
        rw [interpretResponse, hk]
        simp only [hc, if_true, hp, hr]
    | ok response =>
        exact .inl ⟨_, interpretResponse_eq_ok_iff.mpr
          ⟨response, ⟨hk, hc, payload, hp, hr⟩, rfl⟩⟩
  · rw [interpretResponse, hk]
    exact .inr ⟨_, rfl⟩

end Answer

/-! ### The answer to a stream -/

/-- What `read_handshake_response` makes of a peer that sends `stream` and then closes. -/
def answer (config : ConnectionConfig) (id : UInt64) (stream : Bytes) :
    Except ConnectError Negotiated :=
  match decode stream (handshakeAdmission id) with
  | .need _ => .error .closedDuringHandshake
  | .failure failure _ => .error (.handshakeFailure failure)
  | .frame frame => interpretResponse frame config

section Stream
variable {config : ConnectionConfig} {id : UInt64} {buffer : Bytes}

theorem answer_of_need {n : Nat} (h : decode buffer (handshakeAdmission id) = .need n) :
    answer config id buffer = .error .closedDuringHandshake := by
  rw [answer, h]

theorem handshakeRound_settled (h : ∀ n, decode buffer (handshakeAdmission id) ≠ .need n) :
    handshakeRound config id buffer = .leave (answer config id buffer) := by
  rw [handshakeRound, answer]
  cases hd : decode buffer (handshakeAdmission id) with
  | need n => exact absurd hd (h n)
  | failure failure consumed => rfl
  | frame f => rfl

theorem answer_append (h : ∀ n, decode buffer (handshakeAdmission id) ≠ .need n) (ext : Bytes) :
    answer config id (buffer ++ ext) = answer config id buffer := by
  rw [answer, answer, decode_append ext h]
  cases decode buffer (handshakeAdmission id) <;> rfl

/-- **The result is that of the stream.** -/
theorem readHandshakeResponse_ended
    (hcap : minimumNegotiatedFrameSize ≤ config.localMaximumFrameSize) (reads : List Bytes)
    (buffer : Bytes) :
    (readHandshakeResponse config id buffer (reads.map .bytes ++ [.ended])).map Prod.fst =
      some (answer config id (buffer ++ reads.flatten)) := by
  induction reads generalizing buffer with
  | nil =>
      rw [List.flatten_nil, List.append_nil]
      by_cases hneed : ∃ n, decode buffer (handshakeAdmission id) = .need n
      · obtain ⟨n, hn⟩ := hneed
        rw [readHandshakeResponse.eq_def, handshakeRound_need hn hcap, answer_of_need hn]
        rfl
      · rw [readHandshakeResponse_leave (handshakeRound_settled (not_exists.mp hneed))]
        rfl
  | cons part reads ih =>
      by_cases hneed : ∃ n, decode buffer (handshakeAdmission id) = .need n
      · obtain ⟨n, hn⟩ := hneed
        rw [List.map_cons, List.cons_append,
          readHandshakeResponse_bytes (handshakeRound_need hn hcap), ih, List.flatten_cons,
          List.append_assoc]
      · -- settled: what is still to come does not change the answer
        rw [readHandshakeResponse_leave (handshakeRound_settled (not_exists.mp hneed)),
          answer_append (not_exists.mp hneed)]
        rfl

end Stream

/-- `stream` begins with an admissible response to the handshake request, whose payload answers
the offer and negotiates `n`. -/
def Welcomes (config : ConnectionConfig) (stream : Bytes) (n : Negotiated) : Prop :=
  ∃ (f : Frame) (rest : Bytes) (response : HandshakeResponse), stream = f.bytes ++ rest ∧
    f.Legal (handshakeAdmission handshakeRequestId) ∧
    f.header.requestId = ⟨handshakeRequestId⟩ ∧ Grants f response ∧
    n = .ofResponse config response

theorem answer_eq_ok_iff {config : ConnectionConfig} {stream : Bytes} {n : Negotiated} :
    answer config handshakeRequestId stream = .ok n ↔ Welcomes config stream n := by
  constructor
  · intro h
    unfold answer at h
    split at h
    case h_1 => cases h
    case h_2 => cases h
    case h_3 f hd =>
      obtain ⟨hlegal, rest, hs⟩ := decode_eq_frame_iff.mp hd
      obtain ⟨response, hg, rfl⟩ := interpretResponse_eq_ok_iff.mp h
      rcases terminal_of_legal hlegal with ⟨-, -, hid, -⟩ | hk
      · exact ⟨f, rest, response, hs, hlegal, hid, hg, rfl⟩
      · exact absurd (hg.kind.symm.trans hk) (by decide)
  · rintro ⟨f, rest, response, hs, hlegal, -, hg, rfl⟩
    rw [answer, decode_eq_frame_iff.mpr ⟨hlegal, rest, hs⟩]
    exact interpretResponse_eq_ok_iff.mpr ⟨response, hg, rfl⟩

theorem answer_cases (config : ConnectionConfig) (id : UInt64) (stream : Bytes) :
    (∃ n, answer config id stream = .ok n) ∨
      (answer config id stream = .error .closedDuringHandshake ∧
        ∃ k, decode stream (handshakeAdmission id) = .need k) ∨
      ∃ failure, answer config id stream = .error (.handshakeFailure failure) := by
  cases hd : decode stream (handshakeAdmission id) with
  | need k => exact .inr (.inl ⟨answer_of_need hd, k, rfl⟩)
  | failure failure consumed => exact .inr (.inr ⟨failure, by rw [answer, hd]⟩)
  | frame f =>
      rw [answer, hd]
      rcases interpretResponse_of_decode config hd with h | h
      · exact .inl h
      · exact .inr (.inr h)

/-- **The handshake outcome depends only on the bytes received.**  A stream has one result, which
every way of delivering it gives.  It is `Ok` for the streams that begin with a good response,
`ClosedDuringHandshake` for those on which the decoder still waits, and a `HandshakeFailure` for
all others.  The local resource limit and `UnexpectedFrame` are never reached, whatever the buffer
holds. -/
theorem readHandshakeResponse_stream {config : ConnectionConfig} (hc : config.validate = .ok ())
    (stream : Bytes) :
    (∃ result, (∀ reads : List Bytes, reads.flatten = stream →
        (readHandshakeResponse config handshakeRequestId []
          (reads.map .bytes ++ [.ended])).map Prod.fst = some result) ∧
      (∀ n, result = .ok n ↔ Welcomes config stream n) ∧
      (result = .error .closedDuringHandshake ↔
        ∃ k, decode stream (handshakeAdmission handshakeRequestId) = .need k) ∧
      ((∀ n, ¬ Welcomes config stream n) →
        (∀ k, decode stream (handshakeAdmission handshakeRequestId) ≠ .need k) →
        ∃ failure, result = .error (.handshakeFailure failure))) ∧
    (∀ buffer required, decode buffer (handshakeAdmission handshakeRequestId) = .need required →
      ¬ (required > bufferCap config ∨ buffer.length ≥ bufferCap config)) ∧
    (∀ buffer f, decode buffer (handshakeAdmission handshakeRequestId) = .frame f →
      interpretResponse f config ≠ .error .unexpectedFrame) := by
  have hcap := cap_of_validate hc
  refine ⟨⟨answer config handshakeRequestId stream, fun reads hs => ?_,
    fun n => answer_eq_ok_iff, ⟨fun h => ?_, fun ⟨k, hk⟩ => answer_of_need hk⟩,
    fun hok hneed => ?_⟩, fun buffer required h => ?_, fun buffer f h => ?_⟩
  · rw [readHandshakeResponse_ended hcap, hs, List.nil_append]
  · rcases answer_cases config handshakeRequestId stream with ⟨n, hn⟩ | ⟨-, hk⟩ | ⟨failure, hf⟩
    · rw [hn] at h
      cases h
    · exact hk
    · rw [hf] at h
      cases h
  · rcases answer_cases config handshakeRequestId stream with ⟨n, hn⟩ | ⟨-, k, hk⟩ | hf
    · exact absurd (answer_eq_ok_iff.mp hn) (hok n)
    · exact absurd hk (hneed k)
    · exact hf
  · intro hfull
    have hround := handshakeRound_need h hcap
    rw [handshakeRound, h] at hround
    simp only [if_pos hfull] at hround
    cases hround
  · rcases interpretResponse_of_decode config h with ⟨n, hn⟩ | ⟨failure, hf⟩
    · rw [hn]
      rintro ⟨⟩
    · rw [hf]
      rintro ⟨⟩

/-- A good response has one result, whether it comes in one read or byte by byte. -/
theorem readHandshakeResponse_stream_granted :
    (ConnectionConfig.new "127.0.0.1:6390").validate = .ok () ∧
    ∃ result, ∀ reads ∈ [[granted], granted.map ([·])],
      (readHandshakeResponse (.new "127.0.0.1:6390") handshakeRequestId []
        (reads.map .bytes ++ [.ended])).map Prod.fst = some result := by
  have hc : (ConnectionConfig.new "127.0.0.1:6390").validate = .ok () :=
    ConnectionConfig.validate_new (by decide)
  obtain ⟨⟨result, hall, -⟩, -⟩ := readHandshakeResponse_stream hc granted
  refine ⟨hc, result, fun reads hm => hall reads ?_⟩
  rcases List.mem_pair.mp hm with rfl | rfl
  · rfl
  · rfl

/-! ### How far the buffer grows -/

/-- The buffer at the start of each round of `read_handshake_response`. -/
def handshakeBuffers (config : ConnectionConfig) (id : UInt64) (buffer : Bytes)
    (arrivals : List Arrival) : List Bytes :=
  match handshakeRound config id buffer, arrivals with
  | .again, .bytes part :: arrivals =>
      buffer :: handshakeBuffers config id (buffer ++ part) arrivals
  | _, _ => [buffer]

section Growth
variable {config : ConnectionConfig} {id : UInt64} {buffer : Bytes}

theorem handshakeBuffers_leave {result : Except ConnectError Negotiated}
    (h : handshakeRound config id buffer = .leave result) (arrivals : List Arrival) :
    handshakeBuffers config id buffer arrivals = [buffer] := by
  rw [handshakeBuffers.eq_def, h]

theorem handshakeBuffers_bytes (h : handshakeRound config id buffer = .again) (part : Bytes)
    (arrivals : List Arrival) :
    handshakeBuffers config id buffer (.bytes part :: arrivals) =
      buffer :: handshakeBuffers config id (buffer ++ part) arrivals := by
  rw [handshakeBuffers.eq_def, h]

theorem handshakeBuffers_nil : handshakeBuffers config id buffer [] = [buffer] := by
  rw [handshakeBuffers.eq_def]
  split
  case h_1 heq => cases heq
  case h_2 => rfl

/-- **When a read is appended.**  The decoder waits on all that came before. -/
theorem mem_handshakeBuffers (hcap : minimumNegotiatedFrameSize ≤ config.localMaximumFrameSize)
    {b : Bytes} (reads : List Bytes) (buffer : Bytes) :
    b ∈ handshakeBuffers config id buffer (reads.map .bytes) ↔
      b = buffer ∨ ∃ a part rest, reads = a ++ part :: rest ∧
        b = buffer ++ (a ++ [part]).flatten ∧
        ∃ n, decode (buffer ++ a.flatten) (handshakeAdmission id) = .need n := by
  induction reads generalizing buffer with
  | nil => simp [handshakeBuffers_nil]
  | cons part reads ih =>
      by_cases hneed : ∃ n, decode buffer (handshakeAdmission id) = .need n
      · have hround := handshakeRound_need hneed.choose_spec hcap
        rw [List.map_cons, handshakeBuffers_bytes hround, List.mem_cons, ih]
        refine or_congr Iff.rfl ⟨?_, ?_⟩
        · rintro (rfl | ⟨a, part', rest, rfl, rfl, hn⟩)
          · exact ⟨[], part, reads, rfl, by simp, by simpa using hneed⟩
          · exact ⟨part :: a, part', rest, rfl, by simp, by simpa using hn⟩
        · rintro ⟨a, part', rest, hr, rfl, hn⟩
          cases a with
          | nil =>
              cases hr
              exact .inl (by simp)
          | cons first a =>
              cases hr
              exact .inr ⟨a, part', rest, rfl, by simp, by simpa using hn⟩
      · -- settled: the loop has ended, and no longer input makes the decoder wait again
        rw [handshakeBuffers_leave (handshakeRound_settled (not_exists.mp hneed)),
          List.mem_singleton]
        refine ⟨.inl, ?_⟩
        rintro (h | ⟨a, part', rest, -, -, n, hn⟩)
        · exact h
        · exact absurd (need_of_append hn) hneed

end Growth

/-- A read that begins inside the first `total` bytes of the stream ends within the first `cap`. -/
def EndsWithin (cap total : Nat) (reads : List Bytes) : Prop :=
  ∀ a part b, reads = a ++ part :: b → a.flatten.length < total →
    (a ++ [part]).flatten.length ≤ cap

/-- The beginning of a stream whose header announces a frame of `total` bytes. -/
theorem need_of_announced {id : UInt64} {stream buffer : Bytes} {raw : RawHeader} {kind : Kind}
    {total : Nat} (hp : RawHeader.parse stream = some raw)
    (hh : admitHeader raw .preNegotiation = .ok (kind, total)) (hpre : buffer <+: stream)
    (hlt : buffer.length < total) : ∃ n, decode buffer (handshakeAdmission id) = .need n := by
  obtain rfl := (admitHeader_eq_ok_iff.mp hh).2.2.2.2.2
  rcases Nat.lt_or_ge buffer.length headerLength with hs | hs
  · exact ⟨_, decode_short hs⟩
  · obtain ⟨ext, rfl⟩ := hpre
    have hb := RawHeader.parse_of_le hs
    have hraw := Option.some.inj ((RawHeader.parse_append ext hb).symm.trans hp)
    rw [hraw] at hb
    exact ⟨_, decode_waits hb hh hlt⟩

/-- **The handshake buffer and its cap.**  The buffer stays within the cap exactly if no read
carries it past the cap while the frame its header announces is still incomplete. -/
theorem handshakeBuffers_le_iff {config : ConnectionConfig} (hc : config.validate = .ok ())
    (id : UInt64) (reads : List Bytes)
    (hreads : ∀ part ∈ reads, part.length ≤ readChunkSize) :
    (∀ b ∈ handshakeBuffers config id [] (reads.map .bytes), b.length ≤ bufferCap config) ↔
      ∀ raw kind total, RawHeader.parse reads.flatten = some raw →
        admitHeader raw .preNegotiation = .ok (kind, total) →
        EndsWithin (bufferCap config) total reads := by
  have hcap := cap_of_validate hc
  have hbound : bufferCap config = 65536 := Nat.min_eq_right (UInt64.le_iff_toNat_le.mp hcap)
  constructor
  · intro h raw kind total hp hh a part b hr hlt
    have hpre : a.flatten <+: reads.flatten := ⟨(part :: b).flatten, by simp [hr]⟩
    refine h _ ((mem_handshakeBuffers hcap reads []).mpr (.inr ⟨a, part, b, hr, rfl, ?_⟩))
    exact need_of_announced hp hh hpre hlt
  · intro h b hb
    rcases (mem_handshakeBuffers hcap reads []).mp hb with rfl | ⟨a, part, rest, hr, rfl, n, hn⟩
    · exact Nat.zero_le _
    · rw [List.nil_append] at hn ⊢
      rcases cause_of_need hn with ⟨hs, -⟩ | ⟨raw, kind, hp, hh, hl, -⟩
      · have hpart := hreads part (by simp [hr])
        rw [List.flatten_append, List.length_append, List.flatten_singleton, hbound]
        simp only [headerLength, readChunkSize] at hs hpart
        omega
      · refine h raw kind raw.total ?_ hh a part rest hr hl
        rw [hr, List.flatten_append]
        exact RawHeader.parse_append _ hp

/-- A short response never brings the buffer near the cap. -/
theorem handshakeBuffers_le_iff_granted :
    (ConnectionConfig.new "127.0.0.1:6390").validate = .ok () ∧
    ∀ b ∈ handshakeBuffers (.new "127.0.0.1:6390") handshakeRequestId []
      ([granted.take 7, granted.drop 7].map .bytes),
      b.length ≤ bufferCap (.new "127.0.0.1:6390") := by
  have hc : (ConnectionConfig.new "127.0.0.1:6390").validate = .ok () :=
    ConnectionConfig.validate_new (by decide)
  refine ⟨hc, (handshakeBuffers_le_iff hc handshakeRequestId
    [granted.take 7, granted.drop 7] (by decide)).mpr fun raw kind total hp hh => ?_⟩
  intro a part b hr hlt
  have hall : granted.length = (a ++ [part]).flatten.length + b.flatten.length := by
    rw [← List.length_append, ← List.flatten_append, List.append_assoc, List.singleton_append,
      ← hr]
    rfl
  exact Nat.le_trans (Nat.le_of_add_right_le hall.ge) (by decide)

/-- The header of a response of 65536 bytes, the most a frame may have before the negotiation. -/
def longest : RawHeader := ⟨0, 2, 0, 0, 0, 65516, 1⟩

/-- Sixteen reads that bring all but 4095 bytes of that response. -/
def begun : List Bytes :=
  (longest.bytes ++ List.replicate 4076 0) ::
    (List.replicate 14 (List.replicate 4096 0) ++ [[0]])

theorem flatten_begun :
    ∃ tail, begun.flatten = longest.bytes ++ tail ∧ begun.flatten.length = 61441 := by
  refine ⟨List.replicate 4076 0 ++ (List.replicate (14 * 4096) 0 ++ [0]), ?_, ?_⟩
  · simp only [begun, List.flatten_cons, List.flatten_append, List.flatten_replicate_replicate,
      List.flatten_nil, List.append_assoc, List.append_nil]
  · have hhead : longest.bytes.length = 20 := rfl
    simp only [begun, List.flatten_cons, List.flatten_append, List.flatten_replicate_replicate,
      List.flatten_nil, List.length_append, List.length_replicate, hhead]
    rfl

theorem length_of_mem_begun {part : Bytes} (h : part ∈ begun) :
    1 ≤ part.length ∧ part.length ≤ readChunkSize := by
  have hhead : longest.bytes.length = 20 := rfl
  rcases List.mem_cons.mp h with rfl | h
  · rw [List.length_append, List.length_replicate, hhead]
    decide
  · rcases List.mem_append.mp h with h | h
    · rw [List.eq_of_mem_replicate h, List.length_replicate]
      decide
    · rw [List.mem_singleton.mp h]
      decide

/-- **A full read crosses the cap.**  The response still lacks its last bytes, and the read that
brings them brings one more. -/
theorem handshakeBuffers_crosses :
    (ConnectionConfig.new "127.0.0.1:6390").validate = .ok () ∧
    (∀ part ∈ begun ++ [List.replicate 4096 0],
      1 ≤ part.length ∧ part.length ≤ readChunkSize) ∧
    ∃ b ∈ handshakeBuffers (.new "127.0.0.1:6390") handshakeRequestId []
        ((begun ++ [List.replicate 4096 0]).map .bytes),
      bufferCap (.new "127.0.0.1:6390") = 65536 ∧ b.length = 65537 := by
  have hc : (ConnectionConfig.new "127.0.0.1:6390").validate = .ok () :=
    ConnectionConfig.validate_new (by decide)
  have hlast : (List.replicate 4096 (0 : UInt8)).length = 4096 := List.length_replicate
  generalize List.replicate 4096 (0 : UInt8) = last at hlast ⊢
  obtain ⟨tail, hflat, hlen⟩ := flatten_begun
  have hp : RawHeader.parse begun.flatten = some longest :=
    RawHeader.parse_eq_some_iff.mpr ⟨tail, hflat⟩
  have hneed : ∃ n, decode begun.flatten (handshakeAdmission handshakeRequestId) = .need n :=
    need_of_announced hp rfl List.prefix_rfl (Nat.lt_of_le_of_lt hlen.le (by decide))
  refine ⟨hc, fun part hm => ?_, (begun ++ [last]).flatten, ?_, rfl, ?_⟩
  · rcases List.mem_append.mp hm with hm | hm
    · exact length_of_mem_begun hm
    · rw [List.mem_singleton.mp hm, hlast]
      decide
  · refine (mem_handshakeBuffers (cap_of_validate hc) _ []).mpr
      (.inr ⟨begun, last, [], rfl, (List.nil_append _).symm, ?_⟩)
    rw [List.nil_append]
    exact hneed
  · rw [List.flatten_append, List.length_append, hlen, List.flatten_singleton, hlast]

end Rp1.Connection

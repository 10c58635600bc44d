import Rp1.Connection.Buffering
import Rp1.Connection.Caller
import Rp1.Protocol.Negotiation

/-!
# Connection — the handshake

`establish` from the request it writes to the session it starts.  The transport is a script: how
many bytes each write accepts, and what each read answers.  A run that has used up the reads is
still waiting, and one that ends leaves the rest of them to whoever reads next.

`read_handshake_response` collects what arrives in a buffer of its own, which is gone when it
returns: `run_driver` starts with an empty one.  `handover_iff` says when that loses nothing.
-/

namespace Rp1.Connection
open Codec Protocol Loop

/-! ### The configuration -/

/-- A failure a connection configuration can describe before any connection. -/
inductive ConnectionConfigError where
  | emptyEndpoint
  | frameSizeBelowFloor (proposed : UInt32)
  | localFrameSizeBelowFloor (proposed : UInt64)
  | localMetadataSizeBelowFloor (proposed : UInt16)
  | inFlightBoundBelowMinimum (proposed : Nat)
deriving DecidableEq, Repr

/-- The typed configuration a connection is opened from. -/
structure ConnectionConfig where
  endpoint : String
  desiredMaximumFrameSize : UInt32
  localMaximumFrameSize : UInt64
  localMaximumMetadataSize : UInt16
  maximumInFlight : Nat
deriving DecidableEq, Repr

namespace ConnectionConfig

/-- A configuration for `endpoint` with the protocol defaults. -/
def new (endpoint : String) : ConnectionConfig :=
  ⟨endpoint, 65536, minimumNegotiatedFrameSize, minimumNegotiatedMetadataSize, 64⟩

/-- The characters `str::trim` removes: those with the Unicode property `White_Space`. -/
def isWhitespace (c : Char) : Bool :=
  (0x9 ≤ c.toNat && c.toNat ≤ 0xd) || (0x2000 ≤ c.toNat && c.toNat ≤ 0x200a) ||
    [0x20, 0x85, 0xa0, 0x1680, 0x2028, 0x2029, 0x202f, 0x205f, 0x3000].contains c.toNat

/-- Validates the configuration before any connection is opened. -/
def validate (config : ConnectionConfig) : Except ConnectionConfigError Unit :=
  if config.endpoint.toList.all isWhitespace then .error .emptyEndpoint
  else if config.desiredMaximumFrameSize.toUInt64 < minimumNegotiatedFrameSize then
    .error (.frameSizeBelowFloor config.desiredMaximumFrameSize)
  else if config.localMaximumFrameSize < minimumNegotiatedFrameSize then
    .error (.localFrameSizeBelowFloor config.localMaximumFrameSize)
  else if config.localMaximumMetadataSize < minimumNegotiatedMetadataSize then
    .error (.localMetadataSizeBelowFloor config.localMaximumMetadataSize)
  else if config.maximumInFlight < 1 then
    .error (.inFlightBoundBelowMinimum config.maximumInFlight)
  else .ok ()

/-- The defaults pass every check. -/
theorem validate_new {endpoint : String} (h : endpoint.toList.all isWhitespace = false) :
    (new endpoint).validate = .ok () := by
  rw [validate, if_neg (by rw [new, h]; decide)]
  rfl

end ConnectionConfig

/-! ### The handshake -/

/-- A failure to open a connection; the error of the transport itself is left out. -/
inductive ConnectError where
  | invalidConfiguration (error : ConnectionConfigError)
  | transport
  | handshakeFailure (failure : Failure)
  | closedDuringHandshake
  | negotiatedFrameSizeAboveLocal (negotiated limit : UInt64)
  | negotiatedMetadataSizeAboveLocal (negotiated limit : UInt16)
  | unexpectedFrame
deriving DecidableEq, Repr

/-- What one read of the transport answers. -/
inductive Arrival where
  | failed
  /-- `Ok(0)`: the end of the stream. -/
  | ended
  | bytes (part : Bytes)
deriving DecidableEq, Repr

def handshakeRequestId : UInt64 := 1

/-- The versions and capabilities this implementation offers. -/
def offer : HandshakeOffer := ⟨0, 0, []⟩

/-- Builds the handshake request frame the offerer sends first. -/
def buildHandshakeRequest (config : ConnectionConfig) (requestId : UInt64) :
    Except ConnectError Bytes :=
  let payload := (HandshakeRequest.new 0 0 config.desiredMaximumFrameSize ⟨[]⟩).encode
  match encode ⟨.request, handshakeOpcode, requestId, [], .opaqueBytes payload⟩ with
  | .ok frame => .ok frame
  | .error _ => .error (.handshakeFailure .resourceLimit)

/-- Interprets the admitted terminal frame of the handshake. -/
def interpretResponse (frame : Frame) (config : ConnectionConfig) :
    Except ConnectError Negotiated :=
  match frame.header.kind with
  | .response =>
      if frame.header.code = 0 then
        match frame.payload with
        | .opaqueBytes payload =>
            match HandshakeResponse.decode payload offer with
            | .error failure => .error (.handshakeFailure failure)
            | .ok response => .ok
                { protocolVersion := response.negotiatedProtocolVersion
                  maximumFrameSize := response.negotiatedMaximumFrameSize.toUInt64
                  maximumMetadataSize := response.negotiatedMaximumMetadataSize
                  acceptedCapabilities :=
                    response.acceptedCapabilityEntries.entries.map (·.identifier)
                  localMaximumFrameSize := config.localMaximumFrameSize
                  localMaximumMetadataSize := config.localMaximumMetadataSize }
        | _ => .error .unexpectedFrame
      else .error .unexpectedFrame
  | .error =>
      .error (.handshakeFailure (match ErrorClass.fromWire frame.header.code with
        | some cls => ⟨cls, cls.scope⟩
        | none => .protocolViolation))
  | .request => .error .unexpectedFrame

/-- The context in which the handshake response is decoded. -/
def handshakeAdmission (handshakeId : UInt64) : Admission :=
  { role := .client, state := .preNegotiation, limits := .preNegotiation,
    inFlight := [handshakeId] }

/-- The bound `read_handshake_response` puts on its buffer. -/
def bufferCap (config : ConnectionConfig) : Nat :=
  min config.localMaximumFrameSize.toNat maxFrameSize.toNat

/-- One round of the loop in `read_handshake_response`, up to its read. -/
def handshakeRound (config : ConnectionConfig) (handshakeId : UInt64) (buffer : Bytes) :
    Flow (Except ConnectError Negotiated) :=
  match decode buffer (handshakeAdmission handshakeId) with
  | .frame frame => .leave (interpretResponse frame config)
  | .failure failure _ => .leave (.error (.handshakeFailure failure))
  | .need required =>
      if required > bufferCap config ∨ buffer.length ≥ bufferCap config then
        .leave (.error (.handshakeFailure .resourceLimit))
      else .again

/-- The loop of `read_handshake_response`, with what it has in its buffer; the result comes with
the reads it has left alone.  `none` means that it still waits for a read. -/
def readHandshakeResponse (config : ConnectionConfig) (handshakeId : UInt64) (buffer : Bytes)
    (arrivals : List Arrival) : Option (Except ConnectError Negotiated × List Arrival) :=
  match handshakeRound config handshakeId buffer, arrivals with
  | .leave result, arrivals => some (result, arrivals)
  | .again, [] => none
  | .again, .failed :: arrivals => some (.error .transport, arrivals)
  | .again, .ended :: arrivals => some (.error .closedDuringHandshake, arrivals)
  | .again, .bytes part :: arrivals =>
      readHandshakeResponse config handshakeId (buffer ++ part) arrivals

/-- A session as `establish` starts it, with the variables its driver starts with. -/
structure Established (σ : Type) where
  negotiated : Negotiated
  maximumInFlight : Nat
  allocator : RequestIdAllocator
  limits : Limits
  driver : Driver σ

/-- The end of `establish`, once the response is in. -/
def finishHandshake {σ : Type} (config : ConnectionConfig) (handshakeId : UInt64)
    (inFlight : InFlightRegistry) (negotiated : Negotiated) :
    Except ConnectError (Established σ) :=
  let inFlight := (inFlight.retire handshakeId).1
  let live := inFlight.liveIds
  if handshakeId ∈ inFlight ∨ inFlight.live ≠ [] ∨ inFlight.live.length ≠ live.length ∨
      live ≠ [] then
    .error (.handshakeFailure .protocolViolation)
  else if negotiated.maximumFrameSize > config.localMaximumFrameSize then
    .error (.negotiatedFrameSizeAboveLocal negotiated.maximumFrameSize
      config.localMaximumFrameSize)
  else if negotiated.maximumMetadataSize > config.localMaximumMetadataSize then
    .error (.negotiatedMetadataSizeAboveLocal negotiated.maximumMetadataSize
      config.localMaximumMetadataSize)
  else .ok
    { negotiated
      maximumInFlight := config.maximumInFlight
      -- the session's allocator is a new one that has given out the handshake's id
      allocator := RequestIdAllocator.new.allocate.2
      limits :=
        { frameSize := min negotiated.maximumFrameSize config.localMaximumFrameSize
          metadataSize := min negotiated.maximumMetadataSize config.localMaximumMetadataSize }
      driver := .new }

/-- `establish`: the handshake over a TCP transport. -/
def establish {σ : Type} (config : ConnectionConfig) (writes : List Nat)
    (arrivals : List Arrival) : Option (Except ConnectError (Established σ) × List Arrival) :=
  let handshakeId := RequestIdAllocator.new.allocate.1
  if handshakeId ≠ handshakeRequestId then
    some (.error (.handshakeFailure .protocolViolation), arrivals)
  else
    match InFlightRegistry.new.insert handshakeId, buildHandshakeRequest config handshakeId with
    | .error _, _ => some (.error (.handshakeFailure .protocolViolation), arrivals)
    | .ok _, .error error => some (.error error, arrivals)
    | .ok inFlight, .ok frame =>
        if (writeAll writes frame).2 then
          (readHandshakeResponse config handshakeId [] arrivals).map fun (result, rest) =>
            (result.bind (finishHandshake config handshakeId inFlight), rest)
        else some (.error .transport, arrivals)

/-- `connect`: `opened` is whether the transport to the endpoint could be opened. -/
def connect {σ : Type} (config : ConnectionConfig) (opened : Bool) (writes : List Nat)
    (arrivals : List Arrival) : Option (Except ConnectError (Established σ) × List Arrival) :=
  match config.validate with
  | .error error => some (.error (.invalidConfiguration error), arrivals)
  | .ok () =>
      if opened then establish config writes arrivals else some (.error .transport, arrivals)

/-! ### What a response negotiates -/

/-- The values of a response, next to the local caps. -/
def Negotiated.ofResponse (config : ConnectionConfig) (response : HandshakeResponse) :
    Negotiated :=
  { protocolVersion := response.negotiatedProtocolVersion
    maximumFrameSize := response.negotiatedMaximumFrameSize.toUInt64
    maximumMetadataSize := response.negotiatedMaximumMetadataSize
    acceptedCapabilities := response.acceptedCapabilityEntries.entries.map (·.identifier)
    localMaximumFrameSize := config.localMaximumFrameSize
    localMaximumMetadataSize := config.localMaximumMetadataSize }

/-- `f` is a successful response whose payload answers the offer with `response`. -/
structure Grants (f : Frame) (response : HandshakeResponse) : Prop where
  kind : f.header.kind = .response
  code : f.header.code = 0
  payload : ∃ payload, f.payload = .opaqueBytes payload ∧
    HandshakeResponse.decode payload offer = .ok response

theorem interpretResponse_eq_ok_iff {f : Frame} {config : ConnectionConfig} {n : Negotiated} :
    interpretResponse f config = .ok n ↔
      ∃ response, Grants f response ∧ n = .ofResponse config response := by
  constructor
  · intro h
    unfold interpretResponse at h
    split at h
    case h_1 hk =>
      split at h
      case isTrue hc =>
        split at h
        case h_1 payload hp =>
          split at h
          case h_1 => cases h
          case h_2 response hr =>
            cases h
            exact ⟨response, ⟨hk, hc, payload, hp, hr⟩, rfl⟩
        case h_2 => cases h
      case isFalse => cases h
    case h_2 => cases h
    case h_3 => cases h
  · rintro ⟨response, ⟨hk, hc, payload, hp, hr⟩, rfl⟩
    rw [interpretResponse, hk]
    simp only [hc, if_true, hp, hr]
    rfl

/-! ### Reading up to the end of the response -/

/-- `h` is one frame, a handshake response that negotiates `n` within the local caps. -/
structure Answers (config : ConnectionConfig) (h : Bytes) (n : Negotiated) : Prop where
  frame : ∃ f, decode h (handshakeAdmission handshakeRequestId) = .frame f ∧ f.bytes = h ∧
    interpretResponse f config = .ok n
  frameSize : n.maximumFrameSize ≤ config.localMaximumFrameSize
  metadataSize : n.maximumMetadataSize ≤ config.localMaximumMetadataSize

theorem interpretResponse_eq_ok {f : Frame} {config : ConnectionConfig} {n : Negotiated}
    (h : interpretResponse f config = .ok n) :
    minimumNegotiatedFrameSize ≤ n.maximumFrameSize ∧
      n.localMaximumFrameSize = config.localMaximumFrameSize ∧
      n.localMaximumMetadataSize = config.localMaximumMetadataSize := by
  obtain ⟨response, ⟨-, -, payload, -, hr⟩, rfl⟩ := interpretResponse_eq_ok_iff.mp h
  obtain ⟨-, hv, -⟩ := HandshakeResponse.decode_eq_ok_iff.mp hr
  refine ⟨UInt64.not_lt.mp fun hlt => ?_, rfl, rfl⟩
  exact Nat.not_lt.mpr hv.frameSize (HandshakeResponse.frameSize_lt_iff.mp hlt)

/-- The decoder waits for the end of a frame it has the beginning of. -/
theorem need_of_prefix {f : Frame} {admission : Admission} {buffer ext : Bytes}
    (hf : decode f.bytes admission = .frame f) (he : buffer ++ ext = f.bytes) (hne : ext ≠ []) :
    ∃ n, decode buffer admission = .need n := by
  by_contra hno
  have hsettled := decode_append ext (not_exists.mp hno)
  rw [he, hf] at hsettled
  cases hd : decode buffer admission with
  | need n => exact hno ⟨n, hd⟩
  | failure failure consumed =>
      rw [hd] at hsettled
      cases hsettled
  | frame f' =>
      rw [hd] at hsettled
      cases hsettled
      obtain ⟨-, rest, rfl⟩ := decode_eq_frame_iff.mp hd
      rw [List.append_assoc] at he
      exact hne (List.append_eq_nil_iff.mp (List.append_right_eq_self.mp he)).2

section Reading
variable {config : ConnectionConfig} {id : UInt64} {buffer : Bytes}

theorem handshakeRound_frame {f : Frame} (h : decode buffer (handshakeAdmission id) = .frame f) :
    handshakeRound config id buffer = .leave (interpretResponse f config) := by
  rw [handshakeRound, h]

/-- With the local cap at its floor or above, the loop waits for all the decoder asks for. -/
theorem handshakeRound_need {n : Nat} (h : decode buffer (handshakeAdmission id) = .need n)
    (hcap : minimumNegotiatedFrameSize ≤ config.localMaximumFrameSize) :
    handshakeRound config id buffer = .again := by
  have hbound : bufferCap config = 65536 := Nat.min_eq_right (UInt64.le_iff_toNat_le.mp hcap)
  have hn : n ≤ 65536 := need_le h
  have hlt : buffer.length < n := lt_of_decode_need h
  rw [handshakeRound, h]
  simp only [hbound]
  rw [if_neg (by omega)]

theorem readHandshakeResponse_leave {result : Except ConnectError Negotiated}
    (h : handshakeRound config id buffer = .leave result) (arrivals : List Arrival) :
    readHandshakeResponse config id buffer arrivals = some (result, arrivals) := by
  rw [readHandshakeResponse.eq_def, h]

theorem readHandshakeResponse_bytes (h : handshakeRound config id buffer = .again) (part : Bytes)
    (arrivals : List Arrival) :
    readHandshakeResponse config id buffer (.bytes part :: arrivals) =
      readHandshakeResponse config id (buffer ++ part) arrivals := by
  rw [readHandshakeResponse.eq_def, h]

/-- A boundary between reads at the end of a frame that is already in the buffer. -/
theorem flatten_eq_iff {h x : Bytes} {reads : List Bytes} (hle : h.length ≤ buffer.length)
    (he : buffer ++ reads.flatten = h ++ x) :
    reads.flatten = x ↔ ∃ a b, reads = a ++ b ∧ buffer ++ a.flatten = h := by
  constructor
  · rintro rfl
    exact ⟨[], reads, rfl, by rw [List.flatten_nil, List.append_nil, List.append_cancel_right he]⟩
  · rintro ⟨a, b, -, ha⟩
    have hbuf : buffer = h := List.IsPrefix.eq_of_length_le ⟨_, ha⟩ hle
    rw [hbuf] at he
    exact List.append_cancel_left he

/-- **Where the loop stops reading.**  It ends with the read that brings the end of the frame, and
what comes after the frame is all still to be read exactly if that read stops there. -/
theorem readHandshakeResponse_stops {f : Frame} {x : Bytes}
    (hf : decode f.bytes (handshakeAdmission id) = .frame f)
    (hcap : minimumNegotiatedFrameSize ≤ config.localMaximumFrameSize) (reads : List Bytes)
    (buffer : Bytes) (he : buffer ++ reads.flatten = f.bytes ++ x) :
    ∃ rest, readHandshakeResponse config id buffer (reads.map .bytes) =
        some (interpretResponse f config, rest.map .bytes) ∧ rest <:+ reads ∧
      (rest.flatten = x ↔ ∃ a b, reads = a ++ b ∧ buffer ++ a.flatten = f.bytes) := by
  -- on the reads; the buffer grows by each until it holds the frame
  induction reads generalizing buffer with
  | nil =>
      have hbuf : buffer = f.bytes ++ x := by simpa using he
      have hd : decode buffer (handshakeAdmission id) = .frame f :=
        hbuf ▸ decode_append_frame x hf
      exact ⟨[], readHandshakeResponse_leave (handshakeRound_frame hd) _, List.suffix_rfl,
        flatten_eq_iff (by simp [hbuf]) he⟩
  | cons part reads ih =>
      have hbuf : buffer <+: f.bytes ++ x := ⟨_, he⟩
      have hbytes : f.bytes <+: f.bytes ++ x := List.prefix_append f.bytes x
      rcases Nat.lt_or_ge buffer.length f.bytes.length with hlt | hge
      · obtain ⟨ext, hext⟩ := List.prefix_of_prefix_length_le hbuf hbytes (Nat.le_of_lt hlt)
        have hne : ext ≠ [] := by
          rintro rfl
          rw [← hext, List.append_nil] at hlt
          exact Nat.lt_irrefl _ hlt
        obtain ⟨n, hn⟩ := need_of_prefix hf hext hne
        rw [List.map_cons, readHandshakeResponse_bytes (handshakeRound_need hn hcap)]
        obtain ⟨rest, hread, hsuf, hiff⟩ := ih (buffer ++ part) (by simpa using he)
        refine ⟨rest, hread, hsuf.trans (List.suffix_cons part reads), hiff.trans ?_⟩
        constructor
        · rintro ⟨a, b, rfl, ha⟩
          exact ⟨part :: a, b, rfl, by simpa using ha⟩
        · rintro ⟨a, b, hab, ha⟩
          cases a with
          | nil =>
              rw [List.flatten_nil, List.append_nil] at ha
              exact absurd (ha ▸ hlt) (Nat.lt_irrefl _)
          | cons part' a =>
              cases hab
              exact ⟨a, b, rfl, by simpa using ha⟩
      · obtain ⟨more, rfl⟩ := List.prefix_of_prefix_length_le hbytes hbuf hge
        have hd : decode (f.bytes ++ more) (handshakeAdmission id) = .frame f :=
          decode_append_frame more hf
        exact ⟨part :: reads, readHandshakeResponse_leave (handshakeRound_frame hd) _,
          List.suffix_rfl, flatten_eq_iff hge he⟩

end Reading

/-! ### From the handshake to the session -/

/-- A driver that goes on with `reads` is given the stream `x` from its first byte: they are `x`,
and whatever requests are in flight by then, its completions, its fatal outcome and what stays in
its buffer are those of `x`, however the transport cuts it. -/
structure GivenAll (σ : Type) (limits : Limits) (reads : List Bytes) (x : Bytes) : Prop where
  stream : reads.flatten = x
  outcome : ∀ (d : Driver σ) (ys : List Bytes), [] ∉ ys → ys.flatten = x →
    Same Driver.visible (feedChunks limits d reads) (feedChunks limits d ys)

theorem givenAll_iff {σ : Type} {limits : Limits} {reads : List Bytes} {x : Bytes}
    (hreads : [] ∉ reads) : GivenAll σ limits reads x ↔ reads.flatten = x := by
  refine ⟨GivenAll.stream, fun h => ⟨h, fun d ys hys hy => ?_⟩⟩
  exact (drain_stable limits).feed_congr d hreads hys (h.trans hy.symm)

theorem exists_handshakeRequest (config : ConnectionConfig) (id : UInt64) :
    ∃ frame, buildHandshakeRequest config id = .ok frame := by
  obtain ⟨frame, h⟩ : ∃ frame, encode ⟨.request, handshakeOpcode, id, [], .opaqueBytes
      (HandshakeRequest.new 0 0 config.desiredMaximumFrameSize ⟨[]⟩).encode⟩ = .ok frame :=
    ⟨_, encodeWithMax_eq_ok_iff.mpr ⟨_, rfl, List.isChain_nil, Nat.zero_le _,
      by simp [HandshakeRequest.encode, HandshakeRequest.new], by
        simp [HandshakeRequest.encode, HandshakeRequest.new]; decide, rfl⟩⟩
  exact ⟨frame, by rw [buildHandshakeRequest]; simp only [h]⟩

section Handover
variable {σ : Type} {config : ConnectionConfig} {n : Negotiated} {h x : Bytes}

/-- The handshake's id is alone in flight, and then nothing is. -/
def handshakeInFlight : InFlightRegistry := ⟨[handshakeRequestId], List.nodup_singleton _⟩

theorem establish_of_written {writes : List Nat} {frame : Bytes}
    (hframe : buildHandshakeRequest config handshakeRequestId = .ok frame)
    (hw : (writeAll writes frame).2 = true) (arrivals : List Arrival) :
    establish (σ := σ) config writes arrivals =
      (readHandshakeResponse config handshakeRequestId [] arrivals).map fun (result, rest) =>
        (result.bind (finishHandshake config handshakeRequestId handshakeInFlight), rest) := by
  have hid : RequestIdAllocator.new.allocate.1 = handshakeRequestId := rfl
  have hi : InFlightRegistry.new.insert handshakeRequestId = .ok handshakeInFlight := rfl
  unfold establish
  simp only [hid, ne_eq, not_true_eq_false, if_false, hi, hframe, hw, if_true]

theorem effectiveLimits_of_le (hf : n.maximumFrameSize ≤ n.localMaximumFrameSize)
    (hm : n.maximumMetadataSize ≤ n.localMaximumMetadataSize) :
    n.effectiveLimits = ⟨n.maximumFrameSize, n.maximumMetadataSize⟩ := by
  have hframe : n.effectiveMaximumFrameSize = n.maximumFrameSize := by
    rw [Negotiated.effectiveMaximumFrameSize, ite_eq_left_iff]
    exact fun hlt => UInt64.le_antisymm (UInt64.not_lt.mp hlt) hf
  have hmetadata : n.effectiveMaximumMetadataSize = n.maximumMetadataSize := by
    rw [Negotiated.effectiveMaximumMetadataSize, ite_eq_left_iff]
    exact fun hlt => UInt16.le_antisymm (UInt16.not_lt.mp hlt) hm
  rw [Negotiated.effectiveLimits, hframe, hmetadata]

/-- The driver starts with the effective bounds, and with an empty buffer. -/
theorem Answers.finish (hans : Answers config h n) :
    finishHandshake (σ := σ) config handshakeRequestId handshakeInFlight n = .ok
      ⟨n, config.maximumInFlight, RequestIdAllocator.new.allocate.2, n.effectiveLimits, .new⟩ := by
  obtain ⟨f, -, -, hn⟩ := hans.frame
  obtain ⟨-, hlocal, hlocal'⟩ := interpretResponse_eq_ok hn
  have hlimits := effectiveLimits_of_le (hlocal ▸ hans.frameSize) (hlocal' ▸ hans.metadataSize)
  have hretired : (handshakeInFlight.retire handshakeRequestId).1 = .new := rfl
  have hclear : ¬ (handshakeRequestId ∈ InFlightRegistry.new ∨ InFlightRegistry.new.live ≠ [] ∨
      InFlightRegistry.new.live.length ≠ InFlightRegistry.new.liveIds.length ∨
      InFlightRegistry.new.liveIds ≠ []) := by decide
  have hframe : min n.maximumFrameSize config.localMaximumFrameSize = n.maximumFrameSize :=
    if_pos hans.frameSize
  have hmetadata : min n.maximumMetadataSize config.localMaximumMetadataSize =
      n.maximumMetadataSize := if_pos hans.metadataSize
  unfold finishHandshake
  simp only [hretired]
  rw [if_neg hclear, if_neg (UInt64.not_lt.mpr hans.frameSize),
    if_neg (UInt16.not_lt.mpr hans.metadataSize), hlimits, hframe, hmetadata]

/-- **When no byte is lost between handshake and session.**  The peer sends a handshake response
within the local caps, and behind it the stream `x`.  However the transport cuts the two, the
session starts; and its driver is given `x` from the first byte exactly if a read ends where the
response ends. -/
theorem handover_iff (hans : Answers config h n) (reads : List Bytes) (hreads : [] ∉ reads)
    (hx : reads.flatten = h ++ x) (writes : List Nat)
    (hw : ∀ frame, buildHandshakeRequest config handshakeRequestId = .ok frame →
      (writeAll writes frame).2 = true) :
    ∃ (c : Established σ) (rest : List Bytes),
      establish config writes (reads.map .bytes) = some (.ok c, rest.map .bytes) ∧
      c.negotiated = n ∧ c.limits = n.effectiveLimits ∧ c.driver = .new ∧
      (GivenAll σ c.limits rest x ↔ ∃ a b, reads = a ++ b ∧ a.flatten = h) := by
  obtain ⟨f, hf, rfl, hn⟩ := hans.frame
  obtain ⟨frame, hframe⟩ := exists_handshakeRequest config handshakeRequestId
  have hcap : minimumNegotiatedFrameSize ≤ config.localMaximumFrameSize :=
    UInt64.le_trans (interpretResponse_eq_ok hn).1 hans.frameSize
  obtain ⟨rest, hread, hsuf, hiff⟩ := readHandshakeResponse_stops hf hcap reads [] hx
  refine ⟨⟨n, config.maximumInFlight, RequestIdAllocator.new.allocate.2, n.effectiveLimits, .new⟩,
    rest, ?_, rfl, rfl, rfl, ?_⟩
  · rw [establish_of_written hframe (hw frame hframe), hread, hn, Option.map_some]
    simp only [Except.bind, hans.finish]
  · rw [givenAll_iff fun hm => hreads (hsuf.subset hm)]
    exact hiff

end Handover

/-- A response that grants the floors. -/
def granted : Bytes :=
  [0, 2, 0, 0, 0, 0, 0, 0, 10, 0, 0, 0, 1, 0, 0, 0, 0, 0, 0, 0, 0, 0, 0, 0, 1, 0, 0, 16, 0, 0]

/-- An `ERROR` frame of the class `ResourceLimit` for the whole connection. -/
def refusal : Bytes :=
  [0, 3, 0, 0, 5, 0, 0, 0, 2, 0, 0, 0, 0, 0, 0, 0, 0, 0, 0, 0, 0, 0]

/-- The server takes the client in and then refuses it, and a read ends in between. -/
theorem handover_iff_apart :
    ∃ (c : Established Unit) (rest : List Bytes),
      establish (.new "127.0.0.1:6390") [30]
        ([granted.take 7, granted.drop 7, refusal].map .bytes) = some (.ok c, rest.map .bytes) ∧
      GivenAll Unit c.limits rest refusal := by
  have hans : Answers (.new "127.0.0.1:6390") granted .floor :=
    ⟨⟨_, rfl, rfl, rfl⟩, by decide, by decide⟩
  have hwritten : ∀ frame, buildHandshakeRequest (.new "127.0.0.1:6390") handshakeRequestId =
      .ok frame → (writeAll [30] frame).2 = true := by
    rintro frame ⟨⟩
    rfl
  obtain ⟨c, rest, he, -, -, -, hiff⟩ := handover_iff (x := refusal) hans
    [granted.take 7, granted.drop 7, refusal] (by decide) rfl [30] hwritten
  exact ⟨c, rest, he, hiff.mpr ⟨[granted.take 7, granted.drop 7], [refusal], rfl, rfl⟩⟩

/-- **A refusal is lost.**  The two frames arrive in one read: the session starts, its driver has
nothing to read, and it does not learn that the server has ended the connection. -/
theorem handover_loses :
    (∃ c : Established Unit,
      establish (.new "127.0.0.1:6390") [30] [.bytes (granted ++ refusal)] = some (.ok c, []) ∧
      (feedChunks c.limits c.driver []).2 = none ∧ ¬ GivenAll Unit c.limits [] refusal) ∧
    ∃ c : Established Unit,
      establish (.new "127.0.0.1:6390") [30] [.bytes granted, .bytes refusal] =
        some (.ok c, [.bytes refusal]) ∧
      (feedChunks c.limits c.driver [refusal]).2 = some .protocolViolation := by
  refine ⟨⟨_, rfl, rfl, fun hall => ?_⟩, ⟨_, rfl, rfl⟩⟩
  exact absurd hall.stream (by decide)

end Rp1.Connection

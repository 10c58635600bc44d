import Rp1.Connection.Reader

/-!
# Connection — what the commands are for

What is on the other side of a connection is not in this repository, so it is a parameter: a
`Server` is what it does with an operation and with which frame it answers a result.
`Server.Honest` is what is assumed of it.  It does what a sequential specification allows, an
operation has a result of its own kind, and the answer carries the result code and the payload of
the result (`Conveys`).

The two sides are connected by what stands on the wire.  A server reads the operation off a request
(`readOperation`), and `Carries.readOperation` says that it reads what the command was called with.
`Conveys.interpret` says that the command returns what the operation of the server returned.

A store of keys and values is one such server (`keyValue`), and what the five operations mean on it
(`Operation.Means`) is what a caller believes them to be for.
-/

namespace Rp1.Connection
open Codec Protocol Command

/-! ### The server -/

/-- The results of each operation. -/
inductive Operation.Returns : Operation → Reply → Prop where
  | ping : Returns .ping .done
  | get (key : Bytes) (outcome : GetOutcome) : Returns (.get key) (.value outcome)
  | set (key value : Bytes) : Returns (.set key value) .done
  | del (key : Bytes) (present : Bool) : Returns (.del key) (.presence present)
  | existsKey (key : Bytes) (present : Bool) : Returns (.existsKey key) (.presence present)

/-- The result code that says a result. -/
def Reply.code : Reply → UInt16
  | .done | .presence true | .value (.present _) => 0
  | .value .absent | .presence false => 1
  | .value (.heldOutsideMemory _) => 4

/-- The payload that goes with it. -/
def Reply.payload : Reply → OutgoingPayload
  | .done | .presence _ | .value .absent => .opaqueBytes []
  | .value (.present bytes) => .opaqueBytes bytes
  | .value (.heldOutsideMemory length) => .warm length

/-- The frame answers the request `id` with `reply`; it may have metadata that a client can skip. -/
structure Conveys (id : UInt64) (reply : Reply) (o : Outgoing) : Prop where
  kind : o.kind = .response
  requestId : o.requestId = id
  code : o.code = reply.code
  payload : o.payload = reply.payload
  optional : ∀ e ∈ o.metadata, e.1 < 0x8000

/-- The other side of a connection, with a state in `S` and choices in `χ`. -/
structure Server (S χ : Type) where
  /-- The state after an operation, and its result. -/
  perform : χ → S → Operation → S × Reply
  /-- The frame with which it answers a request. -/
  outgoing : UInt64 → Reply → Outgoing

/-- What is assumed of a server whose operations are specified by `spec`. -/
structure Server.Honest {S χ : Type} (server : Server S χ)
    (spec : S → Operation → S → Reply → Prop) : Prop where
  means : ∀ choice s op,
    spec s op (server.perform choice s op).1 (server.perform choice s op).2
  returns : ∀ s op s' reply, spec s op s' reply → op.Returns reply
  frames : ∀ id reply, Conveys id reply (server.outgoing id reply)

/-! ### On the wire -/

/-- The operation that a request asks for. -/
def readOperation (f : Frame) : Option Operation :=
  match f.payload with
  | .opaqueBytes payload =>
      if f.header.code = pingOpcode then some .ping
      else if f.header.code = getOpcode then some (.get payload)
      else if f.header.code = setOpcode then
        (splitSet payload).toOption.map fun p => .set p.1 p.2
      else if f.header.code = delOpcode then some (.del payload)
      else if f.header.code = existsOpcode then some (.existsKey payload)
      else none
  | _ => none

/-- **The peer reads the operation of the command.** -/
theorem Carries.readOperation {ops : List Operation} {s : Submit Nat} {f : Frame}
    (h : Carries ops s f) :
    ∃ op, ops[s.completion]? = some op ∧ Connection.readOperation f = some op := by
  obtain ⟨op, payload, hop, hp, -, hcode, -, -, hpay⟩ := h
  refine ⟨op, hop, ?_⟩
  rw [Connection.readOperation, hpay, hcode]
  cases op with
  | ping => rfl
  | get key =>
      cases hp
      rfl
  | set key value =>
      have hsplit := splitSet_encodeSet hp
      simp only [hsplit]
      rfl
  | del key =>
      cases hp
      rfl
  | existsKey key =>
      cases hp
      rfl

/-- What a server sends is an answer to the request. -/
theorem Conveys.answer {id : UInt64} {reply : Reply} {o : Outgoing} (h : Conveys id reply o) :
    Answer id o := by
  obtain ⟨kind, code, requestId, metadata, payload⟩ := o
  obtain ⟨rfl, rfl, rfl, rfl, hoptional⟩ := h
  have hsuccess (p : OutgoingPayload) : Answer requestId ⟨.response, 0, requestId, metadata, p⟩ := {
    requestId := rfl
    terminal := .inl ⟨rfl, .inl rfl⟩
    optional := hoptional
    shape := fun _ _ => ⟨fun h => absurd h (show (0 : UInt16) ≠ 1 by decide),
      fun h => absurd h (show (0 : UInt16) ≠ 4 by decide)⟩ }
  have habsent : Answer requestId ⟨.response, 1, requestId, metadata, .opaqueBytes []⟩ := {
    requestId := rfl
    terminal := .inl ⟨rfl, .inr (.inl rfl)⟩
    optional := hoptional
    shape := fun _ hb => ⟨fun _ => (Except.ok.inj hb).symm,
      fun h => absurd h (show (1 : UInt16) ≠ 4 by decide)⟩ }
  rcases reply with _ | (value | _ | length) | (_ | _)
  · exact hsuccess _
  · exact hsuccess _
  · exact habsent
  · exact {
      requestId := rfl
      terminal := .inl ⟨rfl, .inr (.inr rfl)⟩
      optional := hoptional
      shape := fun _ _ => ⟨fun h => absurd h (show (4 : UInt16) ≠ 1 by decide),
        fun _ => ⟨length, rfl⟩⟩ }
  · exact habsent
  · exact hsuccess _

section Frames
variable {limits : Limits} {id : UInt64} {op : Operation} {f : Frame}

/-- **The command returns what the server's operation returned.** -/
theorem Conveys.interpret {reply : Reply} {o : Outgoing} (h : Conveys id reply o)
    (hr : op.Returns reply) (h₀ : id ≠ 0)
    (he : encodeWithMax o limits.frameSize limits.metadataSize = .ok f.bytes)
    (hl : f.Legal ⟨.client, .negotiated, limits, [id]⟩) : op.interpret f = .ok reply := by
  have hacc : o.Acceptable ⟨.client, .negotiated, limits, [id]⟩ :=
    h.answer.acceptable h₀ (List.mem_singleton.mpr rfl)
  obtain ⟨bytes, c, hb, -, hlegal, hbytes⟩ := hacc.legal he UInt64.le_rfl UInt16.le_rfl
  -- the decoder knows one frame with these bytes
  have hsame : o.frame bytes c = f := by
    have h₁ := decode_eq_frame_iff.mpr ⟨hlegal, [], (List.append_nil _).symm⟩
    have h₂ := decode_eq_frame_iff.mpr ⟨hl, [], (List.append_nil _).symm⟩
    rw [hbytes, h₂] at h₁
    cases h₁
    rfl
  rw [← hsame]
  obtain ⟨kind, code, requestId, metadata, payload⟩ := o
  obtain ⟨rfl, rfl, rfl, rfl, -⟩ := h
  cases hr with
  | ping => rfl
  | get key outcome =>
      cases outcome with
      | present value => cases hb; rfl
      | absent => rfl
      | heldOutsideMemory length => rfl
  | set => rfl
  | del key present => cases present <;> rfl
  | existsKey key present => cases present <;> rfl

/-- A frame that says `ERROR` is a failure of every command. -/
theorem Operation.interpret_of_error (h : f.header.kind = .error) (op : Operation) :
    op.interpret f = .error (errorOf f) := by
  cases op <;>
    simp only [Operation.interpret, interpretPing, interpretGet, interpretSet, interpretDel,
      interpretExists, interpretCode, h] <;> rfl

end Frames

/-! ### The store -/

/-- Keys and their values. -/
abbrev Store := Bytes → Option Bytes

/-- `op.Means store store' reply`: `op` may take `store` to `store'` and return `reply`.  A value
that is kept outside memory is not returned, only its length. -/
inductive Operation.Means : Store → Operation → Store → Reply → Prop where
  | ping (store : Store) : Means store .ping store .done
  | present (store : Store) (key value : Bytes) (h : store key = some value) :
      Means store (.get key) store (.value (.present value))
  | absent (store : Store) (key : Bytes) (h : store key = none) :
      Means store (.get key) store (.value .absent)
  | held (store : Store) (key value : Bytes) (h : store key = some value) :
      Means store (.get key) store (.value (.heldOutsideMemory (.ofNat value.length)))
  | set (store : Store) (key value : Bytes) :
      Means store (.set key value) (Function.update store key (some value)) .done
  | del (store : Store) (key : Bytes) :
      Means store (.del key) (Function.update store key none) (.presence (store key).isSome)
  | existsKey (store : Store) (key : Bytes) :
      Means store (.existsKey key) store (.presence (store key).isSome)

/-- A server performs an operation; `held` says whether it keeps the value outside memory. -/
def Operation.perform (held : Bool) (store : Store) : Operation → Store × Reply
  | .ping => (store, .done)
  | .get key =>
      match store key with
      | none => (store, .value .absent)
      | some value =>
          (store, .value (if held then .heldOutsideMemory (.ofNat value.length)
            else .present value))
  | .set key value => (Function.update store key (some value), .done)
  | .del key => (Function.update store key none, .presence (store key).isSome)
  | .existsKey key => (store, .presence (store key).isSome)

theorem Operation.Means.returns {store store' : Store} {op : Operation} {reply : Reply}
    (h : Operation.Means store op store' reply) : op.Returns reply := by
  cases h with
  | ping => exact .ping
  | present key => exact .get key _
  | absent key => exact .get key _
  | held key => exact .get key _
  | set key value => exact .set key value
  | del key => exact .del key _
  | existsKey key => exact .existsKey key _

end Rp1.Connection

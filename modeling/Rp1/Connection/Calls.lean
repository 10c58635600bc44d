import Rp1.Connection.Request
import Rp1.Connection.Session

/-!
# Connection — commands on a session

The callers beside the driver and the `close()` calls of one session.  A command is a task like the
others: a `Place` says which access to what the handles share it makes next, and the steps of all
tasks interleave freely.  The completion sender of a request is the number of the call that waits
for it.

A command holds one permit of the admission source from `acquire_permit` until `submit` returns.
Its future may be dropped at every `await`; then the permit goes back, and who sends to the call
afterwards sends to nobody.  The submissions stand in a bounded queue in front of the driver, and
what is left in the queue when the driver is gone is dropped with it.
-/

namespace Rp1.Connection
open Codec Protocol Command Runs

/-! ### What a command returns -/

/-- The value of a command that succeeded. -/
inductive Reply where
  | done
  | value (outcome : GetOutcome)
  | presence (present : Bool)
deriving DecidableEq, Repr

/-- The `interpret_*` function of an operation. -/
def Operation.interpret (op : Operation) (frame : Frame) : Except CommandFailure Reply :=
  match op with
  | .ping => (interpretPing frame).map fun _ => .done
  | .get _ => (interpretGet frame).map .value
  | .set .. => (interpretSet frame).map fun _ => .done
  | .del _ => (interpretDel frame).map .presence
  | .existsKey _ => (interpretExists frame).map .presence

/-- The end of a command that got a terminal frame. -/
def Operation.finish (n : Negotiated) (op : Operation) (frameBytes : Bytes) :
    Except CommandError Reply := do
  let frame ← n.decodeOwn frameBytes
  (op.interpret frame).mapError .fromCommandFailure

/-- The end of a command whose completion arrived. -/
def Operation.conclude (n : Negotiated) (op : Operation) :
    Except DriverError Bytes → Except CommandError Reply
  | .ok frameBytes => op.finish n frameBytes
  | .error error => .error (.fromDriver error)

/-! ### The model -/

/-- Where a command stands: the access it makes next. -/
inductive Place where
  /-- The payload is encoded, and `check_usable` looks at the state. -/
  | start
  /-- `check_usable` looks at the state again, for the error. -/
  | refused
  | acquire (payload : Bytes)
  /-- The admission source is closed; the state decides the error. -/
  | shutOut
  | allocate (payload : Bytes)
  | send (id : UInt64) (bytes : Bytes)
  /-- `completion_rx.await`, with what has been sent to it. -/
  | await (id : UInt64) (inbox : Option (Except DriverError Bytes))
  /-- `completion_lost`. -/
  | lost
  | done (result : Except CommandError Reply)
  /-- The future was dropped. -/
  | dropped

structure Call where
  op : Operation
  place : Place

/-- The capacity of the submit channel. -/
def submitCapacity : Nat := 64

/-- A session with the calls of its handles: the permits the admission source has left, the id
allocator and the queue in front of the driver. -/
structure Client where
  session : Session Nat
  permits : Nat
  allocator : RequestIdAllocator
  queue : List (Submit Nat)
  calls : List Call

/-- Who moves next. -/
inductive Turn where
  | session (m : Move Nat)
  /-- The next access of a command. -/
  | call (i : Nat)
  /-- The future of a command is dropped. -/
  | drop (i : Nat)

/-- A session in use with `maximum_in_flight = bound`, with calls to `close()` and commands about
to start.  `establish` has taken the first identifier for the handshake. -/
def Client.established (bound closers : Nat) (ops : List Operation) : Client :=
  ⟨.established closers, bound, RequestIdAllocator.new.allocate.2, [], ops.map (⟨·, .start⟩)⟩

/-- The driver and its end of the submit channel are gone. -/
def Client.gone (c : Client) : Bool := c.session.join.isSome

/-- One permit goes back to the admission source. -/
def Client.release (c : Client) : Client := { c with permits := c.permits + 1 }

/-- The next access of the `i`-th command. -/
def Place.step (n : Negotiated) (c : Client) (i : Nat) (op : Operation) :
    Place → Option (Client × Place)
  | .start =>
      match op.payload with
      | .error _ => some (c, .done (.error .invalidRequest))
      | .ok payload =>
          if c.session.state = .usable then
            let total := wireSize payload.length
            if total > n.effectiveMaximumFrameSize then
              some (c, .done (.error (.localLimitExceeded total n.effectiveMaximumFrameSize)))
            else some (c, .acquire payload)
          else some (c, .refused)
  | .refused => some (c, .done (.error c.session.state.refusal))
  | .acquire payload =>
      if c.session.shared.admissionClosed then some (c, .shutOut)
      else if 0 < c.permits then some ({ c with permits := c.permits - 1 }, .allocate payload)
      else none
  | .shutOut => some (c, .done (.error c.session.state.refusal))
  | .allocate payload =>
      let (id, allocator) := c.allocator.allocate
      let c := { c with allocator }
      if id = 0 then some (c.release, .done (.error .unusable))
      else
        match encodeRequest op.opcode payload id n.effectiveMaximumFrameSize
            n.effectiveMaximumMetadataSize with
        | .error error => some (c.release, .done (.error error))
        | .ok bytes => some (c, .send id bytes)
  | .send id bytes =>
      if c.gone then some (c, .lost)
      else if c.queue.length < submitCapacity then
        some ({ c with queue := c.queue ++ [⟨id, bytes, i⟩] }, .await id none)
      else none
  | .await _ (some outcome) => some (c.release, .done (op.conclude n outcome))
  | .await _ none => if c.gone then some (c, .lost) else none
  | .lost => some (c.release, .done (.error c.session.state.refusal))
  | .done _ | .dropped => none

/-- A completion arrives at a call that still waits for it. -/
def Call.receive (outcome : Except DriverError Bytes) (call : Call) : Call :=
  match call.place with
  | .await id none => { call with place := .await id (some outcome) }
  | _ => call

/-- What an effect of the driver does to the calls. -/
def Client.deliver (c : Client) : Option (Effect Nat) → Client
  | some (.send _ i outcome) => { c with calls := c.calls.modify i (Call.receive outcome) }
  | _ => c

/-- The queue does not outlive the driver. -/
def Client.sweep (c : Client) : Client := { c with queue := if c.gone then [] else c.queue }

/-- The driver and the `close()` calls move.  A submission comes from the head of the queue. -/
def Client.sessionStep (n : Negotiated) (c : Client) (m : Move Nat) : Option Client :=
  match m with
  | .select (.submit s _) =>
      match c.queue with
      | [] => none
      | head :: queue =>
          if head = s then
            (c.session.step n.effectiveLimits m).map fun session => { c with session, queue }
          else none
  | .perform =>
      (c.session.step n.effectiveLimits m).map fun session =>
        { c with session }.deliver c.session.next
  | _ => (c.session.step n.effectiveLimits m).map fun session => { c with session }

/-- The future of a command is dropped; only at an `await`, or before it was polled at all. -/
def Place.drop (c : Client) : Place → Option Client
  | .start | .acquire _ => some c
  | .send .. | .await .. => some c.release
  | _ => none

def Client.step (n : Negotiated) (c : Client) : Turn → Option Client
  | .session m => (c.sessionStep n m).map Client.sweep
  | .call i =>
      c.calls[i]?.bind fun call =>
        (call.place.step n c i call.op).map fun r =>
          { r.1 with calls := r.1.calls.set i { call with place := r.2 } }
  | .drop i =>
      c.calls[i]?.bind fun call =>
        (call.place.drop c).map fun c =>
          { c with calls := c.calls.set i { call with place := .dropped } }

end Rp1.Connection

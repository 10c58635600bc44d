import Rp1.Connection.Served
import Rp1.Connection.Store
import Rp1.Support.Linear
import Rp1.Support.Simulation

/-!
# Connection — commands are linearizable

The closed system of `Link` with a server for a peer.  The server performs the requests it has read,
one at a time and each at most once, in any order, or refuses one with an error; its log has what it
performed.

`commands_linearizable` compares this with what the callers see, for every honest server.  Whatever
the tasks of the client do, in whatever pieces the streams arrive and whoever gives up waiting, the
log is an order in which one object that keeps to the specification of the server, used by one
caller, could have given every command the result that it returned, and a command that had returned
before another one started comes first.  A command that has returned an error is not in it.  All of
this is about a link on which nothing fails: writes and reads succeed, nobody closes the session and
nobody aborts its driver.
-/

namespace Rp1.Connection
open Codec Protocol Command Runs Linear

/-! ### The model -/

section Model
variable {S χ : Type}

/-- A client and a server, the state of the server, and what it has performed. -/
structure Service (S : Type) where
  link : Link
  store : S
  log : List (UInt64 × Operation × Reply)

/-- Who moves next. -/
inductive ServiceTurn (χ : Type) where
  | client (turn : Turn)
  | deliver (k : Nat)
  /-- The server performs a request it has read, and answers it. -/
  | serve (id : UInt64) (choice : χ)
  /-- The server refuses a request it has read, with an error. -/
  | refuse (id : UInt64) (bytes : Bytes)

def Service.established (bound : Nat) (ops : List Operation) (store : S) : Service S :=
  ⟨.established bound ops, store, []⟩

/-- The frame at the head of `bytes` is an `ERROR`. -/
def isError (limits : Limits) (id : UInt64) (bytes : Bytes) : Bool :=
  match decode bytes ⟨.client, .negotiated, limits, [id]⟩ with
  | .frame f => f.header.kind = .error
  | .need _ | .failure .. => false

/-- What the server makes of a request: the operation, the state after it, the result and the
answer. -/
structure Performed (S : Type) where
  op : Operation
  store : S
  reply : Reply
  bytes : Bytes

/-- The server performs the request `id`.  A result that no frame can hold it does not send. -/
def Service.perform (server : Server S χ) (n : Negotiated) (s : Service S) (id : UInt64)
    (choice : χ) : Option (Performed S) := do
  let f ← (readRequests n.effectiveLimits s.link.sent).1.frames.find? fun f =>
    f.header.requestId.value = id
  let op ← readOperation f
  let (store, reply) := server.perform choice s.store op
  let bytes ← (encodeWithMax (server.outgoing id reply) n.effectiveMaximumFrameSize
    n.effectiveMaximumMetadataSize).toOption
  some ⟨op, store, reply, bytes⟩

def Service.step (server : Server S χ) (n : Negotiated) (s : Service S) :
    ServiceTurn χ → Option (Service S)
  | .client turn => (s.link.step n (.client turn)).map fun link => { s with link }
  | .deliver k => (s.link.step n (.deliver k)).map fun link => { s with link }
  | .serve id choice => do
      let p ← s.perform server n id choice
      let link ← s.link.step n (.answer id p.bytes)
      some ⟨link, p.store, s.log ++ [(id, p.op, p.reply)]⟩
  | .refuse id bytes =>
      if isError n.effectiveLimits id bytes then
        (s.link.step n (.answer id bytes)).map fun link => { s with link }
      else none

/-- The step that the client takes in a step of the system. -/
def Service.turn (s : Service S) : ServiceTurn χ → Option (Client × Turn)
  | .client turn => s.link.turn (.client turn)
  | .deliver k => s.link.turn (.deliver k)
  | .serve .. | .refuse .. => none

end Model

/-! ### What the server performs -/

section Steps
variable {S χ : Type} {server : Server S χ} {spec : S → Operation → S → Reply → Prop}
  {n : Negotiated} {bound : Nat} {ops : List Operation} {store₀ : S}
  {past : List (Client × Turn)} {s s' : Service S}

theorem isError_iff {limits : Limits} {id : UInt64} {f : Frame}
    (h : f.Legal ⟨.client, .negotiated, limits, [id]⟩) :
    isError limits id f.bytes = true ↔ f.header.kind = .error := by
  rw [isError, decode_eq_frame_iff.mpr ⟨h, [], (List.append_nil _).symm⟩]
  exact decide_eq_true_iff

theorem Service.perform_eq_some (hserver : server.Honest spec) {id : UInt64} {choice : χ}
    {p : Performed S} (h : s.perform server n id choice = some p) :
    (∃ f ∈ (readRequests n.effectiveLimits s.link.sent).1.frames,
      f.header.requestId.value = id ∧ readOperation f = some p.op) ∧
    spec s.store p.op p.store p.reply ∧
    encodeWithMax (server.outgoing id p.reply) n.effectiveMaximumFrameSize
      n.effectiveMaximumMetadataSize = .ok p.bytes := by
  simp only [Service.perform, Option.bind_eq_bind, Option.bind_eq_some_iff] at h
  obtain ⟨f, hf, op, hop, bytes, hb, he⟩ := h
  cases he
  have hid := List.find?_some hf
  rw [decide_eq_true_iff] at hid
  exact ⟨⟨f, List.mem_of_find?_eq_some hf, hid, hop⟩, hserver.means choice s.store op,
    toOption_eq_some.mp hb⟩

/-- The answers that a step of the link adds. -/
def LinkTurn.answers : LinkTurn → List (UInt64 × Bytes)
  | .answer id bytes => [(id, bytes)]
  | .client _ | .deliver _ => []

theorem Link.answered_of_step {l l' : Link} {turn : LinkTurn} (h : l.step n turn = some l') :
    l'.answered = l.answered ++ turn.answers ∧
      ∀ p ∈ turn.answers, p.1 ∉ l.answered.map Prod.fst := by
  cases turn with
  | client turn =>
      obtain ⟨-, h⟩ := Option.ite_none_right_eq_some.mp h
      obtain ⟨client, -, rfl⟩ := Option.map_eq_some_iff.mp h
      exact ⟨(List.append_nil _).symm, fun _ hp => nomatch hp⟩
  | answer id bytes =>
      obtain ⟨⟨-, hnew, -⟩, h⟩ := Option.ite_none_right_eq_some.mp h
      cases h
      exact ⟨rfl, List.forall_mem_singleton.mpr hnew⟩
  | deliver k =>
      obtain ⟨-, h⟩ := Option.ite_none_right_eq_some.mp h
      obtain ⟨client, -, rfl⟩ := Option.map_eq_some_iff.mp h
      exact ⟨(List.append_nil _).symm, fun _ hp => nomatch hp⟩

/-- A step of the system is one of the link; the server performs a request in it, or does not. -/
inductive Service.Moves (server : Server S χ) (n : Negotiated) (s : Service S) :
    ServiceTurn χ → Service S → Prop where
  | quiet (turn : ServiceTurn χ) (move : LinkTurn) (link : Link)
      (hlink : s.link.step n move = some link) (hturn : s.turn turn = s.link.turn move)
      (herror : ∀ p ∈ move.answers, isError n.effectiveLimits p.1 p.2 = true) :
      s.Moves server n turn { s with link }
  | serves (id : UInt64) (choice : χ) (p : Performed S) (link : Link)
      (hperform : s.perform server n id choice = some p)
      (hlink : s.link.step n (.answer id p.bytes) = some link) :
      s.Moves server n (.serve id choice) ⟨link, p.store, s.log ++ [(id, p.op, p.reply)]⟩

theorem Service.moves_of_step {turn : ServiceTurn χ} (h : s.step server n turn = some s') :
    s.Moves server n turn s' := by
  cases turn with
  | client turn =>
      obtain ⟨link, hlink, rfl⟩ := Option.map_eq_some_iff.mp h
      exact .quiet _ _ link hlink rfl fun _ hp => nomatch hp
  | deliver k =>
      obtain ⟨link, hlink, rfl⟩ := Option.map_eq_some_iff.mp h
      exact .quiet _ _ link hlink rfl fun _ hp => nomatch hp
  | serve id choice =>
      obtain ⟨p, hp, h⟩ := Option.bind_eq_some_iff.mp h
      obtain ⟨link, hlink, h⟩ := Option.bind_eq_some_iff.mp h
      cases h
      exact .serves id choice p link hp hlink
  | refuse id bytes =>
      obtain ⟨he, h⟩ := Option.ite_none_right_eq_some.mp h
      obtain ⟨link, hlink, rfl⟩ := Option.map_eq_some_iff.mp h
      exact .quiet _ _ link hlink rfl (List.forall_mem_singleton.mpr he)

/-! ### The log -/

/-- What the server has performed are requests of the client, each of them once, and its
specification explains them. -/
structure Service.Logged (spec : S → Operation → S → Reply → Prop) (n : Negotiated)
    (ops : List Operation) (store₀ : S) (past : List (Client × Turn)) (s : Service S) : Prop where
  exchange : s.link.client.Exchange n ops past
  wired : s.link.sent = wire past
  explains : Explains spec store₀ s.log s.store
  nodup : (s.log.map Prod.fst).Nodup
  asked : ∀ e ∈ s.log, ∃ sub ∈ submitted past, sub.id = e.1 ∧ ops[sub.completion]? = some e.2.1

/-- The request that the server performs is the one of a command. -/
theorem Service.Logged.asks {f : Frame} {op : Operation} (h : s.Logged spec n ops store₀ past)
    (hops : ops.length < 2 ^ 64 - 1)
    (hf : f ∈ (readRequests n.effectiveLimits s.link.sent).1.frames)
    (hop : readOperation f = some op) :
    ∃ sub ∈ submitted past, sub.id = f.header.requestId.value ∧
      ops[sub.completion]? = some op := by
  obtain ⟨fs, left, seen, unseen, hrun, hreads⟩ := h.exchange.reads hops
  rw [h.wired, hrun] at hf
  obtain ⟨k, hk, rfl⟩ := List.mem_iff_getElem.mp hf
  have hlen := hreads.carries.length_eq
  have hcarries := hreads.carries.get (hlen ▸ hk) hk
  obtain ⟨op', hop', hread⟩ := hcarries.readOperation
  obtain rfl : op' = op := Option.some.inj (hread.symm.trans hop)
  refine ⟨_, h.exchange.received_subset ?_, ?_, hop'⟩
  · rw [hreads.split]
    exact List.mem_append_left _ (List.getElem_mem _)
  · obtain ⟨_, _, _, _, _, _, hid, _⟩ := hcarries
    exact hid.symm

/-- The client goes on. -/
theorem Service.Logged.link {link : Link} (h : s.Logged spec n ops store₀ past)
    {later : List (Client × Turn)} (hx : link.client.Exchange n ops (past ++ later))
    (hw : link.sent = wire (past ++ later)) :
    Service.Logged spec n ops store₀ (past ++ later) { s with link } where
  exchange := hx
  wired := hw
  explains := h.explains
  nodup := h.nodup
  asked := fun e he => by
    obtain ⟨sub, hsub, hrest⟩ := h.asked e he
    rw [submitted, List.filterMap_append]
    exact ⟨sub, List.mem_append_left _ hsub, hrest⟩

/-- The server performs one more request. -/
theorem Service.Logged.snoc {f : Frame} {op : Operation} {store : S} {reply : Reply}
    (h : s.Logged spec n ops store₀ past) (hops : ops.length < 2 ^ 64 - 1)
    (hf : f ∈ (readRequests n.effectiveLimits s.link.sent).1.frames)
    (hop : readOperation f = some op) (hmeans : spec s.store op store reply)
    (hnew : f.header.requestId.value ∉ s.log.map Prod.fst) :
    Service.Logged spec n ops store₀ past
      ⟨s.link, store, s.log ++ [(f.header.requestId.value, op, reply)]⟩ where
  exchange := h.exchange
  wired := h.wired
  explains := h.explains.snoc hmeans
  nodup := by
    rw [List.map_append]
    exact h.nodup.append (List.nodup_singleton _) (List.disjoint_singleton.mpr hnew)
  asked := List.forall_mem_append.mpr
    ⟨h.asked, List.forall_mem_singleton.mpr (h.asks hops hf hop)⟩

/-! ### The log and the answers -/

/-- A client and a server, after the steps `past` of the client. -/
structure Service.Consistent (server : Server S χ) (spec : S → Operation → S → Reply → Prop)
    (n : Negotiated) (bound : Nat) (ops : List Operation) (store₀ : S)
    (past : List (Client × Turn)) (s : Service S) : Prop where
  serving : s.link.Serving n bound ops past
  logged : s.Logged spec n ops store₀ past
  sent : ∀ e ∈ s.log, ∃ bytes, (e.1, bytes) ∈ s.link.answered ∧
    encodeWithMax (server.outgoing e.1 e.2.2) n.effectiveMaximumFrameSize
      n.effectiveMaximumMetadataSize = .ok bytes
  /-- What it has answered without performing it, it has refused. -/
  others : ∀ p ∈ s.link.answered,
    p.1 ∈ s.log.map Prod.fst ∨ isError n.effectiveLimits p.1 p.2 = true

theorem Service.Consistent.established (n : Negotiated) (bound : Nat) (ops : List Operation)
    (store : S) :
    (Service.established bound ops store).Consistent server spec n bound ops store [] where
  serving := .established n bound ops
  logged := ⟨.established n bound 0 ops, rfl, .nil, .nil, fun _ he => nomatch he⟩
  sent := fun _ he => nomatch he
  others := fun _ hp => nomatch hp

theorem Service.Consistent.step (hserver : server.Honest spec) {size : UInt32}
    {turn : ServiceTurn χ} (hn : n.maximumFrameSize = size.toUInt64)
    (hops : ops.length < 2 ^ 64 - 1) (h : s.Consistent server spec n bound ops store₀ past)
    (hs : s.step server n turn = some s') :
    s'.Consistent server spec n bound ops store₀ (past ++ (s.turn turn).toList) := by
  cases Service.moves_of_step hs with
  | quiet _ move link hlink hturn herror =>
      obtain ⟨hanswered, -⟩ := Link.answered_of_step hlink
      rw [hturn]
      have hserving := h.serving.step hn hops hlink
      exact {
        serving := hserving
        logged := h.logged.link hserving.exchange hserving.sent
        sent := fun e he => by
          obtain ⟨bytes, hb, hrest⟩ := h.sent e he
          exact ⟨bytes, hanswered ▸ List.mem_append_left _ hb, hrest⟩
        others := fun p hp => by
          rcases List.mem_append.mp (hanswered ▸ hp : p ∈ s.link.answered ++ move.answers)
            with hp | hp
          · exact h.others p hp
          · exact .inr (herror p hp) }
  | serves id choice p link hperform hlink =>
      obtain ⟨hanswered, hnew⟩ := Link.answered_of_step hlink
      obtain ⟨⟨f, hf, rfl, hop⟩, hmeans, hbytes⟩ := Service.perform_eq_some hserver hperform
      have hfresh : f.header.requestId.value ∉ s.log.map Prod.fst := by
        intro hm
        obtain ⟨e, he, hid⟩ := List.mem_map.mp hm
        obtain ⟨bytes, hb, -⟩ := h.sent e he
        exact hnew _ (List.mem_singleton.mpr rfl) (List.mem_map.mpr ⟨_, hb, hid⟩)
      have hserving := h.serving.step hn hops hlink
      rw [Link.turn, Option.toList_none] at hserving
      rw [Service.turn, Option.toList_none]
      exact {
        serving := hserving
        logged := (h.logged.snoc hops hf hop hmeans hfresh).link hserving.exchange hserving.sent
        sent := by
          rw [hanswered]
          refine List.forall_mem_append.mpr ⟨fun e he => ?_, List.forall_mem_singleton.mpr
            ⟨p.bytes, List.mem_append_right _ (List.mem_singleton.mpr rfl), hbytes⟩⟩
          obtain ⟨bytes, hb, hrest⟩ := h.sent e he
          exact ⟨bytes, List.mem_append_left _ hb, hrest⟩
        others := by
          rw [hanswered, List.map_append]
          refine List.forall_mem_append.mpr ⟨fun q hq => ?_, List.forall_mem_singleton.mpr
            (.inl (List.mem_append_right _ (List.mem_singleton.mpr rfl)))⟩
          exact (h.others q hq).imp_left (List.mem_append_left _) }

/-! ### What the commands return -/

/-- The result of what the server has performed is what its command reads in the frame of it. -/
theorem Service.Logged.interpret (hserver : server.Honest spec) {f : Frame}
    {e : UInt64 × Operation × Reply} (h : s.Logged spec n ops store₀ past) (he : e ∈ s.log)
    (henc : encodeWithMax (server.outgoing e.1 e.2.2) n.effectiveMaximumFrameSize
      n.effectiveMaximumMetadataSize = .ok f.bytes)
    (hl : f.Legal ⟨.client, .negotiated, n.effectiveLimits, [e.1]⟩) :
    e.2.1.interpret f = .ok e.2.2 := by
  obtain ⟨sub, hsub, hid, -⟩ := h.asked e he
  obtain ⟨_, _, hmeans⟩ := h.explains.of_mem he
  exact (hserver.frames e.1 e.2.2).interpret (hserver.returns _ _ _ _ hmeans)
    (hid ▸ (h.exchange.submitted.requests sub hsub).1) henc hl

/-- An entry of the log under the identifier of a command is the operation of this command. -/
theorem Service.Logged.op_eq {e : UInt64 × Operation × Reply} {sub : Submit Nat}
    {op : Operation} {place : Place} (h : s.Logged spec n ops store₀ past)
    (hops : ops.length < 2 ^ 64 - 1) (he : e ∈ s.log) (hsub : sub ∈ submitted past)
    (hid : e.1 = sub.id) (hc : s.link.client.calls[sub.completion]? = some ⟨op, place⟩) :
    e.2.1 = op := by
  obtain ⟨sub', hsub', hid', hop'⟩ := h.asked e he
  obtain rfl : sub' = sub := List.inj_on_of_nodup_map (h.exchange.nodup_ids hops)
    hsub' hsub (hid'.trans hid)
  obtain ⟨hop, -⟩ := h.exchange.submitted.prepared _ op _ hc
  exact Option.some.inj (hop'.symm.trans hop)

/-- What the server has performed, its command reads in the answer. -/
theorem Service.Consistent.interpret (hserver : server.Honest spec) {f : Frame}
    {e : UInt64 × Operation × Reply} (h : s.Consistent server spec n bound ops store₀ past)
    (he : e ∈ s.log) (hf : (e.1, f.bytes) ∈ s.link.answered)
    (hl : f.Legal ⟨.client, .negotiated, n.effectiveLimits, [e.1]⟩) :
    e.2.1.interpret f = .ok e.2.2 := by
  obtain ⟨bytes, hb, henc⟩ := h.sent e he
  obtain ⟨_, _, _, -, hflow⟩ := h.serving.flowing
  obtain rfl : bytes = f.bytes :=
    congrArg Prod.snd (List.inj_on_of_nodup_map hflow.nodup hb hf rfl)
  exact h.logged.interpret hserver he henc hl

/-- A result is in the log, and an error is not. -/
def Service.Accounts (s : Service S) (id : UInt64) (op : Operation) :
    Except CommandError Reply → Prop
  | .ok reply => (id, op, reply) ∈ s.log
  | .error _ => id ∉ s.log.map Prod.fst

/-- **A command that was not refused locally** has its result from the log, or the server has
refused it with an error. -/
theorem Service.Consistent.returns (hserver : server.Honest spec) {i : Nat} {op : Operation}
    {result : Except CommandError Reply} (h : s.Consistent server spec n bound ops store₀ past)
    (hops : ops.length < 2 ^ 64 - 1)
    (hc : s.link.client.calls[i]? = some ⟨op, .done result⟩) (hr : op.refusal n = none) :
    ∃ sub ∈ submitted past, sub.completion = i ∧ sub.id ∈ s.link.answered.map Prod.fst ∧
      s.Accounts sub.id op result := by
  have hreturns : Returns n past s.link.answered i op result := h.serving.calls i op _ hc
  rw [Returns, hr] at hreturns
  obtain ⟨f, ⟨sub, hsub, rfl, hb, -, hl⟩, rfl⟩ := hreturns
  refine ⟨sub, hsub, rfl, List.mem_map_of_mem hb, ?_⟩
  by_cases hm : sub.id ∈ s.log.map Prod.fst
  · obtain ⟨e, he, hid⟩ := List.mem_map.mp hm
    have hop := h.logged.op_eq hops he hsub hid hc
    have hok : op.interpret f = .ok e.2.2 := hop ▸ h.interpret hserver he (hid ▸ hb) (hid ▸ hl)
    rw [hok]
    show (sub.id, op, e.2.2) ∈ s.log
    rw [← hid, ← hop]
    exact he
  · rcases h.others _ hb with hlog | herr
    · exact absurd hlog hm
    · rw [Operation.interpret_of_error ((isError_iff hl).mp herr)]
      exact hm

/-- A command that has submitted was not refused locally. -/
theorem Requests.refusal {sub : Submit Nat} {op : Operation} (h : Requests n ops sub)
    (hop : ops[sub.completion]? = some op) : op.refusal n = none := by
  obtain ⟨-, op', payload, hop', hp, he⟩ := h
  obtain rfl : op' = op := Option.some.inj (hop'.symm.trans hop)
  obtain ⟨bytes, hb, -, -, -, hle, -⟩ := encodeWithMax_eq_ok_iff.mp (encodeRequest_eq_ok he)
  obtain rfl := Except.ok.inj hb
  have hfits : ¬ wireSize payload.length > n.effectiveMaximumFrameSize := by
    rw [gt_iff_lt, UInt64.lt_iff_toNat_lt, toNat_wireSize]
    simp only [Tlv.size, headerLength] at hle
    omega
  simp only [Operation.refusal, hp, if_neg hfits]

/-! ### The log grows -/

/-- The log has grown since `s`, by requests that were not answered in `s`. -/
structure Service.Grown (s s' : Service S) : Prop where
  log : s.log <+: s'.log
  answered : s.link.answered ⊆ s'.link.answered
  later : ∀ e ∈ s'.log, e ∈ s.log ∨ e.1 ∉ s.link.answered.map Prod.fst

theorem Service.Grown.step {s₁ : Service S} {turn : ServiceTurn χ} (h : s₁.Grown s)
    (hs : s.step server n turn = some s') : s₁.Grown s' := by
  cases Service.moves_of_step hs with
  | quiet _ move link hlink =>
      refine ⟨h.log, ?_, h.later⟩
      rw [(Link.answered_of_step hlink).1]
      exact List.Subset.trans h.answered (List.subset_append_left _ _)
  | serves id choice p link _ hlink =>
      obtain ⟨hanswered, hnew⟩ := Link.answered_of_step hlink
      refine ⟨h.log.trans (List.prefix_append _ _), ?_, ?_⟩
      · rw [hanswered]
        exact List.Subset.trans h.answered (List.subset_append_left _ _)
      · refine List.forall_mem_append.mpr ⟨h.later, List.forall_mem_singleton.mpr (.inr ?_)⟩
        intro hm
        exact hnew _ (List.mem_singleton.mpr rfl) (List.map_subset _ h.answered hm)

/-! ### The contract -/

/-- The command that has submitted the request `id`. -/
def owner (subs : List (Submit Nat)) (id : UInt64) : Nat :=
  ((subs.find? fun sub => sub.id = id).map Submit.completion).getD 0

theorem owner_eq {subs : List (Submit Nat)} {sub : Submit Nat} (hn : (subs.map Submit.id).Nodup)
    (hs : sub ∈ subs) : owner subs sub.id = sub.completion := by
  have hfind : subs.find? (fun sub' => sub'.id = sub.id) = some sub := by
    cases hf : subs.find? (fun sub' => sub'.id = sub.id) with
    | none => exact absurd (decide_eq_true rfl) (List.find?_eq_none.mp hf sub hs)
    | some sub' =>
        have hid := List.find?_some hf
        rw [decide_eq_true_iff] at hid
        rw [List.inj_on_of_nodup_map hn (List.mem_of_find?_eq_some hf) hs hid]
  rw [owner, hfind]
  rfl

/-- The log, with the command in the place of each request. -/
def Service.order (past : List (Client × Turn)) (s : Service S) :
    List (Nat × Operation × Reply) :=
  s.log.map fun e => (owner (submitted past) e.1, e.2)

theorem Service.keys_order (past : List (Client × Turn)) (s : Service S) :
    (s.order past).map Prod.fst = (s.log.map Prod.fst).map (owner (submitted past)) := by
  rw [Service.order, List.map_map, List.map_map]
  rfl

/-- Who is in the order has submitted. -/
theorem Service.Logged.mem_order {i : Nat} (h : s.Logged spec n ops store₀ past)
    {later : List (Client × Turn)} (hl : ((submitted later).map Submit.id).Nodup)
    (hsub : submitted past ⊆ submitted later) (hi : i ∈ (s.order later).map Prod.fst) :
    ∃ e ∈ s.log, ∃ sub ∈ submitted past, sub.completion = i ∧ sub.id = e.1 ∧
      ops[i]? = some e.2.1 := by
  rw [Service.keys_order, List.map_map] at hi
  obtain ⟨e, he, rfl⟩ := List.mem_map.mp hi
  obtain ⟨sub, hs, hid, hop⟩ := h.asked e he
  have howner : (owner (submitted later) ∘ Prod.fst) e = sub.completion := by
    rw [Function.comp_apply, ← hid]
    exact owner_eq hl (hsub hs)
  rw [howner]
  exact ⟨e, he, sub, hs, rfl, hid, hop⟩

/-- **Real time.**  `j` has not started in `s`, and the log has `i` by then, if it has it at all. -/
theorem Service.Logged.before {i j : Nat} {op : Operation} {now : Service S}
    {past' : List (Client × Turn)} (hops : ops.length < 2 ^ 64 - 1)
    (h : s.Logged spec n ops store₀ past) (hnow : now.Logged spec n ops store₀ past')
    (hsub : submitted past ⊆ submitted past') (hlog : s.log <+: now.log)
    (hi : ∀ sub ∈ submitted past', sub.completion = i → ∀ e ∈ now.log, e.1 = sub.id → e ∈ s.log)
    (hj : s.link.client.calls[j]? = some ⟨op, .start⟩)
    (hmem : i ∈ (now.order past').map Prod.fst) :
    ∃ early, early <+: (now.order past').map Prod.fst ∧ i ∈ early ∧ j ∉ early := by
  have hids := hnow.exchange.nodup_ids hops
  refine ⟨(s.order past').map Prod.fst, (hlog.map _).map _, ?_, fun hm => ?_⟩
  · obtain ⟨e, he, sub, hs, rfl, hid, -⟩ := hnow.mem_order hids (List.Subset.refl _) hmem
    rw [Service.keys_order, ← owner_eq hids hs, hid]
    exact List.mem_map_of_mem (List.mem_map_of_mem (hi sub hs rfl e he hid.symm))
  · obtain ⟨_, -, sub, hs, rfl, -, -⟩ := h.mem_order hids hsub hm
    obtain ⟨_, place, hplace, hp⟩ := h.exchange.submitted.behind sub hs
    rw [hj] at hplace
    cases hplace
    cases hp

/-- Who has returned had its answer, and so what the server performs later is not its request. -/
theorem Service.Consistent.settled (hserver : server.Honest spec) {i : Nat} {op : Operation}
    {result : Except CommandError Reply} {now : Service S} {past' : List (Client × Turn)}
    (hops : ops.length < 2 ^ 64 - 1) (h : s.Consistent server spec n bound ops store₀ past)
    (hnow : now.Logged spec n ops store₀ past') (hsub : submitted past ⊆ submitted past')
    (hgrown : s.Grown now) (hi : s.link.client.calls[i]? = some ⟨op, .done result⟩) :
    ∀ sub ∈ submitted past', sub.completion = i → ∀ e ∈ now.log, e.1 = sub.id → e ∈ s.log := by
  rintro sub hs rfl e he hid
  obtain ⟨hop, -⟩ := h.serving.exchange.submitted.prepared _ op _ hi
  have hrefusal : op.refusal n = none := (hnow.exchange.submitted.requests sub hs).refusal hop
  obtain ⟨sub', hs', hcompletion, hanswered, -⟩ := h.returns hserver hops hi hrefusal
  obtain rfl : sub' = sub := List.inj_on_of_nodup_map hnow.exchange.submitted.nodup
    (hsub hs') hs hcompletion
  rcases hgrown.later e he with hold | hnew
  · exact hold
  · exact absurd (hid ▸ hanswered) hnew

end Steps

end Rp1.Connection

import Rp1.Validation.Campaign

/-!
# Validation — the journal as an audit trail

A record outlives the campaigns that write into it: each call of `Campaign::execute` reads the
journal back and appends to it, and may end early with an error.  `journalAfter` is the journal
after any sequence of such calls.

`Audited` is what holds of it at all times, one entry after another: attempts are numbered without
a gap, and a reused result names the evidence of a pass that stands before it.  The link goes back
through any number of reuses (`Audited.backed`).  An attempt takes a number that no entry of its
segment has, so it never opens a file that an entry refers to (`Audited.evidence_ne`).
-/

namespace Rp1.Validation
open Codec

/-! ### Calls on one record -/

/-- One call of `Campaign::execute`, with what the host answers. -/
structure ExecuteCall where
  campaign : Campaign
  answers : List Answer
  finishes : Bool
deriving DecidableEq, Repr

/-- The journal after one more call. -/
def ExecuteCall.extend (journal : List JournalEntry) (call : ExecuteCall) : List JournalEntry :=
  journal ++ (call.campaign.execute journal call.answers call.finishes).1.map
    call.campaign.journalEntry

/-- The journal of a record after the calls, oldest first. -/
def journalAfter (calls : List ExecuteCall) : List JournalEntry :=
  calls.foldl ExecuteCall.extend []

/-- A pass of the segment in the journal, under the identity and with the evidence of `e`. -/
def Backed (journal : List JournalEntry) (e : JournalEntry) : Prop :=
  ∃ p ∈ journal, p.segment = e.segment ∧ p.status = Status.pass.asStr ∧
    p.evidenceIdentity = e.evidenceIdentity ∧ p.evidence = e.evidence

/-- `e` may be appended to `journal`. -/
structure Entitled (journal : List JournalEntry) (e : JournalEntry) : Prop where
  attempt : e.attempt = (journal.filter (·.segment = e.segment)).length + 1
  cached : e.status = Status.cached.asStr → Backed journal e
  executed : e.status ≠ Status.cached.asStr →
    e.evidence = evidenceReference e.segment e.attempt

/-- Every entry was entitled when it was appended. -/
inductive Audited : List JournalEntry → Prop where
  | nil : Audited []
  | snoc {journal : List JournalEntry} {e : JournalEntry} (h : Audited journal)
      (he : Entitled journal e) : Audited (journal ++ [e])

section Audited
variable {journal : List JournalEntry} {e : JournalEntry}

theorem Backed.append (h : Backed journal e) (more : List JournalEntry) :
    Backed (journal ++ more) e := by
  obtain ⟨p, hp, hback⟩ := h
  exact ⟨p, List.mem_append_left more hp, hback⟩

theorem Audited.last (h : Audited (journal ++ [e])) : Entitled journal e := by
  generalize hj : journal ++ [e] = j at h
  cases h with
  | nil => exact absurd hj (by simp)
  | snoc h he =>
      obtain ⟨rfl, rfl⟩ := List.concat_inj.mp (by simpa using hj)
      exact he

/-- **Every reuse goes back to a pass.** -/
theorem Audited.backed (h : Audited journal) :
    ∀ e ∈ journal, e.status = Status.cached.asStr → Backed journal e := by
  induction h with
  | nil => exact List.forall_mem_nil _
  | @snoc journal x h he ih =>
      intro e hm hc
      rcases List.mem_append.mp hm with hm | hm
      · exact (ih e hm hc).append [x]
      · obtain rfl := List.mem_singleton.mp hm
        exact (he.cached hc).append [e]

/-- **The numbers of a segment.** -/
theorem Audited.attempts (h : Audited journal) (segment : String) :
    (journal.filter (·.segment = segment)).map JournalEntry.attempt =
      List.range' 1 (journal.filter (·.segment = segment)).length := by
  induction h with
  | nil => rfl
  | @snoc journal x h he ih =>
      by_cases hs : x.segment = segment
      · have hx := he.attempt
        rw [hs] at hx
        rw [List.filter_append, List.filter_singleton, decide_eq_true hs, cond_true,
          List.map_append, List.length_append, ih, List.map_singleton, hx,
          List.length_singleton, List.range'_1_concat, Nat.add_comm 1]
      · rw [List.filter_append, List.filter_singleton, decide_eq_false hs]
        simpa using ih

/-- The evidence of every entry is that of an attempt of its segment. -/
theorem Audited.evidence (h : Audited journal) :
    ∀ e ∈ journal, ∃ k ≤ (journal.filter (·.segment = e.segment)).length,
      e.evidence = evidenceReference e.segment k := by
  induction h with
  | nil => exact List.forall_mem_nil _
  | @snoc journal x h he ih =>
      have hmono : ∀ segment, (journal.filter (·.segment = segment)).length ≤
          ((journal ++ [x]).filter (·.segment = segment)).length := by
        intro segment
        rw [List.filter_append, List.length_append]
        exact Nat.le_add_right _ _
      have hold : ∀ e ∈ journal, ∃ k ≤ ((journal ++ [x]).filter (·.segment = e.segment)).length,
          e.evidence = evidenceReference e.segment k := by
        intro e hm
        obtain ⟨k, hk, hev⟩ := ih e hm
        exact ⟨k, Nat.le_trans hk (hmono _), hev⟩
      intro e hm
      rcases List.mem_append.mp hm with hm | hm
      · exact hold e hm
      · obtain rfl := List.mem_singleton.mp hm
        by_cases hc : e.status = Status.cached.asStr
        · -- reused: the evidence is that of the pass it goes back to
          obtain ⟨p, hp, hseg, -, -, hev⟩ := he.cached hc
          obtain ⟨k, hk, hpev⟩ := hold p hp
          rw [hseg] at hk hpev
          exact ⟨k, hk, hev.symm.trans hpev⟩
        · refine ⟨e.attempt, ?_, he.executed hc⟩
          rw [he.attempt, List.filter_append, List.length_append]
          simp

theorem eq_of_parse {value : String} {s : Status} (h : Status.parse value = some s) :
    value = s.asStr := by
  unfold Status.parse at h
  split at h <;> cases h <;> rfl

/-- The last entry of a segment, if it can be reused, is a pass or goes back to one. -/
theorem Audited.backed_of_reusable (h : Audited journal) {c : Campaign} {segment : String}
    {prior : JournalEntry}
    (hp : c.reusable (lastEntryFor journal segment) c.identity.digest = some prior) :
    prior.segment = segment ∧ prior.evidenceIdentity = c.identity.digest ∧
      Backed journal prior := by
  obtain ⟨-, hlast, ⟨s, hs, hholds⟩, hident⟩ := Campaign.reusable_eq_some_iff.mp hp
  rw [lastEntryFor, List.findRev?_eq_find?_reverse] at hlast
  have hmem : prior ∈ journal := List.mem_reverse.mp (List.mem_of_find?_eq_some hlast)
  have hseg : prior.segment = segment := by simpa using List.find?_some hlast
  refine ⟨hseg, hident, ?_⟩
  have hstatus := eq_of_parse hs
  cases s with
  | pass => exact ⟨prior, hmem, rfl, hstatus, rfl, rfl⟩
  | cached => exact h.backed prior hmem hstatus
  | fail => cases hholds
  | timeout => cases hholds
  | skipped => cases hholds

/-- **What a campaign appends is entitled.** -/
theorem Audited.entitled (h : Audited journal) {c : Campaign} {r : SegmentResult}
    (hf : c.Follows journal r) : Entitled journal (c.journalEntry r) := by
  have hcached : (c.journalEntry r).status = Status.cached.asStr ↔ r.status = .cached := by
    constructor
    · intro e
      have hparse := congrArg Status.parse e
      rw [Status.parse_asStr] at hparse
      exact Option.some.inj ((Status.parse_asStr r.status).symm.trans hparse)
    · intro e
      exact congrArg Status.asStr e
  refine ⟨hf.attempt, fun hc => ?_, fun hc => ?_⟩
  · rcases hf.source with ⟨prior, hp, -, hev⟩ | ⟨-, hex, -⟩
    · obtain ⟨hseg, hident, p, hm, hpseg, hpass, hpident, hpev⟩ := h.backed_of_reusable hp
      exact ⟨p, hm, hpseg.trans hseg, hpass, hpident.trans hident, hpev.trans hev.symm⟩
    · rw [hcached.mp hc] at hex
      cases hex
  · rcases hf.source with ⟨-, -, hs, -⟩ | ⟨-, -, hev⟩
    · exact absurd (hcached.mpr hs) hc
    · exact hev

theorem Audited.appends (h : Audited journal) {c : Campaign} {rs : List SegmentResult}
    (ha : c.Appends journal rs) : Audited (journal ++ rs.map c.journalEntry) := by
  induction ha with
  | nil => simpa using h
  | cons hf _ ih => simpa using ih (h.snoc (h.entitled hf))

end Audited

end Rp1.Validation

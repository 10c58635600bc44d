import Rp1.Validation.Journal
import Rp1.Validation.Segments

/-!
# Validation — what a resumed campaign does again

A campaign that resumes decides segment by segment whether the record already proves what it needs.
It looks at the last entry of the segment in the journal as it stands, which the campaign itself has
made longer since it began; as no segment comes twice, that makes no difference
(`Campaign.runSegments_executed`).

Over many resumed campaigns under one identity, interrupted anywhere, the entries of a segment are
attempts that prove nothing, then at most one pass, and then only reuses of it (`Once`).  It is the
entry that counts, not the attempt: a run that is killed between the two has made an attempt that
the record does not know of (`ExecuteCall.Makes.lost`), and the segment is run again.
`resumes_once` adds what happens at the end: once a record has sealed, a campaign that resumes it
runs nothing, and seals it again.
-/

namespace Rp1.Validation
open Codec

/-! ### What a journal proves -/

/-- The last entry of the segment holds, under this identity. -/
def proven (journal : List JournalEntry) (identity segment : String) : Bool :=
  match lastEntryFor journal segment with
  | none => false
  | some e => (Status.parse e.status).any Status.holds && e.evidenceIdentity = identity

/-- The statuses in the journal of a segment that is run until a pass of it is there, and then never
again. -/
inductive Once : List Status → Prop where
  | unproven (tries : List Status) (h : ∀ s ∈ tries, s.holds = false) : Once tries
  | passed (tries : List Status) (h : ∀ s ∈ tries, s.holds = false) (reuses : Nat) :
      Once (tries ++ .pass :: List.replicate reuses .cached)

section Journals
variable {c : Campaign} {journal : List JournalEntry} {segment : String}

theorem lastEntryFor_eq_getLast? (journal : List JournalEntry) (segment : String) :
    lastEntryFor journal segment = (journal.filter (·.segment = segment)).getLast? := by
  rw [lastEntryFor, List.findRev?_eq_find?_reverse, ← List.head?_filter, List.filter_reverse,
    List.head?_reverse]

/-- A resumed campaign reuses exactly what is proven. -/
theorem Campaign.isSome_reusable (hc : c.resume = true) (identity : String) :
    (c.reusable (lastEntryFor journal segment) identity).isSome =
      proven journal identity segment := by
  rw [proven, Campaign.reusable, hc]
  cases lastEntryFor journal segment with
  | none => rfl
  | some e =>
      cases hs : Status.parse e.status with
      | none => simp [hs]
      | some s =>
          by_cases hi : e.evidenceIdentity = identity
          · cases hh : s.holds <;> simp [hs, hh, hi]
          · simp [hs, hi]

/-- An entry of another segment proves nothing about this one, and disproves nothing. -/
theorem proven_concat_of_ne {e : JournalEntry} (h : e.segment ≠ segment) (identity : String) :
    proven (journal ++ [e]) identity segment = proven journal identity segment := by
  rw [proven, proven, lastEntryFor_eq_getLast?, lastEntryFor_eq_getLast?, List.filter_append,
    List.filter_singleton, decide_eq_false h, cond_false, List.append_nil]

/-- What a result does to a segment that was proven, and to one that was not. -/
theorem Campaign.Follows.executed_eq {r : SegmentResult} (h : c.Follows journal r)
    (hc : c.resume = true) :
    r.status.executed = !proven journal c.identity.digest r.id := by
  rw [← Campaign.isSome_reusable hc]
  rcases h.source with ⟨prior, hp, hs, -⟩ | ⟨hp, hs, -⟩
  · rw [hp, hs]
    rfl
  · rw [hp, hs]
    rfl

/-- **What a campaign runs again** was not proven when it began. -/
theorem Campaign.runSegments_executed (hc : c.resume = true) (segments : List SegmentDefinition)
    (answers : List Answer) (hn : (segments.map SegmentDefinition.id).Nodup) :
    ∀ r ∈ (c.runSegments segments answers journal).1,
      r.status.executed = !proven journal c.identity.digest r.id := by
  induction segments generalizing answers journal with
  | nil => exact List.forall_mem_nil _
  | cons definition segments ih =>
      cases answers with
      | nil => exact List.forall_mem_nil _
      | cons answer answers =>
          rw [Campaign.runSegments]
          split
          case h_1 => exact List.forall_mem_nil _
          case h_2 result hr =>
            obtain ⟨hid, hf⟩ := Campaign.runSegment_follows hr
            rw [List.map_cons, List.nodup_cons] at hn
            refine List.forall_mem_cons.mpr ⟨hf.executed_eq hc, fun r hm => ?_⟩
            rw [ih answers hn.2 r hm, proven_concat_of_ne]
            -- it is one of the other segments
            obtain ⟨d, hd, hdr⟩ := (c.runSegments_appends segments answers
              (journal ++ [c.journalEntry result])).2.1 r hm
            intro hsame
            refine hn.1 (List.mem_map.mpr ⟨d, hd, ?_⟩)
            exact hdr.trans (hsame.symm.trans hid)

/-- What other segments get does not matter. -/
theorem proven_append_of_notMem {es : List JournalEntry} (h : ∀ e ∈ es, e.segment ≠ segment)
    (identity : String) :
    proven (journal ++ es) identity segment = proven journal identity segment := by
  induction es generalizing journal with
  | nil => rw [List.append_nil]
  | cons e es ih =>
      obtain ⟨he, hes⟩ := List.forall_mem_cons.mp h
      rw [List.append_cons, ih hes, proven_concat_of_ne he]

theorem Campaign.execute_results (c : Campaign) (journal : List JournalEntry)
    (answers : List Answer) (finishes : Bool) :
    (c.execute journal answers finishes).1 = (c.runSegments c.segments answers journal).1 := by
  unfold execute
  generalize c.runSegments c.segments answers journal = r
  dsimp only
  split <;> rfl

/-- **When a campaign that comes to its end seals.** -/
theorem Campaign.sealed_iff_holds {answers : List Answer} {finishes : Bool} {report : Report}
    (h : (c.execute journal answers finishes).2 = some report) :
    ((c.execute journal answers finishes).1.map SegmentResult.id =
      c.segments.map SegmentDefinition.id) ∧
    (report.state = .sealed ↔
      (∀ r ∈ (c.execute journal answers finishes).1, r.status.holds = true) ∧
        c.treeState = .clean) := by
  obtain ⟨happ, -, hall⟩ := c.runSegments_appends c.segments answers journal
  have hidentity := happ.identity
  unfold execute at h ⊢
  generalize c.runSegments c.segments answers journal = r at h hall hidentity ⊢
  obtain ⟨results, complete⟩ := r
  by_cases hc : (complete && finishes) = true
  · simp only [if_pos hc] at h ⊢
    obtain rfl := Option.some.inj h
    have hids := hall ((Bool.and_eq_true _ _).mp hc).1
    refine ⟨hids, sealState_eq_sealed_iff.trans ?_⟩
    constructor
    · rintro ⟨hholds, -, hclean⟩
      exact ⟨fun r hr => (hholds _ (List.mem_map_of_mem hr)).1, hclean⟩
    · rintro ⟨hholds, hclean⟩
      refine ⟨fun f hf => ?_, fun id hid => ?_, hclean⟩
      · obtain ⟨r, hr, rfl⟩ := List.mem_map.mp hf
        exact ⟨hholds r hr, hidentity r hr⟩
      · rw [← hids] at hid
        obtain ⟨r, hr, rfl⟩ := List.mem_map.mp hid
        exact ⟨_, List.mem_map_of_mem hr, rfl⟩
  · simp only [if_neg hc] at h
    cases h

/-! ### Many campaigns -/

theorem Once.snoc_of_executed {statuses : List Status} {s : Status} (h : Once statuses)
    (hlast : ∀ last ∈ statuses.getLast?, last.holds = false) (he : s.executed = true) :
    Once (statuses ++ [s]) := by
  have htries : ∀ t ∈ statuses, t.holds = false := by
    cases h with
    | unproven _ h => exact h
    | passed tries h reuses =>
        -- the last of them holds
        exfalso
        cases reuses with
        | zero =>
            have hpass := hlast .pass (by simp)
            cases hpass
        | succ reuses =>
            have hcached := hlast .cached (by
              rw [List.replicate_succ', ← List.cons_append, ← List.append_assoc,
                List.getLast?_concat]
              rfl)
            cases hcached
  cases hs : s.holds with
  | true =>
      obtain rfl := Status.eq_pass he hs
      exact .passed statuses htries 0
  | false =>
      exact .unproven _ (List.forall_mem_append.mpr
        ⟨htries, List.forall_mem_singleton.mpr hs⟩)

theorem Once.snoc_cached {statuses : List Status} {last : Status} (h : Once statuses)
    (hlast : statuses.getLast? = some last) (hh : last.holds = true) :
    Once (statuses ++ [.cached]) := by
  cases h with
  | unproven _ h =>
      rw [h last (List.mem_of_getLast? hlast)] at hh
      cases hh
  | passed tries h reuses =>
      rw [List.append_assoc, List.cons_append, ← List.replicate_succ']
      exact .passed tries h (reuses + 1)

/-- The entries of a segment: their statuses, and the identity they are under. -/
structure Recounts (journal : List JournalEntry) (identity segment : String)
    (statuses : List Status) : Prop where
  statuses : (journal.filter (·.segment = segment)).map JournalEntry.status =
    statuses.map Status.asStr
  identity : ∀ e ∈ journal, e.evidenceIdentity = identity

theorem Recounts.proven_eq {identity : String} {statuses : List Status}
    (h : Recounts journal identity segment statuses) :
    proven journal identity segment = statuses.getLast?.any Status.holds := by
  have hlast := congrArg List.getLast? h.statuses
  rw [List.getLast?_map, List.getLast?_map] at hlast
  rw [proven, lastEntryFor_eq_getLast?]
  cases he : (journal.filter (·.segment = segment)).getLast? with
  | none =>
      rw [he, Option.map_none, eq_comm, Option.map_eq_none_iff] at hlast
      rw [hlast]
      rfl
  | some e =>
      rw [he, Option.map_some, eq_comm, Option.map_eq_some_iff] at hlast
      obtain ⟨s, hs, hse⟩ := hlast
      have hmem : e ∈ journal := (List.mem_filter.mp (List.mem_of_getLast? he)).1
      simp [hs, ← hse, h.identity e hmem]

/-- **One more result.** -/
theorem Recounts.follows {r : SegmentResult} {statuses : List Status} (hc : c.resume = true)
    (h : Recounts journal c.identity.digest segment statuses) (ho : Once statuses)
    (hf : c.Follows journal r) :
    ∃ statuses', Recounts (journal ++ [c.journalEntry r]) c.identity.digest segment statuses' ∧
      Once statuses' := by
  have hidentity : ∀ e ∈ journal ++ [c.journalEntry r], e.evidenceIdentity = c.identity.digest :=
    List.forall_mem_append.mpr ⟨h.identity, List.forall_mem_singleton.mpr rfl⟩
  by_cases hs : r.id = segment
  · refine ⟨statuses ++ [r.status], ⟨?_, hidentity⟩, ?_⟩
    · rw [List.filter_append, List.filter_singleton,
        decide_eq_true (show (c.journalEntry r).segment = segment from hs), cond_true,
        List.map_append, h.statuses, List.map_append]
      rfl
    · have hexec := hf.executed_eq hc
      rw [hs, h.proven_eq] at hexec
      cases hl : statuses.getLast? with
      | none =>
          rw [hl] at hexec
          exact ho.snoc_of_executed (by rw [hl]; exact fun _ hm => nomatch hm) hexec
      | some last =>
          rw [hl, Option.any_some] at hexec
          cases hh : last.holds with
          | false =>
              rw [hh] at hexec
              refine ho.snoc_of_executed (fun last' hm => ?_) hexec
              rw [hl] at hm
              rw [← Option.some.inj hm]
              exact hh
          | true =>
              rw [hh] at hexec
              have hcached : r.status = .cached := by
                cases hr : r.status with
                | cached => rfl
                | _ => rw [hr] at hexec; cases hexec
              rw [hcached]
              exact ho.snoc_cached hl hh
  · refine ⟨statuses, ⟨?_, hidentity⟩, ho⟩
    rw [List.filter_append, List.filter_singleton,
      decide_eq_false (show (c.journalEntry r).segment ≠ segment from hs), cond_false,
      List.append_nil]
    exact h.statuses

theorem Recounts.appends {rs : List SegmentResult} {statuses : List Status} (hc : c.resume = true)
    (h : Recounts journal c.identity.digest segment statuses) (ho : Once statuses)
    (ha : c.Appends journal rs) :
    ∃ statuses', Recounts (journal ++ rs.map c.journalEntry) c.identity.digest segment statuses' ∧
      Once statuses' := by
  induction ha generalizing statuses with
  | nil =>
      rw [List.map_nil, List.append_nil]
      exact ⟨statuses, h, ho⟩
  | cons hf _ ih =>
      obtain ⟨statuses', h', ho'⟩ := h.follows hc ho hf
      rw [List.map_cons, List.append_cons]
      exact ih h' ho'

end Journals

/-- A result that a call comes to.  The last may get lost: the run is killed when the attempt has
ended and its entry is not yet in the journal. -/
inductive ExecuteCall.Makes (call : ExecuteCall) (journal : List JournalEntry) :
    SegmentResult → Prop where
  | recorded (r : SegmentResult)
      (h : r ∈ (call.campaign.execute journal call.answers call.finishes).1) : call.Makes journal r
  | lost (definition : SegmentDefinition) (answer : Answer) (r : SegmentResult)
      (hd : call.campaign.segments[(call.campaign.execute journal call.answers
        call.finishes).1.length]? = some definition)
      (h : call.campaign.runSegment (ExecuteCall.extend journal call) definition answer = some r) :
      call.Makes journal r

section Makes
variable {call : ExecuteCall} {journal : List JournalEntry} {r : SegmentResult}

/-- The segment behind the recorded ones is none of them. -/
theorem id_ne_of_behind (hn : (call.campaign.segments.map SegmentDefinition.id).Nodup)
    {definition : SegmentDefinition}
    (hd : call.campaign.segments[(call.campaign.execute journal call.answers
      call.finishes).1.length]? = some definition) :
    ∀ r ∈ (call.campaign.execute journal call.answers call.finishes).1,
      r.id ≠ definition.id := by
  rw [Campaign.execute_results] at hd ⊢
  obtain ⟨behind, hids⟩ := call.campaign.runSegments_ids call.campaign.segments call.answers journal
  generalize (call.campaign.runSegments call.campaign.segments call.answers journal).1 = rs
    at hd hids ⊢
  have hid := congrArg (Option.map SegmentDefinition.id) hd
  rw [← List.getElem?_map, ← hids, List.getElem?_append_right (by simp), List.length_map,
    Nat.sub_self] at hid
  intro r hr hsame
  rw [← hids, List.nodup_append] at hn
  exact hn.2.2 r.id (List.mem_map_of_mem hr) definition.id (List.mem_of_getElem? hid) hsame

/-- **What a call runs**, recorded or not, was not proven when it began. -/
theorem ExecuteCall.Makes.executed_eq (h : call.Makes journal r)
    (hc : call.campaign.resume = true)
    (hn : (call.campaign.segments.map SegmentDefinition.id).Nodup) :
    r.status.executed = !proven journal call.campaign.identity.digest r.id := by
  cases h with
  | recorded _ h =>
      rw [Campaign.execute_results] at h
      exact Campaign.runSegments_executed hc call.campaign.segments call.answers hn r h
  | lost definition answer _ hd h =>
      obtain ⟨hid, hf⟩ := Campaign.runSegment_follows h
      rw [hf.executed_eq hc, ExecuteCall.extend, proven_append_of_notMem]
      intro e he
      obtain ⟨r', hr', rfl⟩ := List.mem_map.mp he
      exact fun hsame => id_ne_of_behind hn hd r' hr' (hsame.trans hid)

end Makes

end Rp1.Validation

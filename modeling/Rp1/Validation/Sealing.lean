import Rp1.Validation.Runner

/-!
# Validation — what a seal proves

A record that seals is read as proof that every segment passed on the recorded source.  A reused
result goes back, through any number of reuses, to the last attempt of its segment that was really
executed in the record, and that attempt passed under the same identity (`Trail.backed`).  The
identity does not say whether the working tree was clean then, and nothing else the runner keeps
does: `sealed_iff` says when the seal is what it claims to be.
-/

namespace Rp1.Validation

/-! ### Where a reused result comes from -/

/-- The last result recorded for a segment. -/
def lastRecorded (w : List Recorded) (segment : String) : Option Recorded :=
  w.findRev? (·.result.id = segment)

/-- The last attempt of a segment that was executed rather than reused. -/
def lastExecuted (w : List Recorded) (segment : String) : Option Recorded :=
  w.findRev? fun x => x.result.id = segment && x.result.status.executed

section Trail
variable {w v : List Recorded} {x x₀ y : Recorded} {segment : String}

theorem findRev?_append {α : Type} (p : α → Bool) (l l' : List α) :
    (l ++ l').findRev? p = (l'.findRev? p).or (l.findRev? p) := by
  simp only [List.findRev?_eq_find?_reverse, List.reverse_append, List.find?_append]

theorem lastEntryFor_entries (w : List Recorded) (segment : String) :
    lastEntryFor (w.map Recorded.entry) segment = (lastRecorded w segment).map Recorded.entry := by
  simp only [lastEntryFor, lastRecorded, List.findRev?_eq_find?_reverse, ← List.map_reverse,
    List.find?_map]
  rfl

theorem lastRecorded_concat_of_eq (h : x.result.id = segment) :
    lastRecorded (w ++ [x]) segment = some x := by
  simp [lastRecorded, h]

theorem lastRecorded_append_of_ne (h : ∀ x ∈ v, x.result.id ≠ segment) :
    lastRecorded (w ++ v) segment = lastRecorded w segment := by
  have hv : v.findRev? (·.result.id = segment) = none := by
    simpa [List.findRev?_eq_find?_reverse, List.find?_eq_none] using h
  rw [lastRecorded, findRev?_append, hv, Option.none_or]
  rfl

theorem lastExecuted_concat_of_executed (h : x.result.id = segment)
    (he : x.result.status.executed = true) : lastExecuted (w ++ [x]) segment = some x := by
  simp [lastExecuted, h, he]

theorem lastExecuted_append_of_ne
    (h : ∀ x ∈ v, x.result.id = segment → x.result.status.executed = false) :
    lastExecuted (w ++ v) segment = lastExecuted w segment := by
  have hv : v.findRev? (fun x => x.result.id = segment && x.result.status.executed) = none := by
    simpa [List.findRev?_eq_find?_reverse, List.find?_eq_none] using h
  rw [lastExecuted, findRev?_append, hv, Option.none_or]
  rfl

theorem lastExecuted_spec (h : lastExecuted w segment = some x) :
    x ∈ w ∧ x.result.id = segment ∧ x.result.status.executed = true := by
  rw [lastExecuted, List.findRev?_eq_find?_reverse] at h
  have hp := List.find?_some h
  simp only [Bool.and_eq_true, decide_eq_true_eq] at hp
  exact ⟨List.mem_reverse.mp (List.mem_of_find?_eq_some h), hp⟩

/-- The result `x` stands on the attempt `x₀`: it is that attempt, or reuses it. -/
inductive Backs (x₀ x : Recorded) : Prop where
  | same (h : x₀ = x)
  | reused (hx : x.result.status = .cached) (h₀ : x₀.result.status = .pass)
      (hi : x₀.result.identity = x.result.identity) (he : x₀.result.evidence = x.result.evidence)

/-- What a result that holds stands on has passed. -/
theorem Backs.pass (h : Backs x₀ x) (he : x₀.result.status.executed = true)
    (hh : x.result.status.holds = true) :
    x₀.result.status = .pass ∧ x₀.result.identity = x.result.identity ∧
      x₀.result.evidence = x.result.evidence := by
  cases h with
  | reused hx h₀ hi hev => exact ⟨h₀, hi, hev⟩
  | same h =>
      subst h
      exact ⟨Status.eq_pass he hh, rfl, rfl⟩

/-- What stands on an attempt that has passed holds. -/
theorem Backs.holds (h : Backs x₀ x) (hp : x₀.result.status = .pass) :
    x.result.status.holds = true ∧ x₀.result.identity = x.result.identity ∧
      x₀.result.evidence = x.result.evidence := by
  cases h with
  | reused hx h₀ hi hev => exact ⟨by rw [hx]; rfl, hi, hev⟩
  | same h =>
      subst h
      exact ⟨by rw [hp]; rfl, rfl, rfl⟩

/-- An entry that is reused stands on an executed attempt that passed under the identity asked
for. -/
theorem reusable_backed {c : Campaign} {prior : JournalEntry}
    (hback : ∀ {y}, lastRecorded w segment = some y →
      ∃ x₀, lastExecuted w segment = some x₀ ∧ Backs x₀ y)
    (hp : c.reusable (lastEntryFor (w.map Recorded.entry) segment) c.identity.digest =
      some prior) :
    ∃ x₀, lastExecuted w segment = some x₀ ∧ x₀.result.status = .pass ∧
      x₀.result.identity = c.identity.digest ∧ x₀.result.evidence = prior.evidence := by
  obtain ⟨-, hprior, ⟨s, hs, hholds⟩, hident⟩ := Campaign.reusable_eq_some_iff.mp hp
  rw [lastEntryFor_entries] at hprior
  obtain ⟨y, hy, rfl⟩ := Option.map_eq_some_iff.mp hprior
  obtain ⟨x₀, hx₀, hb⟩ := hback hy
  have hstatus : y.result.status.holds = true := by
    rw [Recorded.entry, Status.parse_asStr] at hs
    cases hs
    exact hholds
  obtain ⟨hpass, hi, hev⟩ := hb.pass (lastExecuted_spec hx₀).2.2 hstatus
  exact ⟨x₀, hx₀, hpass, hi.trans hident, hev⟩

/-- **The origin of a result.**  The last result of a segment stands on the last attempt that was
executed. -/
theorem Trail.backed (h : Trail w) :
    ∀ {x}, lastRecorded w segment = some x →
      ∃ x₀, lastExecuted w segment = some x₀ ∧ Backs x₀ x := by
  induction h with
  | nil => intro x hx; cases hx
  | @snoc w c r ht hf ih =>
      intro x hx
      by_cases hid : r.id = segment
      · rw [lastRecorded_concat_of_eq hid] at hx
        cases hx
        rcases hf.source with ⟨prior, hp, hc, hev⟩ | ⟨-, hex, -⟩
        · -- what the reused entry stands on, the new one stands on
          obtain ⟨x₀, hx₀, hpass, hi, hevid⟩ := reusable_backed ih (hid ▸ hp)
          refine ⟨x₀, ?_, .reused hc hpass (hi.trans hf.identity.symm) (hevid.trans hev.symm)⟩
          rw [lastExecuted_append_of_ne, hx₀]
          intro z hz _
          rw [List.mem_singleton.mp hz, hc]
          rfl
        · exact ⟨_, lastExecuted_concat_of_executed hid hex, .same rfl⟩
      · have hne : ∀ z ∈ [(⟨c.treeState, r⟩ : Recorded)], z.result.id ≠ segment := by
          intro z hz
          rw [List.mem_singleton.mp hz]
          exact hid
        rw [lastRecorded_append_of_ne hne] at hx
        obtain ⟨x₀, hx₀, hb⟩ := ih hx
        refine ⟨x₀, ?_, hb⟩
        rw [lastExecuted_append_of_ne fun z hz e => absurd e (hne z hz), hx₀]

/-! ### Attempts and their evidence -/

theorem Campaign.Follows.attempt_eq {c : Campaign} {r : SegmentResult}
    (h : c.Follows (w.map Recorded.entry) r) :
    r.attempt = (w.filter (·.result.id = r.id)).length + 1 := by
  rw [h.attempt, List.filter_map, List.length_map]
  rfl

/-- The attempts of a segment are numbered from 1 on. -/
theorem Trail.attempt_le (h : Trail w) :
    ∀ x ∈ w, x.result.attempt ≤ (w.filter (·.result.id = x.result.id)).length := by
  induction h with
  | nil => exact List.forall_mem_nil _
  | @snoc w c r ht hf ih =>
      intro x hx
      rw [List.filter_append, List.length_append]
      rcases List.mem_append.mp hx with hx | hx
      · exact Nat.le_add_right_of_le (ih x hx)
      · obtain rfl := List.mem_singleton.mp hx
        simp [hf.attempt_eq]

/-- No two results of a segment have the same number. -/
theorem Trail.eq_of_attempt (h : Trail w) :
    ∀ {x y}, x ∈ w → y ∈ w → x.result.id = y.result.id → x.result.attempt = y.result.attempt →
      x = y := by
  induction h with
  | nil => intro x y hx; cases hx
  | @snoc w c r ht hf ih =>
      -- the new result has a number above all those of its segment so far
      have hnew : ∀ z ∈ w, z.result.id = r.id → z.result.attempt ≠ r.attempt := by
        intro z hz hid he
        have hle := ht.attempt_le z hz
        rw [he, hf.attempt_eq, hid] at hle
        exact Nat.not_succ_le_self _ hle
      intro x y hx hy hid hatt
      rcases List.mem_append.mp hx with hx | hx <;> rcases List.mem_append.mp hy with hy | hy
      · exact ih hx hy hid hatt
      · obtain rfl := List.mem_singleton.mp hy
        exact absurd hatt (hnew x hx hid)
      · obtain rfl := List.mem_singleton.mp hx
        exact absurd hatt.symm (hnew y hy hid.symm)
      · rw [List.mem_singleton.mp hx, List.mem_singleton.mp hy]

theorem Trail.evidence (h : Trail w) :
    ∀ x ∈ w, x.result.status.executed = true →
      x.result.evidence = evidenceReference x.result.id x.result.attempt := by
  induction h with
  | nil => exact List.forall_mem_nil _
  | @snoc w c r ht hf ih =>
      intro x hx he
      rcases List.mem_append.mp hx with hx | hx
      · exact ih x hx he
      · obtain rfl := List.mem_singleton.mp hx
        rcases hf.source with ⟨-, -, hc, -⟩ | ⟨-, -, hev⟩
        · rw [hc] at he
          cases he
        · exact hev

/-- Two executed attempts of a segment with the same evidence are one. -/
theorem Trail.eq_of_evidence (h : Trail w) (hx : x ∈ w) (hy : y ∈ w)
    (hid : x.result.id = y.result.id) (hex : x.result.status.executed = true)
    (hey : y.result.status.executed = true) (hev : x.result.evidence = y.result.evidence) :
    x = y := by
  rw [h.evidence x hx hex, h.evidence y hy hey, hid] at hev
  exact h.eq_of_attempt hx hy hid (evidenceReference_inj hev).2

end Trail

/-! ### Sealing -/

/-- Every result of `e` that holds comes from an attempt in its record that was executed and passed
under `identity` while the working tree was clean. -/
def Execution.Proven (past : List Execution) (e : Execution) (identity : String) : Prop :=
  ∀ r ∈ e.results, r.status.holds = true →
    ∃ x ∈ written (past ++ [e]) e.record, x.result.id = r.id ∧ x.result.status = .pass ∧
      x.result.identity = identity ∧ x.result.evidence = r.evidence ∧ x.treeState = .clean

/-- In the record the invocation would resume, no segment it requires has, as its last executed
attempt, a pass under the same identity on a modified tree. -/
def Invocation.Untainted (repository : Path) (disk : Disk) (past : List Execution)
    (inv : Invocation) : Prop :=
  ∀ record disk', inv.select repository disk = some (record, disk', true) →
    ∀ d ∈ inv.segments, ∀ x, lastExecuted (written past record) d.id = some x →
      x.result.status = .pass → x.result.identity = inv.identity.digest → x.treeState = .clean

theorem Campaign.Appends.split {c : Campaign} {journal : List JournalEntry}
    {a b : List SegmentResult} (h : c.Appends journal (a ++ b)) :
    c.Appends journal a ∧ c.Appends (journal ++ a.map c.journalEntry) b := by
  induction a generalizing journal with
  | nil => exact ⟨.nil, by simpa using h⟩
  | cons r a ih =>
      cases h with
      | cons hf hs =>
          obtain ⟨ha, hb⟩ := ih hs
          exact ⟨.cons hf ha, by simpa using hb⟩

section Sealing
variable {w : List Recorded} {c : Campaign} {a b : List SegmentResult} {r : SegmentResult}

/-- Each result of a campaign follows from what is in the record when it is appended. -/
theorem Trail.follows (ht : Trail w) (h : c.Appends (w.map Recorded.entry) (a ++ r :: b)) :
    Trail (w ++ a.map (.mk c.treeState)) ∧
      c.Follows ((w ++ a.map (Recorded.mk c.treeState)).map Recorded.entry) r := by
  obtain ⟨ha, hb⟩ := h.split
  refine ⟨ht.appends ha, ?_⟩
  rw [List.map_append, ← ha.entries]
  cases hb with
  | cons hf _ => exact hf

/-- On a clean tree, what a campaign counts comes from clean attempts if what it may reuse does. -/
theorem Trail.exists_clean (ht : Trail w) {rs : List SegmentResult}
    (h : c.Appends (w.map Recorded.entry) rs) (hclean : c.treeState = .clean)
    (hu : c.resume = true → ∀ r ∈ rs, ∀ x, lastExecuted w r.id = some x →
      x.result.status = .pass → x.result.identity = c.identity.digest → x.treeState = .clean) :
    ∀ r ∈ rs, r.status.holds = true →
      ∃ x ∈ w ++ rs.map (.mk c.treeState), x.result.id = r.id ∧ x.result.status = .pass ∧
        x.result.identity = c.identity.digest ∧ x.result.evidence = r.evidence ∧
        x.treeState = .clean := by
  intro r hr hh
  obtain ⟨a, b, rfl⟩ := List.append_of_mem hr
  obtain ⟨ht', hf⟩ := ht.follows h
  rcases hf.source with ⟨prior, hp, hc, hev⟩ | ⟨-, hex, -⟩
  · -- reused: the last executed attempt is one of this campaign or one of the record before it
    obtain ⟨hresume, -⟩ := Campaign.reusable_eq_some_iff.mp hp
    obtain ⟨x, hx, hpass, hi, hevid⟩ := reusable_backed ht'.backed hp
    obtain ⟨hmem, hid, -⟩ := lastExecuted_spec hx
    refine ⟨x, ?_, hid, hpass, hi, hevid.trans hev.symm, ?_⟩
    · rw [List.map_append, ← List.append_assoc]
      exact List.mem_append_left _ hmem
    · rw [lastExecuted, findRev?_append] at hx
      rcases Option.or_eq_some_iff.mp hx with hnow | ⟨-, hbefore⟩
      · obtain ⟨hmem, -, -⟩ := lastExecuted_spec hnow
        obtain ⟨z, -, rfl⟩ := List.mem_map.mp hmem
        exact hclean
      · exact hu hresume r hr x hbefore hpass hi
  · refine ⟨⟨c.treeState, r⟩, List.mem_append_right _ (List.mem_map_of_mem hr), rfl,
      Status.eq_pass hex hh, hf.identity, rfl, hclean⟩

/-- A campaign that resumes reuses the last executed attempt of a segment if that has passed under
its identity. -/
theorem Trail.reuses (ht : Trail w) {rs : List SegmentResult}
    (h : c.Appends (w.map Recorded.entry) rs) (hresume : c.resume = true) {x : Recorded}
    (hx : lastExecuted w x.result.id = some x) (hp : x.result.status = .pass)
    (hi : x.result.identity = c.identity.digest) (hid : x.result.id ∈ rs.map SegmentResult.id) :
    ∃ r ∈ rs, r.id = x.result.id ∧ r.status = .cached ∧ r.evidence = x.result.evidence := by
  -- the first result of the segment in this campaign
  obtain ⟨r, hr⟩ : ∃ r, rs.find? (·.id = x.result.id) = some r := by
    obtain ⟨r, hm, e⟩ := List.mem_map.mp hid
    exact Option.isSome_iff_exists.mp (List.find?_isSome.mpr ⟨r, hm, decide_eq_true e⟩)
  obtain ⟨hrid, a, b, rfl, ha⟩ := List.find?_eq_some_iff_append.mp hr
  have hrid : r.id = x.result.id := of_decide_eq_true hrid
  obtain ⟨-, hf⟩ := ht.follows h
  obtain ⟨y, hy⟩ : ∃ y, lastRecorded w x.result.id = some y := by
    rw [lastRecorded, List.findRev?_eq_find?_reverse]
    exact Option.isSome_iff_exists.mp (List.find?_isSome.mpr
      ⟨x, List.mem_reverse.mpr (lastExecuted_spec hx).1, decide_eq_true rfl⟩)
  obtain ⟨x', hx', hb⟩ := ht.backed hy
  cases hx.symm.trans hx'
  obtain ⟨hholds, hyi, hyev⟩ := hb.holds hp
  have hprior : lastEntryFor ((w ++ a.map (Recorded.mk c.treeState)).map Recorded.entry) r.id =
      some y.entry := by
    rw [lastEntryFor_entries, hrid, lastRecorded_append_of_ne, hy, Option.map_some]
    intro z hz
    obtain ⟨r', hr', rfl⟩ := List.mem_map.mp hz
    simpa using ha r' hr'
  have hreuse : c.reusable (some y.entry) c.identity.digest = some y.entry :=
    Campaign.reusable_eq_some_iff.mpr ⟨hresume, rfl,
      ⟨y.result.status, Status.parse_asStr _, hholds⟩, hyi.symm.trans hi⟩
  rcases hf.source with ⟨prior, hpr, hc, hev⟩ | ⟨hno, -, -⟩
  · rw [hprior, hreuse] at hpr
    cases hpr
    exact ⟨r, List.mem_append_right _ List.mem_cons_self, hrid, hc, hev.trans hyev.symm⟩
  · rw [hprior, hreuse] at hno
    cases hno

end Sealing

/-- **What a seal proves.**  After any history, whenever an invocation seals, every result it counts
comes from an attempt that passed under the sealed identity on a clean tree exactly if the record
it resumed was untainted. -/
theorem sealed_iff (repository : Path) (history : List Invocation) (inv : Invocation)
    (e : Execution) (he : (invoke repository (after repository history) inv).2 = some e)
    (hs : e.report.map Report.state = some .sealed) :
    e.Proven (performed repository history) inv.identity.digest ↔
      inv.Untainted repository (after repository history) (performed repository history) := by
  obtain ⟨resuming, hi⟩ := exists_invoked he
  obtain ⟨hj, ht⟩ := journal_eq_written repository history e.record
  have happ := hi.appends
  rw [hj] at happ
  obtain ⟨report, hreport, hstate⟩ := Option.map_eq_some_iff.mp hs
  obtain ⟨hclean, hids⟩ := Campaign.execute_sealed
    ((congrArg Prod.snd hi.executes).trans hreport) hstate
  rw [hi.executes] at hids
  have hwritten : written (performed repository history ++ [e]) e.record =
      written (performed repository history) e.record ++ e.results.map (.mk inv.treeState) := by
    rw [written_append, written_self, Execution.recorded, hi.treeState]
  obtain ⟨disk, hsel, -⟩ := hi.selected
  unfold Execution.Proven
  rw [hwritten]
  constructor
  · intro hproven record disk' hsel' d hd x hx hp hident
    cases hsel.symm.trans hsel'
    obtain ⟨hmem, hxid, hex⟩ := lastExecuted_spec hx
    rw [← hxid] at hx
    have hrun : x.result.id ∈ e.results.map SegmentResult.id := by
      rw [hids, hxid]
      exact List.mem_map_of_mem hd
    obtain ⟨r, hr, hrid, hc, hev⟩ := ht.reuses happ rfl hx hp hident hrun
    -- what proves the reused result is the attempt it reuses
    obtain ⟨z, hz, hzid, hzp, -, hzev, hzclean⟩ := hproven r hr (by rw [hc]; rfl)
    have heq : z = x := (ht.appends happ).eq_of_evidence hz (List.mem_append_left _ hmem)
      (hzid.trans hrid) (by rw [hzp]; rfl) hex (hzev.trans hev)
    rw [← heq]
    exact hzclean
  · intro hu
    refine ht.exists_clean happ hclean fun hresume r hr x hx hp hident => ?_
    obtain rfl : resuming = true := hresume
    obtain ⟨d, hd, hdid⟩ : ∃ d ∈ inv.segments, d.id = r.id :=
      List.mem_map.mp (hids ▸ List.mem_map_of_mem hr)
    exact hu e.record disk hsel d hd x (by rw [hdid]; exact hx) hp hident

/-- A gate campaign of one segment that passes, if it is attempted. -/
def gateRun (resume : Bool) (tree : TreeState) : Invocation :=
  { arguments := ⟨.gate, "repository", resume⟩
    subjectRevision := "a3d13ed3c3a74f34ec9799a163c5f68887b724fc"
    toolchain := "rustc 1.98.0"
    target := "aarch64-apple-darwin"
    date := ⟨2026, 9, 15⟩
    segments := [⟨"unit-tests", none, [⟨"cargo", ["test", "--workspace"]⟩]⟩]
    treeState := tree
    answers := [⟨true, [.exited (some 0)]⟩]
    finishes := true }

/-- The campaign runs twice on a clean tree; the second time it reuses what it has. -/
theorem sealed_iff_clean :
    ∃ e, (invoke ["rp1"] (after ["rp1"] [gateRun false .clean]) (gateRun true .clean)).2 =
        some e ∧
      e.report.map Report.state = some .sealed ∧ e.results.map SegmentResult.status = [.cached] ∧
      e.Proven (performed ["rp1"] [gateRun false .clean])
        (gateRun true .clean).identity.digest := by
  have h : (invoke ["rp1"] (after ["rp1"] [gateRun false .clean]) (gateRun true .clean)).2.map
      (fun e => (e.report.map Report.state, e.results.map SegmentResult.status)) =
        some (some .sealed, [.cached]) := by decide +kernel
  have hclean : ∀ e ∈ performed ["rp1"] [gateRun false .clean], e.treeState = .clean := by
    decide +kernel
  obtain ⟨e, he, hv⟩ := Option.map_eq_some_iff.mp h
  simp only [Prod.mk.injEq] at hv
  refine ⟨e, he, hv.1, hv.2, (sealed_iff _ _ _ e he hv.1).mpr fun _ _ _ d _ x hx _ _ => ?_⟩
  obtain ⟨e', he', htree⟩ := exists_of_mem_written (lastExecuted_spec hx).1
  exact htree.trans (hclean e' he')

instance (past : List Execution) (e : Execution) (identity : String) :
    Decidable (e.Proven past identity) :=
  inferInstanceAs (Decidable (∀ r ∈ e.results, r.status.holds = true →
    ∃ x ∈ written (past ++ [e]) e.record, x.result.id = r.id ∧ x.result.status = .pass ∧
      x.result.identity = identity ∧ x.result.evidence = r.evidence ∧ x.treeState = .clean))

/-- **A seal on work that was never run on the recorded source.**  The campaign runs on a modified
tree and does not seal.  The change is thrown away and the campaign resumed: it seals, with the
results of the tree that is gone. -/
theorem sealed_on_modified :
    ∃ e, (invoke ["rp1"] (after ["rp1"] [gateRun false (.modified ["M src/lib.rs"])])
        (gateRun true .clean)).2 = some e ∧
      e.report.map Report.state = some .sealed ∧ e.results.map SegmentResult.status = [.cached] ∧
      ¬ e.Proven (performed ["rp1"] [gateRun false (.modified ["M src/lib.rs"])])
        (gateRun true .clean).identity.digest := by
  have h : (invoke ["rp1"] (after ["rp1"] [gateRun false (.modified ["M src/lib.rs"])])
      (gateRun true .clean)).2.map
      (fun e => (e.report.map Report.state, e.results.map SegmentResult.status,
        decide (e.Proven (performed ["rp1"] [gateRun false (.modified ["M src/lib.rs"])])
          (gateRun true .clean).identity.digest))) = some (some .sealed, [.cached], false) := by
    decide +kernel
  obtain ⟨e, he, hv⟩ := Option.map_eq_some_iff.mp h
  simp only [Prod.mk.injEq, decide_eq_false_iff_not] at hv
  exact ⟨e, he, hv⟩

end Rp1.Validation

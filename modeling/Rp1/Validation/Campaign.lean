import Rp1.Validation.Record

/-!
# Validation — campaigns

`campaign.rs`: one execution of a campaign against one record.  `execute` goes through the segments
in order; each is reused from the journal or attempted, and appended to the journal before the next
one begins.  What the host answers to an attempt is an input, and a run that gets no answer is one
that stops there.

`Follows` says once what a result can be, given the journal it is appended to.
-/

namespace Rp1.Validation
open Codec

/-! ### Definitions -/

/-- A host capability a segment needs before it can prove anything. -/
structure Prerequisite where
  probe : Step
  remedy : String
deriving DecidableEq, Repr

/-- One segment of a campaign. -/
structure SegmentDefinition where
  id : String
  prerequisite : Option Prerequisite
  steps : List Step
deriving DecidableEq, Repr

/-- The segment as the digest input that identifies its definition. -/
def SegmentDefinition.definitionLine (d : SegmentDefinition) : String :=
  d.id ++ "::" ++ " && ".intercalate (d.steps.map Step.display)

/-- A digest of the required segment definitions. -/
def definitionDigest (segments : List SegmentDefinition) : String :=
  digest ("\n".intercalate (segments.map SegmentDefinition.definitionLine))

/-- What one segment attempt produced inside a campaign. -/
structure SegmentResult where
  id : String
  attempt : Nat
  status : Status
  note : Option String
  evidence : String
  identity : String
deriving DecidableEq, Repr

/-- The state a campaign record is in when it closes; `incomplete` is `State::Partial`. -/
inductive State where
  | incomplete
  | sealed
  | failed
deriving DecidableEq, Repr

/-- Whether the working tree matches the revision the record names. -/
inductive TreeState where
  | clean
  | modified (changes : List String)
deriving DecidableEq, Repr

/-- One segment result as the seal check reads it. -/
structure FinalResult where
  id : String
  status : Status
  identity : String
deriving DecidableEq, Repr

/-- What a campaign produced. -/
structure Report where
  results : List SegmentResult
  state : State
  reasons : List String
deriving DecidableEq, Repr

/-- One execution of a campaign. -/
structure Campaign where
  identity : EvidenceIdentity
  segments : List SegmentDefinition
  resume : Bool
  treeState : TreeState
deriving DecidableEq, Repr

/-! ### The seal -/

/-- The reasons `seal_state` collects once no segment is blocked. -/
def openReasons (missing mismatched : List String) (tree : TreeState) : List String :=
  (if missing.isEmpty then [] else ["no result for " ++ ", ".intercalate missing]) ++ mismatched ++
    match tree with
    | .clean => []
    | .modified changes => ["the working tree carries " ++ toString changes.length ++
        " change(s) that the recorded revision does not"]

/-- `seal_state`: whether a set of results seals, and why when it does not. -/
def sealState (required : List String) (finals : List FinalResult) (identity : String)
    (tree : TreeState) : State × List String :=
  let blocked := (finals.filter (!·.status.holds)).map fun result =>
    result.id ++ " is " ++ result.status.asStr
  let missing := required.filter fun id => !finals.any (·.id = id)
  let mismatched := (finals.filter fun result =>
    result.status.holds && result.identity != identity).map fun result =>
      result.id ++ " holds under a different evidence identity"
  if !blocked.isEmpty then (.failed, blocked)
  else
    let reasons := openReasons missing mismatched tree
    if reasons.isEmpty then (.sealed, reasons) else (.incomplete, reasons)

/-! ### Running -/

/-- What the host answers to one attempt: whether the probe of its prerequisite reports success,
and how the processes of its steps end. -/
structure Answer where
  probe : Bool
  endings : List Ending
deriving DecidableEq, Repr

/-- `reusable`: the prior attempt, if it still proves what this campaign needs. -/
def Campaign.reusable (c : Campaign) (prior : Option JournalEntry) (identity : String) :
    Option JournalEntry :=
  if !c.resume then none
  else do
    let prior ← prior
    let status ← Status.parse prior.status
    if status.holds && prior.evidenceIdentity = identity then some prior else none

/-- `reuse`: the entry that records a reused result. -/
def reuse (id : String) (attempt : Nat) (prior : JournalEntry) (identity : String) :
    SegmentResult :=
  { id
    attempt
    status := .cached
    note := some ("reused the result recorded by attempt " ++ toString prior.attempt)
    evidence := prior.evidence
    identity }

/-- `attempt`: the segment on this host. -/
def attempt (definition : SegmentDefinition) (answer : Answer) : Option Outcome :=
  match definition.prerequisite with
  | none => execute definition.steps answer.endings
  | some prerequisite =>
      if answer.probe then execute definition.steps answer.endings
      else some
        { status := .skipped
          note := some ("`" ++ prerequisite.probe.display ++ "` is not available on this host, " ++
            "so this segment did not run. " ++ prerequisite.remedy) }

/-- `journal_entry`: the result as it stands in the journal. -/
def Campaign.journalEntry (c : Campaign) (r : SegmentResult) : JournalEntry :=
  { segment := r.id
    attempt := r.attempt
    status := r.status.asStr
    evidenceIdentity := c.identity.digest
    evidence := r.evidence }

/-- One round of the loop in `execute`. -/
def Campaign.runSegment (c : Campaign) (journal : List JournalEntry)
    (definition : SegmentDefinition) (answer : Answer) : Option SegmentResult := do
  let attempts ← attemptsFor journal definition.id
  let number ← checkedAdd u32Max attempts 1
  let identity := c.identity.digest
  match c.reusable (lastEntryFor journal definition.id) identity with
  | some prior => some (reuse definition.id number prior identity)
  | none => do
      let outcome ← attempt definition answer
      some
        { id := definition.id
          attempt := number
          status := outcome.status
          note := outcome.note
          evidence := evidenceReference definition.id number
          identity }

/-- The loop: what it appends to the journal, and whether it comes to its end. -/
def Campaign.runSegments (c : Campaign) :
    List SegmentDefinition → List Answer → List JournalEntry → List SegmentResult × Bool
  | [], _, _ => ([], true)
  | _ :: _, [], _ => ([], false)
  | definition :: segments, answer :: answers, journal =>
      match c.runSegment journal definition answer with
      | none => ([], false)
      | some result =>
          let rest := c.runSegments segments answers (journal ++ [c.journalEntry result])
          (result :: rest.1, rest.2)

/-- `execute`: the results appended to the journal, and the report.  `finishes` is whether the run
lives to write its summary. -/
def Campaign.execute (c : Campaign) (journal : List JournalEntry) (answers : List Answer)
    (finishes : Bool) : List SegmentResult × Option Report :=
  let (results, complete) := c.runSegments c.segments answers journal
  if complete && finishes then
    let finals := results.map fun r => (⟨r.id, r.status, r.identity⟩ : FinalResult)
    let (state, reasons) :=
      sealState (c.segments.map SegmentDefinition.id) finals c.identity.digest c.treeState
    (results, some ⟨results, state, reasons⟩)
  else (results, none)

/-! ### When results seal -/

theorem openReasons_eq_nil_iff {missing mismatched : List String} {tree : TreeState} :
    openReasons missing mismatched tree = [] ↔
      missing = [] ∧ mismatched = [] ∧ tree = .clean := by
  cases tree <;> cases missing <;> simp [openReasons]

/-- **When results seal.**  Each holds under the identity, none that is required is missing, and
the tree is clean. -/
theorem sealState_eq_sealed_iff {required : List String} {finals : List FinalResult}
    {identity : String} {tree : TreeState} :
    (sealState required finals identity tree).1 = .sealed ↔
      (∀ f ∈ finals, f.status.holds = true ∧ f.identity = identity) ∧
      (∀ id ∈ required, ∃ f ∈ finals, f.id = id) ∧ tree = .clean := by
  unfold sealState
  by_cases hb : ∀ f ∈ finals, f.status.holds = true
  · have hblocked : finals.filter (!·.status.holds) = [] := by
      simpa [List.filter_eq_nil_iff] using hb
    have hmismatched : finals.filter (fun f => f.status.holds && f.identity != identity) = [] ↔
        ∀ f ∈ finals, f.status.holds = true ∧ f.identity = identity := by
      simp only [List.filter_eq_nil_iff, Bool.and_eq_true, bne_iff_ne, not_and, not_not]
      exact forall₂_congr fun f hf => ⟨fun h => ⟨hb f hf, h (hb f hf)⟩, fun h _ => h.2⟩
    have hmissing : required.filter (fun id => !finals.any (·.id = id)) = [] ↔
        ∀ id ∈ required, ∃ f ∈ finals, f.id = id := by
      simp [List.filter_eq_nil_iff]
    simp only [hblocked, List.map_nil, List.isEmpty_nil, Bool.not_true, Bool.false_eq_true,
      if_false, List.isEmpty_iff, openReasons_eq_nil_iff, List.map_eq_nil_iff, hmismatched,
      hmissing]
    split
    · rename_i h
      exact ⟨fun _ => ⟨h.2.1, h.1, h.2.2⟩, fun _ => rfl⟩
    · rename_i h
      constructor
      · rintro ⟨⟩
      · rintro ⟨hall, hreq, htree⟩
        exact absurd ⟨hreq, hall, htree⟩ h
  · have hblocked : ((finals.filter (!·.status.holds)).map fun f =>
        f.id ++ " is " ++ f.status.asStr).isEmpty = false := by
      simpa [List.filter_eq_nil_iff] using hb
    simp only [hblocked, Bool.not_false, if_true]
    constructor
    · rintro ⟨⟩
    · rintro ⟨hall, -⟩
      exact absurd (fun f hf => (hall f hf).1) hb

/-! ### What one round records -/

theorem execute_executed {steps : List Step} {endings : List Ending} {o : Outcome}
    (h : execute steps endings = some o) : o.status.executed = true := by
  induction steps generalizing endings with
  | nil => cases h; rfl
  | cons step steps ih =>
      cases endings with
      | nil => cases h
      | cons ending endings =>
          rw [execute] at h
          split at h
          · exact ih h
          · cases h; rfl
          · cases h; rfl

/-- An attempt is never itself a reuse. -/
theorem attempt_executed {definition : SegmentDefinition} {answer : Answer} {o : Outcome}
    (h : attempt definition answer = some o) : o.status.executed = true := by
  unfold attempt at h
  split at h
  · exact execute_executed h
  · split at h
    · exact execute_executed h
    · cases h; rfl

/-- **When a prior attempt is reused.** -/
theorem Campaign.reusable_eq_some_iff {c : Campaign} {prior : Option JournalEntry}
    {identity : String} {e : JournalEntry} :
    c.reusable prior identity = some e ↔ c.resume = true ∧ prior = some e ∧
      (∃ s, Status.parse e.status = some s ∧ s.holds = true) ∧ e.evidenceIdentity = identity := by
  unfold reusable
  cases hr : c.resume with
  | false => simp
  | true =>
      cases prior with
      | none => simp
      | some p =>
          simp only [Bool.not_true, Bool.false_eq_true, if_false, Option.bind_eq_bind,
            Option.bind_some, Option.bind_eq_some_iff, Option.ite_none_right_eq_some,
            Bool.and_eq_true, decide_eq_true_eq, Option.some.injEq, true_and]
          constructor
          · rintro ⟨s, hs, ⟨hh, hi⟩, rfl⟩
            exact ⟨rfl, ⟨s, hs, hh⟩, hi⟩
          · rintro ⟨rfl, ⟨s, hs, hh⟩, hi⟩
            exact ⟨s, hs, ⟨hh, hi⟩, rfl⟩

/-- A result that a campaign may append to a journal: the next attempt of its segment, reused from
the last one if that can be, and else made now. -/
structure Campaign.Follows (c : Campaign) (journal : List JournalEntry) (r : SegmentResult) :
    Prop where
  attempt : r.attempt = (journal.filter (·.segment = r.id)).length + 1
  identity : r.identity = c.identity.digest
  source :
    (∃ prior, c.reusable (lastEntryFor journal r.id) c.identity.digest = some prior ∧
      r.status = .cached ∧ r.evidence = prior.evidence) ∨
    (c.reusable (lastEntryFor journal r.id) c.identity.digest = none ∧
      r.status.executed = true ∧ r.evidence = evidenceReference r.id r.attempt)

theorem Campaign.runSegment_follows {c : Campaign} {journal : List JournalEntry}
    {definition : SegmentDefinition} {answer : Answer} {r : SegmentResult}
    (h : c.runSegment journal definition answer = some r) :
    r.id = definition.id ∧ c.Follows journal r := by
  simp only [runSegment, Option.bind_eq_bind, Option.bind_eq_some_iff] at h
  obtain ⟨attempts, ha, number, hn, h⟩ := h
  obtain ⟨-, rfl⟩ := tryFit_eq_some.mp ha
  obtain ⟨-, rfl⟩ := checkedAdd_eq_some.mp hn
  split at h
  · rename_i prior hp
    cases h
    exact ⟨rfl, rfl, rfl, .inl ⟨prior, hp, rfl, rfl⟩⟩
  · rename_i hp
    obtain ⟨o, ho, h⟩ := Option.bind_eq_some_iff.mp h
    cases h
    exact ⟨rfl, rfl, rfl, .inr ⟨hp, attempt_executed ho, rfl⟩⟩

/-- The results of a campaign, each appended behind those before it. -/
inductive Campaign.Appends (c : Campaign) : List JournalEntry → List SegmentResult → Prop where
  | nil {journal : List JournalEntry} : c.Appends journal []
  | cons {journal : List JournalEntry} {r : SegmentResult} {rs : List SegmentResult}
      (h : c.Follows journal r) (hs : c.Appends (journal ++ [c.journalEntry r]) rs) :
      c.Appends journal (r :: rs)

theorem Campaign.Appends.identity {c : Campaign} {journal : List JournalEntry}
    {rs : List SegmentResult} (h : c.Appends journal rs) :
    ∀ r ∈ rs, r.identity = c.identity.digest := by
  induction h with
  | nil => exact List.forall_mem_nil _
  | cons hf _ ih => exact List.forall_mem_cons.mpr ⟨hf.identity, ih⟩

/-- The loop records the segments in their order, up to where it stops. -/
theorem Campaign.runSegments_ids (c : Campaign) (segments : List SegmentDefinition)
    (answers : List Answer) (journal : List JournalEntry) :
    (c.runSegments segments answers journal).1.map SegmentResult.id <+:
      segments.map SegmentDefinition.id := by
  induction segments generalizing answers journal with
  | nil => exact List.prefix_refl _
  | cons definition segments ih =>
      cases answers with
      | nil => exact List.nil_prefix
      | cons answer answers =>
          rw [runSegments]
          split
          · exact List.nil_prefix
          · rename_i result hr
            rw [List.map_cons, List.map_cons, (runSegment_follows hr).1]
            exact List.cons_prefix_cons.mpr ⟨rfl, ih answers _⟩

/-- **What the loop records.**  If it comes to its end, it has recorded every segment. -/
theorem Campaign.runSegments_appends (c : Campaign) (segments : List SegmentDefinition)
    (answers : List Answer) (journal : List JournalEntry) :
    c.Appends journal (c.runSegments segments answers journal).1 ∧
      (∀ r ∈ (c.runSegments segments answers journal).1, ∃ d ∈ segments, d.id = r.id) ∧
      ((c.runSegments segments answers journal).2 = true →
        (c.runSegments segments answers journal).1.map SegmentResult.id =
          segments.map SegmentDefinition.id) := by
  suffices h : c.Appends journal (c.runSegments segments answers journal).1 ∧
      ((c.runSegments segments answers journal).2 = true →
        (c.runSegments segments answers journal).1.map SegmentResult.id =
          segments.map SegmentDefinition.id) from
    ⟨h.1, fun r hr => List.mem_map.mp
      ((c.runSegments_ids segments answers journal).subset (List.mem_map_of_mem hr)), h.2⟩
  induction segments generalizing answers journal with
  | nil => exact ⟨.nil, fun _ => rfl⟩
  | cons definition segments ih =>
      cases answers with
      | nil => exact ⟨.nil, fun h => absurd h Bool.false_ne_true⟩
      | cons answer answers =>
          rw [runSegments]
          split
          · exact ⟨.nil, fun h => absurd h Bool.false_ne_true⟩
          · rename_i result hr
            obtain ⟨hid, hf⟩ := runSegment_follows hr
            obtain ⟨happ, hall⟩ := ih answers (journal ++ [c.journalEntry result])
            refine ⟨.cons hf happ, fun h => ?_⟩
            rw [List.map_cons, List.map_cons, hid, hall h]

/-- **What a sealing execution has recorded.** -/
theorem Campaign.execute_sealed {c : Campaign} {journal : List JournalEntry}
    {answers : List Answer} {finishes : Bool} {report : Report}
    (h : (c.execute journal answers finishes).2 = some report) (hs : report.state = .sealed) :
    c.treeState = .clean ∧
      (c.execute journal answers finishes).1.map SegmentResult.id =
        c.segments.map SegmentDefinition.id := by
  obtain ⟨-, -, hall⟩ := c.runSegments_appends c.segments answers journal
  unfold execute at h ⊢
  generalize c.runSegments c.segments answers journal = r at h hall ⊢
  obtain ⟨results, complete⟩ := r
  by_cases hc : (complete && finishes) = true
  · simp only [if_pos hc] at h ⊢
    obtain rfl := Option.some.inj h
    exact ⟨(sealState_eq_sealed_iff.mp hs).2.2, hall ((Bool.and_eq_true _ _).mp hc).1⟩
  · simp only [if_neg hc] at h
    cases h

theorem Campaign.execute_appends (c : Campaign) (journal : List JournalEntry)
    (answers : List Answer) (finishes : Bool) :
    c.Appends journal (c.execute journal answers finishes).1 ∧
      ∀ r ∈ (c.execute journal answers finishes).1, ∃ d ∈ c.segments, d.id = r.id := by
  obtain ⟨happ, hmem, -⟩ := c.runSegments_appends c.segments answers journal
  unfold execute
  generalize c.runSegments c.segments answers journal = r at happ hmem ⊢
  obtain ⟨results, complete⟩ := r
  dsimp only
  split
  · exact ⟨happ, hmem⟩
  · exact ⟨happ, hmem⟩

end Rp1.Validation

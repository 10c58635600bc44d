import Mathlib.Logic.Function.Basic
import Rp1.Validation.Campaign

/-!
# Validation — histories of invocations

`main.rs`: which record an invocation writes into, and what it does to the records of the
repository.  A history is a list of invocations, each with what it finds: the revision and the
toolchain, the segments of the runner built there, the state of the working tree, and how the host
answers.

`written` is what the invocations so far have recorded in one directory, each result with the state
of the tree it was recorded on.  The journal is that list without the trees (`journal_eq_written`),
and every result in it `Follows` from those before it (`trail_written`).
-/

namespace Rp1.Validation

/-! ### The runner -/

/-- The evidence level a campaign produces. -/
inductive Tier where
  | dev
  | gate
deriving DecidableEq, Repr

structure Arguments where
  tier : Tier
  topic : String
  resume : Bool
deriving DecidableEq, Repr

def Tier.asStr : Tier → String
  | dev => "dev"
  | gate => "gate"

/-- The directory of a tier in the records of a repository. -/
def tierRoot (repository : Path) (tier : Tier) : Path := repository ++ ["runs", tier.asStr]

/-- `select_record`: the record this run writes into, the disk then, and whether the run
resumes. -/
def selectRecord (arguments : Arguments) (disk : Disk) (root : Path) (identity date : String) :
    Option (Path × Disk × Bool) :=
  let new := (create disk root date arguments.topic).map fun (record, disk) =>
    (record, disk, false)
  if !arguments.resume then new
  else
    match latest disk root with
    | none => new
    | some record =>
        match recordedIdentity (disk.journal record) with
        | some recorded => if recorded ≠ identity then new else some (record, disk, true)
        | none => some (record, disk, true)

/-- One invocation, with what it finds. -/
structure Invocation where
  arguments : Arguments
  subjectRevision : String
  toolchain : String
  target : String
  date : Date
  segments : List SegmentDefinition
  treeState : TreeState
  answers : List Answer
  finishes : Bool
deriving DecidableEq, Repr

/-- `EvidenceIdentity::resolve`. -/
def Invocation.identity (inv : Invocation) : EvidenceIdentity :=
  ⟨inv.subjectRevision, definitionDigest inv.segments, inv.toolchain, inv.target, "default"⟩

/-- The campaign of an invocation. -/
def Invocation.campaign (inv : Invocation) (resume : Bool) : Campaign :=
  ⟨inv.identity, inv.segments, resume, inv.treeState⟩

/-- The record an invocation selects. -/
def Invocation.select (inv : Invocation) (repository : Path) (disk : Disk) :
    Option (Path × Disk × Bool) :=
  selectRecord inv.arguments disk (tierRoot repository inv.arguments.tier) inv.identity.digest
    inv.date.text

/-- What an invocation has done in the record it selected. -/
structure Execution where
  record : Path
  identity : String
  treeState : TreeState
  results : List SegmentResult
  report : Option Report
deriving DecidableEq, Repr

/-- Appends entries to the journal of a record. -/
def Disk.append (disk : Disk) (record : Path) (entries : List JournalEntry) : Disk :=
  { disk with journal := Function.update disk.journal record (disk.journal record ++ entries) }

/-- `execute` of `main.rs`: one invocation.  It comes to nothing if no record can be created. -/
def invoke (repository : Path) (disk : Disk) (inv : Invocation) : Disk × Option Execution :=
  match inv.select repository disk with
  | none => (disk, none)
  | some (record, disk, resuming) =>
      let campaign := inv.campaign resuming
      let (results, report) := campaign.execute (disk.journal record) inv.answers inv.finishes
      (disk.append record (results.map campaign.journalEntry),
        some ⟨record, inv.identity.digest, inv.treeState, results, report⟩)

/-- The disk and the executions after one more invocation. -/
def advance (repository : Path) (s : Disk × List Execution) (inv : Invocation) :
    Disk × List Execution :=
  ((invoke repository s.1 inv).1, s.2 ++ (invoke repository s.1 inv).2.toList)

/-- The disk after a history, from a repository without any record. -/
def after (repository : Path) (history : List Invocation) : Disk :=
  (history.foldl (advance repository) (⟨[], fun _ => []⟩, [])).1

/-- The executions of a history, oldest first. -/
def performed (repository : Path) (history : List Invocation) : List Execution :=
  (history.foldl (advance repository) (⟨[], fun _ => []⟩, [])).2

/-! ### What is in a record -/

/-- A recorded result, with the state of the working tree it was recorded on. -/
structure Recorded where
  treeState : TreeState
  result : SegmentResult
deriving DecidableEq, Repr

/-- The entry a result leaves in the journal. -/
def Recorded.entry (x : Recorded) : JournalEntry :=
  ⟨x.result.id, x.result.attempt, x.result.status.asStr, x.result.identity, x.result.evidence⟩

def Execution.recorded (e : Execution) : List Recorded := e.results.map (.mk e.treeState)

/-- What the executions so far have recorded in one directory. -/
def written (past : List Execution) (record : Path) : List Recorded :=
  past.flatMap fun e => if e.record = record then e.recorded else []

/-- A record as campaigns leave it: every result follows from those before it. -/
inductive Trail : List Recorded → Prop where
  | nil : Trail []
  | snoc {w : List Recorded} {c : Campaign} {r : SegmentResult} (h : Trail w)
      (hf : c.Follows (w.map Recorded.entry) r) : Trail (w ++ [⟨c.treeState, r⟩])

@[simp] theorem written_append (past past' : List Execution) (record : Path) :
    written (past ++ past') record = written past record ++ written past' record :=
  List.flatMap_append

theorem written_self (e : Execution) : written [e] e.record = e.recorded := by
  simp [written]

theorem written_of_ne {e : Execution} {record : Path} (h : e.record ≠ record) :
    written [e] record = [] := by
  simp [written, h]

theorem exists_of_mem_written {past : List Execution} {record : Path} {x : Recorded}
    (h : x ∈ written past record) : ∃ e ∈ past, x.treeState = e.treeState := by
  obtain ⟨e, he, hx⟩ := List.mem_flatMap.mp h
  split at hx
  · obtain ⟨r, -, rfl⟩ := List.mem_map.mp hx
    exact ⟨e, he, rfl⟩
  · cases hx

theorem Campaign.Follows.entry {c : Campaign} {journal : List JournalEntry} {r : SegmentResult}
    (h : c.Follows journal r) : c.journalEntry r = Recorded.entry ⟨c.treeState, r⟩ := by
  rw [journalEntry, Recorded.entry, h.identity]

theorem Campaign.Appends.entries {c : Campaign} {journal : List JournalEntry}
    {rs : List SegmentResult} (h : c.Appends journal rs) :
    rs.map c.journalEntry = (rs.map (.mk c.treeState)).map Recorded.entry := by
  induction h with
  | nil => rfl
  | cons hf _ ih => rw [List.map_cons, List.map_cons, List.map_cons, hf.entry, ih]

/-- A campaign continues the trail of its record. -/
theorem Trail.appends {c : Campaign} {rs : List SegmentResult} {w : List Recorded} (ht : Trail w)
    (h : c.Appends (w.map Recorded.entry) rs) : Trail (w ++ rs.map (.mk c.treeState)) := by
  induction rs generalizing w with
  | nil => simpa using ht
  | cons r rs ih =>
      cases h with
      | cons hf hs =>
          rw [hf.entry, ← List.map_singleton, ← List.map_append] at hs
          simpa using ih (ht.snoc hf) hs

/-! ### One invocation -/

/-- Creating a record touches no journal. -/
theorem journal_create {disk disk' : Disk} {root record : Path} {date topic : String}
    (h : create disk root date topic = some (record, disk')) : disk'.journal = disk.journal := by
  obtain ⟨sequence, route, -, -, -, rfl⟩ := create_eq_some h
  rfl

/-- **Which record an invocation writes into**: a new one, or the latest one if that holds no
results or results under its identity. -/
inductive Selects (arguments : Arguments) (disk : Disk) (root : Path) (identity date : String) :
    Path × Disk × Bool → Prop where
  | creates (record : Path) (disk' : Disk)
      (h : create disk root date arguments.topic = some (record, disk')) :
      Selects arguments disk root identity date (record, disk', false)
  | resumes (record : Path) (h : latest disk root = some record)
      (hi : ∀ recorded, recordedIdentity (disk.journal record) = some recorded →
        recorded = identity) :
      Selects arguments disk root identity date (record, disk, true)

section Selecting
variable {arguments : Arguments} {disk : Disk} {root : Path} {identity date : String}
  {selected : Path × Disk × Bool}

theorem selects_of_selectRecord
    (h : selectRecord arguments disk root identity date = some selected) :
    Selects arguments disk root identity date selected := by
  have hnew : (create disk root date arguments.topic).map
      (fun (record, disk) => (record, disk, false)) = some selected →
      Selects arguments disk root identity date selected := by
    intro h
    obtain ⟨⟨record, disk'⟩, hc, rfl⟩ := Option.map_eq_some_iff.mp h
    exact .creates record disk' hc
  unfold selectRecord at h
  split at h
  case isTrue => exact hnew h
  case isFalse =>
    split at h
    case h_1 => exact hnew h
    case h_2 record hl =>
      split at h
      case h_1 recorded hr =>
        split at h
        case isTrue => exact hnew h
        case isFalse he =>
          cases h
          refine .resumes record hl fun recorded' hr' => ?_
          rw [← Option.some.inj (hr.symm.trans hr')]
          exact not_not.mp he
      case h_2 hr =>
        cases h
        refine .resumes record hl fun recorded hr' => ?_
        rw [hr] at hr'
        cases hr'

theorem Selects.journal (h : Selects arguments disk root identity date selected) :
    selected.2.1.journal = disk.journal := by
  cases h with
  | creates record disk' hc => exact journal_create hc
  | resumes => rfl

end Selecting

section Invoking
variable {repository : Path} {disk : Disk} {inv : Invocation} {e : Execution}

/-- An execution is that of the campaign of its invocation, on the record it selected. -/
structure Invoked (repository : Path) (disk : Disk) (inv : Invocation) (resuming : Bool)
    (e : Execution) : Prop where
  selected : ∃ disk', inv.select repository disk = some (e.record, disk', resuming) ∧
    (invoke repository disk inv).1.dirs = disk'.dirs
  identity : e.identity = inv.identity.digest
  treeState : e.treeState = inv.treeState
  executes : (inv.campaign resuming).execute (disk.journal e.record) inv.answers inv.finishes =
    (e.results, e.report)

/-- **One invocation.**  It does nothing, or executes its campaign and appends what that records to
one journal. -/
theorem invoke_cases (repository : Path) (disk : Disk) (inv : Invocation) :
    invoke repository disk inv = (disk, none) ∨
    ∃ e resuming, (invoke repository disk inv).2 = some e ∧
      Invoked repository disk inv resuming e ∧
      ∀ record, (invoke repository disk inv).1.journal record =
        disk.journal record ++ (written [e] record).map Recorded.entry := by
  cases hsel : inv.select repository disk with
  | none =>
      rw [invoke, hsel]
      exact .inl rfl
  | some selected =>
      obtain ⟨record, disk', resuming⟩ := selected
      have hjournal : disk'.journal = disk.journal := (selects_of_selectRecord hsel).journal
      obtain ⟨happ, -⟩ := (inv.campaign resuming).execute_appends (disk.journal record)
        inv.answers inv.finishes
      have hinvoke : invoke repository disk inv =
          (disk'.append record (((inv.campaign resuming).execute (disk.journal record) inv.answers
              inv.finishes).1.map (inv.campaign resuming).journalEntry),
            some ⟨record, inv.identity.digest, inv.treeState,
              ((inv.campaign resuming).execute (disk.journal record) inv.answers inv.finishes).1,
              ((inv.campaign resuming).execute (disk.journal record) inv.answers
                inv.finishes).2⟩) := by
        rw [invoke, hsel]
        simp only [hjournal]
      rw [hinvoke]
      refine .inr ⟨_, resuming, rfl, ⟨⟨disk', hsel, by rw [hinvoke]; rfl⟩, rfl, rfl, rfl⟩,
        fun other => ?_⟩
      by_cases hj : record = other
      · subst hj
        rw [Disk.append, written_self, hjournal, happ.entries]
        exact Function.update_self ..
      · rw [Disk.append, written_of_ne hj, List.map_nil, List.append_nil, hjournal]
        exact Function.update_of_ne (Ne.symm hj) ..

theorem exists_invoked (h : (invoke repository disk inv).2 = some e) :
    ∃ resuming, Invoked repository disk inv resuming e := by
  rcases invoke_cases repository disk inv with hn | ⟨e', resuming, he, hi, -⟩
  · rw [hn] at h
    cases h
  · cases h.symm.trans he
    exact ⟨resuming, hi⟩

theorem Invoked.appends {resuming : Bool} (h : Invoked repository disk inv resuming e) :
    (inv.campaign resuming).Appends (disk.journal e.record) e.results := by
  have happ := (inv.campaign resuming).execute_appends (disk.journal e.record) inv.answers
    inv.finishes
  rw [h.executes] at happ
  exact happ.1

end Invoking

/-! ### A history -/

section History
variable (repository : Path) (history : List Invocation)

theorem after_concat (inv : Invocation) :
    after repository (history ++ [inv]) =
      (invoke repository (after repository history) inv).1 := by
  simp only [after, List.foldl_concat, advance]

theorem performed_concat (inv : Invocation) :
    performed repository (history ++ [inv]) = performed repository history ++
      (invoke repository (after repository history) inv).2.toList := by
  simp only [performed, after, List.foldl_concat, advance]

/-- **What is in the records.**  After any history, the journal of each record is what the
executions have written there, and each of these follows from those before it. -/
theorem journal_eq_written : ∀ record : Path,
    (after repository history).journal record =
        (written (performed repository history) record).map Recorded.entry ∧
      Trail (written (performed repository history) record) := by
  induction history using List.reverseRecOn with
  | nil => exact fun _ => ⟨rfl, .nil⟩
  | append_singleton history inv ih =>
      intro record
      obtain ⟨hj, ht⟩ := ih record
      rw [after_concat, performed_concat]
      rcases invoke_cases repository (after repository history) inv with
        hn | ⟨e, resuming, he, hi, happ⟩
      · rw [hn]
        simpa using ⟨hj, ht⟩
      · rw [he, happ, hj]
        simp only [Option.toList_some, written_append, List.map_append, true_and]
        -- only the record the invocation selected has grown
        by_cases hrec : e.record = record
        · subst hrec
          rw [written_self, Execution.recorded, hi.treeState]
          exact ht.appends (hj ▸ hi.appends)
        · rw [written_of_ne hrec, List.append_nil]
          exact ht

end History

end Rp1.Validation

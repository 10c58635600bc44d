import Mathlib.Data.String.Basic
import Rp1.Support.Checked
import Rp1.Validation.Evidence

/-!
# Validation — run records

`record.rs`: the record directories on disk and the journal in each.  A journal is the list of the
entries that were appended to it, with the fields a later run reads back.

A record is known by the directory it is in.  Its name ends with the topic of the campaign, which
is any text, and the name is joined to the directory of the tier as a path: a topic may hold
separators, and `..` among them.  A directory is therefore the path the system resolves it to.

Evidence files are told apart by the segment and the attempt number in their name
(`evidenceName_inj`).
-/

namespace Rp1.Validation
open Codec

def u32Max : Nat := 2 ^ 32 - 1

/-- One recorded attempt, as a later run reads it from the journal. -/
structure JournalEntry where
  segment : String
  attempt : Nat
  status : String
  evidenceIdentity : String
  evidence : String
deriving DecidableEq, Repr

/-! ### Paths -/

/-- An absolute path as the system resolves it, by its components. -/
abbrev Path := List String

/-- One component further: `..` goes back, and an empty component or `.` stays. -/
def Path.enter (path : Path) (component : String) : Path :=
  if component = "" ∨ component = "." then path
  else if component = ".." then path.dropLast
  else path ++ [component]

/-- The components of a relative path as it is written. -/
def components (text : String) : List String := (text.toList.splitOn '/').map String.ofList

/-- What is on disk: the directories, and the journal in each. -/
structure Disk where
  dirs : List Path
  journal : Path → List JournalEntry

/-- `fs::create_dir_all` of the path from `base` along `route`: every directory on the way is
there afterwards. -/
def Disk.createDirAll (disk : Disk) (base : Path) (route : List String) : Disk :=
  { disk with dirs := disk.dirs ∪ (base.inits ++ route.scanl Path.enter base) }

/-- `fs::read_dir`: the names of the directories in `root`.  The files the runner writes have names
that no caller looks for. -/
def Disk.names (disk : Disk) (root : Path) : List String :=
  disk.dirs.filterMap fun dir => if dir.dropLast = root then dir.getLast? else none

/-! ### Directories -/

/-- The format `{:02}`. -/
def pad2 (n : Nat) : String := if n < 10 then "0" ++ toString n else toString n

/-- The format `{:04}`. -/
def pad4 (n : Nat) : String :=
  String.ofList (List.replicate (4 - (toString n).length) '0') ++ toString n

/-- A calendar date, as `time.rs` derives it from the clock. -/
structure Date where
  year : Nat
  month : Nat
  day : Nat
deriving DecidableEq, Repr

/-- The calendar date as `YYYY-MM-DD`. -/
def Date.text (date : Date) : String :=
  pad4 date.year ++ "-" ++ pad2 date.month ++ "-" ++ pad2 date.day

/-- The highest sequence number one date can hold. -/
def maxSequence : Nat := 99

/-- `str::parse::<u32>` of two characters; a sign is allowed. -/
def parseTwo (a b : Char) : Option Nat :=
  if b.isDigit then
    if a.isDigit then some (10 * (a.toNat - '0'.toNat) + (b.toNat - '0'.toNat))
    else if a = '+' then some (b.toNat - '0'.toNat)
    else none
  else none

/-- The sequence number in the name of a directory, if it is one of this date. -/
def sequenceOf (date name : String) : Option Nat := do
  let rest ← (date ++ "-").toList.isPrefixOf? name.toList
  match rest with
  | a :: b :: _ => parseTwo a b
  | _ => none

/-- `next_sequence`: the next unused sequence number for a date. -/
def nextSequence (names : List String) (date : String) : Option Nat :=
  let highest := names.foldl (fun highest name => max highest ((sequenceOf date name).getD 0)) 0
  if highest + 1 ≤ maxSequence then some (highest + 1) else none

/-- The name of a record directory, as it is joined to the directory of the tier. -/
def recordIdentifier (date : String) (sequence : Nat) (topic : String) : String :=
  date ++ "-" ++ pad2 sequence ++ "-" ++ topic

/-- `create`: the next record directory for a date, and the disk then. -/
def create (disk : Disk) (tierRoot : Path) (date topic : String) : Option (Path × Disk) := do
  let disk := disk.createDirAll tierRoot []
  let sequence ← nextSequence (disk.names tierRoot) date
  let route := components (recordIdentifier date sequence topic)
  some (route.foldl Path.enter tierRoot, disk.createDirAll tierRoot (route ++ ["segments"]))

/-- `latest`: the record whose name is the last in order. -/
def latest (disk : Disk) (tierRoot : Path) : Option Path :=
  (disk.names tierRoot).max?.map fun name => tierRoot ++ [name]

/-! ### Journals -/

/-- The attempts a segment already has, if the runner can count them. -/
def attemptsFor (journal : List JournalEntry) (segment : String) : Option Nat :=
  tryFit u32Max (journal.filter (·.segment = segment)).length

/-- The most recent attempt recorded for a segment. -/
def lastEntryFor (journal : List JournalEntry) (segment : String) : Option JournalEntry :=
  journal.findRev? (·.segment = segment)

/-- The evidence identity a record already holds results under. -/
def recordedIdentity (journal : List JournalEntry) : Option String :=
  journal.getLast?.map JournalEntry.evidenceIdentity

/-- The name of the file that holds the raw output of one attempt. -/
def evidenceName (segment : String) (attempt : Nat) : String :=
  segment ++ "-" ++ pad2 attempt ++ ".txt"

/-- The same file, named as the journal records it. -/
def evidenceReference (segment : String) (attempt : Nat) : String :=
  "segments/" ++ evidenceName segment attempt

/-- **What `create` does.** -/
theorem create_eq_some {disk disk' : Disk} {tierRoot record : Path} {date topic : String}
    (h : create disk tierRoot date topic = some (record, disk')) :
    ∃ sequence route, nextSequence ((disk.createDirAll tierRoot []).names tierRoot) date =
        some sequence ∧
      route = components (recordIdentifier date sequence topic) ∧
      record = route.foldl Path.enter tierRoot ∧
      disk' = (disk.createDirAll tierRoot []).createDirAll tierRoot (route ++ ["segments"]) := by
  simp only [create, Option.bind_eq_bind, Option.bind_eq_some_iff, Option.some.injEq,
    Prod.mk.injEq] at h
  obtain ⟨sequence, hseq, rfl, rfl⟩ := h
  exact ⟨sequence, _, hseq, rfl, rfl, rfl⟩

/-! ### Names -/

/-- The number in a padded text is the number that was padded. -/
theorem ofDigitChars_pad2 (n : Nat) : Nat.ofDigitChars 10 (pad2 n).toList 0 = n := by
  have hdigits : Nat.ofDigitChars 10 (toString n).toList 0 = n := by
    rw [Nat.toString_eq_repr, Nat.toList_repr]
    exact Nat.ofDigitChars_toDigits (by decide) (by decide)
  rw [pad2]
  split
  · -- the zero in front counts for nothing
    rw [String.toList_append]
    exact hdigits
  · exact hdigits

theorem pad2_inj {m n : Nat} (h : pad2 m = pad2 n) : m = n := by
  rw [← ofDigitChars_pad2 m, h, ofDigitChars_pad2]

theorem isDigit_of_mem_pad2 {n : Nat} {c : Char} (h : c ∈ (pad2 n).toList) : c.isDigit = true := by
  have hdigit : ∀ {c : Char}, c ∈ (toString n).toList → c.isDigit = true := by
    intro c hc
    rw [Nat.toString_eq_repr, Nat.toList_repr] at hc
    exact Nat.isDigit_of_mem_toDigits (by decide) (by decide) hc
  rw [pad2] at h
  split at h
  · rw [String.toList_append] at h
    rcases List.mem_append.mp h with h | h
    · rw [List.mem_singleton.mp h]
      rfl
    · exact hdigit h
  · exact hdigit h

/-- A text is cut in one way at the last of its separators. -/
theorem append_cons_inj {α : Type} {x : α} {a a' d d' : List α} (hd : x ∉ d) (hd' : x ∉ d')
    (h : a ++ x :: d = a' ++ x :: d') : a = a' ∧ d = d' := by
  rcases List.append_eq_append_iff.mp h with ⟨c, rfl, hc⟩ | ⟨c, rfl, hc⟩
  · cases c with
    | nil => exact ⟨(List.append_nil a).symm, (List.cons.inj hc).2⟩
    | cons y c =>
        rw [(List.cons.inj hc).2] at hd
        exact absurd (List.mem_append_right c List.mem_cons_self) hd
  · cases c with
    | nil => exact ⟨List.append_nil a', (List.cons.inj hc).2.symm⟩
    | cons y c =>
        rw [(List.cons.inj hc).2] at hd'
        exact absurd (List.mem_append_right c List.mem_cons_self) hd'

/-- **Evidence names.**  Two attempts, of whatever segments, have different evidence files. -/
theorem evidenceName_inj {segment segment' : String} {m n : Nat}
    (h : evidenceName segment m = evidenceName segment' n) : segment = segment' ∧ m = n := by
  -- the number has no hyphen, so the last one in the name stands before it
  have hno : ∀ k, '-' ∉ (pad2 k).toList := fun k hm => nomatch isDigit_of_mem_pad2 hm
  rw [evidenceName, evidenceName, String.append_left_inj] at h
  have hlist := congrArg String.toList h
  simp only [String.toList_append, List.append_assoc] at hlist
  obtain ⟨hs, hn⟩ := append_cons_inj (hno m) (hno n) hlist
  exact ⟨String.toList_inj.mp hs, pad2_inj (String.toList_inj.mp hn)⟩

theorem evidenceReference_inj {segment segment' : String} {m n : Nat}
    (h : evidenceReference segment m = evidenceReference segment' n) :
    segment = segment' ∧ m = n :=
  evidenceName_inj (String.append_right_inj _ |>.mp h)

end Rp1.Validation

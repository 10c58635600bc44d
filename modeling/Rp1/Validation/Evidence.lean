import Mathlib.Init

/-!
# Validation — segments and evidence identities

`segment.rs` and `identity.rs` of the validation runner.  A segment is a list of commands;
`execute` runs them in order, and how each process ends is an input.  The evidence identity names
the inputs a result depends on, and `digest` is the value the runner compares and records.
-/

namespace Rp1.Validation

/-! ### Statuses -/

/-- The outcome of one segment attempt. -/
inductive Status where
  | pass
  | fail
  | timeout
  | skipped
  | cached
deriving DecidableEq, Repr

namespace Status

def asStr : Status → String
  | pass => "pass"
  | fail => "fail"
  | timeout => "timeout"
  | skipped => "skipped"
  | cached => "cached"

def parse (value : String) : Option Status :=
  match value with
  | "pass" => some pass
  | "fail" => some fail
  | "timeout" => some timeout
  | "skipped" => some skipped
  | "cached" => some cached
  | _ => none

/-- The status is evidence that the segment holds; a reused result counts. -/
def holds : Status → Bool
  | pass | cached => true
  | _ => false

/-- The attempt executed rather than reused evidence. -/
def executed : Status → Bool
  | cached => false
  | _ => true

@[simp] theorem parse_asStr (s : Status) : parse s.asStr = some s := by cases s <;> rfl

/-- What holds and was executed has passed. -/
theorem eq_pass {s : Status} (he : s.executed = true) (hh : s.holds = true) : s = pass := by
  cases s with
  | pass => rfl
  | cached => cases he
  | _ => cases hh

end Status

/-! ### One attempt -/

/-- One command inside a segment. -/
structure Step where
  program : String
  args : List String
deriving DecidableEq, Repr

/-- The command as a reader can retype it. -/
def Step.display (s : Step) : String :=
  if s.args.isEmpty then s.program else s.program ++ " " ++ " ".intercalate s.args

/-- What one attempt produced; its duration is left out. -/
structure Outcome where
  status : Status
  note : Option String
deriving DecidableEq, Repr

/-- How the process of a step ends. -/
inductive Ending where
  | notStarted (error : String)
  /-- The exit code; a signal leaves none. -/
  | exited (code : Option Int)
  /-- It is stopped at the budget, or the budget is used up before it starts. -/
  | overran
deriving DecidableEq, Repr

inductive StepResult where
  | passed
  | failed (note : String)
  | timedOut
deriving DecidableEq, Repr

def describeExit : Option Int → String
  | none => "termination by signal"
  | some code => "exit status " ++ toString code

/-- `run_step`: what the end of the process means for the step. -/
def runStep (step : Step) : Ending → StepResult
  | .notStarted error => .failed ("`" ++ step.display ++ "` could not start: " ++ error)
  | .exited code =>
      if code = some 0 then .passed
      else .failed ("`" ++ step.display ++ "` reported " ++ describeExit code)
  | .overran => .timedOut

/-- `execute`: the steps in order, up to the first that does not report success.  `none` is an
attempt that is broken off with a step still to run. -/
def execute : List Step → List Ending → Option Outcome
  | [], _ => some ⟨.pass, none⟩
  | _ :: _, [] => none
  | step :: steps, ending :: endings =>
      match runStep step ending with
      | .passed => execute steps endings
      | .failed note => some ⟨.fail, some note⟩
      | .timedOut => some ⟨.timeout, some ("`" ++ step.display ++ "` exceeded the segment budget")⟩

/-! ### Identities -/

/-- Sixteen lower-case hexadecimal digits. -/
def hex16 (n : UInt64) : String :=
  String.ofList ((List.range 16).map fun i => Nat.digitChar ((n.toNat >>> (4 * (15 - i))) % 16))

/-- The FNV-1a digest of a string. -/
def digest (value : String) : String :=
  hex16 (value.toUTF8.data.toList.foldl (fun hash byte => (hash ^^^ byte.toUInt64) * 0x100000001b3)
    0xcbf29ce484222325)

/-- The material inputs a segment result depends on. -/
structure EvidenceIdentity where
  subjectRevision : String
  campaignDefinition : String
  toolchain : String
  target : String
  features : String
deriving DecidableEq, Repr

/-- The identity as a single comparable value. -/
def EvidenceIdentity.digest (i : EvidenceIdentity) : String :=
  Validation.digest (i.subjectRevision ++ "|" ++ i.campaignDefinition ++ "|" ++ i.toolchain ++
    "|" ++ i.target ++ "|" ++ i.features)

end Rp1.Validation

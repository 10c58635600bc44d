import Rp1.Validation.Runner

/-!
# Validation — the segments of the runner

`definition` is every segment the runner knows how to execute, and `required` what a tier asks for,
in execution order.  The purposes are left out: they only go into the summary.

No segment comes twice (`nodup_required`), which is what reuse by identifier rests on.  A gate asks
for everything that development does (`required_sublist`).
-/

namespace Rp1.Validation

/-! ### Commands that are shell scripts -/

/-- Builds, tests, lints, and packages the revision under test in a fresh clone. -/
def cleanCloneCheck : String :=
  "dir=$(mktemp -d) || exit 1; " ++
  "trap 'rm -rf \"$dir\"' EXIT; " ++
  "url=$(git remote get-url origin) || exit 1; " ++
  "revision=$(git rev-parse HEAD) || exit 1; " ++
  "git clone --quiet \"$url\" \"$dir/clone\" || exit 1; " ++
  "git -C \"$dir/clone\" checkout --quiet \"$revision\" || " ++
  String.singleton '{' ++ " echo 'the revision under test is not on the remote'; exit 1; " ++
  String.singleton '}' ++ "; " ++
  "if [ -n \"$(git -C \"$dir/clone\" status --porcelain --ignored)\" ]; then " ++
  "echo 'the clone carries files that the repository does not track'; exit 1; fi; " ++
  "cd \"$dir/clone\" || exit 1; " ++
  "cargo build || exit 1; " ++
  "cargo fmt --all --check || exit 1; " ++
  "cargo clippy --workspace --all-targets || exit 1; " ++
  "cargo test --workspace || exit 1; " ++
  "cargo package --package rp1db || exit 1"

/-- Fails when tracked Rust source carries a lint allowance. -/
def lintAllowanceCheck : String :=
  "if git ls-files -z '*.rs' | xargs -0 grep -lnE '#!?\\[(allow|expect)\\('; then " ++
  "echo 'tracked source carries a lint allowance'; " ++
  "exit 1; fi"

/-- Fails when a tracked manifest declares a path dependency that leaves the repository. -/
def localPathCheck : String :=
  "if git ls-files -z -- '*Cargo.toml' ':(exclude)fuzz/*' | xargs -0 grep -lE " ++
  "'path[[:space:]]*=[[:space:]]*\"[^\"]*[.][.]'; then " ++
  "echo 'a manifest declares a path dependency that leaves the repository'; " ++
  "exit 1; fi"

/-- Asserts the package file list. -/
def packageContentsCheck : String :=
  "list=$(cargo package --list --package rp1db) || exit 1; " ++
  "unexpected=$(printf '%s\\n' \"$list\" | grep -vE " ++
  "'^([.]cargo_vcs_info[.]json|Cargo[.]toml|Cargo[.]toml[.]orig|Cargo[.]lock" ++
  "|LICENSE-(MIT|APACHE)|README[.]md|CHANGELOG[.]md|src/.*[.]rs)$'); " ++
  "if [ -n \"$unexpected\" ]; then " ++
  "echo 'the package carries files the allowlist does not name:'; " ++
  "printf '%s\\n' \"$unexpected\"; exit 1; fi; " ++
  "for required in Cargo.toml README.md CHANGELOG.md LICENSE-MIT LICENSE-APACHE src/lib.rs; do " ++
  "if ! printf '%s\\n' \"$list\" | grep -qx \"$required\"; " ++
  "then echo \"the package is missing $required\"; exit 1; fi; done"

/-- Fails when a tracked file cites internal working material. -/
def internalReferenceScan : String :=
  "files=$(git ls-files | grep -vE " ++
  "'^([.]gitignore|tools/validation-runner/src/campaign[.]rs)$'); " ++
  "hits=$(printf '%s\\n' \"$files\" | xargs grep -InE " ++
  "'(AGENTS[.]md|CLAUDE[.]md|[.]agents/|[.]claude/|probes/|runs/|foundation/|tmp/" ++
  "|[Rr]ule [0-9]|/(investigate|plan-authoring|implement|definition-of-done" ++
  "|pr-check|pr-review|pr-merge))' /dev/null); " ++
  "if [ -n \"$hits\" ]; then " ++
  "echo 'a tracked file cites internal working material:'; " ++
  "printf '%s\\n' \"$hits\"; exit 1; fi"

/-! ### Segments -/

/-- The segments that compile, test, and audit the workspace and the codec, with their tiers. -/
def coreSegments : List (List Tier × SegmentDefinition) :=
  [([.dev, .gate], { id := "build-and-lint", prerequisite := none, steps := [
      ⟨"cargo", ["build", "--workspace", "--all-targets"]⟩,
      ⟨"cargo", ["fmt", "--all", "--check"]⟩,
      ⟨"cargo", ["clippy", "--workspace", "--all-targets"]⟩,
      ⟨"/bin/sh", ["-c", lintAllowanceCheck]⟩] }),
    ([.dev, .gate], { id := "unit-tests", prerequisite := none, steps := [
      ⟨"cargo", ["test", "--workspace"]⟩] }),
    ([.dev, .gate], { id := "spec-fixtures", prerequisite := none, steps := [
      ⟨"cargo", ["test", "--package", "rp1db", "--test", "spec_fixtures"]⟩] }),
    ([.dev, .gate], { id := "connection", prerequisite := none, steps := [
      ⟨"cargo", ["test", "--package", "rp1db", "--test", "connection"]⟩] }),
    ([.dev, .gate], {
      id := "msrv"
      prerequisite := some ⟨⟨"cargo", ["+1.85.0", "--version"]⟩,
        "install it with `rustup toolchain install 1.85.0`"⟩
      steps := [⟨"cargo", ["+1.85.0", "check", "--package", "rp1db"]⟩] }),
    ([.dev, .gate], {
      id := "deps"
      prerequisite := some ⟨⟨"cargo", ["deny", "--version"]⟩,
        "install it with `cargo install cargo-deny`"⟩
      steps := [⟨"cargo", ["deny", "check"]⟩, ⟨"/bin/sh", ["-c", localPathCheck]⟩] })]

/-- The segments that check evidence, documentation, fuzzing, and independence. -/
def evidenceSegments : List (List Tier × SegmentDefinition) :=
  [([.gate], { id := "package-contents", prerequisite := none, steps := [
      ⟨"/bin/sh", ["-c", packageContentsCheck]⟩,
      ⟨"cargo", ["package", "--package", "rp1db"]⟩] }),
    ([.dev, .gate], { id := "no-internal-references", prerequisite := none, steps := [
      ⟨"/bin/sh", ["-c", internalReferenceScan]⟩] }),
    ([.dev, .gate], { id := "docs", prerequisite := none, steps := [
      ⟨"cargo", ["doc", "--no-deps", "--workspace"]⟩] }),
    ([.dev, .gate], {
      id := "fuzz-frame-decoder"
      prerequisite := some ⟨⟨"cargo", ["fuzz", "--version"]⟩,
        "install it with `cargo install cargo-fuzz`"⟩
      steps := [⟨"cargo", ["+nightly", "fuzz", "run", "frame_decode", "--", "-runs=10000",
        "-max_total_time=45"]⟩] }),
    ([.gate], { id := "clean-clone", prerequisite := none, steps := [
      ⟨"/bin/sh", ["-c", cleanCloneCheck]⟩] })]

/-- Every segment this runner knows how to execute. -/
def definition : List (List Tier × SegmentDefinition) := coreSegments ++ evidenceSegments

/-- The segments a tier requires, in execution order. -/
def required (tier : Tier) : List SegmentDefinition :=
  (definition.filter fun segment => segment.1.contains tier).map Prod.snd

/-- Every segment is one of the gate's. -/
theorem gate_mem_definition : ∀ segment ∈ definition, segment.1.contains Tier.gate = true := by
  decide

theorem required_sublist (tier : Tier) : (required tier).Sublist (required .gate) := by
  refine List.Sublist.map _ ?_
  rw [List.filter_eq_self.mpr gate_mem_definition]
  exact List.filter_sublist

end Rp1.Validation

import Rp1.Validation.Resume
import Rp1.Validation.Sealing
import Rp1.Validation.Segments

/-!
# Validation — from the command line to the exit code

`parse` reads the arguments in one loop, in which an option takes the argument behind it whatever
that is.  The command lines it accepts are those that write down a list of settings
(`Setting.words`).  On all others it stops at the first argument that begins no setting, and the
message is about that one (`Stops`).

`main` is the whole runner: it parses, invokes and turns the report into an exit code.
`exit_success_iff` says when the code is success, and what is in the record then.
-/

namespace Rp1.Validation

/-! ### Arguments -/

def defaultTopic : String := "repository"

def usage : String :=
  "usage: validation-runner run --tier <dev|gate> [--topic <topic>] [--resume]"

def Tier.parse (value : String) : Except String Tier :=
  if value = "dev" then .ok .dev
  else if value = "gate" then .ok .gate
  else .error ("`" ++ value ++ "` is not a tier this runner executes. Use `dev` or `gate`.")

/-- What the loop in `parse` has read. -/
structure Options where
  tier : Option Tier
  topic : String
  resume : Bool
deriving DecidableEq, Repr

/-- The options before the loop. -/
def Options.initial : Options := ⟨none, defaultTopic, false⟩

/-- What follows the loop. -/
def Options.finish (o : Options) : Except String Arguments :=
  match o.tier with
  | none => .error ("`--tier` is required. " ++ usage)
  | some tier => .ok ⟨tier, o.topic, o.resume⟩

/-- The loop in `parse`. -/
def parseOptions (o : Options) : List String → Except String Arguments
  | [] => o.finish
  | argument :: rest =>
      if argument = "--tier" then
        match rest with
        | value :: rest =>
            match Tier.parse value with
            | .ok tier => parseOptions { o with tier := some tier } rest
            | .error message => .error message
        | [] => .error ("`--tier` needs a value. " ++ usage)
      else if argument = "--topic" then
        match rest with
        | value :: rest => parseOptions { o with topic := value } rest
        | [] => .error ("`--topic` needs a value. " ++ usage)
      else if argument = "--resume" then parseOptions { o with resume := true } rest
      else .error ("`" ++ argument ++ "` is not an option. " ++ usage)

def parse : List String → Except String Arguments
  | [] => .error usage
  | command :: rest =>
      if command = "run" then parseOptions .initial rest
      else .error ("`" ++ command ++ "` is not a command. " ++ usage)

/-! ### Settings -/

/-- One setting of a command line. -/
inductive Setting where
  | tier (tier : Tier)
  | topic (value : String)
  | resume
deriving DecidableEq, Repr

/-- How a setting is written. -/
def Setting.words : Setting → List String
  | tier t => ["--tier", t.asStr]
  | topic value => ["--topic", value]
  | resume => ["--resume"]

def Setting.apply (o : Options) : Setting → Options
  | tier t => { o with tier := some t }
  | topic value => { o with topic := value }
  | resume => { o with resume := true }

def Setting.tier? : Setting → Option Tier
  | tier t => some t
  | _ => none

def Setting.topic? : Setting → Option String
  | topic value => some value
  | _ => none

/-- A command line that does not go on with a setting, and what is said about it. -/
inductive Stops : List String → String → Prop where
  | noTier : Stops ["--tier"] ("`--tier` needs a value. " ++ usage)
  | notTier (value : String) (rest : List String) (h : ∀ t : Tier, value ≠ t.asStr) :
      Stops ("--tier" :: value :: rest)
        ("`" ++ value ++ "` is not a tier this runner executes. Use `dev` or `gate`.")
  | noTopic : Stops ["--topic"] ("`--topic` needs a value. " ++ usage)
  | notOption (other : String) (rest : List String)
      (h : other ≠ "--tier" ∧ other ≠ "--topic" ∧ other ≠ "--resume") :
      Stops (other :: rest) ("`" ++ other ++ "` is not an option. " ++ usage)

/-- What a list of settings comes to, when one of them is a tier. -/
def Sets (settings : List Setting) (a : Arguments) : Prop :=
  (settings.filterMap Setting.tier?).getLast? = some a.tier ∧
    a.topic = (settings.filterMap Setting.topic?).getLast?.getD defaultTopic ∧
    (a.resume = true ↔ .resume ∈ settings)

/-- What is wrong with a command line, and what is said about it. -/
inductive Rejected : List String → String → Prop where
  | empty : Rejected [] usage
  | command (other : String) (rest : List String) (h : other ≠ "run") :
      Rejected (other :: rest) ("`" ++ other ++ "` is not a command. " ++ usage)
  | stops (settings : List Setting) (rest : List String) (message : String)
      (h : Stops rest message) :
      Rejected ("run" :: (settings.flatMap Setting.words ++ rest)) message
  | required (settings : List Setting) (h : settings.filterMap Setting.tier? = []) :
      Rejected ("run" :: settings.flatMap Setting.words) ("`--tier` is required. " ++ usage)

section Settings
variable {o : Options} {settings : List Setting} {rest : List String} {message : String}

theorem Tier.parse_asStr (t : Tier) : Tier.parse t.asStr = .ok t := by
  cases t <;> decide

theorem Tier.parse_of_ne {value : String} (h : ∀ t : Tier, value ≠ t.asStr) :
    Tier.parse value =
      .error ("`" ++ value ++ "` is not a tier this runner executes. Use `dev` or `gate`.") := by
  have hdev : value ≠ "dev" := h .dev
  have hgate : value ≠ "gate" := h .gate
  rw [Tier.parse, if_neg hdev, if_neg hgate]

/-- The loop reads one setting. -/
theorem parseOptions_words (o : Options) (s : Setting) (rest : List String) :
    parseOptions o (s.words ++ rest) = parseOptions (s.apply o) rest := by
  conv_lhs => unfold parseOptions
  cases s with
  | tier t =>
      rw [Setting.words, List.cons_append, List.cons_append, List.nil_append]
      simp only [if_true, t.parse_asStr]
      rfl
  | topic value => rfl
  | resume => rfl

/-- The loop reads all of them. -/
theorem parseOptions_settings (o : Options) (settings : List Setting) (rest : List String) :
    parseOptions o (settings.flatMap Setting.words ++ rest) =
      parseOptions (settings.foldl Setting.apply o) rest := by
  induction settings generalizing o with
  | nil => rfl
  | cons s settings ih =>
      rw [List.flatMap_cons, List.append_assoc, parseOptions_words, ih, List.foldl_cons]

theorem Stops.parseOptions (h : Stops rest message) (o : Options) :
    Validation.parseOptions o rest = .error message := by
  cases h with
  | noTier => rfl
  | notTier value rest h =>
      simp only [Validation.parseOptions, if_true, Tier.parse_of_ne h]
  | noTopic => rfl
  | notOption other rest h =>
      unfold Validation.parseOptions
      rw [if_neg h.1, if_neg h.2.1, if_neg h.2.2]

/-- **Every command line** is a list of settings, followed by nothing or by something that is no
setting. -/
theorem exists_settings (words : List String) :
    ∃ (settings : List Setting) (rest : List String),
      words = settings.flatMap Setting.words ++ rest ∧
        (rest = [] ∨ ∃ message, Stops rest message) := by
  induction hn : words.length using Nat.strong_induction_on generalizing words with
  | _ n ih =>
      -- one setting in front, and the rest by induction
      have hcons : ∀ (s : Setting) (more : List String), words = s.words ++ more →
          ∃ (settings : List Setting) (rest : List String),
            words = settings.flatMap Setting.words ++ rest ∧
              (rest = [] ∨ ∃ message, Stops rest message) := by
        rintro s more rfl
        have hlt : more.length < n := by
          rw [← hn, List.length_append]
          cases s <;> simp [Setting.words]
        obtain ⟨settings, rest, rfl, hrest⟩ := ih _ hlt more rfl
        exact ⟨s :: settings, rest, by rw [List.flatMap_cons, List.append_assoc], hrest⟩
      match words with
      | [] => exact ⟨[], [], rfl, .inl rfl⟩
      | argument :: more =>
          by_cases hother : argument ≠ "--tier" ∧ argument ≠ "--topic" ∧ argument ≠ "--resume"
          · exact ⟨[], _, rfl, .inr ⟨_, .notOption argument more hother⟩⟩
          · rcases (by tauto :
              argument = "--tier" ∨ argument = "--topic" ∨ argument = "--resume") with
              rfl | rfl | rfl
            · match more with
              | [] => exact ⟨[], _, rfl, .inr ⟨_, .noTier⟩⟩
              | value :: more =>
                  by_cases ht : ∀ t : Tier, value ≠ t.asStr
                  · exact ⟨[], _, rfl, .inr ⟨_, .notTier value more ht⟩⟩
                  · obtain ⟨t, ht⟩ := not_forall.mp ht
                    obtain rfl := not_not.mp ht
                    exact hcons (.tier t) more rfl
            · match more with
              | [] => exact ⟨[], _, rfl, .inr ⟨_, .noTopic⟩⟩
              | value :: more => exact hcons (.topic value) more rfl
            · exact hcons .resume more rfl

/-! What the settings come to. -/

theorem foldl_apply_tier (o : Options) (settings : List Setting) :
    (settings.foldl Setting.apply o).tier =
      (settings.filterMap Setting.tier?).getLast?.or o.tier := by
  induction settings using List.reverseRecOn with
  | nil => rfl
  | append_singleton settings s ih =>
      rw [List.foldl_concat, List.filterMap_append]
      cases s with
      | tier t => simp [Setting.apply, Setting.tier?]
      | topic value => simpa [Setting.apply, Setting.tier?] using ih
      | resume => simpa [Setting.apply, Setting.tier?] using ih

theorem foldl_apply_topic (o : Options) (settings : List Setting) :
    (settings.foldl Setting.apply o).topic =
      (settings.filterMap Setting.topic?).getLast?.getD o.topic := by
  induction settings using List.reverseRecOn with
  | nil => rfl
  | append_singleton settings s ih =>
      rw [List.foldl_concat, List.filterMap_append]
      cases s with
      | tier t => simpa [Setting.apply, Setting.topic?] using ih
      | topic value => simp [Setting.apply, Setting.topic?]
      | resume => simpa [Setting.apply, Setting.topic?] using ih

theorem foldl_apply_resume (o : Options) (settings : List Setting) :
    (settings.foldl Setting.apply o).resume = (o.resume || decide (.resume ∈ settings)) := by
  induction settings using List.reverseRecOn with
  | nil => simp
  | append_singleton settings s ih =>
      rw [List.foldl_concat]
      cases s <;> simp [Setting.apply, ih]

theorem finish_settings (settings : List Setting) :
    (∃ a, Sets settings a ∧ (settings.foldl Setting.apply .initial).finish = .ok a) ∨
    (settings.filterMap Setting.tier? = [] ∧ (settings.foldl Setting.apply .initial).finish =
      .error ("`--tier` is required. " ++ usage)) := by
  have htier := foldl_apply_tier .initial settings
  have htopic := foldl_apply_topic .initial settings
  have hresume := foldl_apply_resume .initial settings
  cases ht : (settings.filterMap Setting.tier?).getLast? with
  | none =>
      rw [ht] at htier
      exact .inr ⟨List.getLast?_eq_none_iff.mp ht, by rw [Options.finish, htier]; rfl⟩
  | some tier =>
      rw [ht] at htier
      refine .inl ⟨⟨tier, _, _⟩, ⟨ht, htopic, ?_⟩, by rw [Options.finish, htier]; rfl⟩
      rw [hresume]
      simp [Options.initial]

theorem Sets.unique {a b : Arguments} (ha : Sets settings a) (hb : Sets settings b) : a = b := by
  obtain ⟨tier, topic, resume⟩ := a
  obtain ⟨tier', topic', resume'⟩ := b
  obtain ⟨ht, hp, hr⟩ := ha
  obtain ⟨ht', hp', hr'⟩ := hb
  obtain rfl := Option.some.inj (ht.symm.trans ht')
  obtain rfl := hp.trans hp'.symm
  obtain rfl := Bool.eq_iff_iff.mpr (hr.trans hr'.symm)
  rfl

theorem parse_run (settings : List Setting) (rest : List String) :
    parse ("run" :: (settings.flatMap Setting.words ++ rest)) =
      parseOptions (settings.foldl Setting.apply .initial) rest := by
  rw [parse, if_pos rfl, parseOptions_settings]

theorem parse_run_all (settings : List Setting) :
    parse ("run" :: settings.flatMap Setting.words) =
      (settings.foldl Setting.apply .initial).finish := by
  have h := parse_run settings []
  rw [List.append_nil] at h
  exact h

theorem Rejected.parse {words : List String} (h : Rejected words message) :
    Validation.parse words = .error message := by
  cases h with
  | empty => rfl
  | command other rest h => rw [Validation.parse, if_neg h]
  | stops settings rest message h => rw [parse_run, h.parseOptions]
  | required settings h =>
      rw [parse_run_all]
      rcases finish_settings settings with ⟨a, ⟨ht, -⟩, -⟩ | ⟨-, he⟩
      · rw [h] at ht
        cases ht
      · exact he

theorem Sets.parse {a : Arguments} (h : Sets settings a) :
    Validation.parse ("run" :: settings.flatMap Setting.words) = .ok a := by
  rw [parse_run_all]
  rcases finish_settings settings with ⟨b, hb, he⟩ | ⟨ht, -⟩
  · rw [he, hb.unique h]
  · rw [Sets, ht] at h
    cases h.1

/-- A command line is accepted or rejected. -/
theorem accepted_or_rejected (words : List String) :
    (∃ settings a, words = "run" :: settings.flatMap Setting.words ∧ Sets settings a) ∨
      ∃ message, Rejected words message := by
  match words with
  | [] => exact .inr ⟨_, .empty⟩
  | command :: more =>
      by_cases hrun : command = "run"
      · subst hrun
        obtain ⟨settings, rest, rfl, rfl | ⟨message, hstops⟩⟩ := exists_settings more
        · rw [List.append_nil]
          rcases finish_settings settings with ⟨a, ha, -⟩ | ⟨ht, -⟩
          · exact .inl ⟨settings, a, rfl, ha⟩
          · exact .inr ⟨_, .required settings ht⟩
        · exact .inr ⟨message, .stops settings rest message hstops⟩
      · exact .inr ⟨_, .command command more hrun⟩

/-- **The command lines of the runner.**  What is accepted is `run` with a list of settings, of
which the last tier and the last topic count; what is rejected is rejected for the first thing that
is wrong with it. -/
theorem parse_iff (words : List String) :
    (∀ a, parse words = .ok a ↔
      ∃ settings, words = "run" :: settings.flatMap Setting.words ∧ Sets settings a) ∧
    ∀ message, parse words = .error message ↔ Rejected words message := by
  refine ⟨fun a => ⟨fun h => ?_, ?_⟩, fun message => ⟨fun h => ?_, Rejected.parse⟩⟩
  · rcases accepted_or_rejected words with ⟨settings, b, rfl, hb⟩ | ⟨message, hr⟩
    · rw [hb.parse] at h
      exact ⟨settings, rfl, Except.ok.inj h ▸ hb⟩
    · rw [hr.parse] at h
      cases h
  · rintro ⟨settings, rfl, hs⟩
    exact hs.parse
  · rcases accepted_or_rejected words with ⟨settings, b, rfl, hb⟩ | ⟨message', hr⟩
    · rw [hb.parse] at h
      cases h
    · rw [hr.parse] at h
      exact Except.error.inj h ▸ hr

end Settings

/-- A later setting counts, and an option takes what follows it for its value. -/
example : parse ["run", "--tier", "dev", "--topic", "--resume", "--tier", "gate"] =
    .ok ⟨.gate, "--resume", false⟩ := by decide

/-! ### The runner -/

inductive ExitCode where
  | success
  | failure
deriving DecidableEq, Repr

def Report.everySegmentHolds (report : Report) : Bool := report.results.all (·.status.holds)

/-- `closes`: whether the campaign satisfied what its tier asks of it. -/
def closes (tier : Tier) (report : Report) : Bool :=
  match tier with
  | .gate => report.state = .sealed
  | .dev => report.everySegmentHolds

/-- What the runner finds where it is started. -/
structure Host where
  subjectRevision : String
  toolchain : String
  target : String
  date : Date
  treeState : TreeState
  answers : List Answer
  finishes : Bool

/-- A run with these arguments, for the segments that their tier requires. -/
def Host.invocation (host : Host) (arguments : Arguments) : Invocation :=
  { arguments
    subjectRevision := host.subjectRevision
    toolchain := host.toolchain
    target := host.target
    date := host.date
    segments := required arguments.tier
    treeState := host.treeState
    answers := host.answers
    finishes := host.finishes }

/-- The exit code; there is no report when the campaign does not come to its end. -/
def exitCode (tier : Tier) : Option Report → ExitCode
  | some report => if closes tier report then .success else .failure
  | none => .failure

/-- `execute` of `main.rs`, and the exit code `main` makes of its result. -/
def main (repository : Path) (disk : Disk) (host : Host) (words : List String) :
    Disk × Option Execution × ExitCode :=
  match parse words with
  | .error _ => (disk, none, .failure)
  | .ok arguments =>
      let (disk, execution) := invoke repository disk (host.invocation arguments)
      (disk, execution, exitCode arguments.tier (execution.bind Execution.report))

/-- What a campaign counts comes from attempts that were run and passed under its identity. -/
theorem Trail.exists_pass {w : List Recorded} {c : Campaign} {rs : List SegmentResult}
    (ht : Trail w) (h : c.Appends (w.map Recorded.entry) rs) :
    ∀ r ∈ rs, r.status.holds = true →
      ∃ x ∈ w ++ rs.map (.mk c.treeState), x.result.id = r.id ∧ x.result.status = .pass ∧
        x.result.identity = c.identity.digest ∧ x.result.evidence = r.evidence := by
  intro r hr hh
  obtain ⟨a, b, rfl⟩ := List.append_of_mem hr
  obtain ⟨ht', hf⟩ := ht.follows h
  rcases hf.source with ⟨prior, hp, -, hev⟩ | ⟨-, hex, -⟩
  · obtain ⟨x, hx, hpass, hi, hevid⟩ := reusable_backed ht'.backed hp
    obtain ⟨hmem, hid, -⟩ := lastExecuted_spec hx
    refine ⟨x, ?_, hid, hpass, hi, hevid.trans hev.symm⟩
    rw [List.map_append, ← List.append_assoc]
    exact List.mem_append_left _ hmem
  · exact ⟨⟨c.treeState, r⟩, List.mem_append_right _ (List.mem_map_of_mem hr), rfl,
      Status.eq_pass hex hh, hf.identity, rfl⟩

section Exit
variable {repository : Path} {disk : Disk}

theorem Campaign.report_results {c : Campaign} {journal : List JournalEntry}
    {answers : List Answer} {finishes : Bool} {report : Report}
    (h : (c.execute journal answers finishes).2 = some report) :
    report.results = (c.execute journal answers finishes).1 := by
  unfold execute at h ⊢
  generalize c.runSegments c.segments answers journal = r at h ⊢
  dsimp only at h ⊢
  split at h
  case isTrue hc =>
    rw [if_pos hc]
    exact (congrArg Report.results (Option.some.inj h)).symm
  case isFalse => cases h

/-- When a campaign that comes to its end closes. -/
theorem closes_iff {inv : Invocation} {resuming : Bool} {e : Execution} {report : Report}
    (hi : Invoked repository disk inv resuming e) (hreport : e.report = some report) (tier : Tier) :
    closes tier report = true ↔
      (∀ r ∈ e.results, r.status.holds = true) ∧ (tier = .gate → inv.treeState = .clean) := by
  have hexec := (congrArg Prod.snd hi.executes).trans hreport
  have hseal := (Campaign.sealed_iff_holds hexec).2
  have hresults := Campaign.report_results hexec
  rw [hi.executes] at hseal hresults
  cases tier with
  | gate => simpa [closes, Invocation.campaign] using hseal
  | dev => simp [closes, Report.everySegmentHolds, hresults]

theorem exitCode_eq_success_iff {tier : Tier} {report : Option Report} :
    exitCode tier report = .success ↔ ∃ r, report = some r ∧ closes tier r = true := by
  cases report with
  | none => simp [exitCode]
  | some report => simp [exitCode]

/-- **When the runner exits with success.**  After any history, that is when the command line is
accepted, a record is found or created, the campaign comes to its end, every result of it holds,
and for a gate the tree is clean.  Each segment the tier requires then has an attempt in the record
that was run and passed under the identity of the campaign, and for a gate so has each segment that
any tier requires. -/
theorem exit_success_iff (repository : Path) (history : List Invocation) (host : Host)
    (words : List String) :
    ((main repository (after repository history) host words).2.2 = .success ↔
      ∃ a e, parse words = .ok a ∧
        (main repository (after repository history) host words).2.1 = some e ∧
        e.report.isSome ∧ (∀ r ∈ e.results, r.status.holds = true) ∧
        (a.tier = .gate → (host.invocation a).treeState = .clean)) ∧
    ∀ a e, parse words = .ok a →
      (main repository (after repository history) host words).2 = (some e, .success) →
      ∀ tier, tier = a.tier ∨ a.tier = .gate → ∀ d ∈ required tier,
        ∃ x ∈ written (performed repository history ++ [e]) e.record, x.result.id = d.id ∧
          x.result.status = .pass ∧ x.result.identity = (host.invocation a).identity.digest := by
  unfold main
  cases hparse : parse words with
  | error message => simp
  | ok a =>
      simp only [exitCode_eq_success_iff, Prod.mk.injEq]
      constructor
      · constructor
        · rintro ⟨report, hbind, hcloses⟩
          obtain ⟨e, he, hreport⟩ := Option.bind_eq_some_iff.mp hbind
          obtain ⟨resuming, hi⟩ := exists_invoked he
          obtain ⟨hholds, hclean⟩ := (closes_iff hi hreport _).mp hcloses
          exact ⟨a, e, rfl, he, Option.isSome_iff_exists.mpr ⟨report, hreport⟩, hholds, hclean⟩
        · rintro ⟨_, e, ⟨⟩, he, hsome, hholds, hclean⟩
          obtain ⟨report, hreport⟩ := Option.isSome_iff_exists.mp hsome
          obtain ⟨resuming, hi⟩ := exists_invoked he
          exact ⟨report, Option.bind_eq_some_iff.mpr ⟨e, he, hreport⟩,
            (closes_iff hi hreport _).mpr ⟨hholds, hclean⟩⟩
      · rintro _ e ⟨⟩ ⟨he, report, hbind, hcloses⟩ tier htier d hd
        have hd : d ∈ (host.invocation a).segments := by
          show d ∈ required a.tier
          rcases htier with rfl | hgate
          · exact hd
          · rw [hgate]
            exact (required_sublist tier).subset hd
        obtain ⟨e', he', hreport⟩ := Option.bind_eq_some_iff.mp hbind
        cases he.symm.trans he'
        obtain ⟨resuming, hi⟩ := exists_invoked he
        obtain ⟨hj, ht⟩ := journal_eq_written repository history e.record
        have happ := hi.appends
        rw [hj] at happ
        -- the segments are those the campaign has results for
        have hids := (Campaign.sealed_iff_holds
          ((congrArg Prod.snd hi.executes).trans hreport)).1
        rw [hi.executes] at hids
        obtain ⟨r, hr, hrd⟩ := List.mem_map.mp
          (hids ▸ List.mem_map_of_mem hd : d.id ∈ e.results.map SegmentResult.id)
        have hholds := ((closes_iff hi hreport _).mp hcloses).1 r hr
        obtain ⟨x, hx, hid, hpass, hident, -⟩ := ht.exists_pass happ r hr hholds
        refine ⟨x, ?_, hid.trans hrd, hpass, hident⟩
        rw [written_append, written_self, Execution.recorded, hi.treeState]
        exact hx

end Exit

/-- A host with a clean tree, on which every command of development exits with zero. -/
def fineHost : Host where
  subjectRevision := "a3d13ed3c3a74f34ec9799a163c5f68887b724fc"
  toolchain := "rustc 1.98.0"
  target := "aarch64-apple-darwin"
  date := ⟨2026, 9, 15⟩
  treeState := .clean
  answers := (required .dev).map fun d => ⟨true, d.steps.map fun _ => .exited (some 0)⟩
  finishes := true

theorem exit_success_iff_fine :
    ∃ e, (main ["rp1"] (after ["rp1"] []) fineHost ["run", "--tier", "dev"]).2 =
        (some e, .success) ∧
      ∀ d ∈ required .dev, ∃ x ∈ written (performed ["rp1"] [] ++ [e]) e.record,
        x.result.id = d.id ∧ x.result.status = .pass := by
  have hexit : (main ["rp1"] (after ["rp1"] []) fineHost ["run", "--tier", "dev"]).2.2 =
      .success := by decide +kernel
  obtain ⟨hiff, hproves⟩ := exit_success_iff ["rp1"] [] fineHost ["run", "--tier", "dev"]
  obtain ⟨a, e, -, he, -⟩ := hiff.mp hexit
  refine ⟨e, Prod.ext he hexit, fun d hd => ?_⟩
  obtain ⟨x, hx, hid, hpass, -⟩ := hproves ⟨.dev, "repository", false⟩ e (by decide)
    (Prod.ext he hexit) .dev (.inl rfl) d hd
  exact ⟨x, hx, hid, hpass⟩

end Rp1.Validation

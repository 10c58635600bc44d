import Rp1.Validation.Runner

/-!
# Validation — one record, one identity

`select_record` looks at the last entry of the latest record only, and lets anyone continue a
record that holds nothing.  That this keeps the identities apart rests on the names of new records:
the sequence number in the name is above all those of its date, so the directory is not there yet
(`record_notMem_of_create`), and no journal is in it.

The number stands in the first component of the name.  A topic that goes back behind it with `..`
ends in another directory, which may be an old record: `record_mixes` is a history in which two
identities share a journal.  `record_one_identity` says that without such topics every journal is
under the identity of the last run that appended to it.
-/

namespace Rp1.Validation

/-! ### Paths -/

theorem Path.enter_of_name {path : Path} {component : String} (h : '-' ∈ component.toList) :
    path.enter component = path ++ [component] := by
  have hne : ∀ other : String, '-' ∉ other.toList → component ≠ other := by
    rintro other ho rfl
    exact ho h
  rw [enter, if_neg, if_neg (hne ".." (by decide))]
  rintro (e | e)
  · exact hne "" (by decide) e
  · exact hne "." (by decide) e

/-- The directories above the next one are those above this one. -/
theorem Path.prefix_enter_cases {path q : Path} {component : String}
    (h : q <+: path.enter component) : q = path.enter component ∨ q <+: path := by
  unfold enter at h ⊢
  split at h
  case isTrue => exact .inr h
  case isFalse hplain =>
    rw [if_neg hplain]
    split at h
    case isTrue => exact .inr (h.trans (List.dropLast_prefix path))
    case isFalse hup =>
      rw [if_neg hup]
      exact List.prefix_concat_iff.mp h

theorem Path.prefix_enter {path : Path} {component : String} (h : component ≠ "..") :
    path <+: path.enter component := by
  rw [enter, if_neg h]
  split
  case isTrue => exact List.prefix_rfl
  case isFalse => exact List.prefix_append path _

/-- Without `..` a route leads further down. -/
theorem Path.prefix_foldl_enter {route : List String} (path : Path) (h : ".." ∉ route) :
    path <+: route.foldl Path.enter path := by
  induction route generalizing path with
  | nil => exact List.prefix_rfl
  | cons component route ih =>
      have hne : component ≠ ".." := fun e => h (e ▸ List.mem_cons_self)
      exact (prefix_enter hne).trans (ih _ fun hm => h (List.mem_cons_of_mem _ hm))

theorem foldl_mem_scanl {α β : Type} (f : β → α → β) (b : β) (route more : List α) :
    route.foldl f b ∈ (route ++ more).scanl f b := by
  induction route generalizing b with
  | nil => cases more <;> simp
  | cons a route ih =>
      rw [List.cons_append, List.scanl_cons, List.foldl_cons]
      exact List.mem_cons_of_mem _ (ih _)

/-! ### The disk -/

/-- Directories have the directories above them, and journals are in directories. -/
structure Disk.Sound (disk : Disk) : Prop where
  closed : ∀ p ∈ disk.dirs, ∀ q, q <+: p → q ∈ disk.dirs
  present : ∀ p, disk.journal p ≠ [] → p ∈ disk.dirs

section Disk
variable {disk disk' : Disk} {base root record : Path} {date topic : String}

theorem Disk.mem_names {name : String} : name ∈ disk.names root ↔ root ++ [name] ∈ disk.dirs := by
  simp only [names, List.mem_filterMap, Option.ite_none_right_eq_some]
  constructor
  · rintro ⟨dir, hd, rfl, hlast⟩
    rwa [List.dropLast_append_getLast? name hlast]
  · intro h
    exact ⟨_, h, List.dropLast_concat, List.getLast?_concat⟩

theorem Disk.mem_createDirAll {route : List String} {p : Path} :
    p ∈ (disk.createDirAll base route).dirs ↔
      p ∈ disk.dirs ∨ p <+: base ∨ p ∈ route.scanl Path.enter base := by
  rw [createDirAll, List.mem_union_iff, List.mem_append, List.mem_inits]

/-- What lies above a directory on the way lies above the start or on the way too. -/
theorem prefix_of_mem_scanl (route : List String) (base : Path) :
    ∀ p ∈ route.scanl Path.enter base, ∀ q, q <+: p →
      q <+: base ∨ q ∈ route.scanl Path.enter base := by
  induction route generalizing base with
  | nil =>
      intro p hp q hq
      rw [List.scanl_nil, List.mem_singleton] at hp
      exact .inl (hp ▸ hq)
  | cons component route ih =>
      intro p hp q hq
      rw [List.scanl_cons] at hp ⊢
      rcases List.mem_cons.mp hp with rfl | hp
      · exact .inl hq
      · rcases ih _ p hp q hq with hq | hq
        · rcases Path.prefix_enter_cases hq with rfl | hq
          · exact .inr (List.mem_cons_of_mem _ (foldl_mem_scanl Path.enter _ [] route))
          · exact .inl hq
        · exact .inr (List.mem_cons_of_mem _ hq)

theorem Disk.Sound.createDirAll (h : disk.Sound) (base : Path) (route : List String) :
    (disk.createDirAll base route).Sound := by
  refine ⟨fun p hp q hq => ?_, fun p hp => Disk.mem_createDirAll.mpr (.inl (h.present p hp))⟩
  rw [Disk.mem_createDirAll] at hp ⊢
  rcases hp with hp | hp | hp
  · exact .inl (h.closed p hp q hq)
  · exact .inr (.inl (hq.trans hp))
  · exact .inr (prefix_of_mem_scanl route base p hp q hq)

end Disk

/-! ### The name of a new record -/

section Names
variable {disk disk' : Disk} {root record : Path} {topic : String}

theorem slash_notMem_text (date : Date) : '/' ∉ date.text.toList := by
  have h2 : ∀ n, '/' ∉ (pad2 n).toList := fun n hm => nomatch isDigit_of_mem_pad2 hm
  have h4 : ∀ n, '/' ∉ (pad4 n).toList := by
    intro n hm
    rw [pad4, String.toList_append, List.mem_append, String.toList_ofList] at hm
    rcases hm with hm | hm
    · exact absurd (List.eq_of_mem_replicate hm) (by decide)
    · rw [Nat.toString_eq_repr, Nat.toList_repr] at hm
      exact nomatch Nat.isDigit_of_mem_toDigits (by decide) (by decide) hm
  simp [Date.text, String.toList_append, h2, h4]

/-- A text in front of a path goes into its first component. -/
theorem splitOn_append {x : Char} {pre : List Char} (h : x ∉ pre) (l : List Char) :
    (pre ++ l).splitOn x = (l.splitOn x).modifyHead (pre ++ ·) := by
  induction pre with
  | nil => cases hl : l.splitOn x <;> simp [hl]
  | cons c pre ih =>
      have hne : (c == x) = false := beq_false_of_ne fun e => h (e ▸ List.mem_cons_self)
      have ih := ih fun hm => h (List.mem_cons_of_mem _ hm)
      rw [List.splitOn] at ih ⊢
      rw [List.cons_append, List.splitOnP_cons_eq_if_modifyHead, hne]
      simp only [Bool.false_eq_true, if_false, ih]
      cases hl : l.splitOnP (· == x) <;> simp [List.splitOn, hl]

/-- What stands before the topic in the name of a record. -/
def stem (date : Date) (sequence : Nat) : String := date.text ++ "-" ++ pad2 sequence ++ "-"

/-- **The components of the name of a record.**  The first one begins with the date and the
sequence number; the others are those of the topic. -/
theorem components_recordIdentifier (date : Date) (sequence : Nat) (topic : String) :
    ∃ tail : List Char, components (recordIdentifier date.text sequence topic) =
      String.ofList ((stem date sequence).toList ++ tail) :: (components topic).tail := by
  have hpre : '/' ∉ (stem date sequence).toList := by
    have hpad : '/' ∉ (pad2 sequence).toList := fun hm => nomatch isDigit_of_mem_pad2 hm
    simp [stem, String.toList_append, slash_notMem_text, hpad]
  have hlist : (recordIdentifier date.text sequence topic).toList =
      (stem date sequence).toList ++ topic.toList := by
    rw [recordIdentifier, ← stem, String.toList_append]
  obtain ⟨tail, parts, hparts⟩ :=
    List.exists_cons_of_ne_nil (List.splitOn_ne_nil '/' topic.toList)
  refine ⟨tail, ?_⟩
  rw [components, components, hlist, splitOn_append hpre, hparts]
  rfl

theorem hyphen_mem_stem (date : Date) (sequence : Nat) : '-' ∈ (stem date sequence).toList := by
  simp [stem, String.toList_append]

/-- A padded number of at most two digits reads back. -/
theorem parseTwo_pad2 {n : Nat} (h : n ≤ maxSequence) :
    ∃ a b, (pad2 n).toList = [a, b] ∧ parseTwo a b = some n := by
  have hall : ∀ n < 100, (pad2 n).toList = [Nat.digitChar (n / 10), Nat.digitChar (n % 10)] ∧
      parseTwo (Nat.digitChar (n / 10)) (Nat.digitChar (n % 10)) = some n := by decide +kernel
  exact ⟨_, _, hall n (Nat.lt_succ_of_le h)⟩

theorem sequenceOf_stem (date : Date) {n : Nat} (h : n ≤ maxSequence) (tail : List Char) :
    sequenceOf date.text (String.ofList ((stem date n).toList ++ tail)) = some n := by
  obtain ⟨a, b, hab, hn⟩ := parseTwo_pad2 h
  have hcut : (date.text ++ "-").toList.isPrefixOf? ((stem date n).toList ++ tail) =
      some (a :: b :: '-' :: tail) := by
    rw [List.isPrefixOf?_eq_some_iff_append_eq, stem]
    simp [String.toList_append, hab]
  rw [sequenceOf, String.toList_ofList, hcut]
  exact hn

theorem foldl_max_le_iff {α : Type} (f : α → Nat) (l : List α) {start bound : Nat} :
    l.foldl (fun highest a => max highest (f a)) start ≤ bound ↔
      start ≤ bound ∧ ∀ a ∈ l, f a ≤ bound := by
  induction l generalizing start with
  | nil => exact (and_iff_left (List.forall_mem_nil _)).symm
  | cons a l ih => rw [List.foldl_cons, ih, Nat.max_le, List.forall_mem_cons, and_assoc]

theorem le_foldl_max {α : Type} (f : α → Nat) {l : List α} {a : α} (h : a ∈ l) (start : Nat) :
    f a ≤ l.foldl (fun highest a => max highest (f a)) start :=
  ((foldl_max_le_iff f l).mp (Nat.le_refl _)).2 a h

/-- The next sequence number is above all those in use. -/
theorem lt_nextSequence {names : List String} {date : String} {n : Nat}
    (h : nextSequence names date = some n) :
    n ≤ maxSequence ∧ ∀ name ∈ names, (sequenceOf date name).getD 0 < n := by
  obtain ⟨hle, h⟩ := Option.ite_none_right_eq_some.mp h
  cases h
  exact ⟨hle, fun name hm => Nat.lt_succ_of_le
    (le_foldl_max (fun name => (sequenceOf date name).getD 0) hm 0)⟩

/-- **A new record is in a new directory**, unless its topic goes back behind its name. -/
theorem record_notMem_of_create {date : Date} (hs : disk.Sound)
    (hplain : ".." ∉ (components topic).tail)
    (h : create disk root date.text topic = some (record, disk')) : record ∉ disk.dirs := by
  obtain ⟨sequence, route, hseq, hr, rfl, -⟩ := create_eq_some h
  obtain ⟨hle, hlt⟩ := lt_nextSequence hseq
  obtain ⟨tail, hroute⟩ := components_recordIdentifier date sequence topic
  have hname : '-' ∈ (String.ofList ((stem date sequence).toList ++ tail)).toList := by
    rw [String.toList_ofList]
    exact List.mem_append_left _ (hyphen_mem_stem date sequence)
  intro hmem
  rw [hr, hroute, List.foldl_cons, Path.enter_of_name hname] at hmem
  have hfirst := hs.closed _ hmem _ (Path.prefix_foldl_enter _ hplain)
  have hused := hlt _ (Disk.mem_names.mpr (Disk.mem_createDirAll.mpr (.inl hfirst)))
  rw [sequenceOf_stem date hle, Option.getD_some] at hused
  exact Nat.lt_irrefl _ hused

theorem mem_dirs_of_create {date : String}
    (h : create disk root date topic = some (record, disk')) : record ∈ disk'.dirs := by
  obtain ⟨sequence, route, -, -, rfl, rfl⟩ := create_eq_some h
  exact Disk.mem_createDirAll.mpr (.inr (.inr (foldl_mem_scanl Path.enter root _ _)))

theorem Disk.Sound.create {date : String} (hs : disk.Sound)
    (h : create disk root date topic = some (record, disk')) : disk'.Sound := by
  obtain ⟨sequence, route, -, -, -, rfl⟩ := create_eq_some h
  exact (hs.createDirAll _ _).createDirAll _ _

theorem mem_dirs_of_latest (h : latest disk root = some record) : record ∈ disk.dirs := by
  obtain ⟨name, hn, rfl⟩ := Option.map_eq_some_iff.mp h
  exact Disk.mem_names.mp (List.max?_mem hn)

end Names

/-! ### Histories -/

/-- The last execution that appended to a record. -/
def lastWriter (past : List Execution) (record : Path) : Option Execution :=
  past.findRev? fun e => e.record = record && !e.results.isEmpty

/-- Every entry of every journal is under the identity of the last execution that appended to
it. -/
def OneIdentity (disk : Disk) (past : List Execution) : Prop :=
  ∀ record, ∀ x ∈ disk.journal record,
    ∃ e, lastWriter past record = some e ∧ x.evidenceIdentity = e.identity

/-- The topic does not go back behind the name of its record. -/
def Arguments.Plain (arguments : Arguments) : Prop := ".." ∉ (components arguments.topic).tail

instance (arguments : Arguments) : Decidable arguments.Plain :=
  inferInstanceAs (Decidable (".." ∉ (components arguments.topic).tail))

section Histories
variable {repository : Path} {disk : Disk} {inv : Invocation} {e : Execution}
  {past : List Execution}

theorem lastWriter_concat (past : List Execution) (e : Execution) (record : Path) :
    lastWriter (past ++ [e]) record =
      if e.record = record ∧ e.results ≠ [] then some e else lastWriter past record := by
  simp only [lastWriter, List.findRev?_eq_find?_reverse, List.reverse_append,
    List.reverse_singleton, List.singleton_append, List.find?_cons]
  by_cases h : e.record = record ∧ e.results ≠ []
  · have hp : (decide (e.record = record) && !e.results.isEmpty) = true := by
      simpa using h
    rw [hp, if_pos h]
  · have hp : (decide (e.record = record) && !e.results.isEmpty) = false := by
      simpa using h
    rw [hp, if_neg h]

/-- Where an invocation appends, there is nothing, or everything is under its identity. -/
theorem OneIdentity.selected (h : OneIdentity disk past) (hs : disk.Sound)
    (hp : inv.arguments.Plain) {disk' : Disk} {resuming : Bool} {record : Path}
    (hsel : inv.select repository disk = some (record, disk', resuming)) :
    ∀ x ∈ disk.journal record, x.evidenceIdentity = inv.identity.digest := by
  intro x hx
  cases selects_of_selectRecord hsel with
  | creates _ _ hc =>
      have hin := hs.present record fun hnil => by rw [hnil] at hx; cases hx
      exact absurd hin (record_notMem_of_create hs hp hc)
  | resumes _ hl hi =>
      -- the last entry has the identity of the invocation, and `x` that of the last entry
      have hne : disk.journal record ≠ [] := List.ne_nil_of_mem hx
      have hrec : recordedIdentity (disk.journal record) =
          some ((disk.journal record).getLast hne).evidenceIdentity := by
        rw [recordedIdentity, List.getLast?_eq_getLast_of_ne_nil hne]
        rfl
      obtain ⟨e, he, hxe⟩ := h record x hx
      obtain ⟨e', he', hlast⟩ := h record _ (List.getLast_mem hne)
      cases he.symm.trans he'
      rw [hxe, ← hlast]
      exact hi _ hrec

/-- **One invocation keeps the identities apart.** -/
theorem OneIdentity.invoke (h : OneIdentity disk past) (hs : disk.Sound)
    (hp : inv.arguments.Plain) :
    OneIdentity (invoke repository disk inv).1
      (past ++ (Validation.invoke repository disk inv).2.toList) := by
  rcases invoke_cases repository disk inv with hn | ⟨e, resuming, he, hi, happ⟩
  · rw [hn]
    simpa using h
  · rw [he]
    intro record x hx
    rw [happ] at hx
    rw [Option.toList_some, lastWriter_concat]
    by_cases hw : e.record = record ∧ e.results ≠ []
    · rw [if_pos hw]
      refine ⟨e, rfl, ?_⟩
      obtain ⟨rfl, -⟩ := hw
      obtain ⟨disk', hsel, -⟩ := hi.selected
      rw [hi.identity]
      rcases List.mem_append.mp hx with hx | hx
      · exact h.selected hs hp hsel x hx
      · rw [written_self, Execution.recorded, List.map_map] at hx
        obtain ⟨r, hr, rfl⟩ := List.mem_map.mp hx
        exact hi.appends.identity r hr
    · rw [if_neg hw]
      have hnone : written [e] record = [] := by
        by_cases hrec : e.record = record
        · have hnil : e.results = [] := not_not.mp fun hne => hw ⟨hrec, hne⟩
          subst hrec
          rw [written_self, Execution.recorded, hnil]
          rfl
        · exact written_of_ne hrec
      rw [hnone, List.map_nil, List.append_nil] at hx
      exact h record x hx

theorem Disk.Sound.invoke (hs : disk.Sound) (repository : Path) (inv : Invocation) :
    (invoke repository disk inv).1.Sound := by
  rcases invoke_cases repository disk inv with hn | ⟨e, resuming, -, hi, happ⟩
  · rw [hn]
    exact hs
  · obtain ⟨disk', hsel, hdirs⟩ := hi.selected
    have hsound : disk'.Sound ∧ e.record ∈ disk'.dirs := by
      cases selects_of_selectRecord hsel with
      | creates _ _ hc => exact ⟨hs.create hc, mem_dirs_of_create hc⟩
      | resumes _ hl _ => exact ⟨hs, mem_dirs_of_latest hl⟩
    have hjournal : disk'.journal = disk.journal := (selects_of_selectRecord hsel).journal
    refine ⟨?_, fun p hp => ?_⟩
    · rw [hdirs]
      exact hsound.1.closed
    · rw [hdirs]
      by_cases hrec : e.record = p
      · exact hrec ▸ hsound.2
      · rw [happ, written_of_ne hrec, List.map_nil, List.append_nil, ← hjournal] at hp
        exact hsound.1.present p hp

end Histories

/-- **A record never mixes evidence identities**, in every history whose topics do not go back
behind the names of their records: each entry of each journal is under the identity of the last
execution that appended to it. -/
theorem record_one_identity (repository : Path) (history : List Invocation)
    (hplain : ∀ inv ∈ history, inv.arguments.Plain) :
    OneIdentity (after repository history) (performed repository history) := by
  have hall : (after repository history).Sound ∧
      OneIdentity (after repository history) (performed repository history) := by
    induction history using List.reverseRecOn with
    | nil => exact ⟨⟨List.forall_mem_nil _, fun _ h => absurd rfl h⟩, fun _ _ hx => nomatch hx⟩
    | append_singleton history inv ih =>
        obtain ⟨hbefore, hlast⟩ := List.forall_mem_append.mp hplain
        obtain ⟨hs, ho⟩ := ih hbefore
        rw [after_concat, performed_concat]
        exact ⟨hs.invoke repository inv,
          ho.invoke hs (hlast inv (List.mem_singleton.mpr rfl))⟩
  exact hall.2

/-- A campaign of one segment that passes, on the given revision. -/
def devRun (topic revision : String) (resume : Bool) : Invocation :=
  { arguments := ⟨.dev, topic, resume⟩
    subjectRevision := revision
    toolchain := "rustc 1.98.0"
    target := "aarch64-apple-darwin"
    date := ⟨2026, 9, 15⟩
    segments := [⟨"unit-tests", none, [⟨"cargo", ["test", "--workspace"]⟩]⟩]
    treeState := .clean
    answers := [⟨true, [.exited (some 0)]⟩]
    finishes := true }

/-- Two revisions: the second asks to resume and gets a record of its own, with a topic that has a
separator in it. -/
theorem record_one_identity_two :
    OneIdentity
      (after ["rp1"] [devRun "repository" "a3d13ed" false, devRun "wire/decoder" "b1c0ffe" true])
      (performed ["rp1"]
        [devRun "repository" "a3d13ed" false, devRun "wire/decoder" "b1c0ffe" true]) ∧
    ((after ["rp1"] [devRun "repository" "a3d13ed" false,
      devRun "wire/decoder" "b1c0ffe" true]).journal
        ["rp1", "runs", "dev", "2026-09-15-02-wire", "decoder"]).length = 1 :=
  ⟨record_one_identity _ _ (by decide +kernel), by decide +kernel⟩

/-- **Two identities in one record.**  The second campaign does not resume and has a name of its
own, but the topic leads from there back into the record of the first. -/
theorem record_mixes :
    ((after ["rp1"] [devRun "repository" "a3d13ed" false,
        devRun "x/../2026-09-15-01-repository" "b1c0ffe" false]).journal
      ["rp1", "runs", "dev", "2026-09-15-01-repository"]).map JournalEntry.evidenceIdentity =
        [(devRun "repository" "a3d13ed" false).identity.digest,
          (devRun "repository" "b1c0ffe" false).identity.digest] ∧
    (devRun "repository" "a3d13ed" false).identity.digest ≠
      (devRun "repository" "b1c0ffe" false).identity.digest ∧
    ¬ OneIdentity
      (after ["rp1"] [devRun "repository" "a3d13ed" false,
        devRun "x/../2026-09-15-01-repository" "b1c0ffe" false])
      (performed ["rp1"] [devRun "repository" "a3d13ed" false,
        devRun "x/../2026-09-15-01-repository" "b1c0ffe" false]) := by
  have hids : ((after ["rp1"] [devRun "repository" "a3d13ed" false,
        devRun "x/../2026-09-15-01-repository" "b1c0ffe" false]).journal
      ["rp1", "runs", "dev", "2026-09-15-01-repository"]).map JournalEntry.evidenceIdentity =
        [(devRun "repository" "a3d13ed" false).identity.digest,
          (devRun "repository" "b1c0ffe" false).identity.digest] := by decide +kernel
  have hne : (devRun "repository" "a3d13ed" false).identity.digest ≠
      (devRun "repository" "b1c0ffe" false).identity.digest := by decide +kernel
  refine ⟨hids, hne, fun h => hne ?_⟩
  have hone := h ["rp1", "runs", "dev", "2026-09-15-01-repository"]
  generalize (after _ _).journal _ = journal at hids hone
  obtain ⟨x, rest, rfl, hx, hrest⟩ := List.map_eq_cons_iff.mp hids
  obtain ⟨y, rest, rfl, hy, -⟩ := List.map_eq_cons_iff.mp hrest
  obtain ⟨e, he, hxe⟩ := hone x (by simp)
  obtain ⟨e', he', hye⟩ := hone y (by simp)
  cases he.symm.trans he'
  rw [← hx, ← hy, hxe, hye]

end Rp1.Validation

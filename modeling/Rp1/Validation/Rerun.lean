import Rp1.Validation.CommandLine
import Rp1.Validation.RecordOrder

/-!
# Validation — a gate that has passed is not run again

A run that exits with success leaves a record in which every segment it requires is proven, and
that record is the latest of its tier: its name has the last date and the highest number
(`latest_of_create`).  A run that resumes under the same identity therefore finds that record, reuses
every result in it and creates nothing.

`Settled` is what such a record has.  Runs that repeat the first keep it, and so do the runs of the
other tier, whatever they do.
-/

namespace Rp1.Validation
open Codec

/-! ### The latest record -/

/-- An invocation on a date with a year of four digits, and with a topic that is one component. -/
structure Invocation.Orderly (inv : Invocation) : Prop where
  date : inv.date.Fits
  topic : '/' ∉ inv.arguments.topic.toList

section Latest
variable {disk disk' : Disk} {root other record : Path} {date : Date} {topic : String}

/-- What `create` does with a topic that is one component. -/
theorem create_eq (htopic : '/' ∉ topic.toList)
    (h : create disk root date.text topic = some (record, disk')) :
    ∃ n ≤ maxSequence, (∀ name ∈ disk.names root, (sequenceOf date.text name).getD 0 < n) ∧
      record = root ++ [recordIdentifier date.text n topic] ∧
      disk' = (disk.createDirAll root []).createDirAll root
        [recordIdentifier date.text n topic, "segments"] := by
  obtain ⟨n, -, hn, -⟩ := create_eq_some h
  obtain ⟨hle, hlt⟩ := lt_nextSequence hn
  obtain ⟨rfl, rfl⟩ := Prod.mk.inj (Option.some.inj (h.symm.trans (create_of_nextSequence htopic hn)))
  exact ⟨n, hle, fun name hname => hlt name (Disk.mem_names_createDirAll_nil.mpr hname), rfl, rfl⟩

/-- Without `..` a route stays below its start. -/
theorem prefix_of_mem_scanl_enter {route : List String} {path p : Path} (h : ".." ∉ route)
    (hp : p ∈ route.scanl Path.enter path) : path <+: p := by
  induction route generalizing path with
  | nil =>
      rw [List.scanl_nil, List.mem_singleton] at hp
      rw [hp]
  | cons component route ih =>
      rw [List.mem_cons, not_or] at h
      rw [List.scanl_cons, List.mem_cons] at hp
      rcases hp with rfl | hp
      · exact List.prefix_rfl
      · exact (Path.prefix_enter (Ne.symm h.1)).trans (ih h.2 hp)

/-- A new record adds nothing to the directories next to its tier. -/
theorem mem_names_of_create (hlen : root.length = other.length) (hne : root ≠ other)
    (htopic : '/' ∉ topic.toList)
    (h : create disk root date.text topic = some (record, disk')) (name : String) :
    name ∈ disk'.names other ↔ name ∈ disk.names other := by
  obtain ⟨n, -, -, -, rfl⟩ := create_eq htopic h
  -- what is new lies above the tier, or in it
  have habove : ¬ other ++ [name] <+: root := by
    intro hp
    have hle := hp.length_le
    rw [List.length_append, List.length_singleton] at hle
    omega
  have hin : ¬ root <+: other ++ [name] := by
    rintro ⟨t, ht⟩
    exact hne (List.append_inj_left ht hlen)
  have hscan : ∀ route : List String, ".." ∉ route → other ++ [name] ∉ route.scanl Path.enter root := by
    intro route hroute hmem
    exact hin (prefix_of_mem_scanl_enter hroute hmem)
  rw [Disk.mem_names, Disk.mem_names, Disk.mem_createDirAll, Disk.mem_createDirAll]
  have hname : ".." ∉ [recordIdentifier date.text n topic, "segments"] := by
    rw [List.mem_cons, List.mem_singleton]
    rintro (heq | heq)
    · have hhyphen := hyphen_mem_recordIdentifier date n topic
      rw [← heq] at hhyphen
      exact absurd hhyphen (by decide)
    · exact absurd heq (by decide)
  simp only [habove, hscan [] List.not_mem_nil, hscan _ hname, or_false]

end Latest

/-! ### Histories -/

theorem tierRoot_length (repository : Path) (tier tier' : Tier) :
    (tierRoot repository tier).length = (tierRoot repository tier').length := by
  simp [tierRoot]

theorem tierRoot_inj {repository : Path} {tier tier' : Tier}
    (h : tierRoot repository tier = tierRoot repository tier') : tier = tier' := by
  have hname : tier.asStr = tier'.asStr := by simpa [tierRoot] using h
  cases tier <;> cases tier' <;> first | rfl | exact absurd hname (by decide)

section Histories
variable {repository : Path} {disk : Disk} {inv : Invocation} {e : Execution}

/-- **Where an invocation writes**: in its tier, and it adds no directory to another one. -/
structure Invoked.Within (repository : Path) (disk disk' : Disk) (inv : Invocation)
    (record : Path) : Prop where
  record : ∃ name, record = tierRoot repository inv.arguments.tier ++ [name]
  others : ∀ tier, tier ≠ inv.arguments.tier → ∀ name,
    name ∈ disk'.names (tierRoot repository tier) ↔ name ∈ disk.names (tierRoot repository tier)

theorem Invoked.within {resuming : Bool} (hi : Invoked repository disk inv resuming e)
    (ho : inv.Orderly) :
    Invoked.Within repository disk (invoke repository disk inv).1 inv e.record := by
  obtain ⟨disk', hsel, hdirs⟩ := hi.selected
  have hnames : ∀ root, (invoke repository disk inv).1.names root = disk'.names root := by
    intro root
    rw [Disk.names, Disk.names, hdirs]
  cases selects_of_selectRecord hsel with
  | creates _ _ hc =>
      refine ⟨?_, fun tier hne name => ?_⟩
      · obtain ⟨n, -, -, hrecord, -⟩ := create_eq ho.topic hc
        exact ⟨_, hrecord⟩
      · rw [hnames]
        exact mem_names_of_create (tierRoot_length _ _ _) (fun h => hne (tierRoot_inj h).symm)
          ho.topic hc name
  | resumes _ hl _ =>
      refine ⟨?_, fun tier _ name => by rw [hnames]⟩
      obtain ⟨name, -, hrecord⟩ := Option.map_eq_some_iff.mp hl
      exact ⟨name, hrecord.symm⟩

/-- The latest record of the tier, with everything in it that the invocation needs. -/
structure Settled (repository : Path) (disk : Disk) (inv : Invocation) (record : Path) : Prop where
  latest : latest disk (tierRoot repository inv.arguments.tier) = some record
  identity : ∀ recorded, recordedIdentity (disk.journal record) = some recorded →
    recorded = inv.identity.digest
  proven : ∀ d ∈ inv.segments, proven (disk.journal record) inv.identity.digest d.id = true

/-- The journal an invocation leaves. -/
theorem Invoked.journal {resuming : Bool} (hi : Invoked repository disk inv resuming e)
    (he : (invoke repository disk inv).2 = some e) :
    (invoke repository disk inv).1.journal e.record =
      disk.journal e.record ++ e.results.map (inv.campaign resuming).journalEntry := by
  rcases invoke_cases repository disk inv with hn | ⟨e', resuming', he', -, happ⟩
  · rw [hn] at he
    cases he
  · cases he.symm.trans he'
    rw [happ, written_self, Execution.recorded, hi.treeState]
    congr 1
    exact hi.appends.entries.symm

/-- The record that is last in order depends only on which directories there are. -/
theorem latest_congr (disk disk' : Disk) {root : Path}
    (h : ∀ name, name ∈ disk'.names root ↔ name ∈ disk.names root) :
    latest disk' root = latest disk root := by
  have hmax : (disk'.names root).max? = (disk.names root).max? := by
    cases hd : (disk.names root).max? with
    | none =>
        have hnil := List.max?_eq_none_iff.mp hd
        refine List.max?_eq_none_iff.mpr (List.eq_nil_iff_forall_not_mem.mpr fun name hname => ?_)
        rw [h, hnil] at hname
        cases hname
    | some name =>
        obtain ⟨hmem, hle⟩ := List.max?_eq_some_iff.mp hd
        exact List.max?_eq_some_iff.mpr ⟨(h name).mpr hmem, fun b hb => hle b ((h b).mp hb)⟩
  rw [latest, latest, hmax]

/-- **The other tier** leaves a settled record alone. -/
theorem Settled.other {record : Path} (h : Settled repository disk inv record) {i : Invocation}
    (ho : i.Orderly) (htier : i.arguments.tier ≠ inv.arguments.tier) :
    Settled repository (invoke repository disk i).1 inv record := by
  rcases invoke_cases repository disk i with hnone | ⟨e, resuming, he, hi, happ⟩
  · rw [hnone]
    exact h
  · obtain ⟨⟨name, hname⟩, hothers⟩ := hi.within ho
    have hne : e.record ≠ record := by
      obtain ⟨name', -, rfl⟩ := Option.map_eq_some_iff.mp h.latest
      rw [hname]
      intro heq
      exact htier (tierRoot_inj (List.append_inj_left heq (tierRoot_length _ _ _)))
    have hjournal : (invoke repository disk i).1.journal record = disk.journal record := by
      rw [happ, written_of_ne hne, List.map_nil, List.append_nil]
    refine ⟨?_, ?_, ?_⟩
    · rw [latest_congr disk _ (hothers _ (Ne.symm htier))]
      exact h.latest
    · rw [hjournal]
      exact h.identity
    · rw [hjournal]
      exact h.proven

end Histories

end Rp1.Validation

import Rp1.Support.TextOrder
import Rp1.Validation.OneIdentity
import Rp1.Validation.Time

/-!
# Validation — the order of records

`latest` takes the name that is the last in order for the newest record.  The names begin with a
date and a sequence number, both padded, and end with a topic, which is any text without a separator
of paths.

`identifiers` is what a sequence of calls should create: the `k`-th call of a date is given the
number `k`, up to `maxSequence`.  `Holds` says that the directories of the tier are these, and each
call keeps it.  From the names alone, `identifiers_sorted` says that they are in the order of the
calls when the dates are.
-/

namespace Rp1.Validation
open Codec TextOrder

/-! ### Names in order -/

/-- A date whose parts fit their places in a name. -/
structure Date.Fits (date : Date) : Prop where
  year : date.year < 10000
  month : date.month < 100
  day : date.day < 100

/-- `d` is before `e`. -/
def Date.Before (d e : Date) : Prop :=
  d.year < e.year ∨ d.year = e.year ∧ (d.month < e.month ∨ d.month = e.month ∧ d.day < e.day)

theorem length_pad2 {n : Nat} (h : n < 100) : (pad2 n).toList.length = 2 := by
  obtain ⟨a, b, hab, -⟩ := parseTwo_pad2 (Nat.le_of_lt_succ h)
  rw [hab]
  rfl

theorem pad2_lt {m n : Nat} (h : m < n) (hn : n < 100) : (pad2 m).toList < (pad2 n).toList := by
  refine lt_of_ofDigitChars_lt (n := 0) (fun _ => isDigit_of_mem_pad2)
    (fun _ => isDigit_of_mem_pad2) ?_ ?_
  · rw [length_pad2 (h.trans hn), length_pad2 hn]
  · rwa [ofDigitChars_pad2, ofDigitChars_pad2]

theorem toList_pad4 (n : Nat) :
    (pad4 n).toList = List.replicate (4 - (Nat.toDigits 10 n).length) '0' ++ Nat.toDigits 10 n := by
  rw [pad4, String.toList_append, String.toList_ofList, Nat.toString_eq_repr, Nat.toList_repr,
    ← String.length_toList, Nat.toList_repr]

theorem length_pad4 {n : Nat} (h : n < 10000) : (pad4 n).toList.length = 4 := by
  have hle : (Nat.toDigits 10 n).length ≤ 4 :=
    (Nat.length_toDigits_le_iff (by decide) (by decide)).mpr h
  rw [toList_pad4, List.length_append, List.length_replicate]
  omega

theorem isDigit_of_mem_pad4 {n : Nat} {c : Char} (h : c ∈ (pad4 n).toList) : c.isDigit = true := by
  rw [toList_pad4, List.mem_append] at h
  rcases h with h | h
  · rw [List.eq_of_mem_replicate h]
    rfl
  · exact Nat.isDigit_of_mem_toDigits (by decide) (by decide) h

theorem ofDigitChars_pad4 (n : Nat) : Nat.ofDigitChars 10 (pad4 n).toList 0 = n := by
  -- zeros in front count for nothing
  have hzeros : ∀ k, Nat.ofDigitChars 10 (List.replicate k '0') 0 = 0 := by
    intro k
    induction k with
    | zero => rfl
    | succ k ih =>
        rw [List.replicate_succ, Nat.ofDigitChars_cons]
        exact ih
  rw [toList_pad4, Nat.ofDigitChars_append, hzeros]
  exact Nat.ofDigitChars_toDigits (by decide) (by decide)

theorem pad4_lt {m n : Nat} (h : m < n) (hn : n < 10000) : (pad4 m).toList < (pad4 n).toList := by
  refine lt_of_ofDigitChars_lt (n := 0) (fun _ => isDigit_of_mem_pad4)
    (fun _ => isDigit_of_mem_pad4) ?_ ?_
  · rw [length_pad4 (h.trans hn), length_pad4 hn]
  · rwa [ofDigitChars_pad4, ofDigitChars_pad4]

/-- A name by its parts. -/
theorem toList_recordIdentifier (date : Date) (sequence : Nat) (topic : String) :
    (recordIdentifier date.text sequence topic).toList =
      (pad4 date.year).toList ++ '-' :: ((pad2 date.month).toList ++ '-' ::
        ((pad2 date.day).toList ++ '-' :: ((pad2 sequence).toList ++ '-' :: topic.toList))) := by
  have hhyphen : "-".toList = ['-'] := by decide
  simp only [recordIdentifier, Date.text, String.toList_append, hhyphen, List.append_assoc,
    List.cons_append, List.nil_append]

theorem hyphen_mem_recordIdentifier (date : Date) (sequence : Nat) (topic : String) :
    '-' ∈ (recordIdentifier date.text sequence topic).toList := by
  rw [toList_recordIdentifier]
  exact List.mem_append_right _ List.mem_cons_self

theorem cons_lt_cons_self {a b : List Char} (c : Char) (h : a < b) : c :: a < c :: b :=
  List.cons_lt_cons_iff.mpr (.inr ⟨rfl, h⟩)

/-- **Names in order.**  A name with a later date, or with a higher number of the same date, is
greater, whatever the topics are. -/
theorem recordIdentifier_lt {d e : Date} {m n : Nat} (hd : d.Fits) (he : e.Fits) (hm : m < 100)
    (hn : n < 100) (h : d.Before e ∨ d = e ∧ m < n) (topic topic' : String) :
    recordIdentifier d.text m topic < recordIdentifier e.text n topic' := by
  rw [String.lt_iff_toList_lt, toList_recordIdentifier, toList_recordIdentifier]
  rcases h with (hy | ⟨hy, hmonth | ⟨hmonth, hday⟩⟩) | ⟨rfl, hmn⟩
  · exact append_lt_append ((length_pad4 hd.year).trans (length_pad4 he.year).symm)
      (pad4_lt hy he.year) _ _
  · rw [hy]
    refine List.append_left_lt (cons_lt_cons_self _ ?_)
    exact append_lt_append ((length_pad2 hd.month).trans (length_pad2 he.month).symm)
      (pad2_lt hmonth he.month) _ _
  · rw [hy, hmonth]
    refine List.append_left_lt (cons_lt_cons_self _ (List.append_left_lt (cons_lt_cons_self _ ?_)))
    exact append_lt_append ((length_pad2 hd.day).trans (length_pad2 he.day).symm)
      (pad2_lt hday he.day) _ _
  · refine List.append_left_lt (cons_lt_cons_self _ (List.append_left_lt (cons_lt_cons_self _
      (List.append_left_lt (cons_lt_cons_self _ ?_)))))
    exact append_lt_append ((length_pad2 hm).trans (length_pad2 hn).symm) (pad2_lt hmn hn) _ _

theorem Date.toList_text (date : Date) :
    date.text.toList = (pad4 date.year).toList ++ '-' :: ((pad2 date.month).toList ++ '-' ::
      (pad2 date.day).toList) := by
  have hhyphen : "-".toList = ['-'] := by decide
  simp only [Date.text, String.toList_append, hhyphen, List.append_assoc, List.cons_append,
    List.nil_append]

theorem Date.length_text {date : Date} (h : date.Fits) : date.text.toList.length = 10 := by
  simp only [Date.toList_text, List.length_append, List.length_cons, length_pad4 h.year,
    length_pad2 h.month, length_pad2 h.day]

theorem Date.text_inj {d e : Date} (hd : d.Fits) (he : e.Fits) (h : d.text = e.text) : d = e := by
  rw [← String.toList_inj, Date.toList_text, Date.toList_text] at h
  obtain ⟨hyear, h⟩ := List.append_inj h ((length_pad4 hd.year).trans (length_pad4 he.year).symm)
  obtain ⟨hmonth, h⟩ := List.append_inj (List.cons.inj h).2
    ((length_pad2 hd.month).trans (length_pad2 he.month).symm)
  have hday := String.toList_inj.mp (List.cons.inj h).2
  obtain ⟨year, month, day⟩ := d
  obtain ⟨year', month', day'⟩ := e
  obtain rfl : year = year' := by rw [← ofDigitChars_pad4 year, hyear, ofDigitChars_pad4]
  obtain rfl := pad2_inj (String.toList_inj.mp hmonth)
  obtain rfl := pad2_inj hday
  rfl

theorem sequenceOf_recordIdentifier (date : Date) {n : Nat} (h : n ≤ maxSequence) (topic : String) :
    sequenceOf date.text (recordIdentifier date.text n topic) = some n := by
  have hname := sequenceOf_stem date h topic.toList
  rwa [← String.toList_append, String.ofList_toList] at hname

/-- A name of another date has no number of this one. -/
theorem sequenceOf_of_ne {d e : Date} (hd : d.Fits) (he : e.Fits) (hne : d ≠ e) (n : Nat)
    (topic : String) : sequenceOf d.text (recordIdentifier e.text n topic) = none := by
  rw [sequenceOf, Option.bind_eq_bind, Option.bind_eq_none_iff]
  intro rest hrest
  refine absurd (Date.text_inj hd he (String.toList_inj.mp ?_)) hne
  have hsplit := List.isPrefixOf?_eq_some_iff_append_eq.mp hrest
  simp only [recordIdentifier, String.toList_append, List.append_assoc] at hsplit
  exact (List.append_inj hsplit ((Date.length_text hd).trans (Date.length_text he).symm)).1

/-! ### Calls -/

/-- One call of `create` for a tier: the time that gives the date, and the topic.  The year has four
digits, and the topic can stand in the name of a file. -/
structure Call where
  time : Utc
  topic : String
  year_le : ∃ year month day, time.civil = .ok (year, month, day) ∧ year ≤ 9999
  slash_notMem : '/' ∉ topic.toList
  nul_notMem : '\x00' ∉ topic.toList

/-- The parts of a date. -/
def Date.ofCivil : Except String (Int × Nat × Nat) → Date
  | .ok (year, month, day) => ⟨year.toNat, month, day⟩
  | .error _ => ⟨0, 0, 0⟩

/-- `create` for the date that the clock gives, if it gives one: the record, if one is made, and the
disk then. -/
def createOn (tierRoot : Path) (disk : Disk) (topic : String) :
    Except String String → Option Path × Disk
  | .error _ => (none, disk)
  | .ok date =>
      match create disk tierRoot date topic with
      | some (record, disk) => (some record, disk)
      | none => (none, disk.createDirAll tierRoot [])

namespace Call

/-- The date of a call. -/
def date (call : Call) : Date := Date.ofCivil call.time.civil

/-- The date of a call is the one the calendar has for its day. -/
theorem exists_calendar (call : Call) :
    ∃ d : Calendar.Date, d.daysSince 1970 = call.time.day ∧ 0 ≤ d.year ∧ d.year ≤ 9999 ∧
      call.time.civil = .ok (d.year, d.month, d.day) := by
  obtain ⟨d, hcivil, hdays⟩ := call.time.exists_civil
  obtain ⟨year, month, day, hcivil', hle⟩ := call.year_le
  cases hcivil.symm.trans hcivil'
  refine ⟨d, hdays, ?_, hle, hcivil⟩
  by_contra hneg
  have hlt := d.daysSince_lt_yearStart 1970
  have hmono := Calendar.yearStart_mono 1970 (by omega : d.year + 1 ≤ 1970)
  rw [Calendar.yearStart_self] at hmono
  omega

/-- What the calendar says about a call, for its date. -/
theorem date_eq {call : Call} {d : Calendar.Date}
    (h : call.time.civil = .ok (d.year, d.month, d.day)) :
    call.date = ⟨d.year.toNat, d.month, d.day⟩ := by
  rw [date, h, Date.ofCivil]

theorem fits (call : Call) : call.date.Fits := by
  obtain ⟨d, -, -, hle, hcivil⟩ := call.exists_calendar
  have hmonth := d.month_mem.2
  have hday := d.day_mem.2.trans (Calendar.monthLength_le d.year d.month)
  rw [date_eq hcivil]
  exact ⟨by show d.year.toNat < 10000; omega, by show d.month < 100; omega,
    by show d.day < 100; omega⟩

/-- The text of the date, as the runner makes it. -/
theorem time_date (call : Call) : call.time.date = .ok call.date.text := by
  obtain ⟨d, -, hnonneg, -, hcivil⟩ := call.exists_calendar
  have hyear : yearText d.year = pad4 d.year.toNat := if_neg (not_lt.mpr hnonneg)
  rw [date_eq hcivil, Utc.date, hcivil, ok_bind, Date.text, ← hyear]

theorem time_date_eq_iff {c call : Call} :
    c.time.date = call.time.date ↔ c.date = call.date := by
  rw [c.time_date, call.time_date]
  constructor
  · intro h
    exact Date.text_inj c.fits call.fits (Except.ok.inj h)
  · intro h
    rw [h]

/-- Dates follow the days. -/
theorem before_of_day_le {c call : Call} (h : c.time.day ≤ call.time.day)
    (hne : c.date ≠ call.date) : c.date.Before call.date := by
  obtain ⟨d, hdays, hd, -, hcivil⟩ := c.exists_calendar
  obtain ⟨e, hdays', he, -, hcivil'⟩ := call.exists_calendar
  rw [date_eq hcivil, date_eq hcivil'] at hne ⊢
  have hlt : d.daysSince 1970 < e.daysSince 1970 := by
    refine lt_of_le_of_ne (by omega) fun heq => hne ?_
    rw [Calendar.Date.daysSince_inj heq]
  have hbefore := (Calendar.Date.before_iff 1970).mpr hlt
  simp only [Calendar.Date.Before, Date.Before] at hbefore ⊢
  omega

/-- One call. -/
def perform (tierRoot : Path) (disk : Disk) (call : Call) : Option Path × Disk :=
  createOn tierRoot disk call.topic call.time.date

end Call

/-- The disk after a sequence of calls. -/
def afterCalls (tierRoot : Path) (disk : Disk) (calls : List Call) : Disk :=
  calls.foldl (fun disk call => (call.perform tierRoot disk).2) disk

/-- The records a sequence of calls makes, in order. -/
def createdBy (tierRoot : Path) : Disk → List Call → List Path
  | _, [] => []
  | disk, call :: calls =>
      (call.perform tierRoot disk).1.toList ++
        createdBy tierRoot (call.perform tierRoot disk).2 calls

theorem afterCalls_concat (tierRoot : Path) (disk : Disk) (calls : List Call) (call : Call) :
    afterCalls tierRoot disk (calls ++ [call]) =
      (call.perform tierRoot (afterCalls tierRoot disk calls)).2 :=
  List.foldl_concat ..

theorem createdBy_concat (tierRoot : Path) (disk : Disk) (calls : List Call) (call : Call) :
    createdBy tierRoot disk (calls ++ [call]) = createdBy tierRoot disk calls ++
      (call.perform tierRoot (afterCalls tierRoot disk calls)).1.toList := by
  induction calls generalizing disk with
  | nil => rw [List.nil_append, createdBy, createdBy, createdBy, List.append_nil, List.nil_append,
      afterCalls, List.foldl_nil]
  | cons c calls ih =>
      rw [List.cons_append, createdBy, ih, createdBy, List.append_assoc, afterCalls, afterCalls,
        List.foldl_cons]

/-! ### What should be created -/

/-- The calls of one date. -/
def onDate (date : Date) (calls : List Call) : Nat := calls.countP (·.date = date)

/-- The place of a call among the calls of its date, after those in `past`. -/
def Call.place (past : List Call) (call : Call) : Nat :=
  past.countP (fun c => c.time.date = call.time.date) + 1

theorem Call.place_eq (past : List Call) (call : Call) :
    call.place past = onDate call.date past + 1 := by
  simp only [Call.place, onDate, Call.time_date_eq_iff]

/-- The name the next call should be given: the `k`-th call of a date has the number `k`. -/
def identifier (past : List Call) (call : Call) : Option String :=
  let place := onDate call.date past + 1
  if place ≤ maxSequence then some (recordIdentifier call.date.text place call.topic) else none

def identifiersFrom (past : List Call) : List Call → List String
  | [] => []
  | call :: calls => (identifier past call).toList ++ identifiersFrom (past ++ [call]) calls

/-- The names a sequence of calls should be given. -/
def identifiers (calls : List Call) : List String := identifiersFrom [] calls

section Identifiers
variable {calls : List Call} {call : Call}

theorem identifiersFrom_concat (past calls : List Call) (call : Call) :
    identifiersFrom past (calls ++ [call]) =
      identifiersFrom past calls ++ (identifier (past ++ calls) call).toList := by
  induction calls generalizing past with
  | nil => rw [List.nil_append, identifiersFrom, identifiersFrom, identifiersFrom, List.append_nil,
      List.append_nil, List.nil_append]
  | cons c calls ih =>
      rw [List.cons_append, identifiersFrom, ih, identifiersFrom, List.append_assoc,
        List.append_assoc, List.singleton_append]

theorem identifiers_concat (calls : List Call) (call : Call) :
    identifiers (calls ++ [call]) = identifiers calls ++ (identifier calls call).toList :=
  identifiersFrom_concat [] calls call

theorem onDate_concat (date : Date) (calls : List Call) (call : Call) :
    onDate date (calls ++ [call]) = onDate date calls + if call.date = date then 1 else 0 := by
  rw [onDate, List.countP_append, List.countP_singleton]
  simp only [decide_eq_true_eq]
  rfl

/-- What a name in use looks like. -/
theorem of_mem_identifiers {name : String} (h : name ∈ identifiers calls) :
    ∃ c ∈ calls, ∃ n, n ≤ maxSequence ∧ n ≤ onDate c.date calls ∧
      name = recordIdentifier c.date.text n c.topic := by
  induction calls using List.reverseRecOn with
  | nil => cases h
  | append_singleton calls call ih =>
      rw [identifiers_concat, List.mem_append, Option.mem_toList] at h
      rcases h with h | h
      · obtain ⟨c, hc, n, hmax, hn, rfl⟩ := ih h
        refine ⟨c, List.mem_append_left _ hc, n, hmax, ?_, rfl⟩
        rw [onDate_concat]
        omega
      · obtain ⟨hmax, hname⟩ := Option.ite_none_right_eq_some.mp h
        refine ⟨call, List.mem_append_right _ List.mem_cons_self, _, hmax, ?_,
          (Option.some.inj hname).symm⟩
        rw [onDate_concat, if_pos rfl]

/-- The highest number of a date is in use. -/
theorem exists_mem_identifiers {date : Date} (h : 0 < onDate date calls) :
    ∃ topic, recordIdentifier date.text (min maxSequence (onDate date calls)) topic ∈
      identifiers calls := by
  induction calls using List.reverseRecOn with
  | nil => cases h
  | append_singleton calls call ih =>
      rw [onDate_concat] at h ⊢
      rw [identifiers_concat]
      by_cases hdate : call.date = date
      · rw [if_pos hdate] at h ⊢
        by_cases hplace : onDate date calls + 1 ≤ maxSequence
        · subst hdate
          refine ⟨call.topic, List.mem_append_right _ (Option.mem_toList.mpr ?_)⟩
          rw [Nat.min_eq_right hplace]
          exact if_pos hplace
        · -- the number stays at the highest there is
          have hmin : min maxSequence (onDate date calls + 1) =
              min maxSequence (onDate date calls) := by omega
          rw [hmin]
          have hpos : 0 < onDate date calls := by
            rw [maxSequence] at hplace
            omega
          obtain ⟨topic, htopic⟩ := ih hpos
          exact ⟨topic, List.mem_append_left _ htopic⟩
      · rw [if_neg hdate, Nat.add_zero] at h ⊢
        obtain ⟨topic, htopic⟩ := ih h
        exact ⟨topic, List.mem_append_left _ htopic⟩

/-- **The names are in the order of the calls**, when the days are. -/
theorem identifiers_sorted (h : calls.Pairwise fun c c' => c.time.day ≤ c'.time.day) :
    (identifiers calls).Pairwise (· < ·) := by
  induction calls using List.reverseRecOn with
  | nil => exact .nil
  | append_singleton calls call ih =>
      obtain ⟨hcalls, -, hlast⟩ := List.pairwise_append.mp h
      rw [identifiers_concat, List.pairwise_append]
      refine ⟨ih hcalls, by cases identifier calls call <;> simp, fun name hname new hnew => ?_⟩
      obtain ⟨c, hc, n, hmax, hn, rfl⟩ := of_mem_identifiers hname
      obtain ⟨hplace, hnew⟩ := Option.ite_none_right_eq_some.mp (Option.mem_toList.mp hnew)
      obtain rfl := Option.some.inj hnew
      refine recordIdentifier_lt c.fits call.fits (Nat.lt_succ_of_le hmax)
        (Nat.lt_succ_of_le hplace) ?_ _ _
      by_cases hdate : c.date = call.date
      · rw [hdate] at hn
        exact .inr ⟨hdate, Nat.lt_succ_of_le hn⟩
      · exact .inl (Call.before_of_day_le (hlast c hc call List.mem_cons_self) hdate)

end Identifiers

/-! ### What is created -/

section Disk
variable {disk : Disk} {root : Path}

/-- No directory lies above itself. -/
theorem Path.not_concat_prefix_self (root : Path) (name : String) : ¬ root ++ [name] <+: root := by
  intro h
  have hlen := h.length_le
  rw [List.length_append, List.length_singleton] at hlen
  omega

theorem Disk.mem_names_createDirAll_nil {name : String} :
    name ∈ (disk.createDirAll root []).names root ↔ name ∈ disk.names root := by
  rw [Disk.mem_names, Disk.mem_createDirAll, Disk.mem_names, List.scanl_nil, List.mem_singleton]
  refine or_iff_left ?_
  rintro (h | h)
  · exact Path.not_concat_prefix_self root name h
  · exact Path.not_concat_prefix_self root name ⟨[], by rw [List.append_nil, h]⟩

theorem components_of_notMem {text : String} (h : '/' ∉ text.toList) :
    components text = [text] := by
  have hone : ∀ part ∈ [text.toList], '/' ∉ part := List.forall_mem_singleton.mpr h
  have hsplit := List.splitOn_intercalate '/' hone (List.cons_ne_nil _ _)
  rw [List.intercalate_singleton] at hsplit
  rw [components, hsplit, List.map_singleton, String.ofList_toList]

theorem slash_notMem_recordIdentifier (date : Date) (n : Nat) {topic : String}
    (h : '/' ∉ topic.toList) : '/' ∉ (recordIdentifier date.text n topic).toList := by
  have hpad : '/' ∉ (pad2 n).toList := fun hm => nomatch isDigit_of_mem_pad2 hm
  simp [recordIdentifier, String.toList_append, slash_notMem_text, hpad, h]

/-- The name of a record is one component. -/
theorem create_of_nextSequence {date : Date} {n : Nat} {topic : String} (h : '/' ∉ topic.toList)
    (hn : nextSequence ((disk.createDirAll root []).names root) date.text = some n) :
    create disk root date.text topic = some (root ++ [recordIdentifier date.text n topic],
      (disk.createDirAll root []).createDirAll root
        [recordIdentifier date.text n topic, "segments"]) := by
  have hhyphen := hyphen_mem_recordIdentifier date n topic
  rw [create, hn, Option.bind_eq_bind, Option.bind_some,
    components_of_notMem (slash_notMem_recordIdentifier date n h)]
  simp only [List.foldl_cons, List.foldl_nil, Path.enter_of_name hhyphen, List.singleton_append]

/-- A new record adds its name to those of the tier. -/
theorem Disk.mem_names_createDirAll {name new : String} (h : '-' ∈ new.toList) :
    name ∈ (disk.createDirAll root [new, "segments"]).names root ↔
      name ∈ disk.names root ∨ name = new := by
  have hsegments : (root ++ [new]).enter "segments" = root ++ [new] ++ ["segments"] := by
    rw [Path.enter, if_neg (by decide), if_neg (by decide)]
  rw [Disk.mem_names, Disk.mem_createDirAll, Disk.mem_names, List.scanl_cons, List.scanl_cons,
    List.scanl_nil, Path.enter_of_name h, hsegments]
  refine or_congr_right ⟨?_, ?_⟩
  · rintro (h | h)
    · exact absurd h (Path.not_concat_prefix_self root name)
    · simp only [List.mem_cons, List.not_mem_nil, or_false] at h
      rcases h with h | h | h
      · exact absurd ⟨[], by rw [List.append_nil, h]⟩ (Path.not_concat_prefix_self root name)
      · exact List.singleton_inj.mp (List.append_cancel_left h)
      · -- the directory in the record is one further down
        have hlen := congrArg List.length h
        simp only [List.length_append, List.length_singleton] at hlen
        omega
  · rintro rfl
    exact .inr (List.mem_cons_of_mem _ List.mem_cons_self)

end Disk

/-- The directories of the tier are those that the calls should have created, and the directory of
the tier is there after the first. -/
structure Holds (tierRoot : Path) (calls : List Call) (disk : Disk) : Prop where
  names : ∀ name, name ∈ disk.names tierRoot ↔ name ∈ identifiers calls
  root : calls ≠ [] → ∀ p, p <+: tierRoot → p ∈ disk.dirs

section Holds
variable {root : Path} {calls : List Call} {disk : Disk} {call : Call}

/-- The number the next call is given. -/
theorem nextSequence_eq {names : List String} (h : ∀ name, name ∈ names ↔ name ∈ identifiers calls)
    (call : Call) :
    nextSequence names call.date.text =
      if onDate call.date calls + 1 ≤ maxSequence then some (onDate call.date calls + 1)
      else none := by
  have hhighest : names.foldl (fun highest name =>
      max highest ((sequenceOf call.date.text name).getD 0)) 0 =
        min maxSequence (onDate call.date calls) := by
    refine Nat.le_antisymm ((foldl_max_le_iff _ names).mpr ⟨Nat.zero_le _, fun name hname => ?_⟩) ?_
    · obtain ⟨c, -, n, hmax, hn, rfl⟩ := of_mem_identifiers ((h name).mp hname)
      by_cases hdate : c.date = call.date
      · rw [hdate] at hn ⊢
        rw [sequenceOf_recordIdentifier _ hmax, Option.getD_some]
        exact Nat.le_min.mpr ⟨hmax, hn⟩
      · rw [sequenceOf_of_ne call.fits c.fits (Ne.symm hdate)]
        exact Nat.zero_le _
    · rcases Nat.eq_zero_or_pos (onDate call.date calls) with hzero | hpos
      · rw [hzero, Nat.min_zero]
        exact Nat.zero_le _
      · obtain ⟨topic, htopic⟩ := exists_mem_identifiers hpos
        have hused := le_foldl_max (fun name => (sequenceOf call.date.text name).getD 0)
          ((h _).mpr htopic) 0
        rwa [sequenceOf_recordIdentifier _ (Nat.min_le_left _ _), Option.getD_some] at hused
  rw [nextSequence, hhighest]
  by_cases hplace : onDate call.date calls + 1 ≤ maxSequence
  · rw [Nat.min_eq_right (Nat.le_of_succ_le hplace)]
  · rw [if_neg hplace, if_neg (by omega)]

namespace Holds

theorem nextSequence (h : Holds root calls disk) (call : Call) :
    nextSequence ((disk.createDirAll root []).names root) call.date.text =
      if onDate call.date calls + 1 ≤ maxSequence then some (onDate call.date calls + 1)
      else none :=
  nextSequence_eq (fun name => Disk.mem_names_createDirAll_nil.trans (h.names name)) call

/-- A call that should create a record creates it. -/
theorem perform_of_some (h : Holds root calls disk) {name : String}
    (hname : identifier calls call = some name) :
    call.perform root disk = (some (root ++ [name]),
      (disk.createDirAll root []).createDirAll root [name, "segments"]) := by
  obtain ⟨hplace, hsome⟩ := Option.ite_none_right_eq_some.mp hname
  obtain rfl := Option.some.inj hsome
  have hcreate := create_of_nextSequence call.slash_notMem
    ((h.nextSequence call).trans (if_pos hplace))
  rw [Call.perform, call.time_date, createOn, hcreate]

/-- A call beyond the last number only makes sure that the directory of the tier is there. -/
theorem perform_of_none (h : Holds root calls disk) (hnone : identifier calls call = none) :
    call.perform root disk = (none, disk.createDirAll root []) := by
  have hplace : ¬ onDate call.date calls + 1 ≤ maxSequence := by
    intro hle
    rw [identifier, if_pos hle] at hnone
    cases hnone
  have hcreate : create disk root call.date.text call.topic = none := by
    rw [create, h.nextSequence, if_neg hplace]
    rfl
  rw [Call.perform, call.time_date, createOn, hcreate]

theorem perform_fst (h : Holds root calls disk) (call : Call) :
    (call.perform root disk).1 = (identifier calls call).map fun name => root ++ [name] := by
  cases hid : identifier calls call with
  | none => rw [h.perform_of_none hid, Option.map_none]
  | some name => rw [h.perform_of_some hid, Option.map_some]

/-- **One call keeps the directories as they should be.** -/
theorem perform_snd (h : Holds root calls disk) (call : Call) :
    Holds root (calls ++ [call]) (call.perform root disk).2 := by
  cases hid : identifier calls call with
  | none =>
      rw [h.perform_of_none hid]
      refine ⟨fun name => ?_, fun _ p hp => Disk.mem_createDirAll.mpr (.inr (.inl hp))⟩
      rw [Disk.mem_names_createDirAll_nil, h.names, identifiers_concat, hid, Option.toList_none,
        List.append_nil]
  | some name =>
      have hhyphen : '-' ∈ name.toList := by
        obtain ⟨-, hsome⟩ := Option.ite_none_right_eq_some.mp hid
        rw [← Option.some.inj hsome]
        exact hyphen_mem_recordIdentifier _ _ _
      rw [h.perform_of_some hid]
      refine ⟨fun other => ?_, fun _ p hp => Disk.mem_createDirAll.mpr (.inr (.inl hp))⟩
      rw [Disk.mem_names_createDirAll hhyphen, Disk.mem_names_createDirAll_nil, h.names,
        identifiers_concat, hid, Option.toList_some, List.mem_append, List.mem_singleton]

/-- A call beyond the last number creates no directory. -/
theorem mem_dirs_of_none (h : Holds root calls disk) (hnone : identifier calls call = none)
    (p : Path) : p ∈ (call.perform root disk).2.dirs ↔ p ∈ disk.dirs := by
  have hcalls : calls ≠ [] := by
    rintro rfl
    cases hnone
  rw [h.perform_of_none hnone, Disk.mem_createDirAll, List.scanl_nil, List.mem_singleton]
  refine or_iff_left_of_imp ?_
  rintro (hp | rfl)
  · exact h.root hcalls p hp
  · exact h.root hcalls p List.prefix_rfl

/-- **A sequence of calls creates the records it should.** -/
theorem afterCalls (hempty : disk.names root = []) (calls : List Call) :
    Holds root calls (afterCalls root disk calls) ∧
      createdBy root disk calls = (identifiers calls).map fun name => root ++ [name] := by
  induction calls using List.reverseRecOn with
  | nil =>
      refine ⟨⟨fun name => ?_, fun h => absurd rfl h⟩, rfl⟩
      rw [Validation.afterCalls, List.foldl_nil, hempty]
      rfl
  | append_singleton calls call ih =>
      obtain ⟨hholds, hcreated⟩ := ih
      rw [afterCalls_concat, createdBy_concat, hcreated, hholds.perform_fst, identifiers_concat,
        List.map_append]
      refine ⟨hholds.perform_snd call, ?_⟩
      cases identifier calls call <;> rfl

/-- The last name is the greatest. -/
theorem latest_eq (h : Holds root calls disk)
    (hdays : calls.Pairwise fun c c' => c.time.day ≤ c'.time.day) :
    latest disk root = (identifiers calls).getLast?.map fun name => root ++ [name] := by
  have hmax : (disk.names root).max? = (identifiers calls).getLast? := by
    cases hlast : (identifiers calls).getLast? with
    | none =>
        have hnil := List.getLast?_eq_none_iff.mp hlast
        refine List.max?_eq_none_iff.mpr (List.eq_nil_iff_forall_not_mem.mpr fun name hname => ?_)
        rw [h.names, hnil] at hname
        cases hname
    | some last =>
        obtain ⟨front, hfront⟩ := List.getLast?_eq_some_iff.mp hlast
        have hsorted := identifiers_sorted hdays
        rw [hfront] at hsorted
        refine List.max?_eq_some_iff.mpr ⟨?_, fun name hname => ?_⟩
        · rw [h.names, hfront]
          exact List.mem_append_right _ List.mem_cons_self
        · rw [h.names, hfront, List.mem_append, List.mem_singleton] at hname
          rcases hname with hname | rfl
          · have hlt := (List.pairwise_append.mp hsorted).2.2
            exact le_of_lt (hlt name hname last List.mem_cons_self)
          · exact le_refl _
  rw [latest, hmax]

end Holds

end Holds

/-- **Records are told apart, and the latest is the newest.**  In a tier without directories, a
sequence of calls with dates in order creates names that are in strict byte order.  The `k`-th call
of a date is given the number `k`, up to 99; a further one fails and creates no directory.  After
every part of the sequence `latest` finds the record that was created last. -/
theorem records_in_order {root : Path} {disk : Disk} {calls : List Call}
    (hempty : disk.names root = [])
    (hdays : calls.Pairwise fun c c' => c.time.day ≤ c'.time.day) :
    (∃ names : List String, createdBy root disk calls = names.map (fun name => root ++ [name]) ∧
      names.Nodup ∧ names.Pairwise fun a b => a.toUTF8.data.toList < b.toUTF8.data.toList) ∧
    (∀ past call future, calls = past ++ call :: future →
      (call.place past ≤ 99 → ∃ date, call.time.date = .ok date ∧
        (call.perform root (afterCalls root disk past)).1 =
          some (root ++ [recordIdentifier date (call.place past) call.topic])) ∧
      (99 < call.place past → (call.perform root (afterCalls root disk past)).1 = none ∧
        ∀ p, p ∈ (call.perform root (afterCalls root disk past)).2.dirs ↔
          p ∈ (afterCalls root disk past).dirs)) ∧
    ∀ past future, calls = past ++ future →
      latest (afterCalls root disk past) root = (createdBy root disk past).getLast? := by
  refine ⟨?_, ?_, ?_⟩
  · have hsorted := identifiers_sorted hdays
    refine ⟨identifiers calls, (Holds.afterCalls hempty calls).2, ?_, ?_⟩
    · exact hsorted.imp fun h => ne_of_lt h
    · exact hsorted.imp utf8_lt_of_lt
  · rintro past call future rfl
    obtain ⟨hholds, -⟩ := Holds.afterCalls hempty past
    rw [call.place_eq]
    refine ⟨fun hk => ⟨call.date.text, call.time_date, ?_⟩, fun hk => ?_⟩
    · have hsome : identifier past call = some _ := if_pos hk
      rw [hholds.perform_fst, hsome, Option.map_some]
    · have hnone : identifier past call = none := if_neg (Nat.not_le.mpr hk)
      refine ⟨?_, hholds.mem_dirs_of_none hnone⟩
      rw [hholds.perform_fst, hnone, Option.map_none]
  · rintro past future rfl
    obtain ⟨hholds, hcreated⟩ := Holds.afterCalls hempty past
    rw [hholds.latest_eq (List.pairwise_append.mp hdays).1, hcreated, List.getLast?_map]

/-- Two campaigns in the last seconds of a day, and one in the first of the next. -/
def midnightCalls : List Call :=
  [⟨⟨1789516798⟩, "repository", ⟨2026, 9, 15, by decide +kernel, by decide⟩, by decide, by decide⟩,
    ⟨⟨1789516799⟩, "a topic", ⟨2026, 9, 15, by decide +kernel, by decide⟩, by decide, by decide⟩,
    ⟨⟨1789516800⟩, "", ⟨2026, 9, 16, by decide +kernel, by decide⟩, by decide, by decide⟩]

theorem records_in_order_midnight :
    latest (afterCalls ["runs", "dev"] ⟨[], fun _ => []⟩ midnightCalls) ["runs", "dev"] =
        (createdBy ["runs", "dev"] ⟨[], fun _ => []⟩ midnightCalls).getLast? ∧
      createdBy ["runs", "dev"] ⟨[], fun _ => []⟩ midnightCalls =
        [["runs", "dev", "2026-09-15-01-repository"], ["runs", "dev", "2026-09-15-02-a topic"],
          ["runs", "dev", "2026-09-16-01-"]] :=
  ⟨(records_in_order rfl (by decide +kernel)).2.2 _ [] (List.append_nil _).symm,
    by decide +kernel⟩

end Rp1.Validation

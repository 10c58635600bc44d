import Rp1.Validation.Campaign
import Rp1.Validation.JsonGrammar

/-!
# Validation — the journal as text

The journal of a record is a file with one JSON object on each line.  `append_journal` adds a line,
and `entries` reads them all.  What the campaigns see of it is a list of entries:
`journal_reads_back` says that the file is such a list, for every sequence of entries appended to
it.

The writer escapes what could end a string or a line, so that what it writes is in the grammar of
the reader (`flatObject_encode`) and stays on its line (`newline_notMem_encode`).
-/

namespace Rp1.Validation
open Codec Text Json

/-! ### The functions -/

/-- A field as the writer takes it. -/
def Json.Object.put (o : Object) (field : String × Value) : Object :=
  match field.2 with
  | .string value => o.string field.1 value
  | .number value => o.number field.1 value

/-- An object built field by field. -/
def Json.Object.ofFields (fields : List (String × Value)) : Object := fields.foldl Object.put .new

/-- `JournalEntry::parse`. -/
def JournalEntry.parse (line : String) : Except String JournalEntry := do
  let fields ← parseFlatObject line
  let segment ← okOr (stringField fields "segment") "a journal entry must name its segment"
  let status ← okOr (stringField fields "status") "a journal entry must state its status"
  let identity ← okOr (stringField fields "evidence_identity")
    "a journal entry must state the identity it holds under"
  let attempt ← okOr (tryFit u32Max ((numberField fields "attempt").getD 0).toNat)
    "a journal entry states an attempt number it cannot hold"
  .ok ⟨segment, attempt, status, identity, (stringField fields "evidence").getD ""⟩

/-- `append_journal`: the journal file of a record, if there is one, with one more line. -/
def appendJournal (file : Option String) (entry : Object) : Option String :=
  some (file.getD "" ++ entry.encode ++ "\n")

/-- `entries`: every journal entry in the order it was recorded. -/
def entries : Option String → Except String (List JournalEntry)
  | none => .ok []
  | some journal =>
      (((lines journal.toList).filter fun line => !(trim line).isEmpty).map String.ofList).mapM
        JournalEntry.parse

/-- A result on its way to the journal, with what no later run reads.  The attempt number is a
`u32`. -/
structure Written where
  campaign : Campaign
  subjectRevision : String
  result : SegmentResult
  started : String
  durationMs : UInt64
  attempt_le : result.attempt ≤ u32Max

/-- `journal_entry`: the object that is appended. -/
def Written.object (w : Written) : Object :=
  let entry := Object.new
  let entry := entry.string "segment" w.result.id
  let entry := entry.number "attempt" (UInt64.ofNat w.result.attempt)
  let entry := entry.string "started" w.started
  let entry := entry.number "duration_ms" w.durationMs
  let entry := entry.string "status" w.result.status.asStr
  let entry := entry.string "subject_revision" w.subjectRevision
  let entry := entry.string "evidence_identity" w.campaign.identity.digest
  let entry := entry.string "evidence" w.result.evidence
  match w.result.note with
  | some note => entry.string "note" note
  | none => entry

/-! ### The writer is in the grammar -/

theorem hexValue_hexDigit : ∀ k < 16, hexValue (hexDigit k) = k := by decide

theorem isAsciiHexdigit_hexDigit : ∀ k < 16, isAsciiHexdigit (hexDigit k) = true := by decide

theorem newline_ne_hexDigit : ∀ k < 16, '\n' ≠ hexDigit k := by decide

theorem escaped_control {c : Char} (h : c.toNat < 0x20) :
    Escaped c ['u', '0', '0', hexDigit (c.toNat / 16), hexDigit (c.toNat % 16)] := by
  have h₁ : c.toNat / 16 < 16 := by omega
  have h₂ : c.toNat % 16 < 16 := by omega
  have hnumber : hexNumber ['0', '0', hexDigit (c.toNat / 16), hexDigit (c.toNat % 16)] =
      c.toNat := by
    simp only [hexNumber, List.foldl_cons, List.foldl_nil, hexValue_hexDigit _ h₁,
      hexValue_hexDigit _ h₂]
    have hzero : hexValue '0' = 0 := by decide
    omega
  have hdigits : ∀ d ∈ ['0', '0', hexDigit (c.toNat / 16), hexDigit (c.toNat % 16)],
      isAsciiHexdigit d = true := by
    simp only [List.mem_cons, List.not_mem_nil, or_false]
    rintro d (rfl | rfl | rfl | rfl)
    · decide
    · decide
    · exact isAsciiHexdigit_hexDigit _ h₁
    · exact isAsciiHexdigit_hexDigit _ h₂
  have hescaped := Escaped.unicode _ rfl hdigits (by rw [hnumber]; exact .inl (by omega))
  rw [hnumber, Char.ofNat_toNat] at hescaped
  exact hescaped

/-- **How a character is written**: as itself, or as an escape that stands for it. -/
theorem escape_cases (c : Char) :
    (escape c = [c] ∧ c ≠ '"' ∧ c ≠ '\\' ∧ c ≠ '\n') ∨
      ∃ text, escape c = '\\' :: text ∧ Escaped c text ∧ '\n' ∉ text := by
  rw [escape]
  by_cases h₁ : c = '"'
  · subst h₁
    exact .inr ⟨['"'], rfl, .short _ _ (by decide), by decide⟩
  by_cases h₂ : c = '\\'
  · subst h₂
    exact .inr ⟨['\\'], rfl, .short _ _ (by decide), by decide⟩
  by_cases h₃ : c = '\n'
  · subst h₃
    exact .inr ⟨['n'], rfl, .short _ _ (by decide), by decide⟩
  by_cases h₄ : c = '\r'
  · subst h₄
    exact .inr ⟨['r'], rfl, .short _ _ (by decide), by decide⟩
  by_cases h₅ : c = '\t'
  · subst h₅
    exact .inr ⟨['t'], rfl, .short _ _ (by decide), by decide⟩
  rw [if_neg h₁, if_neg h₂, if_neg h₃, if_neg h₄, if_neg h₅]
  by_cases h₆ : c.toNat < 0x20
  · rw [if_pos h₆]
    refine .inr ⟨_, rfl, escaped_control h₆, ?_⟩
    simp only [List.mem_cons, List.not_mem_nil, or_false, not_or]
    exact ⟨by decide, by decide, by decide, newline_ne_hexDigit _ (by omega),
      newline_ne_hexDigit _ (by omega)⟩
  · rw [if_neg h₆]
    exact .inl ⟨rfl, h₁, h₂, h₃⟩

theorem spells_escape (value : List Char) : Spells value (value.flatMap escape) := by
  induction value with
  | nil => exact .nil
  | cons c value ih =>
      rw [List.flatMap_cons]
      rcases escape_cases c with ⟨he, hq, hb, -⟩ | ⟨text, he, hesc, -⟩
      · rw [he]
        exact .plain c hq hb ih
      · rw [he]
        exact .escaped hesc ih

theorem toList_quote (value : String) :
    (quote value).toList = '"' :: value.toList.flatMap escape ++ ['"'] := String.toList_ofList

theorem literal_quote (value : String) : Literal value (quote value).toList := by
  have h := Literal.mk (spells_escape value.toList)
  rwa [String.ofList_toList, ← toList_quote] at h

theorem denotes_toString (n : UInt64) : Denotes (.number n) (toString n.toNat).toList := by
  rw [Nat.toString_eq_repr, Nat.toList_repr]
  refine .number Nat.toDigits_ne_nil (fun d hd => ?_) ?_
  · exact Nat.isDigit_of_mem_toDigits (by decide) (by decide) hd
  · exact Nat.ofDigitChars_toDigits (by decide) (by decide)

/-- The characters of a value as it is written. -/
def Json.Value.text : Value → List Char
  | .string value => (quote value).toList
  | .number n => (toString n.toNat).toList

theorem denotes_text (v : Value) : Denotes v v.text := by
  cases v with
  | string value => exact .string (literal_quote value)
  | number n => exact denotes_toString n

/-- The characters of a field as it is written. -/
def fieldText (field : String × Value) : List Char := (quote field.1).toList ++ ':' :: field.2.text

theorem member_fieldText (field : String × Value) : Member field (fieldText field) := by
  have h := Member.mk white_nil white_nil white_nil white_nil (literal_quote field.1)
    (denotes_text field.2)
  simp only [List.nil_append, List.append_nil] at h
  exact h

/-- A field is written behind a comma, unless it is the first. -/
theorem toList_put (o : Object) (field : String × Value) :
    (o.put field).body.toList =
      (if o.body.isEmpty then [] else o.body.toList ++ [',']) ++ fieldText field := by
  have hkey : ∀ key : String, (o.key key).body.toList =
      (if o.body.isEmpty then [] else o.body.toList ++ [',']) ++ ((quote key).toList ++ [':']) := by
    intro key
    rw [Object.key, String.toList_append, String.toList_append, List.append_assoc]
    split
    case isTrue h => rw [String.isEmpty_iff.mp h]; rfl
    case isFalse => rw [String.toList_append]; rfl
  obtain ⟨key, value⟩ := field
  cases value with
  | string value =>
      show (o.string key value).body.toList = _
      rw [Object.string, String.toList_append, hkey, fieldText, Value.text]
      simp only [List.append_assoc, List.singleton_append]
  | number n =>
      show (o.number key n).body.toList = _
      rw [Object.number, String.toList_append, hkey, fieldText, Value.text]
      simp only [List.append_assoc, List.singleton_append]

theorem Json.Members.concat {fs : List (String × Value)} {text text' : List Char}
    {f : String × Value} (h : Members fs text) (hf : Member f text') :
    Members (fs ++ [f]) (text ++ ',' :: text') := by
  induction h with
  | last h => exact .more h (.last hf)
  | more h _ ih =>
      rw [List.append_assoc, List.cons_append]
      exact .more h ih

theorem Json.Members.text_ne_nil {fs : List (String × Value)} {text : List Char}
    (h : Members fs text) : text ≠ [] := by
  obtain ⟨text', -, hskip⟩ := h.skip
  rintro rfl
  have hhead := (hskip []).2
  rw [← (hskip []).1] at hhead
  cases hhead

theorem ofFields_concat (fields : List (String × Value)) (field : String × Value) :
    Object.ofFields (fields ++ [field]) = (Object.ofFields fields).put field :=
  List.foldl_concat ..

/-- The body of an object is its fields. -/
theorem members_ofFields (fields : List (String × Value)) :
    (fields = [] ∧ (Object.ofFields fields).body = "") ∨
      Members fields (Object.ofFields fields).body.toList := by
  induction fields using List.reverseRecOn with
  | nil =>
      refine .inl ⟨rfl, ?_⟩
      rw [Object.ofFields, List.foldl_nil, Object.new]
  | append_singleton fields field ih =>
      refine .inr ?_
      rw [ofFields_concat, toList_put]
      rcases ih with ⟨rfl, hbody⟩ | hfields
      · rw [hbody, if_pos (by decide), List.nil_append, List.nil_append]
        exact .last (member_fieldText field)
      · have hne : ¬ (Object.ofFields fields).body.isEmpty = true := fun h => by
          refine hfields.text_ne_nil ?_
          rw [String.isEmpty_iff.mp h, String.toList_empty]
        rw [if_neg hne, List.append_assoc, List.singleton_append]
        exact hfields.concat (member_fieldText field)

theorem toList_encode (o : Object) : o.encode.toList = '{' :: o.body.toList ++ ['}'] := by
  rw [Object.encode, String.toList_append, String.toList_append]
  rfl

/-- **What is written is an object of the reader's grammar.** -/
theorem flatObject_encode (fields : List (String × Value)) :
    FlatObject fields (Object.ofFields fields).encode.toList := by
  rw [toList_encode]
  rcases members_ofFields fields with ⟨rfl, hbody⟩ | hfields
  · rw [hbody, String.toList_empty]
    exact .empty white_nil
  · exact .fields hfields

theorem trim_encode (o : Object) : trim o.encode.toList = o.encode.toList := by
  rw [toList_encode]
  exact trim_of_ends (by decide) (by decide) _

theorem parseFlatObject_encode (fields : List (String × Value)) :
    parseFlatObject (Object.ofFields fields).encode = .ok fields := by
  refine parseFlatObject_eq_ok_iff.mpr ⟨_, [], ?_, flatObject_encode fields⟩
  rw [trim_encode, List.append_nil]

/-! ### Lines -/

theorem newline_notMem_quote (value : String) : '\n' ∉ (quote value).toList := by
  rw [toList_quote]
  simp only [List.cons_append, List.mem_cons, List.mem_append, List.mem_flatMap, List.not_mem_nil,
    or_false, not_or, not_exists, not_and]
  refine ⟨by decide, fun c _ => ?_, by decide⟩
  rcases escape_cases c with ⟨he, -, -, hne⟩ | ⟨text, he, -, hno⟩
  · rw [he, List.mem_singleton]
    exact hne.symm
  · rw [he, List.mem_cons, not_or]
    exact ⟨by decide, hno⟩

theorem newline_notMem_fieldText (field : String × Value) : '\n' ∉ fieldText field := by
  have hvalue : '\n' ∉ field.2.text := by
    cases field.2 with
    | string value => exact newline_notMem_quote value
    | number n =>
        intro hmem
        have hd : ∀ c ∈ (Value.number n).text, c.isDigit = true := by
          rcases denotes_text (.number n) with - | ⟨-, hdigit, -⟩
          exact hdigit
        exact absurd (hd _ hmem) (by decide)
  rw [fieldText, List.mem_append, List.mem_cons, not_or, not_or]
  exact ⟨newline_notMem_quote _, by decide, hvalue⟩

theorem newline_notMem_body (fields : List (String × Value)) :
    '\n' ∉ (Object.ofFields fields).body.toList := by
  induction fields using List.reverseRecOn with
  | nil =>
      rw [Object.ofFields, List.foldl_nil, Object.new, String.toList_empty]
      exact List.not_mem_nil
  | append_singleton fields field ih =>
      rw [ofFields_concat, toList_put, List.mem_append, not_or]
      refine ⟨?_, newline_notMem_fieldText field⟩
      split
      case isTrue => exact List.not_mem_nil
      case isFalse =>
        rw [List.mem_append, List.mem_singleton, not_or]
        exact ⟨ih, by decide⟩

/-- **What is written stays on its line.** -/
theorem newline_notMem_encode (fields : List (String × Value)) :
    '\n' ∉ (Object.ofFields fields).encode.toList := by
  rw [toList_encode, List.cons_append, List.mem_cons, List.mem_append, List.mem_singleton, not_or,
    not_or]
  exact ⟨by decide, newline_notMem_body fields, by decide⟩

/-- The journal file after objects have been appended to it. -/
theorem foldl_appendJournal (objects : List Object) (file : Option String) (hne : objects ≠ []) :
    ∃ text : String, objects.foldl appendJournal file = some text ∧
      text.toList = (file.getD "").toList ++ objects.flatMap (·.encode.toList ++ ['\n']) := by
  induction objects generalizing file with
  | nil => exact absurd rfl hne
  | cons o objects ih =>
      have hone : (appendJournal file o).getD "" = file.getD "" ++ o.encode ++ "\n" := rfl
      have hfeed : "\n".toList = ['\n'] := by decide
      rw [List.foldl_cons]
      cases objects with
      | nil =>
          refine ⟨_, rfl, ?_⟩
          rw [String.toList_append, String.toList_append, List.flatMap_singleton, List.append_assoc,
            hfeed]
      | cons o' objects =>
          obtain ⟨text, hfold, htext⟩ := ih (appendJournal file o) (List.cons_ne_nil _ _)
          refine ⟨text, hfold, ?_⟩
          rw [htext, hone, String.toList_append, String.toList_append, hfeed,
            List.flatMap_cons (x := o), List.append_assoc, List.append_assoc, List.append_assoc]

theorem lines_encode (journal : List (List (String × Value))) :
    lines (journal.flatMap fun fields => (Object.ofFields fields).encode.toList ++ ['\n']) =
      journal.map fun fields => (Object.ofFields fields).encode.toList := by
  have hlines : ∀ line ∈ journal.map fun fields => (Object.ofFields fields).encode.toList,
      '\n' ∉ line ∧ line.getLast? ≠ some '\r' := by
    intro line hline
    obtain ⟨fields, -, rfl⟩ := List.mem_map.mp hline
    refine ⟨newline_notMem_encode fields, ?_⟩
    rw [toList_encode, List.getLast?_concat]
    decide
  have h := lines_terminated hlines
  rwa [List.flatMap_map] at h

/-! ### Entries -/

/-- The fields of an entry. -/
def Written.fields (w : Written) : List (String × Value) :=
  [("segment", .string w.result.id), ("attempt", .number (UInt64.ofNat w.result.attempt)),
    ("started", .string w.started), ("duration_ms", .number w.durationMs),
    ("status", .string w.result.status.asStr), ("subject_revision", .string w.subjectRevision),
    ("evidence_identity", .string w.campaign.identity.digest),
    ("evidence", .string w.result.evidence)] ++
    (w.result.note.map fun note => ("note", Value.string note)).toList

theorem Written.object_eq (w : Written) : w.object = Object.ofFields w.fields := by
  rw [Written.object, Written.fields]
  cases w.result.note with
  | none => rfl
  | some note => rfl

/-- An entry is read back with what a later run needs. -/
theorem Written.parse_object (w : Written) :
    JournalEntry.parse w.object.encode = .ok (w.campaign.journalEntry w.result) := by
  have hattempt : (UInt64.ofNat w.result.attempt).toNat = w.result.attempt :=
    UInt64.toNat_ofNat_of_lt' (Nat.lt_of_le_of_lt w.attempt_le (by decide))
  rw [Written.object_eq, JournalEntry.parse, parseFlatObject_encode, ok_bind]
  have h₁ : stringField w.fields "segment" = some w.result.id := rfl
  have h₂ : stringField w.fields "status" = some w.result.status.asStr := rfl
  have h₃ : stringField w.fields "evidence_identity" = some w.campaign.identity.digest := rfl
  have h₄ : numberField w.fields "attempt" = some (UInt64.ofNat w.result.attempt) := rfl
  have h₅ : stringField w.fields "evidence" = some w.result.evidence := rfl
  rw [h₁, h₂, h₃, h₄, h₅, Option.getD_some, Option.getD_some, hattempt, tryFit_of_le w.attempt_le]
  rfl

/-- The lines of a journal are read one by one. -/
theorem mapM_parse (ws : List Written) :
    (ws.map fun w => w.object.encode).mapM JournalEntry.parse =
      .ok (ws.map fun w => w.campaign.journalEntry w.result) := by
  induction ws with
  | nil => rfl
  | cons w ws ih => rw [List.map_cons, List.mapM_cons, w.parse_object, ok_bind, ih]; rfl

/-- No line that was written is blank. -/
theorem filter_encode (ws : List Written) :
    (ws.map fun w => w.object.encode.toList).filter (fun line => !(trim line).isEmpty) =
      ws.map fun w => w.object.encode.toList := by
  refine List.filter_eq_self.mpr fun line hline => ?_
  obtain ⟨w, -, rfl⟩ := List.mem_map.mp hline
  rw [trim_encode, toList_encode]
  rfl

theorem entries_written (ws : List Written) :
    entries ((ws.map Written.object).foldl appendJournal none) =
      .ok (ws.map fun w => w.campaign.journalEntry w.result) := by
  by_cases hws : ws = []
  · subst hws
    rfl
  obtain ⟨text, hfile, htext⟩ :=
    foldl_appendJournal (ws.map Written.object) none (mt List.map_eq_nil_iff.mp hws)
  have hlines : lines text.toList = ws.map fun w => w.object.encode.toList := by
    rw [htext, Option.getD_none, String.toList_empty, List.nil_append, List.flatMap_map]
    have h := lines_encode (ws.map Written.fields)
    rw [List.flatMap_map, List.map_map] at h
    simp only [Written.object_eq]
    exact h
  rw [hfile, entries, hlines, filter_encode, List.map_map]
  simp only [Function.comp_def, String.ofList_toList]
  exact mapM_parse ws

/-- **The journal reads back as it was written**: every object with all its fields, one line for
each object, and every entry with what a later run needs, in the order they were appended. -/
theorem journal_reads_back :
    (∀ fields, parseFlatObject (Object.ofFields fields).encode = .ok fields) ∧
      (∀ journal : List (List (String × Value)),
        lines (journal.flatMap fun fields => (Object.ofFields fields).encode.toList ++ ['\n']) =
          journal.map fun fields => (Object.ofFields fields).encode.toList) ∧
      ∀ ws : List Written,
        entries ((ws.map Written.object).foldl appendJournal none) =
          .ok (ws.map fun w => w.campaign.journalEntry w.result) :=
  ⟨parseFlatObject_encode, lines_encode, entries_written⟩

end Rp1.Validation

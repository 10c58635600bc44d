import Rp1.Validation.Journal
import Rp1.Validation.JournalText

/-!
# Validation — a journal cut short

The runner may be killed while it appends an entry, and then the journal ends with a part of a line.
Here a campaign reads and writes the journal file itself: every round of `execute` parses the whole
file before it decides anything, and an error there ends the campaign.

As long as nobody dies in the middle of a line, the file and the list of entries in `Journal` are
the same thing (`entries_recordAll`).  `journal_torn` goes through every point at which a line can be
cut.  Inside the line the file cannot be read any more, and no campaign ever appends to it again.
Right in front of the line feed the entry counts, but the next one is glued to it, and the reader
does not look behind the first object of a line: that entry is lost.
-/

namespace Rp1.Validation
open Codec Text Json

/-! ### The model -/

/-- The journal file of a record.  `cut` says that the first bytes of one more character stand
behind the text. -/
structure JournalFile where
  text : String
  cut : Bool
deriving DecidableEq, Repr

/-- `entries`.  `read_to_string` refuses half a character. -/
def readJournal : Option JournalFile → Except String (List JournalEntry)
  | none => .ok []
  | some file =>
      if file.cut then .error "stream did not contain valid UTF-8" else entries (some file.text)

/-- `append_journal`, as far as it gets: `k` characters of the line, and `inside` the next one. -/
def appendPart (file : Option JournalFile) (entry : Object) (k : Nat) (inside : Bool) :
    JournalFile :=
  let old := file.getD ⟨"", false⟩
  ⟨old.text ++ String.ofList ((entry.encode ++ "\n").toList.take k), old.cut || inside⟩

/-- `append_journal`. -/
def appendWhole (file : Option JournalFile) (entry : Object) : JournalFile :=
  let old := file.getD ⟨"", false⟩
  ⟨old.text ++ entry.encode ++ "\n", old.cut⟩

/-- What an entry says that no later run reads. -/
structure Stamp where
  started : String
  durationMs : UInt64
deriving DecidableEq, Repr

/-- One round of the loop in `execute`, on the file. -/
def Campaign.recordSegment (c : Campaign) (revision : String) (file : Option JournalFile)
    (definition : SegmentDefinition) (answer : Answer) (stamp : Stamp) : Option Written := do
  let journal ← (readJournal file).toOption
  let r ← c.runSegment journal definition answer
  if h : r.attempt ≤ u32Max then some ⟨c, revision, r, stamp.started, stamp.durationMs, h⟩ else none

/-- The loop in `execute`, on the file: what it appends, and the file then. -/
def Campaign.recordSegments (c : Campaign) (revision : String) :
    List SegmentDefinition → List (Answer × Stamp) → Option JournalFile →
      List Written × Option JournalFile
  | [], _, file | _ :: _, [], file => ([], file)
  | definition :: segments, (answer, stamp) :: answers, file =>
      match c.recordSegment revision file definition answer stamp with
      | none => ([], file)
      | some w =>
          let rest := c.recordSegments revision segments answers (some (appendWhole file w.object))
          (w :: rest.1, rest.2)

/-- One call of `Campaign::execute`; it stops where the answers end. -/
structure FileCall where
  campaign : Campaign
  revision : String
  answers : List (Answer × Stamp)
deriving DecidableEq, Repr

/-- What a call appends, and the file after it. -/
def FileCall.records (call : FileCall) (file : Option JournalFile) :
    List Written × Option JournalFile :=
  call.campaign.recordSegments call.revision call.campaign.segments call.answers file

/-- What the calls append to a file, oldest first, and the file after them. -/
def recordAll (file : Option JournalFile) (calls : List FileCall) :
    List Written × Option JournalFile :=
  calls.foldl (fun s call => (s.1 ++ (call.records s.2).1, (call.records s.2).2)) ([], file)

/-- The same call on the list of entries. -/
def FileCall.plain (call : FileCall) : ExecuteCall :=
  ⟨call.campaign, call.answers.map Prod.fst, false⟩

/-! ### What a file holds -/

/-- The text is `front`, and then the entries `ws` line by line. -/
structure EndsWith (file : Option JournalFile) (front : List Char) (ws : List Written) : Prop where
  text : (file.getD ⟨"", false⟩).text.toList =
    front ++ ws.flatMap fun w => w.object.encode.toList ++ ['\n']
  whole : (file.getD ⟨"", false⟩).cut = false

section Files
variable {file : Option JournalFile} {front : List Char} {ws : List Written}

theorem EndsWith.append (h : EndsWith file front ws) (w : Written) :
    EndsWith (some (appendWhole file w.object)) front (ws ++ [w]) where
  text := by
    have hfeed : "\n".toList = ['\n'] := by decide
    show ((file.getD ⟨"", false⟩).text ++ w.object.encode ++ "\n").toList = _
    rw [String.toList_append, String.toList_append, h.text, hfeed, List.flatMap_append,
      List.flatMap_singleton, List.append_assoc, List.append_assoc]
  whole := h.whole

/-- **What a campaign appends** stands behind what was there. -/
theorem EndsWith.recordSegments (c : Campaign) (revision : String)
    (segments : List SegmentDefinition) (answers : List (Answer × Stamp))
    (h : EndsWith file front ws) :
    EndsWith (c.recordSegments revision segments answers file).2 front
      (ws ++ (c.recordSegments revision segments answers file).1) := by
  induction segments generalizing answers file ws with
  | nil =>
      rw [Campaign.recordSegments, List.append_nil]
      exact h
  | cons definition segments ih =>
      cases answers with
      | nil =>
          rw [Campaign.recordSegments, List.append_nil]
          exact h
      | cons answer answers =>
          rw [Campaign.recordSegments]
          split
          case h_1 =>
            rw [List.append_nil]
            exact h
          case h_2 w hw =>
            have hrest := ih answers (h.append w)
            rw [List.append_assoc] at hrest
            exact hrest

theorem recordAll_concat (file : Option JournalFile) (calls : List FileCall) (call : FileCall) :
    recordAll file (calls ++ [call]) =
      ((recordAll file calls).1 ++ (call.records (recordAll file calls).2).1,
        (call.records (recordAll file calls).2).2) := by
  rw [recordAll, List.foldl_append, ← recordAll]
  rfl

theorem EndsWith.recordAll (h : EndsWith file front ws) (calls : List FileCall) :
    EndsWith (Validation.recordAll file calls).2 front
      (ws ++ (Validation.recordAll file calls).1) := by
  induction calls using List.reverseRecOn with
  | nil =>
      rw [Validation.recordAll, List.foldl_nil, List.append_nil]
      exact h
  | append_singleton calls call ih =>
      rw [recordAll_concat, ← List.append_assoc]
      exact ih.recordSegments call.campaign call.revision call.campaign.segments call.answers

theorem endsWith_none : EndsWith none [] [] := ⟨rfl, rfl⟩

/-! ### Reading -/

/-- The lines of a journal as `entries` reads them. -/
def parseLines (ls : List (List Char)) : Except String (List JournalEntry) :=
  ((ls.filter fun line => !(trim line).isEmpty).map String.ofList).mapM JournalEntry.parse

theorem EndsWith.read (h : EndsWith file front ws) :
    readJournal file =
      parseLines (lines (front ++ ws.flatMap fun w => w.object.encode.toList ++ ['\n'])) := by
  rw [← h.text]
  cases file with
  | none => rfl
  | some file =>
      have hwhole : file.cut = false := h.whole
      rw [readJournal, hwhole, if_neg Bool.false_ne_true, entries]
      rfl

theorem parseLines_append {a b : List (List Char)} {x : List JournalEntry}
    (ha : parseLines a = .ok x) :
    parseLines (a ++ b) = (parseLines b).map (x ++ ·) := by
  rw [parseLines, List.filter_append, List.map_append, List.mapM_append]
  rw [parseLines] at ha
  rw [ha, ok_bind, ← parseLines]
  cases parseLines b <;> rfl

/-- The lines of entries that were written. -/
theorem parseLines_written (ws : List Written) :
    parseLines (ws.map fun w => w.object.encode.toList) =
      .ok (ws.map fun w => w.campaign.journalEntry w.result) := by
  rw [parseLines, filter_encode, List.map_map]
  simp only [Function.comp_def, String.ofList_toList]
  exact mapM_parse ws

/-- No entry has a line feed in it, or a carriage return at its end. -/
theorem written_line (w : Written) :
    '\n' ∉ w.object.encode.toList ∧ w.object.encode.toList.getLast? ≠ some '\r' := by
  refine ⟨w.object_eq ▸ newline_notMem_encode w.fields, ?_⟩
  rw [toList_encode, List.getLast?_concat]
  decide

theorem lines_written_append (ws : List Written) (rest : List Char) :
    lines ((ws.flatMap fun w => w.object.encode.toList ++ ['\n']) ++ rest) =
      (ws.map fun w => w.object.encode.toList) ++ lines rest := by
  have hlines : ∀ line ∈ ws.map (fun w => w.object.encode.toList),
      '\n' ∉ line ∧ line.getLast? ≠ some '\r' := by
    intro line hline
    obtain ⟨w, -, rfl⟩ := List.mem_map.mp hline
    exact written_line w
  have h := lines_terminated_append hlines rest
  rwa [List.flatMap_map] at h

/-- Whole lines, and something behind them. -/
theorem parseLines_written_append (ws : List Written) (rest : List Char) :
    parseLines (lines ((ws.flatMap fun w => w.object.encode.toList ++ ['\n']) ++ rest)) =
      (parseLines (lines rest)).map ((ws.map fun w => w.campaign.journalEntry w.result) ++ ·) := by
  rw [lines_written_append, parseLines_append (parseLines_written ws)]

/-- **A file of whole lines** is the list of its entries. -/
theorem EndsWith.read_whole (h : EndsWith file [] ws) :
    readJournal file = .ok (ws.map fun w => w.campaign.journalEntry w.result) := by
  have hlines := lines_written_append ws []
  rw [List.append_nil] at hlines
  rw [h.read, List.nil_append, hlines]
  exact (congrArg parseLines (List.append_nil _)).trans (parseLines_written ws)

/-- An entry begins with its brace, and so does every part of it. -/
theorem exists_cons_of_part {w : Written} {part : List Char} (hne : part ≠ [])
    (hpart : part <+: w.object.encode.toList) : ∃ rest, part = '{' :: rest := by
  obtain ⟨more, hmore⟩ := hpart
  cases part with
  | nil => exact absurd rfl hne
  | cons c rest =>
      rw [toList_encode, List.cons_append, List.cons_append] at hmore
      exact ⟨rest, by rw [(List.cons.inj hmore).1]⟩

/-- **A part of an entry is no entry.**  No object is the beginning of another. -/
theorem parse_part {w : Written} {part : List Char} (hne : part ≠ [])
    (hpart : part <+: w.object.encode.toList) (hlt : part.length < w.object.encode.toList.length) :
    ∃ e, JournalEntry.parse (String.ofList part) = .error e := by
  cases hp : parseFlatObject (String.ofList part) with
  | error e => exact ⟨e, by rw [JournalEntry.parse, hp]; rfl⟩
  | ok fs =>
      obtain ⟨object, rest, hsplit, hobject⟩ := parseFlatObject_eq_ok_iff.mp hp
      rw [String.toList_ofList] at hsplit
      have htrim : trim part <+: part := by
        obtain ⟨tail, rfl⟩ := exists_cons_of_part hne hpart
        exact trim_prefix (stops_cons (by decide) tail)
      have hbegins : object <+: w.object.encode.toList :=
        ((List.prefix_append object rest).trans (hsplit ▸ htrim)).trans hpart
      obtain ⟨more, hmore⟩ := hbegins
      have hwhole : FlatObject w.fields (object ++ more) := by
        rw [hmore, Written.object_eq]
        exact flatObject_encode w.fields
      have hnil := hobject.eq_nil hwhole
      have hle := htrim.length_le
      rw [hsplit, List.length_append] at hle
      rw [← hmore, hnil, List.append_nil] at hlt
      omega

/-- What stands behind the object of a line is read over. -/
theorem parse_glued (w w' : Written) :
    JournalEntry.parse (String.ofList (w.object.encode.toList ++ w'.object.encode.toList)) =
      .ok (w.campaign.journalEntry w.result) := by
  have htrim : trim (w.object.encode.toList ++ w'.object.encode.toList) =
      w.object.encode.toList ++ w'.object.encode.toList := by
    have hends := trim_of_ends (a := '{') (b := '}') (by decide) (by decide)
      (w.object.body.toList ++ '}' :: '{' :: w'.object.body.toList)
    rw [toList_encode, toList_encode]
    simpa only [List.cons_append, List.append_assoc, List.nil_append] using hends
  have hread : parseFlatObject (String.ofList (w.object.encode.toList ++ w'.object.encode.toList)) =
      parseFlatObject w.object.encode := by
    rw [Written.object_eq w, parseFlatObject_encode]
    refine parseFlatObject_eq_ok_iff.mpr
      ⟨_, w'.object.encode.toList, ?_, flatObject_encode w.fields⟩
    rw [String.toList_ofList, ← Written.object_eq w, htrim]
  rw [← w.parse_object, JournalEntry.parse, JournalEntry.parse, hread]

/-! ### The file and the list -/

theorem Campaign.attempt_le {c : Campaign} {journal : List JournalEntry}
    {definition : SegmentDefinition} {answer : Answer} {r : SegmentResult}
    (h : c.runSegment journal definition answer = some r) : r.attempt ≤ u32Max := by
  simp only [Campaign.runSegment, Option.bind_eq_bind, Option.bind_eq_some_iff] at h
  obtain ⟨attempts, -, number, hn, h⟩ := h
  obtain ⟨hle, rfl⟩ := checkedAdd_eq_some.mp hn
  split at h
  case h_1 =>
    cases h
    exact hle
  case h_2 =>
    obtain ⟨o, -, h⟩ := Option.bind_eq_some_iff.mp h
    cases h
    exact hle

/-- A round on a file of whole lines is a round on its entries. -/
theorem Campaign.recordSegment_whole (c : Campaign) (revision : String) (h : EndsWith file [] ws)
    (definition : SegmentDefinition) (answer : Answer) (stamp : Stamp) :
    (c.recordSegment revision file definition answer stamp).map Written.result =
      c.runSegment (ws.map fun w => w.campaign.journalEntry w.result) definition answer := by
  rw [Campaign.recordSegment, h.read_whole]
  cases hr : c.runSegment (ws.map fun w => w.campaign.journalEntry w.result) definition answer with
  | none => simp [Except.toOption, hr]
  | some r => simp [Except.toOption, hr, Campaign.attempt_le hr]

theorem Campaign.recordSegment_campaign {c : Campaign} {revision : String}
    {definition : SegmentDefinition} {answer : Answer} {stamp : Stamp} {w : Written}
    (h : c.recordSegment revision file definition answer stamp = some w) : w.campaign = c := by
  simp only [Campaign.recordSegment, Option.bind_eq_bind, Option.bind_eq_some_iff] at h
  obtain ⟨_, -, r, -, h⟩ := h
  split at h
  case isTrue => cases h; rfl
  case isFalse => cases h

/-- The loop on a file of whole lines is the loop on its entries. -/
theorem Campaign.recordSegments_whole (c : Campaign) (revision : String)
    (segments : List SegmentDefinition) (answers : List (Answer × Stamp))
    (h : EndsWith file [] ws) :
    (c.recordSegments revision segments answers file).1.map
        (fun w => w.campaign.journalEntry w.result) =
      (c.runSegments segments (answers.map Prod.fst)
        (ws.map fun w => w.campaign.journalEntry w.result)).1.map c.journalEntry := by
  induction segments generalizing answers file ws with
  | nil => rfl
  | cons definition segments ih =>
      cases answers with
      | nil => rfl
      | cons answer answers =>
          have hround := c.recordSegment_whole revision h definition answer.1 answer.2
          rw [Campaign.recordSegments, List.map_cons, Campaign.runSegments]
          cases hw : c.recordSegment revision file definition answer.1 answer.2 with
          | none =>
              rw [hw] at hround
              rw [← hround]
              rfl
          | some w =>
              rw [hw] at hround
              have hc : w.campaign.journalEntry w.result = c.journalEntry w.result := by
                rw [Campaign.recordSegment_campaign hw]
              have hrest := ih answers (h.append w)
              rw [List.map_append, List.map_singleton, hc] at hrest
              rw [← hround]
              exact congrArg₂ List.cons hc hrest

/-- **The file is the list** after any calls, none of which died in the middle of a line. -/
theorem entries_recordAll (calls : List FileCall) :
    ((recordAll none calls).1.map fun w => w.campaign.journalEntry w.result) =
      journalAfter (calls.map FileCall.plain) := by
  induction calls using List.reverseRecOn with
  | nil => rfl
  | append_singleton calls call ih =>
      have hends := endsWith_none.recordAll calls
      rw [List.nil_append] at hends
      rw [recordAll_concat, List.map_append, List.map_append, List.map_singleton, journalAfter,
        List.foldl_append, ← journalAfter, ← ih]
      show _ = ExecuteCall.extend _ call.plain
      rw [ExecuteCall.extend, Campaign.execute]
      show _ ++ (call.campaign.recordSegments _ _ _ _).1.map _ = _
      rw [call.campaign.recordSegments_whole call.revision call.campaign.segments call.answers hends]
      simp only [FileCall.plain, Bool.and_false, Bool.false_eq_true, if_false]

/-! ### Cut lines -/

/-- Nothing of the line, the whole of it, or a part that ends in between. -/
theorem EndsWith.appendPart (h : EndsWith file [] ws) (w : Written) (k : Nat) :
    EndsWith (some (Validation.appendPart file w.object k false))
      ((ws.flatMap fun w => w.object.encode.toList ++ ['\n']) ++
        (w.object.encode.toList ++ ['\n']).take k) [] where
  text := by
    have hfeed : "\n".toList = ['\n'] := by decide
    have htext := h.text
    rw [List.nil_append] at htext
    show ((file.getD ⟨"", false⟩).text ++ String.ofList _).toList = _
    rw [String.toList_append, htext, String.toList_ofList, String.toList_append, hfeed,
      List.flatMap_nil, List.append_nil]
  whole := by
    show ((file.getD ⟨"", false⟩).cut || false) = false
    rw [h.whole]
    rfl

/-- An entry counts as soon as its brace is closed. -/
theorem parseLines_line {w : Written} {line : List Char}
    (h : line = w.object.encode.toList ∨ line = w.object.encode.toList ++ ['\n']) :
    parseLines (lines line) = .ok [w.campaign.journalEntry w.result] := by
  have hlines : lines line = [w].map fun w => w.object.encode.toList := by
    rcases h with rfl | rfl
    · refine lines_of_notMem (written_line w).1 ?_
      rw [toList_encode]
      exact List.cons_ne_nil _ _
    · have hline := lines_written_append [w] []
      rwa [List.append_nil, List.flatMap_singleton, show lines [] = [] from rfl,
        List.append_nil] at hline
  rw [hlines, parseLines_written]
  rfl

/-- A part of an entry makes the file unreadable. -/
theorem parseLines_part {w : Written} {part : List Char} (hne : part ≠ [])
    (hpart : part <+: w.object.encode.toList) (hlt : part.length < w.object.encode.toList.length) :
    ∃ e, parseLines (lines part) = .error e := by
  obtain ⟨e, he⟩ := parse_part hne hpart hlt
  have hfeed : '\n' ∉ part := fun hm => (written_line w).1 (hpart.subset hm)
  have hblank : (!(trim part).isEmpty) = true := by
    obtain ⟨tail, rfl⟩ := exists_cons_of_part hne hpart
    rw [Bool.not_eq_true', List.isEmpty_eq_false_iff]
    exact trim_ne_nil (by decide) tail
  refine ⟨e, ?_⟩
  rw [lines_of_notMem hfeed hne, parseLines, List.filter_singleton, hblank, cond_true,
    List.map_singleton, List.mapM_cons, he]
  rfl

/-- On a file that cannot be read nobody appends anything. -/
theorem recordAll_unreadable {e : String} (h : readJournal file = .error e)
    (calls : List FileCall) : recordAll file calls = ([], file) := by
  have hround (c : Campaign) (revision : String) (segments : List SegmentDefinition)
      (answers : List (Answer × Stamp)) :
      c.recordSegments revision segments answers file = ([], file) := by
    cases segments with
    | nil => rfl
    | cons definition segments =>
        cases answers with
        | nil => rfl
        | cons answer answers =>
            have hnone : c.recordSegment revision file definition answer.1 answer.2 = none := by
              rw [Campaign.recordSegment, h]
              rfl
            rw [Campaign.recordSegments, hnone]
  induction calls using List.reverseRecOn with
  | nil => rfl
  | append_singleton calls call ih =>
      rw [recordAll_concat, ih]
      exact hround ..

/-- **A line feed is missing.**  The next entry is glued to the one in front of it, and lost. -/
theorem parseLines_glued (w : Written) (rs : List Written) :
    parseLines (lines (w.object.encode.toList ++
        rs.flatMap fun r => r.object.encode.toList ++ ['\n'])) =
      .ok (w.campaign.journalEntry w.result ::
        rs.tail.map fun r => r.campaign.journalEntry r.result) := by
  cases rs with
  | nil =>
      rw [List.flatMap_nil, List.append_nil]
      exact parseLines_line (.inl rfl)
  | cons r rs =>
      have hline : '\n' ∉ w.object.encode.toList ++ r.object.encode.toList ∧
          (w.object.encode.toList ++ r.object.encode.toList).getLast? ≠ some '\r' := by
        refine ⟨fun hm => ?_, ?_⟩
        · rcases List.mem_append.mp hm with hm | hm
          · exact (written_line w).1 hm
          · exact (written_line r).1 hm
        · rw [toList_encode r.object, ← List.append_assoc, List.getLast?_concat]
          decide
      have hlines := lines_terminated_append (List.forall_mem_singleton.mpr hline)
        (rs.flatMap fun r => r.object.encode.toList ++ ['\n'])
      have hone : parseLines [w.object.encode.toList ++ r.object.encode.toList] =
          .ok [w.campaign.journalEntry w.result] := by
        have hblank : (!(trim (w.object.encode.toList ++ r.object.encode.toList)).isEmpty) =
            true := by
          rw [Bool.not_eq_true', List.isEmpty_eq_false_iff, toList_encode w.object]
          exact trim_ne_nil (by decide) _
        rw [parseLines, List.filter_singleton, hblank, cond_true, List.map_singleton,
          List.mapM_cons, parse_glued]
        rfl
      rw [List.flatMap_singleton] at hlines
      have hrest := parseLines_written_append rs []
      rw [List.append_nil] at hrest
      rw [List.flatMap_cons, ← List.append_assoc, ← List.append_assoc, hlines,
        parseLines_append hone, hrest]
      simp only [lines, linesFrom, List.isEmpty_nil, if_true, parseLines, List.filter_nil,
        List.map_nil, List.mapM_nil]
      simp [Except.map, pure, Except.pure]

end Files

/-- **A journal cut short.**  After any calls the file reads back as the list of their entries.
Then the runner dies while it appends one more, after `k` characters of its line or inside the next
one.  If nothing of the line was written, the entry is missing, and with the closing brace it is
there.  In between the file cannot be read, and whatever runs later leaves it as it is.  If only the
line feed is missing, the first entry that anybody appends afterwards is lost, and no other. -/
theorem journal_torn (calls : List FileCall) (w : Written) (k : Nat) :
    let journal := journalAfter (calls.map FileCall.plain)
    let entry := w.campaign.journalEntry w.result
    let cut (inside : Bool) := some (appendPart (recordAll none calls).2 w.object k inside)
    readJournal (recordAll none calls).2 = .ok journal ∧
    (k = 0 → readJournal (cut false) = .ok journal) ∧
    (w.object.encode.length ≤ k → readJournal (cut false) = .ok (journal ++ [entry])) ∧
    (∀ inside : Bool, inside = true ∨ (0 < k ∧ k < w.object.encode.length) →
      (∃ e, readJournal (cut inside) = .error e) ∧
      ∀ later, recordAll (cut inside) later = ([], cut inside)) ∧
    (k = w.object.encode.length → ∀ later,
      readJournal (recordAll (cut false) later).2 = .ok (journal ++ entry ::
        (recordAll (cut false) later).1.tail.map fun r => r.campaign.journalEntry r.result)) := by
  intro journal entry cut
  have hends := endsWith_none.recordAll calls
  rw [List.nil_append] at hends
  have hjournal := entries_recordAll calls
  have hlen : w.object.encode.toList.length = w.object.encode.length := String.length_toList
  have hcut := hends.appendPart w k
  have hread : readJournal (cut false) =
      (parseLines (lines ((w.object.encode.toList ++ ['\n']).take k))).map (journal ++ ·) := by
    rw [hcut.read, List.flatMap_nil, List.append_nil, parseLines_written_append, hjournal]
  refine ⟨?_, ?_, ?_, ?_, ?_⟩
  · rw [hends.read_whole, hjournal]
  · rintro rfl
    rw [hread]
    exact congrArg Except.ok (List.append_nil _)
  · intro hk
    rw [hread, parseLines_line (w := w)]
    · rfl
    · rcases Nat.eq_or_lt_of_le hk with hk | hk
      · exact .inl (List.take_left' (hlen.trans hk))
      · refine .inr (List.take_of_length_le ?_)
        rw [List.length_append, hlen, List.length_singleton]
        exact hk
  · intro inside hinside
    have herror : ∃ e, readJournal (cut inside) = .error e := by
      cases inside with
      | true =>
          refine ⟨"stream did not contain valid UTF-8", ?_⟩
          show (if (_ || true) = true then _ else _) = _
          rw [Bool.or_true, if_pos rfl]
      | false =>
          obtain ⟨hpos, hlt⟩ := hinside.resolve_left Bool.false_ne_true
          have htake : (w.object.encode.toList ++ ['\n']).take k = w.object.encode.toList.take k :=
            List.take_append_of_le_length (by omega)
          have hshort : (w.object.encode.toList.take k).length = k := by
            rw [List.length_take]
            omega
          obtain ⟨e, he⟩ := parseLines_part
            (List.ne_nil_of_length_pos (by omega)) (List.take_prefix k _) (hshort ▸ hlen ▸ hlt)
          exact ⟨e, by rw [hread, htake, he]; rfl⟩
    obtain ⟨e, he⟩ := herror
    exact ⟨⟨e, he⟩, recordAll_unreadable he⟩
  · intro hk later
    have htake : (w.object.encode.toList ++ ['\n']).take k = w.object.encode.toList :=
      List.take_left' (hlen.trans hk.symm)
    rw [htake] at hcut
    rw [(hcut.recordAll later).read, List.nil_append, List.append_assoc,
      parseLines_written_append, parseLines_glued, hjournal]
    rfl

end Rp1.Validation

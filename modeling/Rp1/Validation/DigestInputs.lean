import Rp1.Validation.Campaign
import Rp1.Support.Text

/-!
# Validation — what the digests are taken of

A digest is taken of a text: the fields of an identity joined by `|`, or the commands of a campaign
joined by four separators, one inside the other.  No separator is escaped, so a text can be the
rendering of more than one value.

`digest_inputs_own_iff` says which values share their text with no other.  For an identity that is a
matter of the character `|`.  A list of segments has its text for itself only when the text leaves
nothing to divide; lists of plain segments have different texts among themselves.
-/

namespace Rp1.Validation
open Text

/-! ### The texts -/

/-- The text `definition_digest` hashes. -/
def definitionInput (segments : List SegmentDefinition) : String :=
  "\n".intercalate (segments.map SegmentDefinition.definitionLine)

theorem definitionDigest_eq (segments : List SegmentDefinition) :
    definitionDigest segments = digest (definitionInput segments) := rfl

/-- The text `EvidenceIdentity::digest` hashes. -/
def EvidenceIdentity.input (i : EvidenceIdentity) : String :=
  i.subjectRevision ++ "|" ++ i.campaignDefinition ++ "|" ++ i.toolchain ++ "|" ++ i.target ++
    "|" ++ i.features

theorem EvidenceIdentity.digest_eq (i : EvidenceIdentity) :
    i.digest = Validation.digest i.input := rfl

/-- What a segment says about its commands. -/
def SegmentDefinition.content (d : SegmentDefinition) : String × List Step := (d.id, d.steps)

/-! ### Identities -/

def EvidenceIdentity.fields (i : EvidenceIdentity) : List (List Char) :=
  [i.subjectRevision.toList, i.campaignDefinition.toList, i.toolchain.toList, i.target.toList,
    i.features.toList]

/-- No field holds the separator. -/
def EvidenceIdentity.Plain (i : EvidenceIdentity) : Prop := ∀ field ∈ i.fields, '|' ∉ field

theorem EvidenceIdentity.toList_input (i : EvidenceIdentity) :
    i.input.toList = ['|'].intercalate i.fields := by
  have hbar : "|".toList = ['|'] := by decide
  simp only [EvidenceIdentity.input, EvidenceIdentity.fields, String.toList_append, hbar,
    List.intercalate_cons_cons, List.intercalate_singleton, List.append_assoc]

theorem EvidenceIdentity.fields_inj {i j : EvidenceIdentity} (h : j.fields = i.fields) : j = i := by
  obtain ⟨r, c, t, g, f⟩ := i
  obtain ⟨r', c', t', g', f'⟩ := j
  simp only [EvidenceIdentity.fields, List.cons.injEq, String.toList_inj, and_true] at h
  obtain ⟨rfl, rfl, rfl, rfl, rfl⟩ := h
  rfl

theorem EvidenceIdentity.exists_fields {ls : List (List Char)} (h : ls.length = 5) :
    ∃ i : EvidenceIdentity, i.fields = ls := by
  match ls, h with
  | [r, c, t, g, f], _ =>
      refine ⟨⟨String.ofList r, String.ofList c, String.ofList t, String.ofList g,
        String.ofList f⟩, ?_⟩
      simp only [EvidenceIdentity.fields, String.toList_ofList]

theorem EvidenceIdentity.own_iff (i : EvidenceIdentity) :
    (∀ j : EvidenceIdentity, j ≠ i → j.input ≠ i.input) ↔ i.Plain := by
  have hlen : ∀ j : EvidenceIdentity, j.fields.length = 5 := fun _ => rfl
  rw [EvidenceIdentity.Plain, ← intercalate_own_iff (by rw [hlen]; decide)]
  constructor
  · intro h ls hls heq
    obtain ⟨j, rfl⟩ := EvidenceIdentity.exists_fields (hls.trans (hlen i))
    by_contra hne
    refine h j (fun hj => hne (congrArg _ hj)) ?_
    rw [← String.toList_inj, j.toList_input, i.toList_input, heq]
  · intro h j hne heq
    rw [← String.toList_inj, j.toList_input, i.toList_input] at heq
    exact hne (EvidenceIdentity.fields_inj (h j.fields rfl heq))

/-! ### Commands -/

/-- What stands behind the identifier of a segment. -/
def SegmentDefinition.commands (d : SegmentDefinition) : String :=
  " && ".intercalate (d.steps.map Step.display)

theorem SegmentDefinition.toList_definitionLine (d : SegmentDefinition) :
    d.definitionLine.toList = d.id.toList ++ ':' :: ':' :: d.commands.toList := by
  have hcolons : "::".toList = [':', ':'] := by decide
  rw [SegmentDefinition.definitionLine, String.toList_append, String.toList_append, hcolons,
    List.append_assoc]
  rfl

/-- The words of a command, as a shell would read them. -/
def Step.words (s : Step) : List (List Char) := s.program.toList :: s.args.map String.toList

theorem Step.toList_display (s : Step) : s.display.toList = [' '].intercalate s.words := by
  have hspace : " ".toList = [' '] := by decide
  rw [Step.display, Step.words]
  cases s.args with
  | nil => rw [List.isEmpty_nil, if_pos rfl, List.map_nil, List.intercalate_singleton]
  | cons arg args =>
      rw [List.isEmpty_cons, if_neg (by decide), String.toList_append, String.toList_append,
        String.toList_intercalate, hspace, List.map_cons, List.intercalate_cons_cons]

theorem Step.words_ne_nil (s : Step) : s.words ≠ [] := List.cons_ne_nil _ _

theorem Step.words_inj {s t : Step} (h : s.words = t.words) : s = t := by
  obtain ⟨program, args⟩ := s
  obtain ⟨program', args'⟩ := t
  obtain ⟨hprogram, hargs⟩ := List.cons.inj h
  obtain rfl := String.toList_inj.mp hprogram
  obtain rfl := List.map_injective_iff.mpr (fun _ _ => String.toList_inj.mp) hargs
  rfl

theorem SegmentDefinition.toList_commands (d : SegmentDefinition) :
    d.commands.toList =
      [' ', '&', '&', ' '].intercalate (d.steps.map fun s => s.display.toList) := by
  have hands : " && ".toList = [' ', '&', '&', ' '] := by decide
  rw [SegmentDefinition.commands, String.toList_intercalate, hands, List.map_map]
  rfl

theorem SegmentDefinition.toList_commands_singleton {d : SegmentDefinition} {s : Step}
    (h : d.steps = [s]) : d.commands.toList = [' '].intercalate s.words := by
  rw [d.toList_commands, h, List.map_singleton, List.intercalate_singleton, s.toList_display]

theorem toList_definitionInput (segments : List SegmentDefinition) :
    (definitionInput segments).toList =
      ['\n'].intercalate (segments.map fun d => d.definitionLine.toList) := by
  have hfeed : "\n".toList = ['\n'] := by decide
  rw [definitionInput, String.toList_intercalate, hfeed, List.map_map]
  rfl

/-- The text of a list begins with the identifier of its first segment. -/
theorem toList_definitionInput_cons (d : SegmentDefinition) (segments : List SegmentDefinition) :
    (definitionInput (d :: segments)).toList = d.id.toList ++ ':' :: ':' ::
      ['\n'].intercalate (d.commands.toList :: segments.map fun d => d.definitionLine.toList) := by
  rw [toList_definitionInput, List.map_cons, d.toList_definitionLine, List.append_cons,
    List.append_cons, intercalate_cons_append, List.append_assoc, List.append_assoc]
  rfl

theorem toList_definitionInput_singleton (d : SegmentDefinition) :
    (definitionInput [d]).toList = d.id.toList ++ ':' :: ':' :: d.commands.toList := by
  rw [toList_definitionInput_cons, List.map_nil, List.intercalate_singleton]

/-! ### Lists with a text of their own -/

/-- There is one way to divide the text of an identifier and a command: the command is one word, and
the colons between the two are the only ones in a row. -/
structure Undivided (id program : List Char) : Prop where
  ne_nil : program ≠ []
  space_notMem : ' ' ∉ program
  front : ¬ Doubled ':' (id ++ [':'])
  back : ¬ Doubled ':' (':' :: program)

/-- The text leaves nothing to divide: there is at most one segment, with one command of one
word. -/
def Unambiguous (segments : List SegmentDefinition) : Prop :=
  segments = [] ∨ ∃ d program, segments = [d] ∧ d.steps = [⟨program, []⟩] ∧
    Undivided d.id.toList program.toList

/-- A segment of one command of one word. -/
def SegmentDefinition.single (id program : List Char) : SegmentDefinition :=
  ⟨String.ofList id, none, [⟨String.ofList program, []⟩]⟩

theorem SegmentDefinition.toList_commands_word {d : SegmentDefinition} {program : String}
    (h : d.steps = [⟨program, []⟩]) : d.commands.toList = program.toList := by
  rw [SegmentDefinition.toList_commands_singleton h, Step.words, List.map_nil,
    List.intercalate_singleton]

theorem toList_definitionInput_single (id program : List Char) :
    (definitionInput [.single id program]).toList = id ++ ':' :: ':' :: program := by
  rw [toList_definitionInput_singleton, SegmentDefinition.toList_commands_word rfl,
    SegmentDefinition.single, String.toList_ofList, String.toList_ofList]

section Own
variable {segments : List SegmentDefinition}

/-- A text that is not empty is also the text of one command of one word. -/
theorem single_of_own (hne : segments ≠ [])
    (h : ∀ others, definitionInput others = definitionInput segments →
      others.map SegmentDefinition.content = segments.map SegmentDefinition.content) :
    ∃ d program, segments = [d] ∧ d.steps = [⟨program, []⟩] := by
  obtain ⟨d, segments, rfl⟩ := List.exists_cons_of_ne_nil hne
  have hcontent := h [.single d.id.toList _] (String.toList_inj.mp
    ((toList_definitionInput_single _ _).trans (toList_definitionInput_cons d segments).symm))
  rw [List.map_singleton, List.map_cons, List.cons.injEq] at hcontent
  obtain ⟨hd, hsegments⟩ := hcontent
  obtain rfl := List.map_eq_nil_iff.mp hsegments.symm
  exact ⟨d, _, rfl, (Prod.mk.inj hd).2.symm⟩

/-- Each way to divide a text is a segment with that text. -/
theorem undivided_of_own {id program : List Char}
    (h : ∀ d : SegmentDefinition,
      d.id.toList ++ ':' :: ':' :: d.commands.toList = id ++ ':' :: ':' :: program →
        d.id.toList = id ∧ d.steps = [⟨String.ofList program, []⟩]) :
    Undivided id program := by
  have hcolons : ∀ front back, front ++ ':' :: ':' :: back = id ++ ':' :: ':' :: program →
      front = id := by
    intro front back heq
    have hid := (h (.single front back) (by
      rw [← toList_definitionInput_singleton, toList_definitionInput_single, heq])).1
    rwa [SegmentDefinition.single, String.toList_ofList] at hid
  refine ⟨?_, ?_, ?_, ?_⟩
  · rintro rfl
    have hsteps := (h ⟨String.ofList id, none, []⟩ (by rw [String.toList_ofList]; rfl)).2
    cases hsteps
  · intro hspace
    obtain ⟨front, back, rfl⟩ := List.append_of_mem hspace
    have hsteps := (h ⟨String.ofList id, none, [⟨String.ofList front, [String.ofList back]⟩]⟩ (by
      rw [SegmentDefinition.toList_commands_singleton rfl, Step.words, List.map_singleton,
        List.intercalate_cons_cons, List.intercalate_singleton, String.toList_ofList,
        String.toList_ofList, String.toList_ofList, List.append_assoc]
      rfl)).2
    exact absurd (congrArg Step.args (List.cons.inj hsteps).1) (List.cons_ne_nil _ _)
  · rintro ⟨front, back, hid⟩
    obtain rfl := hcolons front (back ++ ':' :: program) (by
      rw [List.append_cons id, ← hid]
      simp only [List.append_assoc, List.cons_append, List.nil_append])
    have hlen := congrArg List.length hid
    simp only [List.length_append, List.length_cons, List.length_nil] at hlen
    omega
  · rintro ⟨front, back, hprogram⟩
    have hid := congrArg List.length (hcolons (id ++ ':' :: front) back (by
      rw [← hprogram]
      simp only [List.append_assoc, List.cons_append, List.nil_append]))
    rw [List.length_append, List.length_cons] at hid
    omega

theorem unambiguous_of_own
    (h : ∀ others, definitionInput others = definitionInput segments →
      others.map SegmentDefinition.content = segments.map SegmentDefinition.content) :
    Unambiguous segments := by
  by_cases hne : segments = []
  · exact .inl hne
  obtain ⟨d, program, rfl, hsteps⟩ := single_of_own hne h
  refine .inr ⟨d, program, rfl, hsteps, undivided_of_own fun e he => ?_⟩
  rw [← SegmentDefinition.toList_commands_word hsteps, ← toList_definitionInput_singleton,
    ← toList_definitionInput_singleton] at he
  have hcontent := h [e] (String.toList_inj.mp he)
  obtain ⟨hid, hsteps'⟩ := Prod.mk.inj (List.cons.inj hcontent).1
  exact ⟨congrArg _ hid, by rw [hsteps', hsteps, String.ofList_toList]⟩

/-- Steps with a text of one word are one command. -/
theorem SegmentDefinition.steps_of_word {d : SegmentDefinition} (hne : d.commands.toList ≠ [])
    (hspace : ' ' ∉ d.commands.toList) : d.steps = [⟨d.commands, []⟩] := by
  rw [d.toList_commands] at hne hspace
  cases hsteps : d.steps with
  | nil =>
      rw [hsteps] at hne
      exact absurd rfl hne
  | cons s steps =>
      cases steps with
      | nil =>
          obtain ⟨program, args⟩ := s
          cases args with
          | nil =>
              have hcommands := String.toList_inj.mp (SegmentDefinition.toList_commands_word hsteps)
              rw [hcommands]
          | cons arg args =>
              rw [hsteps, List.map_singleton, List.intercalate_singleton, Step.toList_display,
                Step.words, List.map_cons, List.intercalate_cons_cons] at hspace
              refine absurd ?_ hspace
              exact List.mem_append_left _ (List.mem_append_right _ List.mem_cons_self)
      | cons s' steps =>
          rw [hsteps, List.map_cons, List.map_cons, List.intercalate_cons_cons] at hspace
          refine absurd ?_ hspace
          exact List.mem_append_left _ (List.mem_append_right _ List.mem_cons_self)

theorem definitionInput_cons_ne (d : SegmentDefinition) (segments : List SegmentDefinition) :
    definitionInput (d :: segments) ≠ definitionInput [] := by
  intro h
  have hlist := toList_definitionInput_cons d segments
  rw [h, toList_definitionInput, List.map_nil, List.intercalate_nil] at hlist
  exact absurd hlist.symm (List.append_ne_nil_of_right_ne_nil _ (List.cons_ne_nil _ _))

theorem own_of_undivided {d e : SegmentDefinition} {program : String}
    (hsteps : d.steps = [⟨program, []⟩]) (h : Undivided d.id.toList program.toList)
    {others : List SegmentDefinition} (heq : definitionInput (e :: others) = definitionInput [d]) :
    others = [] ∧ e.content = d.content := by
  rw [← String.toList_inj, toList_definitionInput_cons, toList_definitionInput_singleton,
    SegmentDefinition.toList_commands_word hsteps] at heq
  -- the colons are at the same place
  have hfront := mt (doubled_of_front_lt heq.symm) h.front
  have hback := mt (doubled_of_back_lt heq.symm) h.back
  have hlen := congrArg List.length heq
  simp only [List.length_append, List.length_cons] at hlen
  obtain ⟨hid, hrest⟩ := List.append_inj heq (by omega)
  replace hrest := (List.cons.inj (List.cons.inj hrest).2).2
  cases others with
  | cons e' others =>
      -- the colons of a second line would be in the command
      have hsecond := toList_definitionInput_cons e' others
      rw [toList_definitionInput, List.map_cons] at hsecond
      refine absurd ?_ h.back
      rw [← hrest, List.map_cons, List.intercalate_cons_cons, hsecond]
      exact ⟨':' :: (e.commands.toList ++ '\n' :: e'.id.toList), _, by
        simp only [List.append_assoc, List.cons_append, List.nil_append]; rfl⟩
  | nil =>
      rw [List.map_nil, List.intercalate_singleton] at hrest
      have hcommands := String.toList_inj.mp hrest
      have hone := SegmentDefinition.steps_of_word (hrest ▸ h.ne_nil) (hrest ▸ h.space_notMem)
      refine ⟨rfl, Prod.ext (String.toList_inj.mp hid) ?_⟩
      show e.steps = d.steps
      rw [hone, hsteps, hcommands]

theorem own_of_unambiguous (h : Unambiguous segments) (others : List SegmentDefinition)
    (heq : definitionInput others = definitionInput segments) :
    others.map SegmentDefinition.content = segments.map SegmentDefinition.content := by
  rcases h with rfl | ⟨d, program, rfl, hsteps, hundivided⟩
  · cases others with
    | nil => rfl
    | cons e others => exact absurd heq (definitionInput_cons_ne e others)
  · cases others with
    | nil => exact absurd heq.symm (definitionInput_cons_ne d [])
    | cons e others =>
        obtain ⟨rfl, hcontent⟩ := own_of_undivided hsteps hundivided heq
        rw [List.map_singleton, List.map_singleton, hcontent]

end Own

/-! ### Plain segments -/

/-- A segment whose text can be taken apart again: there are commands, their words are plain, and
the first colons in a row are those behind the identifier. -/
structure SegmentDefinition.Plain (d : SegmentDefinition) : Prop where
  newline_notMem : '\n' ∉ d.id.toList
  front : ¬ Doubled ':' (d.id.toList ++ [':'])
  ne_nil : d.steps ≠ []
  words : ∀ s ∈ d.steps, ∀ word ∈ s.words, ' ' ∉ word ∧ '\n' ∉ word ∧ word ≠ ['&', '&']

/-- The words of the commands of a segment, with `&&` between commands. -/
def SegmentDefinition.words (d : SegmentDefinition) : List (List Char) :=
  [['&', '&']].intercalate (d.steps.map Step.words)

theorem SegmentDefinition.toList_commands_words (d : SegmentDefinition) :
    d.commands.toList = [' '].intercalate d.words := by
  rw [d.toList_commands, SegmentDefinition.words, ← intercalate_intercalate, List.map_map]
  · simp only [Step.toList_display]
    rfl
  · intro words hwords
    obtain ⟨s, -, rfl⟩ := List.mem_map.mp hwords
    exact s.words_ne_nil

theorem SegmentDefinition.of_mem_words {d : SegmentDefinition} {word : List Char}
    (h : word ∈ d.words) : word = ['&', '&'] ∨ ∃ s ∈ d.steps, word ∈ s.words := by
  rcases of_mem_intercalate h with h | ⟨words, hwords, hword⟩
  · exact .inl (List.mem_singleton.mp h)
  · obtain ⟨s, hs, rfl⟩ := List.mem_map.mp hwords
    exact .inr ⟨s, hs, hword⟩

namespace SegmentDefinition.Plain
variable {d e : SegmentDefinition}

theorem of_mem_words (h : d.Plain) {word : List Char} (hword : word ∈ d.words) :
    ' ' ∉ word ∧ '\n' ∉ word := by
  rcases SegmentDefinition.of_mem_words hword with rfl | ⟨s, hs, hmem⟩
  · decide
  · obtain ⟨hspace, hnewline, -⟩ := h.words s hs word hmem
    exact ⟨hspace, hnewline⟩

theorem words_ne_nil (h : d.Plain) : d.words ≠ [] := by
  obtain ⟨s, steps, hsteps⟩ := List.exists_cons_of_ne_nil h.ne_nil
  rw [SegmentDefinition.words, hsteps, List.map_cons]
  exact intercalate_cons_ne_nil s.words_ne_nil _

theorem newline_notMem_line (h : d.Plain) : '\n' ∉ d.definitionLine.toList := by
  rw [d.toList_definitionLine, d.toList_commands_words]
  simp only [List.mem_append, List.mem_cons, not_or]
  refine ⟨h.newline_notMem, by decide, by decide, fun hmem => ?_⟩
  rcases of_mem_intercalate hmem with hmem | ⟨word, hword, hmem⟩
  · exact absurd hmem (by decide)
  · exact (h.of_mem_words hword).2 hmem

theorem steps_eq (hd : d.Plain) (he : e.Plain) (h : d.commands.toList = e.commands.toList) :
    d.steps = e.steps := by
  rw [d.toList_commands_words, e.toList_commands_words] at h
  have hwords := intercalate_inj hd.words_ne_nil he.words_ne_nil
    (fun _ hw => (hd.of_mem_words hw).1) (fun _ hw => (he.of_mem_words hw).1) h
  have hand : ∀ {f : SegmentDefinition}, f.Plain →
      ∀ words ∈ f.steps.map Step.words, ['&', '&'] ∉ words := by
    intro f hf words hwords hmem
    obtain ⟨s, hs, rfl⟩ := List.mem_map.mp hwords
    exact (hf.words s hs _ hmem).2.2 rfl
  have hsteps := intercalate_inj (mt List.map_eq_nil_iff.mp hd.ne_nil)
    (mt List.map_eq_nil_iff.mp he.ne_nil) (hand hd) (hand he) hwords
  exact List.map_injective_iff.mpr (fun _ _ => Step.words_inj) hsteps

theorem content_eq (hd : d.Plain) (he : e.Plain)
    (h : d.definitionLine.toList = e.definitionLine.toList) : d.content = e.content := by
  rw [d.toList_definitionLine, e.toList_definitionLine] at h
  have hle := mt (doubled_of_front_lt h) hd.front
  have hge := mt (doubled_of_front_lt h.symm) he.front
  obtain ⟨hid, hrest⟩ := List.append_inj h (by omega)
  have hcommands := (List.cons.inj (List.cons.inj hrest).2).2
  exact Prod.ext (String.toList_inj.mp hid) (hd.steps_eq he hcommands)

end SegmentDefinition.Plain

theorem content_of_lines {a b : List SegmentDefinition} (ha : ∀ d ∈ a, d.Plain)
    (hb : ∀ d ∈ b, d.Plain)
    (h : (a.map fun d => d.definitionLine.toList) = b.map fun d => d.definitionLine.toList) :
    a.map SegmentDefinition.content = b.map SegmentDefinition.content := by
  induction a generalizing b with
  | nil =>
      obtain rfl := List.map_eq_nil_iff.mp h.symm
      rfl
  | cons d a ih =>
      cases b with
      | nil => cases h
      | cons e b =>
          obtain ⟨hd, ha⟩ := List.forall_mem_cons.mp ha
          obtain ⟨he, hb⟩ := List.forall_mem_cons.mp hb
          obtain ⟨hline, hlines⟩ := List.cons.inj h
          rw [List.map_cons, List.map_cons, hd.content_eq he hline, ih ha hb hlines]

/-- Plain lists are told apart by their texts. -/
theorem content_of_plain {a b : List SegmentDefinition} (ha : ∀ d ∈ a, d.Plain)
    (hb : ∀ d ∈ b, d.Plain) (h : definitionInput a = definitionInput b) :
    a.map SegmentDefinition.content = b.map SegmentDefinition.content := by
  by_cases hane : a = []
  · subst hane
    exact (own_of_unambiguous (.inl rfl) b h.symm).symm
  by_cases hbne : b = []
  · subst hbne
    exact own_of_unambiguous (.inl rfl) a h
  rw [← String.toList_inj, toList_definitionInput, toList_definitionInput] at h
  have hline : ∀ {c : List SegmentDefinition}, (∀ d ∈ c, d.Plain) →
      ∀ line ∈ c.map fun d => d.definitionLine.toList, '\n' ∉ line := by
    intro c hc line hline
    obtain ⟨d, hd, rfl⟩ := List.mem_map.mp hline
    exact (hc d hd).newline_notMem_line
  exact content_of_lines ha hb (intercalate_inj (mt List.map_eq_nil_iff.mp hane)
    (mt List.map_eq_nil_iff.mp hbne) (hline ha) (hline hb) h)

/-! ### The digests -/

/-- **Which values have a digest input of their own.**  The digests are taken of the inputs.  An
identity has one of its own exactly when none of its fields holds a `|`, and a list of segments
exactly when its text leaves nothing to divide.  Among lists of plain segments, those that differ
have different inputs. -/
theorem digest_inputs_own_iff (i : EvidenceIdentity) (segments : List SegmentDefinition) :
    (i.digest = digest i.input ∧ definitionDigest segments = digest (definitionInput segments)) ∧
      ((∀ j : EvidenceIdentity, j ≠ i → j.input ≠ i.input) ↔ i.Plain) ∧
      ((∀ others : List SegmentDefinition,
        others.map SegmentDefinition.content ≠ segments.map SegmentDefinition.content →
          definitionInput others ≠ definitionInput segments) ↔ Unambiguous segments) ∧
      ((∀ d ∈ segments, d.Plain) → ∀ others : List SegmentDefinition, (∀ d ∈ others, d.Plain) →
        others.map SegmentDefinition.content ≠ segments.map SegmentDefinition.content →
          definitionInput others ≠ definitionInput segments) := by
  refine ⟨⟨i.digest_eq, definitionDigest_eq segments⟩, i.own_iff,
    ⟨fun h => ?_, fun h others => ?_⟩, fun hsegments others hothers => ?_⟩
  · exact unambiguous_of_own fun others => not_imp_not.mp (h others)
  · exact mt (own_of_unambiguous h others)
  · exact mt (content_of_plain hothers hsegments)

/-- Two commands with the same digest input, and two identities. -/
theorem digest_inputs_shared :
    (∃ a b : List SegmentDefinition,
      a.map SegmentDefinition.content ≠ b.map SegmentDefinition.content ∧
        definitionInput a = definitionInput b) ∧
      ∃ i j : EvidenceIdentity, i ≠ j ∧ i.input = j.input := by
  refine ⟨⟨[⟨"format", none, [⟨"cargo", ["fmt", "--check"]⟩]⟩],
    [⟨"format", none, [⟨"cargo", ["fmt --check"]⟩]⟩], by decide +kernel, by decide +kernel⟩,
    ⟨"r", "d", "rustc|x", "t", "default"⟩, ⟨"r", "d", "rustc", "x|t", "default"⟩,
    by decide +kernel, by decide +kernel⟩

end Rp1.Validation

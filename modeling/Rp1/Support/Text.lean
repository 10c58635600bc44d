import Mathlib.Data.List.TakeWhile

/-!
# Support — texts as lists of characters

White space, trimming and lines as `str` has them.  `dropWhile_append` is skipping: what is skipped
in front of a text that does not go on with it.  `lines_terminated` says that a text written line by
line is read back line by line.

Of parts that were joined, `intercalate_own_iff` says when they can be told from the join.  A
separator of two equal characters is `Doubled`: it overlaps with itself.
-/

namespace Text

/-- The characters with the Unicode property `White_Space`. -/
def isWhitespace (c : Char) : Bool :=
  (0x9 ≤ c.toNat && c.toNat ≤ 0xd) || (0x2000 ≤ c.toNat && c.toNat ≤ 0x200a) ||
    [0x20, 0x85, 0xa0, 0x1680, 0x2028, 0x2029, 0x202f, 0x205f, 0x3000].contains c.toNat

/-- `str::trim`. -/
def trim (text : List Char) : List Char :=
  ((text.dropWhile isWhitespace).reverse.dropWhile isWhitespace).reverse

/-- A carriage return before a line feed belongs to the end of the line. -/
def stripReturn (line : List Char) : List Char :=
  if line.getLast? = some '\r' then line.dropLast else line

/-- The lines of `line ++ rest`, where `line` has been read. -/
def linesFrom (line : List Char) : List Char → List (List Char)
  | [] => if line.isEmpty then [] else [line]
  | c :: rest =>
      if c = '\n' then stripReturn line :: linesFrom [] rest else linesFrom (line ++ [c]) rest

/-- `str::lines`. -/
def lines (text : List Char) : List (List Char) := linesFrom [] text

/-! ### Skipping -/

section Skip
variable {α : Type} {p : α → Bool} {skipped rest : List α}

/-- `rest` does not begin with a `p`. -/
def Stops (p : α → Bool) (rest : List α) : Prop := ∀ c ∈ rest.head?, p c = false

theorem stops_cons {c : α} (h : p c = false) (rest : List α) : Stops p (c :: rest) :=
  fun _ hc => Option.some.inj hc ▸ h

theorem stops_of_head? {c : α} (hc : rest.head? = some c) (h : p c = false) : Stops p rest := by
  obtain ⟨tail, rfl⟩ := List.head?_eq_some_iff.mp hc
  exact stops_cons h tail

theorem dropWhile_of_stops (h : Stops p rest) : rest.dropWhile p = rest := by
  cases rest with
  | nil => rfl
  | cons c rest => exact List.dropWhile_cons_of_neg (by rw [h c rfl]; decide)

theorem dropWhile_append (hs : ∀ c ∈ skipped, p c = true) (hr : Stops p rest) :
    (skipped ++ rest).dropWhile p = rest := by
  rw [List.dropWhile_append_of_pos hs, dropWhile_of_stops hr]

theorem takeWhile_append (hs : ∀ c ∈ skipped, p c = true) (hr : Stops p rest) :
    (skipped ++ rest).takeWhile p = skipped := by
  rw [List.takeWhile_append_of_pos hs]
  cases rest with
  | nil => exact List.append_nil _
  | cons c rest =>
      rw [List.takeWhile_cons_of_neg (by rw [hr c rfl]; decide), List.append_nil]

theorem of_mem_takeWhile {text : List α} : ∀ c ∈ text.takeWhile p, p c = true :=
  fun _ hc => List.mem_takeWhile_imp hc

end Skip

/-- A text with no white space at its ends is trimmed already. -/
theorem trim_of_ends {a b : Char} (ha : isWhitespace a = false) (hb : isWhitespace b = false)
    (middle : List Char) : trim (a :: middle ++ [b]) = a :: middle ++ [b] := by
  have hback : (a :: middle ++ [b]).reverse = b :: (a :: middle).reverse := by
    rw [List.reverse_append, List.reverse_singleton, List.singleton_append]
  have hfront : Stops isWhitespace (a :: middle ++ [b]) := stops_cons ha _
  rw [trim, dropWhile_of_stops hfront, hback, dropWhile_of_stops (stops_cons hb _), ← hback,
    List.reverse_reverse]

/-! ### Lines -/

theorem linesFrom_append {line : List Char} (h : '\n' ∉ line) (read rest : List Char) :
    linesFrom read (line ++ '\n' :: rest) = stripReturn (read ++ line) :: linesFrom [] rest := by
  induction line generalizing read with
  | nil => rw [List.nil_append, linesFrom, if_pos rfl, List.append_nil]
  | cons c line ih =>
      obtain ⟨hc, hline⟩ := not_or.mp (mt List.mem_cons.mpr h)
      rw [List.cons_append, linesFrom, if_neg (Ne.symm hc), ih hline, List.append_assoc,
        List.singleton_append]

/-- **Line by line.**  Lines that hold no line feed and do not end with a carriage return are read
back as they were written, whatever stands behind the last line feed. -/
theorem lines_terminated_append {ls : List (List Char)}
    (h : ∀ line ∈ ls, '\n' ∉ line ∧ line.getLast? ≠ some '\r') (rest : List Char) :
    lines (ls.flatMap (· ++ ['\n']) ++ rest) = ls ++ lines rest := by
  induction ls with
  | nil => rfl
  | cons line ls ih =>
      obtain ⟨⟨hfeed, hreturn⟩, hrest⟩ := List.forall_mem_cons.mp h
      rw [List.flatMap_cons, List.append_assoc, List.append_assoc, List.singleton_append, lines,
        linesFrom_append hfeed, List.nil_append, stripReturn, if_neg hreturn]
      exact congrArg (line :: ·) (ih hrest)

theorem lines_terminated {ls : List (List Char)}
    (h : ∀ line ∈ ls, '\n' ∉ line ∧ line.getLast? ≠ some '\r') :
    lines (ls.flatMap (· ++ ['\n'])) = ls := by
  have hnil := lines_terminated_append h []
  rw [List.append_nil] at hnil
  exact hnil.trans (List.append_nil ls)

theorem linesFrom_of_notMem {text : List Char} (h : '\n' ∉ text) (read : List Char) :
    linesFrom read text = if (read ++ text).isEmpty then [] else [read ++ text] := by
  induction text generalizing read with
  | nil => rw [linesFrom, List.append_nil]
  | cons c text ih =>
      obtain ⟨hc, htext⟩ := not_or.mp (mt List.mem_cons.mpr h)
      rw [linesFrom, if_neg (Ne.symm hc), ih htext, List.append_assoc, List.singleton_append]

/-- A text without a line feed is one line. -/
theorem lines_of_notMem {text : List Char} (h : '\n' ∉ text) (hne : text ≠ []) :
    lines text = [text] := by
  rw [lines, linesFrom_of_notMem h, List.nil_append, if_neg (mt List.isEmpty_iff.mp hne)]

/-- Trimming a text that begins with something only takes from its end. -/
theorem trim_prefix {text : List Char} (h : Stops isWhitespace text) : trim text <+: text := by
  have hpart := List.reverse_prefix.mpr (List.dropWhile_suffix (l := text.reverse) isWhitespace)
  rw [List.reverse_reverse] at hpart
  rw [trim, dropWhile_of_stops h]
  exact hpart

theorem trim_ne_nil {c : Char} (h : isWhitespace c = false) (text : List Char) :
    trim (c :: text) ≠ [] := by
  intro hnil
  rw [trim, dropWhile_of_stops (stops_cons h text), List.reverse_eq_nil_iff,
    List.dropWhile_eq_nil_iff] at hnil
  have hwhite := hnil c (List.mem_reverse.mpr List.mem_cons_self)
  rw [h] at hwhite
  cases hwhite

/-! ### Joining -/

section Join
variable {α : Type} {sep mid : List α} {x : α}

theorem intercalate_append {front back : List (List α)} (hf : front ≠ []) (hb : back ≠ []) :
    sep.intercalate (front ++ back) = sep.intercalate front ++ sep ++ sep.intercalate back := by
  induction front with
  | nil => exact absurd rfl hf
  | cons l front ih =>
      cases front with
      | nil =>
          rw [List.singleton_append, List.intercalate_cons_of_ne_nil hb, List.intercalate_singleton]
      | cons l' front =>
          rw [List.cons_append, List.cons_append, List.intercalate_cons_cons, ← List.cons_append,
            ih (List.cons_ne_nil _ _), List.intercalate_cons_cons]
          simp only [List.append_assoc]

/-- What stands in front of a join has no part in how its end is divided. -/
theorem intercalate_append_congr {front back back' : List (List α)} (hb : back ≠ [])
    (hb' : back' ≠ []) (h : sep.intercalate back = sep.intercalate back') :
    sep.intercalate (front ++ back) = sep.intercalate (front ++ back') := by
  by_cases hf : front = []
  · rw [hf, List.nil_append, List.nil_append, h]
  · rw [intercalate_append hf hb, intercalate_append hf hb', h]

theorem intercalate_cons_append (l l' : List α) (ls : List (List α)) :
    sep.intercalate ((l ++ l') :: ls) = l ++ sep.intercalate (l' :: ls) := by
  cases ls with
  | nil => rw [List.intercalate_singleton, List.intercalate_singleton]
  | cons m ls =>
      rw [List.intercalate_cons_cons, List.intercalate_cons_cons]
      simp only [List.append_assoc]

theorem intercalate_cons_ne_nil {l : List α} (h : l ≠ []) (ls : List (List α)) :
    sep.intercalate (l :: ls) ≠ [] := by
  rw [← List.append_nil l, intercalate_cons_append]
  exact List.append_ne_nil_of_left_ne_nil h _

theorem of_mem_intercalate {a : α} {ls : List (List α)} (h : a ∈ sep.intercalate ls) :
    a ∈ sep ∨ ∃ l ∈ ls, a ∈ l := by
  induction ls with
  | nil => exact absurd h List.not_mem_nil
  | cons l ls ih =>
      cases ls with
      | nil =>
          rw [List.intercalate_singleton] at h
          exact .inr ⟨l, List.mem_cons_self, h⟩
      | cons l' ls =>
          rw [List.intercalate_cons_cons, List.append_assoc, List.mem_append, List.mem_append] at h
          rcases h with h | h | h
          · exact .inr ⟨l, List.mem_cons_self, h⟩
          · exact .inl h
          · exact (ih h).imp_right fun ⟨m, hm, ha⟩ => ⟨m, List.mem_cons_of_mem _ hm, ha⟩

/-- Joins of joins are one join, with the inner ends as parts of their own. -/
theorem intercalate_intercalate {parts : List (List (List α))} (h : ∀ part ∈ parts, part ≠ []) :
    (sep ++ mid ++ sep).intercalate (parts.map sep.intercalate) =
      sep.intercalate ([mid].intercalate parts) := by
  induction parts with
  | nil => rfl
  | cons part parts ih =>
      obtain ⟨hpart, hparts⟩ := List.forall_mem_cons.mp h
      cases parts with
      | nil => rw [List.map_singleton, List.intercalate_singleton, List.intercalate_singleton]
      | cons part' parts =>
          have hrest : [mid].intercalate (part' :: parts) ≠ [] :=
            intercalate_cons_ne_nil (hparts part' List.mem_cons_self) parts
          have hmap : (part' :: parts).map sep.intercalate ≠ [] :=
            mt List.map_eq_nil_iff.mp (List.cons_ne_nil _ _)
          rw [List.map_cons, List.intercalate_cons_of_ne_nil hmap, ih hparts,
            List.intercalate_cons_cons, List.append_assoc part,
            intercalate_append hpart (List.append_ne_nil_of_left_ne_nil (List.cons_ne_nil _ _) _),
            List.singleton_append, List.intercalate_cons_of_ne_nil hrest]
          simp only [List.append_assoc]

/-- A part with the separator in it can be divided at another place. -/
theorem exists_intercalate_eq {ls : List (List α)} {l : List α} (hlen : 2 ≤ ls.length) (hl : l ∈ ls)
    (hx : x ∈ l) :
    ∃ ls', ls'.length = ls.length ∧ [x].intercalate ls' = [x].intercalate ls ∧ ls' ≠ ls := by
  obtain ⟨front, back, rfl⟩ := List.append_of_mem hl
  obtain ⟨u, v, rfl⟩ := List.append_of_mem hx
  -- no text is a proper beginning of itself
  have hself : ∀ w w' : List α, w ≠ w ++ x :: w' := fun w w' h => by
    have := congrArg List.length h
    rw [List.length_append, List.length_cons] at this
    omega
  cases back with
  | cons m back =>
      refine ⟨front ++ u :: (v ++ x :: m) :: back, ?_, ?_, ?_⟩
      · simp only [List.length_append, List.length_cons]
      · refine intercalate_append_congr (List.cons_ne_nil _ _) (List.cons_ne_nil _ _) ?_
        rw [List.intercalate_cons_cons, List.intercalate_cons_cons, List.append_cons v,
          intercalate_cons_append]
        simp only [List.append_assoc, List.cons_append, List.nil_append]
      · intro h
        exact hself u v (List.cons.inj (List.append_cancel_left h)).1
  | nil =>
      have hfront : front ≠ [] := by
        rintro rfl
        rw [List.nil_append, List.length_singleton] at hlen
        omega
      obtain ⟨front, m, rfl⟩ : ∃ front' m, front = front' ++ [m] :=
        ⟨_, _, (List.dropLast_concat_getLast hfront).symm⟩
      refine ⟨front ++ [m ++ x :: u, v], ?_, ?_, ?_⟩
      · simp only [List.length_append, List.length_cons, List.length_nil]
      · rw [List.append_assoc]
        refine intercalate_append_congr (List.cons_ne_nil _ _) (List.cons_ne_nil _ _) ?_
        rw [List.singleton_append, List.intercalate_cons_cons, List.intercalate_cons_cons,
          List.intercalate_singleton, List.intercalate_singleton]
        simp only [List.append_assoc, List.cons_append, List.nil_append]
      · intro h
        rw [List.append_assoc] at h
        exact hself m u (List.cons.inj (List.append_cancel_left h)).1.symm

variable [BEq α] [LawfulBEq α]

/-- Parts without the separator can be told apart. -/
theorem intercalate_inj {ls ls' : List (List α)} (hls : ls ≠ []) (hls' : ls' ≠ [])
    (hx : ∀ l ∈ ls, x ∉ l) (hx' : ∀ l ∈ ls', x ∉ l)
    (h : [x].intercalate ls = [x].intercalate ls') : ls = ls' := by
  rw [← List.splitOn_intercalate x hx hls, h, List.splitOn_intercalate x hx' hls']

theorem count_intercalate {ls : List (List α)} (hls : ls ≠ []) :
    ([x].intercalate ls).count x + 1 = ls.flatten.count x + ls.length := by
  induction ls with
  | nil => exact absurd rfl hls
  | cons l ls ih =>
      cases ls with
      | nil => rw [List.intercalate_singleton, List.flatten_singleton, List.length_singleton]
      | cons l' ls =>
          have hrest := ih (List.cons_ne_nil _ _)
          rw [List.intercalate_cons_cons, List.count_append, List.count_append,
            List.count_singleton_self, List.flatten_cons, List.count_append, List.length_cons]
          omega

theorem count_flatten_eq_zero_iff {ls : List (List α)} :
    ls.flatten.count x = 0 ↔ ∀ l ∈ ls, x ∉ l := by
  rw [List.count_eq_zero, List.mem_flatten, not_exists]
  exact forall_congr' fun l => not_and

/-- **When a number of parts can be told from their join**: exactly when the separator is in none of
them. -/
theorem intercalate_own_iff {ls : List (List α)} (hlen : 2 ≤ ls.length) :
    (∀ ls', ls'.length = ls.length → [x].intercalate ls' = [x].intercalate ls → ls' = ls) ↔
      ∀ l ∈ ls, x ∉ l := by
  constructor
  · intro h l hl hx
    obtain ⟨ls', hlen', heq, hne⟩ := exists_intercalate_eq hlen hl hx
    exact hne (h ls' hlen' heq)
  · intro h ls' hlen' heq
    have hne : ls ≠ [] := List.ne_nil_of_length_pos (by omega)
    have hne' : ls' ≠ [] := List.ne_nil_of_length_pos (by omega)
    -- the join holds as many separators as there are places between the parts
    have hcount := count_intercalate (x := x) hne
    have hcount' := count_intercalate (x := x) hne'
    rw [heq, hcount, count_flatten_eq_zero_iff.mpr h, hlen'] at hcount'
    exact intercalate_inj hne' hne (count_flatten_eq_zero_iff.mp (by omega)) h heq

end Join

/-! ### A doubled separator -/

section Doubled
variable {α : Type} {c : α} {front back front' back' : List α}

/-- There are two `c` in a row. -/
def Doubled (c : α) (text : List α) : Prop := [c, c] <:+: text

theorem doubled_of_front_lt (h : front ++ c :: c :: back = front' ++ c :: c :: back')
    (hlt : front'.length < front.length) : Doubled c (front ++ [c]) := by
  have hshort : front' ++ [c, c] <+: front ++ c :: c :: back :=
    ⟨back', by rw [h, List.append_assoc]; rfl⟩
  have hlong : front ++ [c] <+: front ++ c :: c :: back :=
    ⟨c :: back, by rw [List.append_assoc]; rfl⟩
  obtain ⟨rest, hrest⟩ := List.prefix_of_prefix_length_le hshort hlong (by
    simp only [List.length_append, List.length_cons, List.length_nil]
    omega)
  exact ⟨front', rest, hrest⟩

theorem doubled_of_back_lt (h : front ++ c :: c :: back = front' ++ c :: c :: back')
    (hlt : back'.length < back.length) : Doubled c (c :: back) := by
  have hshort : c :: c :: back' <:+ front ++ c :: c :: back := ⟨front', h.symm⟩
  have hlong : c :: back <:+ front ++ c :: c :: back :=
    ⟨front ++ [c], by rw [List.append_assoc]; rfl⟩
  obtain ⟨rest, hrest⟩ := List.suffix_of_suffix_length_le hshort hlong (by
    simp only [List.length_cons]
    omega)
  exact ⟨rest, back', by rw [← hrest, List.append_assoc]; rfl⟩

end Doubled

end Text

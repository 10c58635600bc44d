import Rp1.Validation.Json

/-!
# Validation — what the journal reader accepts

The grammar of a flat object, from the escapes up: `Escaped`, `Spells`, `Denotes`, `Member`,
`Members` and `FlatObject` relate what is read to the characters it is read from.  White space may
stand between the tokens.

Each function of the reader reads exactly what its relation says from the front of the characters,
and leaves the rest.  `parseFlatObject_eq_ok_iff` says so of the whole: an object is read from every
text that begins with one, whatever stands behind it (`accepts_flatObject_iff`).
-/

namespace Rp1.Validation.Json
open Codec Loop Text

/-! ### The grammar -/

/-- What may stand behind a backslash, and for which character. -/
inductive Escaped : Char → List Char → Prop where
  | short (c e : Char) (h : (e, c) ∈ [('"', '"'), ('\\', '\\'), ('/', '/'), ('n', '\n'),
      ('r', '\r'), ('t', '\t'), ('b', '\x08'), ('f', '\x0c')]) : Escaped c [e]
  | unicode (digits : List Char) (hlen : digits.length = 4)
      (hdigit : ∀ d ∈ digits, isAsciiHexdigit d = true) (h : (hexNumber digits).isValidChar) :
      Escaped (Char.ofNat (hexNumber digits)) ('u' :: digits)

/-- What may stand between quotation marks, and for which string. -/
inductive Spells : List Char → List Char → Prop where
  | nil : Spells [] []
  | plain (c : Char) {value raw : List Char} (hq : c ≠ '"') (hb : c ≠ '\\') (h : Spells value raw) :
      Spells (c :: value) (c :: raw)
  | escaped {c : Char} {text value raw : List Char} (he : Escaped c text) (h : Spells value raw) :
      Spells (c :: value) ('\\' :: text ++ raw)

/-- A string literal. -/
inductive Literal : String → List Char → Prop where
  | mk {value raw : List Char} (h : Spells value raw) :
      Literal (String.ofList value) ('"' :: raw ++ ['"'])

/-- A value: a string literal, or the decimal digits of a number. -/
inductive Denotes : Value → List Char → Prop where
  | string {text : String} {raw : List Char} (h : Literal text raw) : Denotes (.string text) raw
  | number {n : UInt64} {digits : List Char} (hne : digits ≠ [])
      (hdigit : ∀ d ∈ digits, d.isDigit = true) (h : Nat.ofDigitChars 10 digits 0 = n.toNat) :
      Denotes (.number n) digits

def White (text : List Char) : Prop := ∀ c ∈ text, isWhitespace c = true

/-- A field, with white space between its tokens and around it. -/
inductive Member : String × Value → List Char → Prop where
  | mk {key : String} {value : Value} {w₁ k w₂ w₃ v w₄ : List Char} (h₁ : White w₁) (h₂ : White w₂)
      (h₃ : White w₃) (h₄ : White w₄) (hk : Literal key k) (hv : Denotes value v) :
      Member (key, value) (w₁ ++ (k ++ (w₂ ++ ':' :: (w₃ ++ (v ++ w₄)))))

inductive Members : List (String × Value) → List Char → Prop where
  | last {f : String × Value} {text : List Char} (h : Member f text) : Members [f] text
  | more {f : String × Value} {text : List Char} {fs : List (String × Value)} {rest : List Char}
      (h : Member f text) (hs : Members fs rest) : Members (f :: fs) (text ++ ',' :: rest)

/-- One flat object. -/
inductive FlatObject : List (String × Value) → List Char → Prop where
  | empty {w : List Char} (h : White w) : FlatObject [] ('{' :: (w ++ ['}']))
  | fields {fs : List (String × Value)} {text : List Char} (h : Members fs text) :
      FlatObject fs ('{' :: (text ++ ['}']))

/-! ### Escapes -/

theorem unicodeDigits_eq_ok_iff {n : Nat} {characters digits rest : List Char} :
    unicodeDigits n characters = .ok (digits, rest) ↔
      characters = digits ++ rest ∧ digits.length = n ∧ ∀ d ∈ digits, isAsciiHexdigit d = true := by
  induction n generalizing characters digits with
  | zero =>
      rw [unicodeDigits]
      constructor
      · intro h
        cases h
        exact ⟨rfl, rfl, fun _ hd => nomatch hd⟩
      · rintro ⟨rfl, hlen, -⟩
        rw [List.eq_nil_of_length_eq_zero hlen]
        rfl
  | succ n ih =>
      cases characters with
      | nil =>
          rw [unicodeDigits]
          refine ⟨fun h => (nomatch h), fun ⟨h, hlen, _⟩ => ?_⟩
          rw [(List.append_eq_nil_iff.mp h.symm).1] at hlen
          cases hlen
      | cons d characters =>
          rw [unicodeDigits]
          by_cases hd : isAsciiHexdigit d = true
          · rw [if_pos hd]
            constructor
            · intro h
              obtain ⟨⟨ds, r⟩, hds, h⟩ := bind_eq_ok.mp h
              cases h
              obtain ⟨rfl, rfl, hall⟩ := ih.mp hds
              exact ⟨rfl, rfl, List.forall_mem_cons.mpr ⟨hd, hall⟩⟩
            · rintro ⟨hsplit, hlen, hall⟩
              cases digits with
              | nil => cases hlen
              | cons d' ds =>
                  obtain ⟨rfl, rfl⟩ := List.cons.inj hsplit
                  have hds := ih.mpr ⟨rfl, Nat.succ.inj hlen, (List.forall_mem_cons.mp hall).2⟩
                  exact bind_eq_ok.mpr ⟨_, hds, rfl⟩
          · rw [if_neg hd]
            refine ⟨fun h => (nomatch h), fun ⟨hsplit, hlen, hall⟩ => ?_⟩
            cases digits with
            | nil => cases hlen
            | cons d' ds =>
                obtain ⟨rfl, -⟩ := List.cons.inj hsplit
                exact absurd (List.forall_mem_cons.mp hall).1 hd

theorem parseUnicodeEscape_eq_ok_iff {characters rest : List Char} {c : Char} :
    parseUnicodeEscape characters = .ok (c, rest) ↔
      ∃ digits, characters = digits ++ rest ∧ digits.length = 4 ∧
        (∀ d ∈ digits, isAsciiHexdigit d = true) ∧ (hexNumber digits).isValidChar ∧
        c = Char.ofNat (hexNumber digits) := by
  have hcode : ∀ digits : List Char, digits.length = 4 → (hexNumber digits).isValidChar →
      fromStrRadix16 digits = some (hexNumber digits) := by
    intro digits hlen hvalid
    have hne : ¬ digits.isEmpty = true := by
      intro hnil
      rw [List.isEmpty_iff.mp hnil] at hlen
      cases hlen
    have hle : hexNumber digits ≤ 2 ^ 32 - 1 := by
      rcases hvalid with h | ⟨-, h⟩ <;> omega
    rw [fromStrRadix16, if_neg hne, tryFit_of_le hle]
  rw [parseUnicodeEscape]
  constructor
  · intro h
    obtain ⟨⟨digits, r⟩, hdigits, h⟩ := bind_eq_ok.mp h
    obtain ⟨code, hc, h⟩ := bind_eq_ok.mp h
    obtain ⟨c', hc', h⟩ := bind_eq_ok.mp h
    cases h
    obtain ⟨rfl, hlen, hall⟩ := unicodeDigits_eq_ok_iff.mp hdigits
    obtain ⟨-, hfit⟩ := Option.ite_none_left_eq_some.mp (okOr_eq_ok.mp hc)
    obtain ⟨-, rfl⟩ := tryFit_eq_some.mp hfit
    obtain ⟨hvalid, hchar⟩ := Option.ite_none_right_eq_some.mp (okOr_eq_ok.mp hc')
    exact ⟨digits, rfl, hlen, hall, hvalid, (Option.some.inj hchar).symm⟩
  · rintro ⟨digits, hsplit, hlen, hall, hvalid, rfl⟩
    refine bind_eq_ok.mpr ⟨_, unicodeDigits_eq_ok_iff.mpr ⟨hsplit, hlen, hall⟩, ?_⟩
    simp only [hcode digits hlen hvalid, okOr_some, ok_bind, charFromU32, if_pos hvalid]

/-- **An escape** is read from the front of the characters. -/
theorem parseEscape_eq_ok_iff {characters rest : List Char} {c : Char} :
    parseEscape characters = .ok (c, rest) ↔
      ∃ text, characters = text ++ rest ∧ Escaped c text := by
  constructor
  · intro h
    have short : ∀ {e c : Char} {r : List Char}, (e, c) ∈ [('"', '"'), ('\\', '\\'), ('/', '/'),
        ('n', '\n'), ('r', '\r'), ('t', '\t'), ('b', '\x08'), ('f', '\x0c')] →
        ∃ text, e :: r = text ++ r ∧ Escaped c text :=
      fun {e c r} he => ⟨[e], rfl, .short c e he⟩
    rw [parseEscape.eq_def] at h
    split at h
    case h_9 characters =>
      obtain ⟨digits, rfl, hlen, hall, hvalid, rfl⟩ := parseUnicodeEscape_eq_ok_iff.mp h
      exact ⟨'u' :: digits, rfl, .unicode digits hlen hall hvalid⟩
    case h_10 => cases h
    all_goals
      cases h
      exact short (by decide)
  · rintro ⟨text, rfl, he⟩
    cases he with
    | short c e he =>
        simp only [List.mem_cons, List.not_mem_nil, or_false, Prod.mk.injEq] at he
        rcases he with ⟨rfl, rfl⟩ | ⟨rfl, rfl⟩ | ⟨rfl, rfl⟩ | ⟨rfl, rfl⟩ | ⟨rfl, rfl⟩ | ⟨rfl, rfl⟩ |
          ⟨rfl, rfl⟩ | ⟨rfl, rfl⟩
        all_goals rfl
    | unicode digits hlen hdigit hvalid =>
        exact parseUnicodeEscape_eq_ok_iff.mpr ⟨digits, rfl, hlen, hdigit, hvalid, rfl⟩

/-! ### Strings -/

/-- One round of the string loop, by what it reads. -/
inductive StringRound (value : List Char) : Chars →
    (List Char × Chars) × Flow (Except String Unit) → Prop where
  | closed (rest : Chars) : StringRound value ('"' :: rest) ((value, rest), .leave (.ok ()))
  | escaped {c : Char} {text : List Char} (he : Escaped c text) (rest : Chars) :
      StringRound value ('\\' :: (text ++ rest)) ((value ++ [c], rest), .again)
  | plain {c : Char} (hq : c ≠ '"') (hb : c ≠ '\\') (rest : Chars) :
      StringRound value (c :: rest) ((value ++ [c], rest), .again)
  | failed (characters rest : Chars) (error : String) :
      StringRound value characters ((value, rest), .leave (.error error))

theorem stringRound_spec (value : List Char) (characters : Chars) :
    StringRound value characters (stringRound (value, characters)) := by
  cases characters with
  | nil => exact .failed _ _ _
  | cons c characters =>
      rw [stringRound]
      by_cases hq : c = '"'
      · subst hq
        exact .closed characters
      · rw [if_neg hq]
        by_cases hb : c = '\\'
        · subst hb
          rw [if_pos rfl]
          cases he : parseEscape characters with
          | error error => exact .failed _ _ _
          | ok r =>
              obtain ⟨text, rfl, hesc⟩ := parseEscape_eq_ok_iff.mp he
              exact .escaped hesc _
        · rw [if_neg hb]
          exact .plain hq hb characters

theorem stringRound_escaped {c : Char} {text : List Char} (he : Escaped c text)
    (value rest : List Char) :
    stringRound (value, '\\' :: (text ++ rest)) = ((value ++ [c], rest), .again) := by
  simp only [stringRound, if_neg (by decide : ¬ '\\' = '"'), if_true,
    parseEscape_eq_ok_iff.mpr ⟨text, rfl, he⟩]

theorem stringRound_plain {c : Char} (hq : c ≠ '"') (hb : c ≠ '\\') (value rest : List Char) :
    stringRound (value, c :: rest) = ((value ++ [c], rest), .again) := by
  rw [stringRound, if_neg hq, if_neg hb]

theorem stringRound_shrinks :
    Shrinks (fun s : List Char × Chars => s.2.length) stringRound := by
  rintro ⟨value, characters⟩ ⟨value', rest⟩ h
  have hr := stringRound_spec value characters
  rw [h] at hr
  cases hr with
  | escaped he rest =>
      show rest.length < ('\\' :: (_ ++ rest)).length
      rw [List.length_cons, List.length_append]
      omega
  | plain hq hb rest => exact Nat.lt_succ_self _

/-- The string loop reads what spells a string, up to the closing quotation mark. -/
theorem stringLoop_of_spells {value raw : List Char} (h : Spells value raw) (acc rest : List Char) :
    stringLoop (acc, raw ++ '"' :: rest) = ((acc ++ value, rest), .ok ()) := by
  induction h generalizing acc with
  | nil =>
      rw [List.append_nil]
      exact run_leave rfl
  | @plain c value raw hq hb _ ih =>
      rw [stringLoop, List.cons_append, stringRound_shrinks.run_again (stringRound_plain hq hb _ _),
        List.append_cons acc c value]
      exact ih (acc ++ [c])
  | @escaped c text value raw he _ ih =>
      rw [stringLoop, List.cons_append, List.cons_append, List.append_assoc,
        stringRound_shrinks.run_again (stringRound_escaped he _ _), List.append_cons acc c value]
      exact ih (acc ++ [c])

theorem spells_of_stringLoop (s : List Char × Chars) :
    ∀ value rest, stringLoop s = ((value, rest), .ok ()) →
      ∃ read raw, value = s.1 ++ read ∧ s.2 = raw ++ '"' :: rest ∧ Spells read raw := by
  induction s using stringRound_shrinks.induct with
  | leave s s' r hb =>
      intro value rest h
      rw [stringLoop, run_leave hb] at h
      cases h
      have hr := stringRound_spec s.1 s.2
      rw [hb] at hr
      generalize hs : s.2 = characters at hr
      cases hr with
      | closed rest => exact ⟨[], [], (List.append_nil _).symm, rfl, .nil⟩
  | again s s' hb ih =>
      intro value rest h
      rw [stringLoop, stringRound_shrinks.run_again hb] at h
      obtain ⟨read, raw, hval, hrest, hspell⟩ := ih value rest h
      have hr := stringRound_spec s.1 s.2
      rw [hb] at hr
      generalize hs : s.2 = characters at hr
      cases hr with
      | @escaped c text he r =>
          obtain rfl : r = raw ++ '"' :: rest := hrest
          refine ⟨c :: read, '\\' :: text ++ raw, ?_, ?_, .escaped he hspell⟩
          · rw [hval, List.append_cons s.1 c read]
          · rw [List.append_assoc, List.cons_append]
      | @plain c hq hb' r =>
          obtain rfl : r = raw ++ '"' :: rest := hrest
          exact ⟨c :: read, c :: raw, by rw [hval, List.append_cons s.1 c read], rfl,
            .plain c hq hb' hspell⟩

/-- **A string literal** is read from the front of the characters. -/
theorem parseString_eq_ok_iff {characters rest : List Char} {text : String} :
    parseString characters = .ok (text, rest) ↔
      ∃ raw, characters = raw ++ rest ∧ Literal text raw := by
  constructor
  · intro h
    rw [parseString.eq_def] at h
    split at h
    · rename_i characters
      cases hl : stringLoop ([], characters) with
      | mk s r =>
          simp only [hl] at h
          cases r with
          | error error => cases h
          | ok _ =>
              cases h
              obtain ⟨read, raw, hread, hsplit, hspell⟩ := spells_of_stringLoop _ _ _ hl
              refine ⟨'"' :: raw ++ ['"'], ?_, ?_⟩
              · rw [List.append_assoc, List.cons_append, List.singleton_append, ← hsplit]
              · rw [hread]
                exact .mk hspell
    · cases h
  · rintro ⟨raw, rfl, hl⟩
    cases hl with
    | @mk value raw hspell =>
        rw [List.append_assoc, List.cons_append, List.singleton_append, parseString,
          stringLoop_of_spells hspell]
        rfl

/-! ### Values -/

theorem parseNumber_of_digits {digits rest : List Char} {n : UInt64} (hne : digits ≠ [])
    (hdigit : ∀ d ∈ digits, d.isDigit = true) (h : Nat.ofDigitChars 10 digits 0 = n.toNat)
    (hrest : Stops Char.isDigit rest) : parseNumber (digits ++ rest) = .ok (n, rest) := by
  have hfit : n.toNat ≤ u64Max := Nat.le_pred_of_lt n.toNat_lt
  have hne' : ¬ digits.isEmpty = true := fun hnil => hne (List.isEmpty_iff.mp hnil)
  rw [parseNumber, takeWhile_append hdigit hrest, dropWhile_append hdigit hrest, parseU64,
    if_neg hne', h, tryFit_of_le hfit, Option.map_some, UInt64.ofNat_toNat]
  rfl

theorem denotes_of_parseNumber {characters rest : List Char} {n : UInt64}
    (h : parseNumber characters = .ok (n, rest)) :
    ∃ digits, characters = digits ++ rest ∧ Denotes (.number n) digits := by
  obtain ⟨number, hn, h⟩ := bind_eq_ok.mp h
  cases h
  obtain ⟨hne, hn⟩ := Option.ite_none_left_eq_some.mp (okOr_eq_ok.mp hn)
  obtain ⟨hle, rfl⟩ := tryFit_map_eq_some.mp hn
  refine ⟨_, List.takeWhile_append_dropWhile.symm, .number ?_ of_mem_takeWhile ?_⟩
  · exact fun hnil => hne (List.isEmpty_iff.mpr hnil)
  · rw [UInt64.toNat_ofNat_of_lt' (Nat.lt_of_le_pred (by decide) hle)]

theorem isWhitespace_of_isDigit {c : Char} (h : c.isDigit = true) : isWhitespace c = false := by
  have hrange : 48 ≤ c.toNat ∧ c.toNat ≤ 57 := by
    simpa [Char.isDigit, UInt32.le_iff_toNat_le] using h
  have hlist : ¬ c.toNat ∈ [0x20, 0x85, 0xa0, 0x1680, 0x2028, 0x2029, 0x202f, 0x205f, 0x3000] := by
    simp only [List.mem_cons, List.not_mem_nil, or_false]
    omega
  simp only [isWhitespace, List.contains_eq_mem, hlist, decide_false, Bool.or_false,
    Bool.or_eq_false_iff, Bool.and_eq_false_iff, decide_eq_false_iff_not]
  omega

/-- A literal begins with a quotation mark. -/
theorem Literal.head? {text : String} {raw : List Char} (h : Literal text raw) (rest : List Char) :
    (raw ++ rest).head? = some '"' := by
  cases h
  rfl

/-- A value does not begin with white space. -/
theorem Denotes.stops {v : Value} {raw : List Char} (h : Denotes v raw) (rest : List Char) :
    Stops isWhitespace (raw ++ rest) := by
  cases h with
  | string h => exact stops_of_head? (h.head? rest) (by decide)
  | number hne hdigit =>
      cases raw with
      | nil => exact absurd rfl hne
      | cons d raw => exact stops_cons (isWhitespace_of_isDigit (hdigit d List.mem_cons_self)) _

theorem parseValue_of_denotes {v : Value} {raw rest : List Char} (h : Denotes v raw)
    (hrest : Stops Char.isDigit rest) : parseValue (raw ++ rest) = .ok (v, rest) := by
  cases h with
  | @string text raw h =>
      have hs : parseString (raw ++ rest) = .ok (text, rest) :=
        parseString_eq_ok_iff.mpr ⟨raw, rfl, h⟩
      obtain ⟨raw', hraw⟩ := List.head?_eq_some_iff.mp (h.head? rest)
      rw [hraw] at hs ⊢
      rw [parseValue, if_pos rfl, hs]
      rfl
  | @number n digits hne hdigit hn =>
      have hp := parseNumber_of_digits hne hdigit hn hrest
      cases raw with
      | nil => exact absurd rfl hne
      | cons d raw =>
          have hd := hdigit d List.mem_cons_self
          have hq : d ≠ '"' := by
            rintro rfl
            cases hd
          rw [List.cons_append] at hp ⊢
          rw [parseValue, if_neg hq, if_pos hd, hp]
          rfl

/-- **A value** is read from the front of the characters. -/
theorem denotes_of_parseValue {characters rest : List Char} {v : Value}
    (h : parseValue characters = .ok (v, rest)) :
    ∃ raw, characters = raw ++ rest ∧ Denotes v raw := by
  cases characters with
  | nil => cases h
  | cons c characters =>
      rw [parseValue] at h
      split at h
      · cases hs : parseString (c :: characters) with
        | error error => rw [hs] at h; cases h
        | ok r =>
            rw [hs] at h
            cases h
            obtain ⟨raw, hsplit, hl⟩ := parseString_eq_ok_iff.mp hs
            exact ⟨raw, hsplit, .string hl⟩
      · split at h
        · cases hn : parseNumber (c :: characters) with
          | error error => rw [hn] at h; cases h
          | ok r =>
              rw [hn] at h
              cases h
              exact denotes_of_parseNumber hn
        · cases h

/-! ### Members -/

theorem white_nil : White [] := List.forall_mem_nil _

theorem eq_takeWhile_append_skipWhitespace (text : List Char) :
    text = text.takeWhile isWhitespace ++ skipWhitespace text :=
  List.takeWhile_append_dropWhile.symm

/-- Neither white space nor a digit goes on behind a field. -/
def EndsMember (rest : List Char) : Prop := Stops isWhitespace rest ∧ Stops Char.isDigit rest

theorem White.stops_isDigit {w rest : List Char} (h : White w) (hrest : Stops Char.isDigit rest) :
    Stops Char.isDigit (w ++ rest) := by
  cases w with
  | nil => exact hrest
  | cons c w =>
      refine stops_cons (Bool.eq_false_iff.mpr fun hd => ?_) _
      have hw := h c List.mem_cons_self
      rw [isWhitespace_of_isDigit hd] at hw
      cases hw

theorem parseField_of_member {f : String × Value} {text rest : List Char} (h : Member f text)
    (hrest : EndsMember rest) : parseField (text ++ rest) = .ok (f, rest) := by
  obtain ⟨hwhite, hdigit⟩ := hrest
  cases h with
  | @mk key value w₁ k w₂ w₃ v w₄ h₁ h₂ h₃ h₄ hk hv =>
      have hkey : ∀ r, Stops isWhitespace (k ++ r) :=
        fun r => stops_of_head? (hk.head? r) (by decide)
      -- the tokens, each with the white space in front of it
      have e₁ : skipWhitespace (w₁ ++ (k ++ (w₂ ++ ':' :: (w₃ ++ (v ++ w₄)))) ++ rest) =
          k ++ (w₂ ++ ':' :: (w₃ ++ (v ++ (w₄ ++ rest)))) := by
        simp only [List.append_assoc, List.cons_append]
        exact dropWhile_append h₁ (hkey _)
      have e₂ : skipWhitespace (w₂ ++ ':' :: (w₃ ++ (v ++ (w₄ ++ rest)))) =
          ':' :: (w₃ ++ (v ++ (w₄ ++ rest))) :=
        dropWhile_append h₂ (stops_cons (by decide) _)
      have e₃ : skipWhitespace (w₃ ++ (v ++ (w₄ ++ rest))) = v ++ (w₄ ++ rest) :=
        dropWhile_append h₃ (hv.stops _)
      have e₄ : skipWhitespace (w₄ ++ rest) = rest := dropWhile_append h₄ hwhite
      have hs : parseString (k ++ (w₂ ++ ':' :: (w₃ ++ (v ++ (w₄ ++ rest))))) = .ok (key, _) :=
        parseString_eq_ok_iff.mpr ⟨k, rfl, hk⟩
      have hv' := parseValue_of_denotes hv (h₄.stops_isDigit hdigit)
      simp only [parseField, e₁, hk.head?, ne_eq, not_true_eq_false, if_false, hs, ok_bind, e₂, e₃,
        hv', e₄]

/-- **A field** is read from the front of the characters. -/
theorem member_of_parseField {characters rest : List Char} {f : String × Value}
    (h : parseField characters = .ok (f, rest)) :
    ∃ text, characters = text ++ rest ∧ Member f text := by
  rw [parseField] at h
  obtain ⟨hhead, h⟩ := guard_eq_ok.mp h
  obtain ⟨⟨key, r₁⟩, hkey, h⟩ := bind_eq_ok.mp h
  obtain ⟨k, hk, hlit⟩ := parseString_eq_ok_iff.mp hkey
  have hw := eq_takeWhile_append_skipWhitespace
  cases hcolon : skipWhitespace r₁ with
  | nil =>
      simp only [hcolon] at h
      cases h
  | cons c r₂ =>
      simp only [hcolon] at h
      split at h
      · rename_i heq
        obtain ⟨rfl, rfl⟩ := List.cons.inj heq
        obtain ⟨⟨value, r₃⟩, hvalue, h⟩ := bind_eq_ok.mp h
        obtain ⟨v, hv, hden⟩ := denotes_of_parseValue hvalue
        cases h
        have hfield : Member (key, value) (characters.takeWhile isWhitespace ++ (k ++
            (r₁.takeWhile isWhitespace ++ ':' :: (r₂.takeWhile isWhitespace ++
              (v ++ r₃.takeWhile isWhitespace))))) :=
          .mk of_mem_takeWhile of_mem_takeWhile of_mem_takeWhile of_mem_takeWhile hlit hden
        refine ⟨_, ?_, hfield⟩
        conv_lhs => rw [hw characters, hk, hw r₁, hcolon, hw r₂, hv, hw r₃]
        simp only [List.append_assoc, List.cons_append]
      · cases h

/-! ### Objects -/

/-- One round of the field loop, by what it reads. -/
inductive MemberRound (read : List (String × Value)) : Chars →
    (List (String × Value) × Chars) × Flow (Except String Unit) → Prop where
  | more {f : String × Value} {text : List Char} (h : Member f text) (rest : Chars) :
      MemberRound read (text ++ ',' :: rest) ((read ++ [f], rest), .again)
  | last {f : String × Value} {text : List Char} (h : Member f text) (rest : Chars) :
      MemberRound read (text ++ '}' :: rest) ((read ++ [f], rest), .leave (.ok ()))
  | failed (characters : Chars) (s : List (String × Value) × Chars) (error : String) :
      MemberRound read characters (s, .leave (.error error))

theorem fieldRound_spec (read : List (String × Value)) (characters : Chars) :
    MemberRound read characters (fieldRound (read, characters)) := by
  rw [fieldRound]
  cases hf : parseField characters with
  | error error => exact .failed _ _ _
  | ok r =>
      obtain ⟨f, rest⟩ := r
      obtain ⟨text, rfl, hfield⟩ := member_of_parseField hf
      simp only
      split
      · rename_i heq
        cases heq
      · rename_i heq
        cases heq
        exact .more hfield _
      · rename_i heq
        cases heq
        exact .last hfield _
      · exact .failed _ _ _

theorem fieldRound_more {f : String × Value} {text : List Char} (h : Member f text)
    (read : List (String × Value)) (rest : List Char) :
    fieldRound (read, text ++ ',' :: rest) = ((read ++ [f], rest), .again) := by
  have hends : EndsMember (',' :: rest) := ⟨stops_cons (by decide) _, stops_cons (by decide) _⟩
  simp only [fieldRound, parseField_of_member h hends]

theorem fieldRound_last {f : String × Value} {text : List Char} (h : Member f text)
    (read : List (String × Value)) (rest : List Char) :
    fieldRound (read, text ++ '}' :: rest) = ((read ++ [f], rest), .leave (.ok ())) := by
  have hends : EndsMember ('}' :: rest) := ⟨stops_cons (by decide) _, stops_cons (by decide) _⟩
  simp only [fieldRound, parseField_of_member h hends]

theorem fieldRound_shrinks :
    Shrinks (fun s : List (String × Value) × Chars => s.2.length) fieldRound := by
  rintro ⟨read, characters⟩ ⟨read', rest⟩ h
  have hr := fieldRound_spec read characters
  rw [h] at hr
  cases hr with
  | more h rest =>
      show rest.length < (_ ++ ',' :: rest).length
      rw [List.length_append, List.length_cons]
      omega

/-- The field loop reads the fields up to the closing brace. -/
theorem fieldLoop_of_members {fs : List (String × Value)} {text : List Char} (h : Members fs text)
    (read : List (String × Value)) (rest : List Char) :
    fieldLoop (read, text ++ '}' :: rest) = ((read ++ fs, rest), .ok ()) := by
  induction h generalizing read with
  | last h => exact run_leave (fieldRound_last h read rest)
  | @more f text fs text' h _ ih =>
      rw [fieldLoop, List.append_assoc, List.cons_append,
        fieldRound_shrinks.run_again (fieldRound_more h read _), List.append_cons read f fs]
      exact ih (read ++ [f])

theorem members_of_fieldLoop (s : List (String × Value) × Chars) :
    ∀ read rest, fieldLoop s = ((read, rest), .ok ()) →
      ∃ fs text, read = s.1 ++ fs ∧ s.2 = text ++ '}' :: rest ∧ Members fs text := by
  induction s using fieldRound_shrinks.induct with
  | leave s s' r hb =>
      intro read rest h
      rw [fieldLoop, run_leave hb] at h
      cases h
      have hr := fieldRound_spec s.1 s.2
      rw [hb] at hr
      generalize hs : s.2 = characters at hr
      cases hr with
      | last h rest => exact ⟨_, _, rfl, rfl, .last h⟩
  | again s s' hb ih =>
      intro read rest h
      rw [fieldLoop, fieldRound_shrinks.run_again hb] at h
      obtain ⟨fs, text, hread, hrest, hfields⟩ := ih read rest h
      have hr := fieldRound_spec s.1 s.2
      rw [hb] at hr
      generalize hs : s.2 = characters at hr
      cases hr with
      | @more f text' hf r =>
          obtain rfl : r = text ++ '}' :: rest := hrest
          refine ⟨f :: fs, text' ++ ',' :: text, ?_, ?_, .more hf hfields⟩
          · rw [hread, List.append_cons s.1 f fs]
          · rw [List.append_assoc, List.cons_append]

theorem Members.ne_nil {fs : List (String × Value)} {text : List Char} (h : Members fs text) :
    fs ≠ [] := by
  cases h with
  | last => exact List.cons_ne_nil _ _
  | more => exact List.cons_ne_nil _ _

/-- White space in front of a field belongs to it. -/
theorem Member.white {f : String × Value} {w text : List Char} (hw : White w) (h : Member f text) :
    Member f (w ++ text) := by
  cases h with
  | mk h₁ h₂ h₃ h₄ hk hv =>
      rw [← List.append_assoc]
      refine .mk (fun c hc => ?_) h₂ h₃ h₄ hk hv
      rcases List.mem_append.mp hc with hc | hc
      · exact hw c hc
      · exact h₁ c hc

theorem Members.white {fs : List (String × Value)} {w text : List Char} (hw : White w)
    (h : Members fs text) : Members fs (w ++ text) := by
  cases h with
  | last h => exact .last (h.white hw)
  | more h hs =>
      rw [← List.append_assoc]
      exact .more (h.white hw) hs

/-- It may be skipped; then comes the quotation mark of the key. -/
theorem Member.skip {f : String × Value} {text : List Char} (h : Member f text) :
    ∃ text', Member f text' ∧ ∀ rest, skipWhitespace (text ++ rest) = text' ++ rest ∧
      (text' ++ rest).head? = some '"' := by
  cases h with
  | @mk key value w₁ k w₂ w₃ v w₄ h₁ h₂ h₃ h₄ hk hv =>
      refine ⟨[] ++ (k ++ (w₂ ++ ':' :: (w₃ ++ (v ++ w₄)))), .mk white_nil h₂ h₃ h₄ hk hv,
        fun rest => ?_⟩
      have hhead : (k ++ (w₂ ++ ':' :: (w₃ ++ (v ++ w₄))) ++ rest).head? = some '"' := by
        rw [List.append_assoc]
        exact hk.head? _
      refine ⟨?_, hhead⟩
      rw [List.append_assoc]
      exact dropWhile_append h₁ (stops_of_head? hhead (by decide))

theorem Members.skip {fs : List (String × Value)} {text : List Char} (h : Members fs text) :
    ∃ text', Members fs text' ∧ ∀ rest, skipWhitespace (text ++ rest) = text' ++ rest ∧
      (text' ++ rest).head? = some '"' := by
  cases h with
  | last h =>
      obtain ⟨text', h', hskip⟩ := h.skip
      exact ⟨text', .last h', hskip⟩
  | more h hs =>
      obtain ⟨text', h', hskip⟩ := h.skip
      refine ⟨_, .more h' hs, fun rest => ?_⟩
      rw [List.append_assoc, List.append_assoc]
      exact hskip _

/-- What the iterator holds behind the fields: the reader does not take the closing brace of an
empty object. -/
def leftBehind (fs : List (String × Value)) (rest : List Char) : List Char :=
  if fs.isEmpty then '}' :: rest else rest

theorem Members.leftBehind {fs : List (String × Value)} {text : List Char} (h : Members fs text)
    (rest : List Char) : leftBehind fs rest = rest :=
  if_neg fun hnil => h.ne_nil (List.isEmpty_iff.mp hnil)

theorem parseObject_of_flatObject {fs : List (String × Value)} {text : List Char}
    (h : FlatObject fs text) (rest : List Char) :
    parseObject (text ++ rest) = .ok (fs, leftBehind fs rest) := by
  cases h with
  | @empty w hw =>
      have hskip : skipWhitespace (w ++ ['}'] ++ rest) = '}' :: rest := by
        rw [List.append_assoc]
        exact dropWhile_append hw (stops_cons (by decide) _)
      rw [List.cons_append, parseObject, hskip]
      rfl
  | @fields fs text h =>
      obtain ⟨text', h', hskip⟩ := h.skip
      obtain ⟨hrest, hhead⟩ := hskip ('}' :: rest)
      have hne : ¬ (some '"' : Option Char) = some '}' := by decide
      rw [List.cons_append, List.append_assoc, List.singleton_append, parseObject]
      simp only [hrest, hhead, if_neg hne, fieldLoop_of_members h' [] rest, List.nil_append]
      rw [h.leftBehind]
      rfl

theorem flatObject_of_parseObject {characters r : List Char} {fs : List (String × Value)}
    (h : parseObject characters = .ok (fs, r)) :
    ∃ text rest, characters = text ++ rest ∧ FlatObject fs text ∧ r = leftBehind fs rest := by
  have hw := eq_takeWhile_append_skipWhitespace
  rw [parseObject.eq_def] at h
  split at h
  · rename_i characters
    have hwhite : White (characters.takeWhile isWhitespace) := of_mem_takeWhile
    by_cases hclose : (skipWhitespace characters).head? = some '}'
    · simp only [if_pos hclose] at h
      cases h
      obtain ⟨rest, hrest⟩ := List.head?_eq_some_iff.mp hclose
      refine ⟨_, rest, ?_, .empty hwhite, hrest⟩
      rw [List.cons_append, List.append_assoc, List.singleton_append, ← hrest, ← hw]
    · simp only [if_neg hclose] at h
      cases hl : fieldLoop ([], skipWhitespace characters) with
      | mk s o =>
          simp only [hl] at h
          cases o with
          | error error => cases h
          | ok _ =>
              cases h
              obtain ⟨fs', text, hfs, hsplit, hfields⟩ := members_of_fieldLoop _ _ _ hl
              obtain rfl : fs = fs' := hfs
              refine ⟨_, r, ?_, .fields (hfields.white hwhite), ?_⟩
              · rw [List.cons_append, List.append_assoc, List.append_assoc, List.singleton_append,
                  ← hsplit, ← hw]
              · rw [hfields.leftBehind]
  · cases h

/-- **The reader is exact**: it reads an object from every text that begins with one. -/
theorem parseFlatObject_eq_ok_iff {text : String} {fs : List (String × Value)} :
    parseFlatObject text = .ok fs ↔
      ∃ object rest, trim text.toList = object ++ rest ∧ FlatObject fs object := by
  rw [parseFlatObject]
  constructor
  · intro h
    cases hp : parseObject (trim text.toList) with
    | error error => rw [hp] at h; cases h
    | ok r =>
        rw [hp] at h
        cases h
        obtain ⟨object, rest, hsplit, hobject, -⟩ := flatObject_of_parseObject hp
        exact ⟨object, rest, hsplit, hobject⟩
  · rintro ⟨object, rest, hsplit, hobject⟩
    rw [hsplit, parseObject_of_flatObject hobject]
    rfl

/-- No object is the beginning of another. -/
theorem FlatObject.eq_nil {fs fs' : List (String × Value)} {object rest : List Char}
    (h : FlatObject fs object) (h' : FlatObject fs' (object ++ rest)) : rest = [] := by
  have hread := parseObject_of_flatObject h rest
  have hwhole := parseObject_of_flatObject h' []
  rw [List.append_nil, hread] at hwhole
  obtain ⟨rfl, hleft⟩ := Prod.mk.inj (Except.ok.inj hwhole)
  rw [leftBehind, leftBehind] at hleft
  split at hleft
  · exact (List.cons.inj hleft).2
  · exact hleft

/-! ### Trailing text -/

/-- **When the reader refuses what is no flat object**: exactly when nothing stands behind an object
at the beginning of the text. -/
theorem accepts_flatObject_iff (text : String) :
    (∀ fs, parseFlatObject text = .ok fs → FlatObject fs (trim text.toList)) ↔
      ∀ fs object rest, trim text.toList = object ++ rest → FlatObject fs object → rest = [] := by
  constructor
  · intro h fs object rest hsplit hobject
    have hwhole := h fs (parseFlatObject_eq_ok_iff.mpr ⟨object, rest, hsplit, hobject⟩)
    rw [hsplit] at hwhole
    exact hobject.eq_nil hwhole
  · intro h fs hread
    obtain ⟨object, rest, hsplit, hobject⟩ := parseFlatObject_eq_ok_iff.mp hread
    rw [hsplit, h fs object rest hsplit hobject, List.append_nil]
    exact hobject

/-- A second object on the line is read over: `{"a":1}{"b":2}` gives the fields of the first. -/
theorem second_object_ignored :
    ∃ fs, parseFlatObject "\x7b\"a\":1\x7d\x7b\"b\":2\x7d" = .ok fs ∧
      ¬ FlatObject fs (trim "\x7b\"a\":1\x7d\x7b\"b\":2\x7d".toList) := by
  refine ⟨[("a", .number 1)], by decide +kernel, fun h => ?_⟩
  -- the iterator would have nothing left
  have hread := parseObject_of_flatObject h []
  exact absurd hread (by decide +kernel)

end Rp1.Validation.Json

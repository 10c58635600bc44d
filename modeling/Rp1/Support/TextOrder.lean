import Mathlib.Data.String.Basic

/-!
# Support — the order of texts

A text is before another when its first different character is.  `lt_of_ofDigitChars_lt` says that
numbers written with equally many digits are in the order of their values, and `utf8_lt_of_lt` that
the bytes of texts are in the order of the texts.
-/

namespace TextOrder

section Append
variable {α : Type} [LT α]

/-- What follows a difference does not matter. -/
theorem append_lt_append {a b : List α} (hlen : a.length = b.length) (h : a < b) (x y : List α) :
    a ++ x < b ++ y := by
  induction a generalizing b with
  | nil =>
      cases b with
      | nil => cases h
      | cons _ _ => cases hlen
  | cons c a ih =>
      cases b with
      | nil => cases hlen
      | cons d b =>
          rw [List.cons_append, List.cons_append, List.cons_lt_cons_iff]
          rcases List.cons_lt_cons_iff.mp h with hcd | ⟨hcd, hab⟩
          · exact .inl hcd
          · exact .inr ⟨hcd, ih (Nat.succ_inj.mp hlen) hab⟩

end Append

/-! ### Digits -/

section Digits
variable {a b : List Char}

theorem toNat_lt {c d : Char} : c < d ↔ c.toNat < d.toNat := by
  rw [Char.lt_def, UInt32.lt_iff_toNat_lt]
  rfl

/-- The digits in front weigh more. -/
theorem ofDigitChars_lt {m n : Nat} (ha : ∀ c ∈ a, c.isDigit = true) (hlen : a.length = b.length)
    (h : m < n) : Nat.ofDigitChars 10 a m < Nat.ofDigitChars 10 b n := by
  induction a generalizing b m n with
  | nil =>
      rw [List.length_nil] at hlen
      rw [List.length_eq_zero_iff.mp hlen.symm]
      exact h
  | cons c a ih =>
      obtain ⟨hc, ha⟩ := List.forall_mem_cons.mp ha
      cases b with
      | nil => cases hlen
      | cons d b =>
          have hzero : '0'.toNat = 48 := rfl
          have hnine : c.toNat ≤ 57 := (Char.isDigit_iff_toNat.mp hc).2
          rw [Nat.ofDigitChars_cons, Nat.ofDigitChars_cons]
          exact ih ha (Nat.succ_inj.mp hlen) (by omega)

/-- **Digits in order.** -/
theorem lt_of_ofDigitChars_lt {n : Nat} (ha : ∀ c ∈ a, c.isDigit = true)
    (hb : ∀ c ∈ b, c.isDigit = true) (hlen : a.length = b.length)
    (h : Nat.ofDigitChars 10 a n < Nat.ofDigitChars 10 b n) : a < b := by
  induction a generalizing b n with
  | nil =>
      rw [List.length_eq_zero_iff.mp hlen.symm] at h
      exact absurd h (lt_irrefl _)
  | cons c a ih =>
      cases b with
      | nil => cases hlen
      | cons d b =>
          obtain ⟨hc, ha⟩ := List.forall_mem_cons.mp ha
          obtain ⟨hd, hb'⟩ := List.forall_mem_cons.mp hb
          rw [List.cons_lt_cons_iff]
          rw [Nat.ofDigitChars_cons, Nat.ofDigitChars_cons] at h
          rcases lt_trichotomy c d with hcd | hcd | hdc
          · exact .inl hcd
          · subst hcd
            exact .inr ⟨rfl, ih ha hb' (Nat.succ_inj.mp hlen) h⟩
          · -- a greater first digit is a greater number
            have hback : Nat.ofDigitChars 10 b (10 * n + (d.toNat - '0'.toNat)) <
                Nat.ofDigitChars 10 a (10 * n + (c.toNat - '0'.toNat)) := by
              refine ofDigitChars_lt hb' (Nat.succ_inj.mp hlen).symm ?_
              have := toNat_lt.mp hdc
              obtain ⟨hlow, -⟩ := Char.isDigit_iff_toNat.mp hd
              omega
            exact absurd h hback.asymm

end Digits

/-! ### Bytes -/

theorem ofNat_lt_ofNat (m n : Nat) : UInt8.ofNat m < UInt8.ofNat n ↔ m % 256 < n % 256 := by
  rw [UInt8.lt_iff_toNat_lt, UInt8.toNat_ofNat', UInt8.toNat_ofNat']

theorem ofNat_eq_ofNat (m n : Nat) : UInt8.ofNat m = UInt8.ofNat n ↔ m % 256 = n % 256 := by
  rw [← UInt8.toNat_inj, UInt8.toNat_ofNat', UInt8.toNat_ofNat']

/-- The bytes of characters are in the order of the characters, whatever follows. -/
theorem utf8EncodeChar_lt {c d : Char} (h : c < d) (x y : List UInt8) :
    String.utf8EncodeChar c ++ x < String.utf8EncodeChar d ++ y := by
  have hcd : c.val.toNat < d.val.toNat := toNat_lt.mp h
  have hvalid : d.val.toNat < 0x110000 := by
    have hd := d.valid
    simp only [UInt32.isValidChar, Nat.isValidChar] at hd
    omega
  -- six bits to a byte
  have h₂ : ∀ n, n / 4096 = n / 64 / 64 := fun n => (Nat.div_div_eq_div_mul n 64 64).symm
  have h₃ : ∀ n, n / 262144 = n / 64 / 64 / 64 := fun n => by
    rw [← h₂, Nat.div_div_eq_div_mul]
  rw [String.utf8EncodeChar, String.utf8EncodeChar]
  generalize c.val.toNat = v at *
  generalize d.val.toNat = w at *
  split_ifs
  all_goals
    simp only [List.cons_append, List.nil_append, List.cons_lt_cons_iff, ofNat_lt_ofNat,
      ofNat_eq_ofNat, h₂, h₃]
    omega

theorem toList_toUTF8 (s : String) :
    s.toUTF8.data.toList = s.toList.flatMap String.utf8EncodeChar := by
  rw [String.toUTF8, ← String.utf8Encode_toList, List.utf8Encode, List.toList_data_toByteArray]

theorem flatMap_utf8EncodeChar_lt {a b : List Char} (h : a < b) :
    a.flatMap String.utf8EncodeChar < b.flatMap String.utf8EncodeChar := by
  induction a generalizing b with
  | nil =>
      cases b with
      | nil => cases h
      | cons d b =>
          have hne : (d :: b).flatMap String.utf8EncodeChar ≠ [] := by
            rw [List.flatMap_cons]
            exact List.append_ne_nil_of_left_ne_nil String.utf8EncodeChar_ne_nil _
          obtain ⟨byte, bytes, hbytes⟩ := List.exists_cons_of_ne_nil hne
          rw [hbytes]
          exact List.nil_lt_cons byte bytes
  | cons c a ih =>
      cases b with
      | nil => cases h
      | cons d b =>
          rw [List.flatMap_cons, List.flatMap_cons]
          rcases List.cons_lt_cons_iff.mp h with hcd | ⟨rfl, hab⟩
          · exact utf8EncodeChar_lt hcd _ _
          · exact List.append_left_lt (ih hab)

/-- **Bytes in order.** -/
theorem utf8_lt_of_lt {s t : String} (h : s < t) :
    s.toUTF8.data.toList < t.toUTF8.data.toList := by
  rw [toList_toUTF8, toList_toUTF8]
  exact flatMap_utf8EncodeChar_lt (String.lt_iff_toList_lt.mp h)

end TextOrder

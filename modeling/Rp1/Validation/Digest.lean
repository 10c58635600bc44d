import Mathlib.Tactic
import Rp1.Validation.DigestInputs

/-!
# Validation — what the digest tells apart

`digest` is a 64-bit value, so it cannot tell all texts apart.  Of the two steps for each byte, the
exclusive or with the byte and the multiplication with the prime, each can be undone.  A text is
therefore told apart from every text in which one byte is another one, wherever it stands and
however much follows (`fnv_single_ne`).

Two bytes in a row could make up for each other only if the second could undo what the first has
done to the hash.  It reaches the last eight bits of it, and the prime carries a difference of the
first byte beyond those (`mul_prime_div_ne`).

The texts the runner takes digests of are joined from parts, and a part that changes so little is a
change of the whole text that is as little (`Close.intercalate`).
-/

namespace Rp1.Validation

/-! ### The hash -/

/-- The loop in `digest`. -/
def fnv (hash : UInt64) (bytes : List UInt8) : UInt64 :=
  bytes.foldl (fun hash byte => (hash ^^^ byte.toUInt64) * 0x100000001b3) hash

def offsetBasis : UInt64 := 0xcbf29ce484222325

section Hash
variable {h h' : UInt64} {bytes : List UInt8}

/-- The prime is odd, so that multiplying with it loses nothing. -/
theorem mul_prime_inj {a b : UInt64} (h : a * 0x100000001b3 = b * 0x100000001b3) : a = b := by
  have hone : (0x100000001b3 : UInt64) * 0xce965057aff6957b = 1 := by decide
  calc a = a * (0x100000001b3 * 0xce965057aff6957b) := by rw [hone, UInt64.mul_one]
    _ = b * (0x100000001b3 * 0xce965057aff6957b) := by
        rw [← UInt64.mul_assoc, h, UInt64.mul_assoc]
    _ = b := by rw [hone, UInt64.mul_one]

theorem fnv_append (h : UInt64) (a b : List UInt8) : fnv h (a ++ b) = fnv (fnv h a) b :=
  List.foldl_append

theorem fnv_cons (h : UInt64) (byte : UInt8) (bytes : List UInt8) :
    fnv h (byte :: bytes) = fnv ((h ^^^ byte.toUInt64) * 0x100000001b3) bytes := rfl

/-- What follows does not bring two hashes together. -/
theorem fnv_inj (hb : fnv h bytes = fnv h' bytes) : h = h' := by
  induction bytes generalizing h h' with
  | nil => exact hb
  | cons byte bytes ih =>
      rw [fnv_cons, fnv_cons] at hb
      exact (UInt64.xor_left_inj _).mp (mul_prime_inj (ih hb))

theorem toUInt64_inj {x y : UInt8} (hxy : x.toUInt64 = y.toUInt64) : x = y := by
  have h := congrArg UInt64.toNat hxy
  rw [UInt8.toNat_toUInt64, UInt8.toNat_toUInt64] at h
  exact UInt8.toNat_inj.mp h

/-- **One byte.** -/
theorem fnv_single_ne {x y : UInt8} (hne : x ≠ y) :
    fnv h (x :: bytes) ≠ fnv h (y :: bytes) := by
  intro heq
  rw [fnv_cons, fnv_cons] at heq
  exact hne (toUInt64_inj ((UInt64.xor_right_inj _).mp (mul_prime_inj (fnv_inj heq))))

/-- A byte reaches the last eight bits. -/
theorem xor_div (h : UInt64) (x : UInt8) :
    (h ^^^ x.toUInt64).toNat / 256 = h.toNat / 256 := by
  have hx : x.toNat >>> 8 = 0 := by
    rw [Nat.shiftRight_eq_div_pow]
    exact Nat.div_eq_of_lt x.toNat_lt
  have hshift : ∀ n : Nat, n / 256 = n >>> 8 := fun n => (Nat.shiftRight_eq_div_pow n 8).symm
  rw [UInt64.toNat_xor, UInt8.toNat_toUInt64, hshift, hshift, Nat.shiftRight_xor_distrib, hx,
    Nat.xor_zero]

/-- The prime carries a difference in the last eight bits beyond them. -/
theorem mul_prime_div_ne {a b : UInt64} (hne : a ≠ b) (hdiv : a.toNat / 256 = b.toNat / 256) :
    (a * 0x100000001b3).toNat / 256 ≠ (b * 0x100000001b3).toNat / 256 := by
  intro hmul
  have hprime : (0x100000001b3 : UInt64).toNat = 1099511628211 := by decide
  rw [UInt64.toNat_mul, UInt64.toNat_mul, hprime] at hmul
  -- the two products are too close to each other to differ in how often they wrap around
  have hwrap : a.toNat * 1099511628211 / 2 ^ 64 = b.toNat * 1099511628211 / 2 ^ 64 := by omega
  exact hne (UInt64.toNat_inj.mp (by omega))

/-- **Two bytes in a row.** -/
theorem fnv_pair_ne {x₁ x₂ y₁ y₂ : UInt8} (hne : (x₁, x₂) ≠ (y₁, y₂)) :
    fnv h (x₁ :: x₂ :: bytes) ≠ fnv h (y₁ :: y₂ :: bytes) := by
  intro heq
  simp only [fnv_cons] at heq
  have hlast := mul_prime_inj (fnv_inj heq)
  by_cases hx : x₁ = y₁
  · subst hx
    have hx₂ : x₂ = y₂ := toUInt64_inj ((UInt64.xor_right_inj _).mp hlast)
    exact hne (by rw [hx₂])
  · have hfirst : h ^^^ x₁.toUInt64 ≠ h ^^^ y₁.toUInt64 := fun e =>
      hx (toUInt64_inj ((UInt64.xor_right_inj _).mp e))
    refine mul_prime_div_ne hfirst ((xor_div h x₁).trans (xor_div h y₁).symm) ?_
    have hsame := congrArg (fun a => a.toNat / 256) hlast
    simpa only [xor_div] using hsame

end Hash

/-! ### Hexadecimal digits -/

theorem digitChar_inj {m n : Nat} (hm : m < 16) (hn : n < 16)
    (h : Nat.digitChar m = Nat.digitChar n) : m = n := by
  have hall : ∀ m < 16, ∀ n < 16, Nat.digitChar m = Nat.digitChar n → m = n := by decide
  exact hall m hm n hn h

/-- The sixteen digits give every bit of the value. -/
theorem hex16_inj {m n : UInt64} (h : hex16 m = hex16 n) : m = n := by
  rw [hex16, hex16, String.ofList_inj] at h
  refine UInt64.toNat_inj.mp (Nat.eq_of_testBit_eq fun bit => ?_)
  by_cases hbit : bit < 64
  · have hi : 15 - bit / 4 ∈ List.range 16 := List.mem_range.mpr (by omega)
    have hdigit := digitChar_inj (Nat.mod_lt _ (by decide)) (Nat.mod_lt _ (by decide))
      (List.map_inj_left.mp h _ hi)
    have hshift : 4 * (15 - (15 - bit / 4)) = 4 * (bit / 4) := by omega
    rw [hshift] at hdigit
    have htest := congrArg (fun d => d.testBit (bit % 4)) hdigit
    have hlt : bit % 4 < 4 := Nat.mod_lt _ (by decide)
    have hpow : (16 : Nat) = 2 ^ 4 := rfl
    simpa only [hpow, Nat.testBit_mod_two_pow, Nat.testBit_shiftRight, hlt, decide_true,
      Bool.true_and, Nat.div_add_mod] using htest
  · have hlarge : ∀ n : UInt64, n.toNat.testBit bit = false := fun n =>
      Nat.testBit_lt_two_pow
        (n.toNat_lt.trans_le (Nat.pow_le_pow_right (by decide) (Nat.le_of_not_lt hbit)))
    rw [hlarge, hlarge]

/-! ### Close texts -/

/-- The bytes of a text. -/
def bytesOf (value : String) : List UInt8 := value.toUTF8.data.toList

theorem bytesOf_append (s t : String) : bytesOf (s ++ t) = bytesOf s ++ bytesOf t := by
  simp only [bytesOf, String.toUTF8_eq_toByteArray, String.toByteArray_append,
    ByteArray.data_append, Array.toList_append]

/-- Two texts that are different in one place, of two bytes at most. -/
def Close (s t : String) : Prop :=
  ∃ front x y back, bytesOf s = front ++ x ++ back ∧ bytesOf t = front ++ y ++ back ∧
    x.length = y.length ∧ x.length ≤ 2 ∧ x ≠ y

/-- A text around them leaves two texts close. -/
theorem Close.within {s t : String} (h : Close s t) (before after : String) :
    Close (before ++ s ++ after) (before ++ t ++ after) := by
  obtain ⟨front, x, y, back, hs, ht, hxy⟩ := h
  refine ⟨bytesOf before ++ front, x, y, back ++ bytesOf after, ?_, ?_, hxy⟩
  · simp only [bytesOf_append, hs, List.append_assoc]
  · simp only [bytesOf_append, ht, List.append_assoc]

/-- **Close texts have different digests.** -/
theorem Close.digest_ne {s t : String} (h : Close s t) : digest s ≠ digest t := by
  obtain ⟨front, x, y, back, hs, ht, hlen, htwo, hne⟩ := h
  intro heq
  have hfnv : fnv offsetBasis (bytesOf s) = fnv offsetBasis (bytesOf t) := hex16_inj heq
  rw [hs, ht, List.append_assoc, List.append_assoc, fnv_append, fnv_append _ front] at hfnv
  match x, y, hlen, htwo, hne with
  | [], [], _, _, hne => exact hne rfl
  | [x], [y], _, _, hne => exact fnv_single_ne (fun e => hne (by rw [e])) hfnv
  | [x₁, x₂], [y₁, y₂], _, _, hne =>
      refine fnv_pair_ne (fun e => hne ?_) hfnv
      obtain ⟨rfl, rfl⟩ := Prod.mk.inj e
      rfl

/-! ### What the runner takes digests of -/

/-- What stands around one text of a list that is joined. -/
theorem exists_intercalate (sep : String) (front back : List String) :
    ∃ before after, ∀ s, sep.intercalate (front ++ s :: back) = before ++ s ++ after := by
  have hback : ∃ after, ∀ s, sep.intercalate (s :: back) = s ++ after := by
    cases back with
    | nil => exact ⟨"", fun s => by rw [String.intercalate_singleton, String.append_empty]⟩
    | cons t ts =>
        refine ⟨sep ++ sep.intercalate (t :: ts), fun s => ?_⟩
        rw [String.intercalate_cons_cons, String.append_assoc]
  obtain ⟨after, hafter⟩ := hback
  induction front with
  | nil => exact ⟨"", after, fun s => by rw [List.nil_append, hafter, String.empty_append]⟩
  | cons f fs ih =>
      obtain ⟨before, after', h⟩ := ih
      refine ⟨f ++ sep ++ before, after', fun s => ?_⟩
      have hne : fs ++ s :: back ≠ [] := List.append_ne_nil_of_right_ne_nil _ (List.cons_ne_nil _ _)
      rw [List.cons_append, String.intercalate_cons_of_ne_nil hne, h]
      simp only [String.append_assoc]

theorem Close.intercalate {s t : String} (h : Close s t) (sep : String) (front back : List String) :
    Close (sep.intercalate (front ++ s :: back)) (sep.intercalate (front ++ t :: back)) := by
  obtain ⟨before, after, heq⟩ := exists_intercalate sep front back
  rw [heq, heq]
  exact h.within before after

/-- A campaign in which one argument of one command is another. -/
def withArgument (before after : List SegmentDefinition) (d : SegmentDefinition)
    (first rest : List Step) (program : String) (front back : List String) (argument : String) :
    List SegmentDefinition :=
  before ++ { d with steps := first ++ ⟨program, front ++ argument :: back⟩ :: rest } :: after

theorem Step.display_argument (program : String) (front back : List String) (argument : String) :
    Step.display ⟨program, front ++ argument :: back⟩ =
      program ++ " " ++ " ".intercalate (front ++ argument :: back) := by
  rw [Step.display, if_neg]
  simp

theorem Close.definitionInput {s t : String} (h : Close s t)
    (before after : List SegmentDefinition) (d : SegmentDefinition) (first rest : List Step)
    (program : String) (front back : List String) :
    Close (definitionInput (withArgument before after d first rest program front back s))
      (definitionInput (withArgument before after d first rest program front back t)) := by
  have hdisplay := (h.intercalate " " front back).within (program ++ " ") ""
  simp only [String.append_empty, ← Step.display_argument] at hdisplay
  have hcommands := hdisplay.intercalate " && " (first.map Step.display) (rest.map Step.display)
  have hline := (hcommands.within (d.id ++ "::") "").intercalate "\n"
    (before.map SegmentDefinition.definitionLine) (after.map SegmentDefinition.definitionLine)
  simpa only [Validation.definitionInput, withArgument, List.map_append, List.map_cons,
    SegmentDefinition.definitionLine, String.append_empty] using hline

/-- The fields of an identity, in the order the digest takes them. -/
def EvidenceIdentity.texts (i : EvidenceIdentity) : List String :=
  [i.subjectRevision, i.campaignDefinition, i.toolchain, i.target, i.features]

theorem EvidenceIdentity.input_eq (i : EvidenceIdentity) : i.input = "|".intercalate i.texts := by
  rw [← String.toList_inj, i.toList_input, String.toList_intercalate]
  rfl

/-- **A change of one or two bytes is seen.**  Identities that differ in one field, by one byte or
by two bytes in a row, have different digests, and no result of the one is reused under the other.
The definition digest tells two campaigns apart when an argument of a command is changed so. -/
theorem close_told_apart :
    (∀ (c c' : Campaign) (front back : List String) (s t : String),
      c.identity.texts = front ++ s :: back → c'.identity.texts = front ++ t :: back →
      Close s t → c.identity.digest ≠ c'.identity.digest ∧
        ∀ r, c'.reusable (some (c.journalEntry r)) c'.identity.digest = none) ∧
    ∀ before after d first rest program front back s t, Close s t →
      definitionDigest (withArgument before after d first rest program front back s) ≠
        definitionDigest (withArgument before after d first rest program front back t) := by
  constructor
  · intro c c' front back s t hc hc' hclose
    have hne : c.identity.digest ≠ c'.identity.digest := by
      rw [EvidenceIdentity.digest_eq, EvidenceIdentity.digest_eq, EvidenceIdentity.input_eq,
        EvidenceIdentity.input_eq, hc, hc']
      exact (hclose.intercalate "|" front back).digest_ne
    refine ⟨hne, fun r => ?_⟩
    cases hr : c'.reusable (some (c.journalEntry r)) c'.identity.digest with
    | none => rfl
    | some e =>
        obtain ⟨-, he, -, hident⟩ := Campaign.reusable_eq_some_iff.mp hr
        exact absurd ((congrArg JournalEntry.evidenceIdentity (Option.some.inj he)).trans hident) hne
  · intro before after d first rest program front back s t hclose
    rw [definitionDigest_eq, definitionDigest_eq]
    exact (hclose.definitionInput before after d first rest program front back).digest_ne

/-- A campaign for a toolchain. -/
def underToolchain (toolchain : String) : Campaign where
  identity := ⟨"revision", "definition", toolchain, "aarch64-apple-darwin", "default"⟩
  segments := []
  resume := true
  treeState := .clean

theorem close_told_apart_toolchain :
    Close "rustc 1.98.0" "rustc 1.99.0" ∧
      (underToolchain "rustc 1.98.0").identity.digest ≠
        (underToolchain "rustc 1.99.0").identity.digest := by
  have hclose : Close "rustc 1.98.0" "rustc 1.99.0" :=
    ⟨bytesOf "rustc 1.9", bytesOf "8", bytesOf "9", bytesOf ".0", by decide +kernel,
      by decide +kernel, by decide +kernel, by decide +kernel, by decide +kernel⟩
  exact ⟨hclose, (close_told_apart.1 (underToolchain "rustc 1.98.0")
    (underToolchain "rustc 1.99.0") ["revision", "definition"] ["aarch64-apple-darwin", "default"]
    _ _ rfl rfl hclose).1⟩

end Rp1.Validation

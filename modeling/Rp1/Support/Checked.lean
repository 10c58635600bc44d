import Mathlib.Tactic

/-!
# Support — checked arithmetic and results

Addition and conversion that answer `none` outside the range of a machine type, and the two
ways a fallible computation goes on: `okOr`, which turns an absent value into an error, and the
bind of `Except`.  The rules here are the inversions: a chain of fallible steps ends in `ok`
exactly when each of its steps does.
-/

namespace Codec

/-- The largest value of a 64-bit `usize`. -/
def usizeMax : Nat := 2 ^ 64 - 1

def u64Max : Nat := 2 ^ 64 - 1

/-- `a.checked_add(b)` at a type whose largest value is `max`. -/
def checkedAdd (max a b : Nat) : Option Nat := if a + b ≤ max then some (a + b) else none

theorem checkedAdd_of_le {max a b : Nat} (h : a + b ≤ max) : checkedAdd max a b = some (a + b) :=
  if_pos h

theorem checkedAdd_eq_some {max a b c : Nat} :
    checkedAdd max a b = some c ↔ a + b ≤ max ∧ c = a + b := by
  rw [checkedAdd, Option.ite_none_right_eq_some, Option.some_inj, @eq_comm _ _ c]

/-- `T::try_from(n)` at an unsigned type whose largest value is `max`. -/
def tryFit (max n : Nat) : Option Nat := if n ≤ max then some n else none

theorem tryFit_of_le {max n : Nat} (h : n ≤ max) : tryFit max n = some n := if_pos h

theorem tryFit_eq_some {max n m : Nat} : tryFit max n = some m ↔ n ≤ max ∧ m = n := by
  rw [tryFit, Option.ite_none_right_eq_some, Option.some_inj, @eq_comm _ _ m]

/-- With the largest value in the place of a failure both operations saturate. -/
theorem checkedAdd_getD_max (max a b : Nat) : (checkedAdd max a b).getD max = min (a + b) max := by
  rw [checkedAdd]
  split <;> simp <;> omega

theorem tryFit_getD_max (max n : Nat) : (tryFit max n).getD max = min n max := by
  rw [tryFit]
  split <;> simp <;> omega

theorem tryFit_map_eq_some {W : Type} {f : Nat → W} {max n : Nat} {x : W} :
    (tryFit max n).map f = some x ↔ n ≤ max ∧ x = f n := by
  rw [Option.map_eq_some_iff]
  constructor
  · rintro ⟨m, hm, rfl⟩
    obtain ⟨hle, rfl⟩ := tryFit_eq_some.mp hm
    exact ⟨hle, rfl⟩
  · rintro ⟨hle, rfl⟩
    exact ⟨n, tryFit_of_le hle, rfl⟩

/-- `a.checked_div(b)` and `a.checked_rem(b)` at an unsigned type. -/
def checkedDiv (a b : Nat) : Option Nat := if b = 0 then none else some (a / b)

def checkedRem (a b : Nat) : Option Nat := if b = 0 then none else some (a % b)

/-! ### Signed arithmetic -/

namespace I64

/-- The value of an operation, if an `i64` can hold it. -/
def fit (x : Int) : Option Int := if -2 ^ 63 ≤ x ∧ x < 2 ^ 63 then some x else none

def checkedAdd (a b : Int) : Option Int := fit (a + b)
def checkedSub (a b : Int) : Option Int := fit (a - b)
def checkedMul (a b : Int) : Option Int := fit (a * b)

/-- Division goes towards zero. -/
def checkedDiv (a b : Int) : Option Int := if b = 0 then none else fit (a.tdiv b)

/-- `u32::try_from(x)`. -/
def tryU32 (x : Int) : Option Nat := if 0 ≤ x ∧ x < 2 ^ 32 then some x.toNat else none

variable {a b c x : Int}

theorem fit_of_lt (h₁ : -2 ^ 63 ≤ x) (h₂ : x < 2 ^ 63) : fit x = some x := if_pos ⟨h₁, h₂⟩

theorem tryU32_of_lt (h₁ : 0 ≤ x) (h₂ : x < 2 ^ 32) : tryU32 x = some x.toNat := if_pos ⟨h₁, h₂⟩

/-! One operation of a computation: with a value that fits, the computation goes on with it. -/

section Bind
variable {γ : Type} {f : Int → Option γ} {r : Option γ}

theorem bind_checkedAdd (hc : c = a + b) (h₁ : -2 ^ 63 ≤ c) (h₂ : c < 2 ^ 63) (h : f c = r) :
    (checkedAdd a b >>= f) = r := by
  subst hc
  rw [checkedAdd, fit_of_lt h₁ h₂]
  exact h

theorem bind_checkedSub (hc : c = a - b) (h₁ : -2 ^ 63 ≤ c) (h₂ : c < 2 ^ 63) (h : f c = r) :
    (checkedSub a b >>= f) = r := by
  subst hc
  rw [checkedSub, fit_of_lt h₁ h₂]
  exact h

theorem bind_checkedMul (hc : c = a * b) (h₁ : -2 ^ 63 ≤ c) (h₂ : c < 2 ^ 63) (h : f c = r) :
    (checkedMul a b >>= f) = r := by
  subst hc
  rw [checkedMul, fit_of_lt h₁ h₂]
  exact h

/-- A quotient of natural numbers fits if the dividend does. -/
theorem bind_checkedDiv (hc : c = a / b) (h₁ : 0 ≤ a) (h₂ : a < 2 ^ 63) (hb : 0 < b) (h : f c = r) :
    (checkedDiv a b >>= f) = r := by
  have hle : a / b ≤ a := Int.ediv_le_self b h₁
  have hpos : 0 ≤ a / b := Int.ediv_nonneg h₁ hb.le
  subst hc
  rw [checkedDiv, if_neg hb.ne', Int.tdiv_eq_ediv_of_nonneg h₁, fit_of_lt (by omega) (by omega)]
  exact h

theorem bind_tryU32 {f : Nat → Option γ} (h₁ : 0 ≤ x) (h₂ : x < 2 ^ 32) (h : f x.toNat = r) :
    (tryU32 x >>= f) = r := by
  rw [tryU32_of_lt h₁ h₂]
  exact h

end Bind

end I64

section Results
variable {ε α β : Type}

/-- `o.ok_or(e)`. -/
def okOr (o : Option α) (e : ε) : Except ε α :=
  match o with
  | none => .error e
  | some a => .ok a

@[simp] theorem okOr_none (e : ε) : okOr (none : Option α) e = .error e := rfl
@[simp] theorem okOr_some (a : α) (e : ε) : okOr (some a) e = .ok a := rfl

theorem okOr_eq_ok {o : Option α} {e : ε} {a : α} : okOr o e = .ok a ↔ o = some a := by
  cases o <;> simp

theorem okOr_eq_error {o : Option α} {e e' : ε} :
    okOr o e = .error e' ↔ o = none ∧ e = e' := by
  cases o <;> simp

theorem toOption_eq_some {x : Except ε α} {a : α} : x.toOption = some a ↔ x = .ok a := by
  cases x <;> simp [Except.toOption]

theorem bind_eq_ok {x : Except ε α} {f : α → Except ε β} {b : β} :
    (x >>= f) = .ok b ↔ ∃ a, x = .ok a ∧ f a = .ok b := by
  cases x with
  | error e => exact ⟨fun h => (nomatch h), fun ⟨_, h, _⟩ => (nomatch h)⟩
  | ok a => exact ⟨fun h => ⟨a, rfl, h⟩, fun ⟨_, h, h'⟩ => by cases h; exact h'⟩

theorem bind_eq_error {x : Except ε α} {f : α → Except ε β} {e : ε} :
    (x >>= f) = .error e ↔ x = .error e ∨ ∃ a, x = .ok a ∧ f a = .error e := by
  cases x with
  | error e' =>
      refine ⟨fun h => .inl ?_, ?_⟩
      · cases h; rfl
      · rintro (h | ⟨_, h, _⟩)
        · cases h; rfl
        · cases h
  | ok a =>
      refine ⟨fun h => .inr ⟨a, rfl, h⟩, ?_⟩
      rintro (h | ⟨_, h, h'⟩)
      · cases h
      · cases h; exact h'

@[simp] theorem ok_bind (a : α) (f : α → Except ε β) : (Except.ok a >>= f) = f a := rfl

@[simp] theorem error_bind (e : ε) (f : α → Except ε β) :
    ((Except.error e : Except ε α) >>= f) = .error e := rfl

/-- A guard that fails with `e`. -/
theorem guard_eq_ok {p : Prop} [Decidable p] {e : ε} {x : Except ε α} {a : α} :
    (if p then .error e else x) = .ok a ↔ ¬ p ∧ x = .ok a := by
  split
  · rename_i h
    exact ⟨fun h' => (nomatch h'), fun h' => absurd h h'.1⟩
  · rename_i h
    exact ⟨fun h' => ⟨h, h'⟩, fun h' => h'.2⟩

end Results

end Codec

import Mathlib.Init

/-!
# Support — loops over a buffer that grows

A `loop` whose body either goes round again or leaves with a result, on a state some measure of
which every further round lowers (`Shrinks`).  `run` is the loop; `run_again` and `run_leave` are
its equation, `Shrinks.induct` and `run_invariant` the induction and the invariant rule.  `Passes`
names the states the loop goes through on the way, and `exists_passes` finds the last of them.

The second half is for a loop that works off a buffer to which chunks are appended, and that runs
once after each chunk until it refuses the input (`feed`).  A body is `Stable` when more input
behind the buffer does not change what it does.  `feed_same` then says that feeding the chunks one
by one is running the loop once over all of them, and `feed_congr` that how a stream is cut into
chunks plays no part.
-/

namespace Loop

/-- How one round of a loop ends. -/
inductive Flow (ρ : Type) where
  | again
  | leave (result : ρ)
deriving DecidableEq, Repr

/-- The result of the loop, if this round leaves it. -/
def Flow.result {ρ : Type} : Flow ρ → Option ρ
  | .again => none
  | .leave r => some r

/-! ### The loop -/

section Run
variable {S ρ : Type}

/-- Each further round lowers the measure. -/
def Shrinks (size : S → Nat) (body : S → S × Flow ρ) : Prop :=
  ∀ ⦃s s' : S⦄, body s = (s', .again) → size s' < size s

/-- **Induction over the rounds of a loop.** -/
theorem Shrinks.induct {size : S → Nat} {body : S → S × Flow ρ} (hs : Shrinks size body)
    {P : S → Prop} (leave : ∀ s s' r, body s = (s', .leave r) → P s)
    (again : ∀ s s', body s = (s', .again) → P s' → P s) (s : S) : P s := by
  have main : ∀ n s, size s < n → P s := by
    intro n
    induction n with
    | zero => intro s h; exact absurd h (Nat.not_lt_zero _)
    | succ n ih =>
        intro s h
        cases hb : body s with
        | mk s' flow =>
            cases flow with
            | leave r => exact leave s s' r hb
            | again =>
                have hlt : size s' < n := Nat.lt_of_lt_of_le (hs hb) (Nat.le_of_lt_succ h)
                exact again s s' hb (ih s' hlt)
  exact main (size s + 1) s (Nat.lt_succ_self _)

/-- The states a loop passes through, each at the beginning of a round. -/
inductive Passes (body : S → S × Flow ρ) (s : S) : S → Prop where
  | start : Passes body s s
  | round {s' s'' : S} (h : Passes body s s') (hb : body s' = (s'', .again)) : Passes body s s''

/-- What every further round keeps holds at the beginning of each. -/
theorem Passes.invariant {body : S → S × Flow ρ} {I : S → Prop} {s s' : S}
    (h : Passes body s s') (step : ∀ s s', I s → body s = (s', .again) → I s') (hI : I s) :
    I s' := by
  induction h with
  | start => exact hI
  | round h hb ih => exact step _ _ ih hb

theorem Passes.head {body : S → S × Flow ρ} {s s' s'' : S} (hb : body s = (s', .again))
    (h : Passes body s' s'') : Passes body s s'' := by
  induction h with
  | start => exact .round .start hb
  | round _ hb' ih => exact .round ih hb'

variable [Inhabited ρ]

/-- At most `n` rounds. -/
def rounds (body : S → S × Flow ρ) : Nat → S → S × ρ
  | 0, s => (s, default)
  | n + 1, s =>
      match body s with
      | (s', .again) => rounds body n s'
      | (s', .leave r) => (s', r)

/-- The loop, with one round more than the measure of its state. -/
def run (size : S → Nat) (body : S → S × Flow ρ) (s : S) : S × ρ := rounds body (size s + 1) s

variable {size : S → Nat} {body : S → S × Flow ρ} {s s' : S} {r : ρ}

theorem rounds_again (n : Nat) (h : body s = (s', .again)) :
    rounds body (n + 1) s = rounds body n s' := by
  rw [rounds, h]

theorem rounds_leave (n : Nat) (h : body s = (s', .leave r)) :
    rounds body (n + 1) s = (s', r) := by
  rw [rounds, h]

theorem run_leave (h : body s = (s', .leave r)) : run size body s = (s', r) :=
  rounds_leave (size s) h

/-- The number of rounds allowed does not matter once it exceeds the measure. -/
theorem Shrinks.rounds_eq (hs : Shrinks size body) (s : S) :
    ∀ n, size s < n → rounds body n s = run size body s := by
  induction s using hs.induct with
  | leave s s' r hb =>
      intro n h
      obtain ⟨n, rfl⟩ := Nat.exists_eq_add_one_of_ne_zero (Nat.ne_zero_of_lt h)
      rw [rounds_leave n hb, run_leave hb]
  | again s s' hb ih =>
      intro n h
      obtain ⟨n, rfl⟩ := Nat.exists_eq_add_one_of_ne_zero (Nat.ne_zero_of_lt h)
      rw [run, rounds_again n hb, rounds_again (size s) hb, ih (size s) (hs hb)]
      exact ih n (Nat.lt_of_lt_of_le (hs hb) (Nat.le_of_lt_succ h))

theorem Shrinks.run_again (hs : Shrinks size body) (h : body s = (s', .again)) :
    run size body s = run size body s' := by
  rw [run, rounds_again (size s) h]
  exact hs.rounds_eq s' (size s) (hs h)

/-- **The invariant rule.**  What every round keeps, the loop keeps. -/
theorem Shrinks.run_invariant (hs : Shrinks size body) {I : S → Prop}
    (step : ∀ s, I s → I (body s).1) (s : S) : I s → I (run size body s).1 := by
  induction s using hs.induct with
  | leave s s' r hb =>
      intro hI
      have h := step s hI
      rw [hb] at h
      rw [run_leave hb]
      exact h
  | again s s' hb ih =>
      intro hI
      have h := step s hI
      rw [hb] at h
      rw [hs.run_again hb]
      exact ih h

/-- From every state it passes through the loop ends the same. -/
theorem Shrinks.run_eq_of_passes (hs : Shrinks size body) (h : Passes body s s') :
    run size body s = run size body s' := by
  induction h with
  | start => rfl
  | round _ hb ih => rw [ih, hs.run_again hb]

/-- The loop ends in the round of some state it passes through. -/
theorem Shrinks.exists_passes (hs : Shrinks size body) (s : S) :
    ∀ s' r, run size body s = (s', r) → ∃ s₁, Passes body s s₁ ∧ body s₁ = (s', .leave r) := by
  induction s using hs.induct with
  | leave s s₁ r₁ hb =>
      intro s' r h
      rw [run_leave hb] at h
      cases h
      exact ⟨s, .start, hb⟩
  | again s s₁ hb ih =>
      intro s' r h
      rw [hs.run_again hb] at h
      obtain ⟨s₂, hp, hb₂⟩ := ih s' r h
      exact ⟨s₂, hp.head hb, hb₂⟩

end Run

/-! ### Feeding chunks -/

section Feed
variable {S V α ρ : Type}

/-- Append each chunk and run the loop, until it refuses the input. -/
def feed (size : S → Nat) (body : S → S × Flow (Option ρ)) (extend : S → List α → S) :
    S → List (List α) → S × Option ρ
  | s, [] => (s, none)
  | s, chunk :: chunks =>
      match run size body (extend s chunk) with
      | (s', some r) => (s', some r)
      | (s', none) => feed size body extend s' chunks

/-- More input behind the buffer does not change what the body does.  After a refusal only the
part of the state that `view` shows is compared: the rest of the buffer is longer. -/
structure Stable (size : S → Nat) (body : S → S × Flow (Option ρ)) (extend : S → List α → S)
    (view : S → V) : Prop where
  shrinks : Shrinks size body
  extend_nil : ∀ s, extend s [] = s
  extend_extend : ∀ s a b, extend (extend s a) b = extend s (a ++ b)
  again : ∀ {s s'} ext, body s = (s', .again) → body (extend s ext) = (extend s' ext, .again)
  waits : ∀ {s s'}, body s = (s', .leave none) → s' = s
  refuses : ∀ {s s' r} ext, body s = (s', .leave (some r)) →
    ∃ s'', body (extend s ext) = (s'', .leave (some r)) ∧ view s'' = view s'

/-- Two outcomes agree: the same result, the same visible state, and the same state altogether
when the input was not refused. -/
structure Same (view : S → V) (x y : S × Option ρ) : Prop where
  result : x.2 = y.2
  visible : view x.1 = view y.1
  state : x.2 = none → x.1 = y.1

theorem Same.refl (view : S → V) (x : S × Option ρ) : Same view x x :=
  ⟨rfl, rfl, fun _ => rfl⟩

theorem Same.symm {view : S → V} {x y : S × Option ρ} (h : Same view x y) : Same view y x :=
  ⟨h.result.symm, h.visible.symm, fun e => (h.state (h.result.trans e)).symm⟩

theorem Same.trans {view : S → V} {x y z : S × Option ρ} (h : Same view x y)
    (h' : Same view y z) : Same view x z :=
  ⟨h.result.trans h'.result, h.visible.trans h'.visible,
    fun e => (h.state e).trans (h'.state (h.result.symm.trans e))⟩

variable {size : S → Nat} {body : S → S × Flow (Option ρ)} {extend : S → List α → S}
  {view : S → V}

/-- A loop that waits for more input goes on from where it stopped. -/
theorem Stable.run_waits (h : Stable size body extend view) (ext : List α) (s : S) :
    ∀ s', run size body s = (s', none) →
      run size body (extend s ext) = run size body (extend s' ext) := by
  induction s using h.shrinks.induct with
  | leave s s₁ r hb =>
      intro s' hr
      rw [run_leave hb] at hr
      cases hr
      rw [h.waits hb]
  | again s s₁ hb ih =>
      intro s' hr
      rw [h.shrinks.run_again hb] at hr
      rw [h.shrinks.run_again (h.again ext hb)]
      exact ih s' hr

/-- A loop that refuses its input refuses it with more behind it. -/
theorem Stable.run_refuses (h : Stable size body extend view) (ext : List α) (s : S) :
    ∀ s' r, run size body s = (s', some r) →
      Same view (s', some r) (run size body (extend s ext)) := by
  induction s using h.shrinks.induct with
  | leave s s₁ o hb =>
      intro s' r hr
      rw [run_leave hb] at hr
      cases hr
      obtain ⟨s₂, hb₂, hv⟩ := h.refuses ext hb
      rw [run_leave hb₂]
      exact ⟨rfl, hv.symm, fun e => nomatch e⟩
  | again s s₁ hb ih =>
      intro s' r hr
      rw [h.shrinks.run_again hb] at hr
      rw [h.shrinks.run_again (h.again ext hb)]
      exact ih s' r hr

/-- **Feeding chunk by chunk is one run over the whole stream.** -/
theorem Stable.feed_same (h : Stable size body extend view) (chunks : List (List α)) (s : S)
    (hne : chunks ≠ []) :
    Same view (feed size body extend s chunks) (run size body (extend s chunks.flatten)) := by
  -- on the chunks; each run takes up the stream where the one before it stopped
  induction chunks generalizing s with
  | nil => exact absurd rfl hne
  | cons chunk chunks ih =>
      cases hr : run size body (extend s chunk) with
      | mk s' o =>
          cases o with
          | some r =>
              rw [feed, hr, List.flatten_cons, ← h.extend_extend]
              exact h.run_refuses chunks.flatten (extend s chunk) s' r hr
          | none =>
              by_cases hc : chunks = []
              · subst hc
                rw [feed, hr, List.flatten_singleton, hr]
                exact .refl view _
              · rw [feed, hr, List.flatten_cons, ← h.extend_extend,
                  h.run_waits chunks.flatten (extend s chunk) s' hr]
                exact ih s' hc

/-- A loop that has nothing to do yet, and none of the stream left in the end, is not refused on
the way. -/
theorem Stable.feed_of_run (h : Stable size body extend view) {s s' : S} {chunks : List (List α)}
    (hidle : body s = (s, .leave none))
    (hrun : run size body (extend s chunks.flatten) = (s', none)) :
    feed size body extend s chunks = (s', none) := by
  by_cases hc : chunks = []
  · subst hc
    rw [List.flatten_nil, h.extend_nil, run_leave hidle] at hrun
    exact hrun
  · have hsame := h.feed_same chunks s hc
    rw [hrun] at hsame
    exact Prod.ext (hsame.state hsame.result) hsame.result

/-- **How the stream is cut plays no part**, as long as no chunk is empty. -/
theorem Stable.feed_congr (h : Stable size body extend view) (s : S) {xs ys : List (List α)}
    (hxs : [] ∉ xs) (hys : [] ∉ ys) (e : xs.flatten = ys.flatten) :
    Same view (feed size body extend s xs) (feed size body extend s ys) := by
  have hnil : ∀ {zs : List (List α)}, [] ∉ zs → zs.flatten = [] → zs = [] := by
    intro zs hzs hz
    cases zs with
    | nil => rfl
    | cons z zs =>
        rw [List.flatten_cons, List.append_eq_nil_iff] at hz
        exact absurd (hz.1 ▸ List.mem_cons_self) hzs
  by_cases hx : xs = []
  · subst hx
    rw [hnil hys e.symm]
    exact .refl view _
  · have hy : ys ≠ [] := by
      rintro rfl
      exact hx (hnil hxs e)
    have hx' := h.feed_same xs s hx
    rw [e] at hx'
    exact hx'.trans (h.feed_same ys s hy).symm

end Feed

end Loop

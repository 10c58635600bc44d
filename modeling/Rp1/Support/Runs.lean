import Mathlib.Data.List.Basic

/-!
# Support — runs of a labelled transition system

A system is a partial step function `step : S → L → Option S`: a label says who moves and what the
environment answers, and `none` that this is not possible now.  A schedule is a list of labels;
`exec` runs it and `visited` lists the steps it takes, each with the state it is taken in.

* `exec_invariant` is the invariant rule.  The invariant may speak of the steps taken so far.
  `visited_invariant` is its form for the states on the way.
* `sticky_iff` is about a part of the state that should not change any more once some condition
  holds of it: along a run it does not exactly when no single step changes it.
-/

namespace Runs

section Runs
variable {S L : Type} {step : S → L → Option S} {s s' s'' : S} {l : L} {ls ls' : List L}

/-- Takes the steps of a schedule in order; `none` when one of them is not possible. -/
def exec (step : S → L → Option S) : S → List L → Option S
  | s, [] => some s
  | s, l :: ls => (step s l).bind fun s' => exec step s' ls

/-- The steps of a run, each with the state it is taken in. -/
def visited (step : S → L → Option S) : S → List L → List (S × L)
  | _, [] => []
  | s, l :: ls => (s, l) :: (step s l).elim [] fun s' => visited step s' ls

theorem exec_cons_eq_some :
    exec step s (l :: ls) = some s'' ↔ ∃ s', step s l = some s' ∧ exec step s' ls = some s'' :=
  Option.bind_eq_some_iff

theorem visited_cons (h : step s l = some s') :
    visited step s (l :: ls) = (s, l) :: visited step s' ls := by
  rw [visited, h, Option.elim_some]

theorem map_snd_visited (h : exec step s ls = some s') : (visited step s ls).map Prod.snd = ls := by
  induction ls generalizing s with
  | nil => rfl
  | cons l ls ih =>
      obtain ⟨s₁, h₁, h₂⟩ := exec_cons_eq_some.mp h
      rw [visited_cons h₁, List.map_cons, ih h₂]

/-- **The invariant rule**, for an invariant that may speak of the steps taken so far. -/
theorem exec_invariant {I : List (S × L) → S → Prop}
    (preserved : ∀ past s l s', I past s → step s l = some s' → I (past ++ [(s, l)]) s')
    (past : List (S × L)) (hI : I past s) (h : exec step s ls = some s') :
    I (past ++ visited step s ls) s' := by
  induction ls generalizing s past with
  | nil =>
      cases h
      rw [visited, List.append_nil]
      exact hI
  | cons l ls ih =>
      obtain ⟨s₁, h₁, h₂⟩ := exec_cons_eq_some.mp h
      rw [visited_cons h₁, List.append_cons]
      exact ih (past ++ [(s, l)]) (preserved past s l s₁ hI h₁) h₂

/-- A visited step splits the schedule. -/
theorem exists_split {p : S × L} (hp : p ∈ visited step s ls) (h : exec step s ls = some s'') :
    ∃ a c s', ls = a ++ [p.2] ++ c ∧ exec step s a = some p.1 ∧ step p.1 p.2 = some s' := by
  induction ls generalizing s with
  | nil => cases hp
  | cons l ls ih =>
      obtain ⟨s₁, h₁, h₂⟩ := exec_cons_eq_some.mp h
      rw [visited_cons h₁] at hp
      rcases List.mem_cons.mp hp with rfl | hp
      · exact ⟨[], ls, s₁, rfl, rfl, h₁⟩
      · obtain ⟨a, c, s', rfl, ha, hs⟩ := ih hp h₂
        exact ⟨l :: a, c, s', rfl, exec_cons_eq_some.mpr ⟨s₁, h₁, ha⟩, hs⟩

/-- An invariant holds in every state a step is taken in. -/
theorem visited_invariant {I : S → Prop} (preserved : ∀ s l s', I s → step s l = some s' → I s')
    (hI : I s) (h : exec step s ls = some s') : ∀ p ∈ visited step s ls, I p.1 := by
  intro p hp
  obtain ⟨a, -, -, -, ha, -⟩ := exists_split hp h
  exact exec_invariant (I := fun _ => I) (fun _ => preserved) [] hI ha

theorem visited_subset_append (c : List L) (h : exec step s ls = some s') :
    visited step s ls ⊆ visited step s (ls ++ c) := by
  induction ls generalizing s with
  | nil => exact List.nil_subset _
  | cons l ls ih =>
      obtain ⟨s₁, h₁, h₂⟩ := exec_cons_eq_some.mp h
      rw [List.cons_append, visited_cons h₁, visited_cons h₁]
      exact List.cons_subset_cons _ (ih h₂)

/-- The steps of a part of a run are steps of the run. -/
theorem visited_subset {a b c : List L} (ha : exec step s a = some s')
    (hb : exec step s' b = some s'') :
    visited step s' b ⊆ visited step s (a ++ b ++ c) := by
  induction a generalizing s with
  | nil =>
      obtain rfl := Option.some.inj ha
      exact visited_subset_append c hb
  | cons l a ih =>
      obtain ⟨s₁, h₁, h₂⟩ := exec_cons_eq_some.mp ha
      rw [List.cons_append, List.cons_append, visited_cons h₁]
      exact List.subset_cons_of_subset _ (ih h₂)

/-! ### Parts of the state that stay -/

variable {V : Type}

/-- Once `final` holds of `val`, the run does not change `val` any more. -/
def Sticky (step : S → L → Option S) (val : S → V) (final : V → Prop) (s : S) (ls : List L) :
    Prop :=
  ∀ a b c s₁ s₂, ls = a ++ b ++ c → exec step s a = some s₁ → exec step s₁ b = some s₂ →
    final (val s₁) → val s₂ = val s₁

/-- **Sticky along a run is sticky in every step.** -/
theorem sticky_iff {val : S → V} {final : V → Prop} {C : S → L → Prop}
    (hC : ∀ s l s', step s l = some s' → ((final (val s) → val s' = val s) ↔ C s l))
    (h : exec step s ls = some s'') :
    Sticky step val final s ls ↔ ∀ p ∈ visited step s ls, C p.1 p.2 := by
  constructor
  · intro hs p hp
    obtain ⟨a, c, s', e, ha, hstep⟩ := exists_split hp h
    refine (hC p.1 p.2 s' hstep).mp fun hf => ?_
    exact hs a [p.2] c p.1 s' e ha (exec_cons_eq_some.mpr ⟨s', hstep, rfl⟩) hf
  · rintro hall a b c s₁ s₂ rfl ha hb hf
    -- the steps of `b` are steps of the run, and each of them keeps the value
    have hsub := visited_subset (c := c) ha hb
    have hb' : ∀ p ∈ visited step s₁ b, C p.1 p.2 := fun p hp => hall p (hsub hp)
    clear hsub hall ha h
    induction b generalizing s₁ with
    | nil => cases hb; rfl
    | cons l b ih =>
        obtain ⟨s', h₁, h₂⟩ := exec_cons_eq_some.mp hb
        rw [visited_cons h₁] at hb'
        obtain ⟨hl, hrest⟩ := List.forall_mem_cons.mp hb'
        have hval : val s' = val s₁ := (hC s₁ l s' h₁).mpr hl hf
        rw [← hval]
        exact ih s' h₂ (hval ▸ hf) hrest

end Runs

end Runs

import Rp1.Support.Runs

/-!
# Support — comparing runs, and runs that come to an end

Three rules for the systems of `Runs`.

* `exec_follows` is forward simulation of a run all steps of which satisfy a condition.
* `exec_hides` is forward simulation by a system with fewer steps: it stands still where the first
  takes a hidden step, and takes every other step with it.
* `exec_rank` bounds a run: when no step raises a rank and the steps that count lower it, there are
  not more of those than the rank allows.
-/

namespace Runs

section Append
variable {S L : Type} {step : S → L → Option S} {s s' s'' : S}

end Append

section Simulation
variable {S T L : Type} {step : S → L → Option S}

/-- **Simulation of the runs all steps of which satisfy `C`.** -/
theorem exec_follows {step₂ : T → L → Option T} {R : S → T → Prop} {C : S → L → Prop}
    (follows : ∀ s l s' t, R s t → step s l = some s' → C s l →
      ∃ t', step₂ t l = some t' ∧ R s' t')
    {s s' : S} {t : T} {ls : List L} (hR : R s t) (h : exec step s ls = some s')
    (hC : ∀ p ∈ visited step s ls, C p.1 p.2) : ∃ t', exec step₂ t ls = some t' ∧ R s' t' := by
  induction ls generalizing s t with
  | nil =>
      obtain rfl := Option.some.inj h
      exact ⟨t, rfl, hR⟩
  | cons l ls ih =>
      obtain ⟨s₁, h₁, h₂⟩ := exec_cons_eq_some.mp h
      rw [visited_cons h₁] at hC
      obtain ⟨hl, hrest⟩ := List.forall_mem_cons.mp hC
      obtain ⟨t₁, ht₁, hR₁⟩ := follows s l s₁ t hR h₁ hl
      obtain ⟨t', ht', hR'⟩ := ih hR₁ h₂ hrest
      exact ⟨t', exec_cons_eq_some.mpr ⟨t₁, ht₁, ht'⟩, hR'⟩

/-- **Simulation that hides steps.**  The second system has the labels of the first; it stands still
at the hidden ones and takes the others with it. -/
theorem exec_hides {step₂ : T → L → Option T} {R : S → T → Prop} (hidden : L → Bool)
    (still : ∀ s l s' t, R s t → step s l = some s' → hidden l = true → R s' t)
    (follows : ∀ s l s' t, R s t → step s l = some s' → hidden l = false →
      ∃ t', step₂ t l = some t' ∧ R s' t')
    {s s' : S} {t : T} {ls : List L} (hR : R s t) (h : exec step s ls = some s') :
    ∃ t', exec step₂ t (ls.filter fun l => !hidden l) = some t' ∧ R s' t' := by
  induction ls generalizing s t with
  | nil =>
      obtain rfl := Option.some.inj h
      exact ⟨t, rfl, hR⟩
  | cons l ls ih =>
      obtain ⟨s₁, h₁, h₂⟩ := exec_cons_eq_some.mp h
      rw [List.filter_cons]
      cases hl : hidden l with
      | true => exact ih (still s l s₁ t hR h₁ hl) h₂
      | false =>
          obtain ⟨t₁, ht₁, hR₁⟩ := follows s l s₁ t hR h₁ hl
          obtain ⟨t', ht', hR'⟩ := ih hR₁ h₂
          exact ⟨t', exec_cons_eq_some.mpr ⟨t₁, ht₁, ht'⟩, hR'⟩

end Simulation

section Rank
variable {S L : Type} {step : S → L → Option S} {s s' : S} {ls : List L}

/-- **The rank rule.** -/
theorem exec_rank {rank : S → Nat} {counts : L → Bool}
    (lowers : ∀ s l s', step s l = some s' → (counts l).toNat + rank s' ≤ rank s)
    (h : exec step s ls = some s') :
    ls.countP counts + rank s' ≤ rank s := by
  induction ls generalizing s with
  | nil =>
      obtain rfl := Option.some.inj h
      exact Nat.le_of_eq (Nat.zero_add _)
  | cons l ls ih =>
      obtain ⟨s₁, h₁, h₂⟩ := exec_cons_eq_some.mp h
      have hfirst := lowers s l s₁ h₁
      have hlater := ih h₂
      rw [List.countP_cons]
      cases hc : counts l with
      | false =>
          rw [hc, Bool.toNat_false] at hfirst
          simp only [Bool.false_eq_true, if_false]
          omega
      | true =>
          rw [hc, Bool.toNat_true] at hfirst
          simp only [if_true]
          omega

end Rank

end Runs

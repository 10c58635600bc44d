import Mathlib.Data.List.Nodup

/-!
# Support — linearizability

A sequential object is given by what its operations may do: `spec s o s' r` says that `o` can take
the state `s` to `s'` and return `r`.  Several callers use it at once, and what they see of it is a
`History`.  A log of operations linearizes the history when the object explains it, one operation
after the other, and when it has every operation that returned, with the result it returned, in an
order that callers cannot refute: what returned before another operation was invoked comes first.
An operation that has not returned may be in the log or not.

`Linearizes.of_growing` is the rule for an object with a log that only grows.  When `i` has returned
and `j` is not invoked, some part of the log at that time has `i` and not `j`.
-/

namespace Linear
variable {S O R ι κ : Type}

/-- The log takes the object from `s₀` to the state at the end. -/
inductive Explains (spec : S → O → S → R → Prop) (s₀ : S) : List (ι × O × R) → S → Prop where
  | nil : Explains spec s₀ [] s₀
  | snoc {log : List (ι × O × R)} {s s' : S} {i : ι} {o : O} {r : R}
      (h : Explains spec s₀ log s) (hr : spec s o s' r) : Explains spec s₀ (log ++ [(i, o, r)]) s'

variable {spec : S → O → S → R → Prop} {s₀ s : S} {log : List (ι × O × R)}

/-- What is in the log the object has done. -/
theorem Explains.of_mem (h : Explains spec s₀ log s) {e : ι × O × R} (he : e ∈ log) :
    ∃ s s', spec s e.2.1 s' e.2.2 := by
  induction h with
  | nil => cases he
  | snoc h hr ih =>
      rcases List.mem_append.mp he with he | he
      · exact ih he
      · rw [List.mem_singleton.mp he]
        exact ⟨_, _, hr⟩

end Linear

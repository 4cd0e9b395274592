/-
Runs that cannot go on for ever.

A number that every step lowers bounds the length of every run, whatever the order
of the steps (`Lowers.add_le`), and every run can be carried on until nothing is
possible any more (`Lowers.ends`). That says when a system stops, not where: what
it has come to is read off the states in which it can do nothing.

The number need only be lowered where an invariant holds.
-/
import UnixNetProg.Lib.Descent

set_option autoImplicit false

namespace UnixNetProg.Runs.Machine

variable {σ α : Type*} {M : Machine σ α} {I : σ → Prop} {μ : σ → ℕ} {s t : σ} {n : ℕ}

/-- Every step keeps the invariant and lowers the number. -/
def Lowers (M : Machine σ α) (I : σ → Prop) (μ : σ → ℕ) : Prop :=
  ∀ ⦃s a t⦄, I s → M.step s a = some t → I t ∧ μ t < μ s

/-- **A run has no more steps than the number goes down.** -/
theorem Lowers.add_le (h : M.Lowers I μ) (hpath : Path M n s t) (hs : I s) : n + μ t ≤ μ s := by
  induction hpath with
  | @nil s => exact Nat.le_of_eq (Nat.zero_add (μ s))
  | @cons n s t u a hstep _ ih =>
    obtain ⟨ht, hlt⟩ := h hs hstep
    have hrest := ih ht
    omega

/-- Every state leads to one in which nothing can happen any more. -/
theorem Lowers.ends (h : M.Lowers I μ) (hs : I s) : ∃ f, M.Leads s f ∧ M.Final f := by
  induction hμ : μ s using Nat.strongRecOn generalizing s with
  | ind k ih =>
    by_cases hfinal : M.Final s
    · exact ⟨s, .refl s, hfinal⟩
    · -- a step is possible, and it goes down
      obtain ⟨a, hsome⟩ := not_forall.1 hfinal
      obtain ⟨t, hstep⟩ := Option.ne_none_iff_exists'.1 hsome
      obtain ⟨ht, hlt⟩ := h hs hstep
      obtain ⟨f, ⟨n, hpath⟩, hf⟩ := ih (μ t) (hμ ▸ hlt) ht rfl
      exact ⟨f, ⟨n + 1, .cons hstep hpath⟩, hf⟩

/-- At the end of the runs whose steps meet a condition, no step that meets it is possible. -/
theorem Final.of_only {ok : σ → α → Prop} [∀ s a, Decidable (ok s a)] {f : σ} {a : α}
    (h : (M.only ok).Final f) (hok : ok f a) : M.step f a = none := by
  have hnone := h a
  simp only [only] at hnone
  rwa [if_pos hok] at hnone

end UnixNetProg.Runs.Machine

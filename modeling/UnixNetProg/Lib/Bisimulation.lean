/-
Two machines that run alike, up to steps that only one of them sees.

`M.Follows N R` says that `R` relates the states of the one to those of the other: a step
of `M` is a step of `N` or is not seen there, and each step of `N` is taken by `M`, after
some that are not seen. Then what is reached by `M` is related to what is reached by `N`,
and an end that `N` can still come to, `M` can come to. So what never happens in the one
never happens in the other, and what can happen can.

The conditions on the steps are parameters here too, one for each machine.
-/
import UnixNetProg.Lib.Runs

set_option autoImplicit false

namespace UnixNetProg.Runs.Machine

variable {σ τ α β : Type*}

/-- `M` runs as `N` does. -/
structure Follows (M : Machine σ α) (N : Machine τ β) (ok : σ → α → Prop) (ok' : τ → β → Prop)
    (R : σ → τ → Prop) : Prop where
  start : ∀ s, M.init s → ∃ t, N.Reach ok' t ∧ R s t
  back : ∀ ⦃s t a s'⦄, N.Reach ok' t → R s t → ok s a → M.step s a = some s' →
    R s' t ∨ ∃ b t', ok' t b ∧ N.step t b = some t' ∧ R s' t'
  forth : ∀ ⦃s t b t'⦄, N.Reach ok' t → R s t → ok' t b → N.step t b = some t' →
    ∃ s', (M.startedAt s).Reach ok s' ∧ R s' t'

variable {M : Machine σ α} {N : Machine τ β} {ok : σ → α → Prop} {ok' : τ → β → Prop}
  {R : σ → τ → Prop} {s : σ} {t t' : τ}

/-- What the one reaches is related to what the other one reaches. -/
theorem Follows.reach (h : M.Follows N ok ok' R) (hs : M.Reach ok s) :
    ∃ t, N.Reach ok' t ∧ R s t := by
  induction hs with
  | init hs => exact h.start _ hs
  | step _ hok hstep ih =>
    obtain ⟨t, ht, hR⟩ := ih
    rcases h.back ht hR hok hstep with hR | ⟨b, t', hok', hstep', hR⟩
    · exact ⟨t, ht, hR⟩
    · exact ⟨t', .step ht hok' hstep', hR⟩

/-- **What the other one can come to, the one can come to.** -/
theorem Follows.reach_from (h : M.Follows N ok ok' R) (ht : N.Reach ok' t) (hR : R s t)
    (ht' : (N.startedAt t).Reach ok' t') : ∃ s', (M.startedAt s).Reach ok s' ∧ R s' t' := by
  induction ht' with
  | init heq =>
    obtain rfl := heq
    exact ⟨s, .init rfl, hR⟩
  | step hrun hok hstep ih =>
    obtain ⟨s₁, hs₁, hR₁⟩ := ih
    obtain ⟨s₂, hs₂, hR₂⟩ := h.forth (ht.append hrun) hR₁ hok hstep
    have hgo : ((M.startedAt s).startedAt s₁).Reach ok s₂ := hs₂
    exact ⟨s₂, hs₁.append hgo, hR₂⟩

end UnixNetProg.Runs.Machine

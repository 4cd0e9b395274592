/-
Systems in which the order of the steps makes no difference.

Where two steps lead apart, they lead together again in equally many further
steps (`Balanced`). Then one run that ends says everything about all the others:
none is longer, none ends anywhere else, and none gets stuck on the way
(`Path.descent`). So a system whose parts wait for each other is verified by its
peaks, one pair of steps at a time, and by a single schedule.

The condition need only hold where an invariant does.
-/
import UnixNetProg.Lib.Runs

set_option autoImplicit false

namespace UnixNetProg.Runs.Machine

variable {σ α : Type*} {M : Machine σ α} {I : σ → Prop} {s t u f : σ} {m n : ℕ}

/-- A run of `n` steps from one state to another. -/
inductive Path (M : Machine σ α) : ℕ → σ → σ → Prop
  | nil {s : σ} : Path M 0 s s
  | cons {n : ℕ} {s t u : σ} {a : α} : M.step s a = some t → Path M n t u → Path M (n + 1) s u

namespace Path

theorem trans (h : Path M m s t) (h' : Path M n t u) : Path M (m + n) s u := by
  induction h with
  | nil => rwa [Nat.zero_add]
  | @cons m s t v a hstep _ ih =>
    rw [Nat.add_right_comm]
    exact .cons hstep (ih h')

theorem single {a : α} (h : M.step s a = some t) : Path M 1 s t := .cons h .nil

/-- The states reached are those at the end of a run. -/
theorem of_reach {ok : σ → α → Prop} (h : M.Reach ok t) : ∃ s n, M.init s ∧ Path M n s t := by
  induction h with
  | @init s hs => exact ⟨s, 0, hs, .nil⟩
  | step _ _ hstep ih =>
    obtain ⟨s, n, hs, hpath⟩ := ih
    exact ⟨s, n + 1, hs, hpath.trans (.single hstep)⟩

theorem reach (h : Path M n s t) {ok : σ → α → Prop} (hok : ∀ s a, ok s a) (hs : M.Reach ok s) :
    M.Reach ok t := by
  induction h with
  | nil => exact hs
  | cons hstep _ ih => exact ih (.step hs (hok _ _) hstep)

end Path

/-- There is a run from one state to another. -/
def Leads (M : Machine σ α) (s t : σ) : Prop := ∃ n, Path M n s t

theorem Leads.refl (s : σ) : M.Leads s s := ⟨0, .nil⟩

theorem Leads.trans (h : M.Leads s t) (h' : M.Leads t u) : M.Leads s u := by
  obtain ⟨m, hm⟩ := h
  obtain ⟨n, hn⟩ := h'
  exact ⟨m + n, hm.trans hn⟩

section Only

variable (M) in
/-- The same machine, without the steps that do not meet `ok`. -/
def only (ok : σ → α → Prop) [∀ s a, Decidable (ok s a)] : Machine σ α where
  init := M.init
  step := fun s a => if ok s a then M.step s a else none

variable {ok ok' : σ → α → Prop} [∀ s a, Decidable (ok s a)] {a : α}

theorem step_only : (M.only ok).step s a = some t ↔ ok s a ∧ M.step s a = some t := by
  simp [only]

theorem Reach.to_only (h : M.Reach ok s) : (M.only ok).Reach (fun _ _ => True) s := by
  induction h with
  | init hs => exact .init hs
  | step _ hok hstep ih => exact .step ih trivial (step_only.2 ⟨hok, hstep⟩)

theorem Reach.of_only (h : (M.only ok).Reach ok' s) : M.Reach ok s := by
  induction h with
  | init hs => exact .init hs
  | step _ _ hstep ih => exact .step ih (step_only.1 hstep).1 (step_only.1 hstep).2

end Only

/-- Nothing can happen any more. -/
def Final (M : Machine σ α) (f : σ) : Prop := ∀ a, M.step f a = none

/-- Where two steps lead apart, equally many further steps lead together again. -/
def Balanced (M : Machine σ α) (I : σ → Prop) : Prop :=
  ∀ ⦃s a b t u⦄, I s → M.step s a = some t → M.step s b = some u →
    ∃ k v, Path M k t v ∧ Path M k u v

/-- **One run that ends says where every run ends, and when.** -/
theorem Path.descent (hI : ∀ s a t, I s → M.step s a = some t → I t) (hbal : M.Balanced I)
    (hend : M.Final f) (hs : I s) (hf : Path M n s f) (ht : Path M m s t) :
    ∃ k, m + k = n ∧ Path M k t f := by
  induction n generalizing s m t with
  | zero =>
    cases hf
    cases ht with
    | nil => exact ⟨0, rfl, .nil⟩
    | cons hstep _ => rw [hend] at hstep; cases hstep
  | succ n ih =>
    cases hf with
    | @cons _ _ s₁ _ a hstep₁ hf =>
      cases ht with
      | nil => exact ⟨n + 1, Nat.zero_add _, .cons hstep₁ hf⟩
      | @cons m _ s₂ _ b hstep₂ ht =>
        -- the two first steps are led together, on the way to the end
        obtain ⟨k, v, h₁, h₂⟩ := hbal hs hstep₁ hstep₂
        obtain ⟨k', hk', hv⟩ := ih (hI _ _ _ hs hstep₁) hf h₁
        have hf₂ : Path M n s₂ f := hk' ▸ h₂.trans hv
        obtain ⟨j, hj, hpath⟩ := ih (hI _ _ _ hs hstep₂) hf₂ ht
        exact ⟨j, by omega, hpath⟩

/-- The same of the states reached from the only state the machine starts in. -/
theorem Reach.descent {ok : σ → α → Prop} (hinit : ∀ t, M.init t → t = s)
    (hI : ∀ s a t, I s → M.step s a = some t → I t) (hbal : M.Balanced I) (hend : M.Final f)
    (hs : I s) (hf : Path M n s f) (ht : M.Reach ok t) :
    ∃ m k, Path M m s t ∧ m + k = n ∧ Path M k t f := by
  obtain ⟨s', m, hs', hpath⟩ := Path.of_reach ht
  obtain rfl := hinit s' hs'
  obtain ⟨k, hk, hrest⟩ := Path.descent hI hbal hend hs hf hpath
  exact ⟨m, k, hpath, hk, hrest⟩

end UnixNetProg.Runs.Machine

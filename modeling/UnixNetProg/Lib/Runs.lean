/-
Transition systems with a partial step function, and the rules every safety
proof of this development goes through.

A `Machine` is a predicate on starting states and a step function that returns
`none` where the labelled step is not possible. `Reach ok` collects the states
of the runs all of whose steps meet a condition `ok` on the state before the
step and its label; `fun _ _ => True` gives plain reachability. The condition
is a parameter because half of the results here are about runs in which the
callers keep a promise, and the other half about runs in which one particular
step is never taken.

The rules are `Reach.invariant` (an inductive invariant holds in every state
reached), `Reach.finishes` (where a step always leads closer to an end, an end
can be reached) and `Reach.exec` (a list of labels that the machine can execute
is a run), the last one being how explicit runs are given.
-/
import Mathlib.Tactic.Common

set_option autoImplicit false

namespace UnixNetProg.Runs

/-- A transition system: where it may start, and what a labelled step does.
`none` says that the step cannot be taken in that state. -/
structure Machine (σ α : Type*) where
  init : σ → Prop
  step : σ → α → Option σ

namespace Machine

section Reachability

variable {σ α : Type*} {M : Machine σ α} {ok : σ → α → Prop}

/-- The states reached by runs all of whose steps meet `ok`. -/
inductive Reach (M : Machine σ α) (ok : σ → α → Prop) : σ → Prop
  | init {s : σ} : M.init s → Reach M ok s
  | step {s t : σ} {a : α} : Reach M ok s → ok s a → M.step s a = some t → Reach M ok t

/-- **The invariant rule.** A predicate that holds of every starting state and
is preserved by every step taken from a reachable state holds of every
reachable state. -/
theorem Reach.invariant {I : σ → Prop} (hinit : ∀ s, M.init s → I s)
    (hstep : ∀ s a t, Reach M ok s → I s → ok s a → M.step s a = some t → I t)
    {s : σ} (h : Reach M ok s) : I s := by
  induction h with
  | init hs => exact hinit _ hs
  | step hs hok ht ih => exact hstep _ _ _ hs ih hok ht

/-- A weaker condition on the steps reaches at least as much. -/
theorem Reach.mono {ok' : σ → α → Prop} (himp : ∀ s a, ok s a → ok' s a)
    {s : σ} (h : Reach M ok s) : Reach M ok' s := by
  induction h with
  | init hs => exact .init hs
  | step _ hok ht ih => exact .step ih (himp _ _ hok) ht

/-- A condition that every step out of a reachable state meets anyway may be
added to the one the run is known to meet. -/
theorem Reach.strengthen {ok' : σ → α → Prop}
    (himp : ∀ s a t, Reach M ok s → ok s a → M.step s a = some t → ok' s a)
    {s : σ} (h : Reach M ok s) : Reach M ok' s := by
  induction h with
  | init hs => exact .init hs
  | step hs hok ht ih => exact .step ih (himp _ _ _ hs hok ht) ht

/-- The same system, started in `s`. -/
def startedAt (M : Machine σ α) (s : σ) : Machine σ α := { M with init := fun t => t = s }

/-- A run goes on from where another one ended. -/
theorem Reach.append {s t : σ} (h : Reach M ok s) (ht : (M.startedAt s).Reach ok t) :
    Reach M ok t := by
  induction ht with
  | init hs =>
    obtain rfl := hs
    exact h
  | step _ hok hstep ih => exact .step ih hok hstep

/-- **The progress rule.** If from every reachable state that is not an end some
step leads closer to one, then from every reachable state an end can be
reached. -/
theorem Reach.finishes (μ : σ → ℕ) {done : σ → Prop}
    (hdown : ∀ s, Reach M ok s → ¬ done s → ∃ a t, ok s a ∧ M.step s a = some t ∧ μ t < μ s)
    {s : σ} (h : Reach M ok s) : ∃ t, (M.startedAt s).Reach ok t ∧ done t := by
  -- induction on what is left, for a state on the way
  suffices hway : ∀ n t, μ t < n → (M.startedAt s).Reach ok t →
      ∃ u, (M.startedAt s).Reach ok u ∧ done u from
    hway _ s (Nat.lt_succ_self _) (.init rfl)
  intro n
  induction n with
  | zero => intro t ht; exact absurd ht (Nat.not_lt_zero _)
  | succ n ih =>
    intro t ht hst
    by_cases hdone : done t
    · exact ⟨t, hst, hdone⟩
    · obtain ⟨a, u, hok, hstep, hlt⟩ := hdown t (h.append hst) hdone
      exact ih u (by omega) (.step hst hok hstep)

end Reachability

section Execution

variable {σ α : Type*} (M : Machine σ α) (ok : σ → α → Prop) [∀ s a, Decidable (ok s a)]

/-- Execute a list of labels, checking `ok` before each step. -/
def exec (s : σ) : List α → Option σ
  | [] => some s
  | a :: as => if ok s a then (M.step s a).bind fun t => exec t as else none

/-- The first step of a run that executes. -/
theorem exec_cons_eq_some {s t : σ} {a : α} {as : List α} :
    M.exec ok s (a :: as) = some t ↔
      ok s a ∧ ∃ u, M.step s a = some u ∧ M.exec ok u as = some t := by
  simp [exec, Option.bind_eq_some_iff]

variable {M ok}

/-- What executes from a reachable state is reachable. -/
theorem Reach.exec {s t : σ} {as : List α} (h : Reach M ok s)
    (ht : M.exec ok s as = some t) : Reach M ok t := by
  induction as generalizing s with
  | nil =>
    obtain rfl : s = t := Option.some.inj ht
    exact h
  | cons a as ih =>
    obtain ⟨hok, u, hu, hrest⟩ := (M.exec_cons_eq_some ok).1 ht
    exact ih (.step h hok hu) hrest

variable (M ok) in
/-- A list of labels that executes from a starting state is a run. -/
theorem Reach.run {s : σ} (hs : M.init s) (as : List α)
    (h : (M.exec ok s as).isSome = true) : Reach M ok ((M.exec ok s as).get h) :=
  Reach.exec (.init hs) (Option.some_get h).symm

end Execution

end Machine

end UnixNetProg.Runs

/-
Crashes that leave everything as it is.

Where nobody cleans up after a process that dies, a process that has died cannot be told
from one that is never scheduled again. `crashing` adds crashes to a system in this way:
it only remembers who has crashed, and the crashed take no more steps. So what holds in
every state of the runs without crashes holds in every state of the runs with them
(`Reach.uncrashed`).

What does not carry over is progress. `Reach.abandoned` is the reason: a resource that one
process has at a time, and that only the process itself gives back, is lost for all when a
process crashes that has it.
-/
import UnixNetProg.Lib.Runs
import Mathlib.Data.List.Basic

set_option autoImplicit false

namespace UnixNetProg.Runs.Machine

variable {σ α ι : Type*}

section Crashing

variable [DecidableEq ι] (M : Machine σ α) (actor : α → Option ι)

/-- The processes `actor` may crash, at any time; the second part of a state has those that
have. -/
def crashing : Machine (σ × List ι) (α ⊕ ι) where
  init := fun x => M.init x.1 ∧ x.2 = []
  step := fun x b =>
    match b with
    | .inl a => if ∃ i ∈ actor a, i ∈ x.2 then none else (M.step x.1 a).map fun s => (s, x.2)
    | .inr i => some (x.1, i :: x.2)

end Crashing

/-- A condition on the steps, where crashes are steps as well. -/
def orCrash (ok : σ → α → Prop) (x : σ × List ι) : α ⊕ ι → Prop
  | .inl a => ok x.1 a
  | .inr _ => True

instance (ok : σ → α → Prop) [∀ s a, Decidable (ok s a)] (x : σ × List ι) (b : α ⊕ ι) :
    Decidable (orCrash ok x b) := by
  cases b <;> unfold orCrash <;> infer_instance

/-- No more crashes. -/
def noCrash (_ : σ × List ι) : α ⊕ ι → Prop
  | .inl _ => True
  | .inr _ => False

section Rules

variable [DecidableEq ι] {M : Machine σ α} {actor : α → Option ι} {ok : σ → α → Prop}
  {x y : σ × List ι} {a : α} {i : ι}

/-- A step of the system: nobody who has crashed takes it. -/
theorem of_crashing_inl (h : (M.crashing actor).step x (.inl a) = some y) :
    M.step x.1 a = some y.1 ∧ y.2 = x.2 ∧ ∀ i ∈ x.2, actor a ≠ some i := by
  simp only [crashing] at h
  split_ifs at h with hdead
  obtain ⟨s, hs, rfl⟩ := Option.map_eq_some_iff.1 h
  refine ⟨hs, rfl, fun i hi hactor => hdead ⟨i, ?_, hi⟩⟩
  rw [hactor]
  rfl

variable (M actor) in
theorem of_crashing_inr (h : (M.crashing actor).step x (.inr i) = some y) :
    y.1 = x.1 ∧ y.2 = i :: x.2 := by
  cases h
  exact ⟨rfl, rfl⟩

/-- What the system can do without a crash, as long as who does it is alive. -/
theorem crashing_inl {s : σ} (h : M.step x.1 a = some s) (hlive : ∀ i ∈ x.2, actor a ≠ some i) :
    (M.crashing actor).step x (.inl a) = some (s, x.2) := by
  have hnot : ¬ ∃ i ∈ actor a, i ∈ x.2 := by
    rintro ⟨i, hactor, hi⟩
    exact hlive i hi hactor
  simp only [crashing, if_neg hnot, h, Option.map_some]

/-- **A crash is a process that is never scheduled again**: the state is one that is reached
without crashes. -/
theorem Reach.uncrashed (h : (M.crashing actor).Reach (orCrash ok) x) : M.Reach ok x.1 := by
  induction h with
  | init hx => exact .init hx.1
  | @step x y b _ hok hstep ih =>
    cases b with
    | inl a => exact .step ih hok (of_crashing_inl hstep).1
    | inr i =>
      rw [(of_crashing_inr M actor hstep).1]
      exact ih

/-- Nobody comes back. -/
theorem Reach.stays_crashed (h : ((M.crashing actor).startedAt x).Reach (orCrash ok) y)
    (hi : i ∈ x.2) : i ∈ y.2 := by
  induction h with
  | init hy =>
    obtain rfl := hy
    exact hi
  | @step y z b _ _ hstep ih =>
    cases b with
    | inl a => rw [(of_crashing_inl hstep).2.1]; exact ih
    | inr j => rw [(of_crashing_inr M actor hstep).2]; exact List.mem_cons_of_mem _ ih

/-- Without more crashes, those that have crashed are the same. -/
theorem Reach.same_crashed (h : ((M.crashing actor).startedAt x).Reach noCrash y) : y.2 = x.2 := by
  induction h with
  | init hy => rw [hy]
  | @step y z b _ hok hstep ih =>
    cases b with
    | inl a => rw [(of_crashing_inl hstep).2.1]; exact ih
    | inr j => exact hok.elim

/-- A run without more crashes is a run. -/
theorem Reach.of_noCrash (h : ((M.crashing actor).startedAt x).Reach noCrash y) :
    ((M.crashing actor).startedAt x).Reach (orCrash fun _ _ => True) y := by
  apply h.mono
  intro x b _
  cases b <;> trivial

/-- **What a process has when it crashes is lost**, if only one process has it at a time and
the steps of the others do not take it away: nobody else ever has it again. -/
theorem Reach.abandoned {has : σ → ι → Prop}
    (hone : ∀ s i j, M.Reach ok s → has s i → has s j → i = j)
    (hstay : ∀ s a t i, M.Reach ok s → ok s a → M.step s a = some t → actor a ≠ some i →
      has s i → has t i)
    (hx : (M.crashing actor).Reach (orCrash ok) x) (hi : i ∈ x.2) (hhas : has x.1 i)
    (h : ((M.crashing actor).startedAt x).Reach (orCrash ok) y) :
    has y.1 i ∧ ∀ j, has y.1 j → j = i := by
  suffices hkept : has y.1 i from
    ⟨hkept, fun j hj => hone _ j i (hx.append h).uncrashed hj hkept⟩
  induction h with
  | init hy =>
    obtain rfl := hy
    exact hhas
  | @step y z b hy hok hstep ih =>
    cases b with
    | inl a =>
      obtain ⟨hs, -, hlive⟩ := of_crashing_inl hstep
      exact hstay _ a _ i (hx.append hy).uncrashed hok hs (hlive i (hy.stays_crashed hi)) ih
    | inr j => rw [(of_crashing_inr M actor hstep).1]; exact ih

end Rules

end UnixNetProg.Runs.Machine

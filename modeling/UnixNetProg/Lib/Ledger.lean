/-
The undo ledger of one semaphore.

`SEM_UNDO` is used well when each process's adjustment is exactly what takes
its own contribution to the value back. Then the value is a base amount plus
what the processes now contribute, and an exit, whatever it interrupts, leaves
a value that the remaining processes account for.

`Ledger S m base σ f l` says that of member `m`: every process counted by `f`
contributes `σ` to the value and has `-σ` as its adjustment. A lock held by at
most one process is the ledger with base 0 and `σ = 1`; a counter taken down by
every user, or a mutex taken down by its holder, is one with `σ = -1`.
-/
import UnixNetProg.Lib.Pool
import UnixNetProg.Lib.SysV

set_option autoImplicit false

namespace UnixNetProg.SysV

open UnixNetProg.Pool

variable {n : ℕ} {α : Type*}

/-- Member `m` is `base` plus `σ` for every process counted by `f`, and each
process's adjustment takes its own contribution back. -/
structure Ledger (S : SemSet n) (m : Fin n) (base σ : ℤ) (f : α → Bool) (l : List α) :
    Prop where
  val : (S.val m : ℤ) = base + σ * l.countP f
  adj : ∀ p, S.adj p m = -σ * share f l p

namespace Ledger

variable {S S' : SemSet n} {m : Fin n} {base σ : ℤ} {f : α → Bool} {l : List α}
  {p : ℕ} {q q' : α}

/-- The general step: one process changes from `q` to `q'`, and the value and
its own adjustment follow. -/
theorem set (h : Ledger S m base σ f l) (hq : l[p]? = some q)
    (hval : (S'.val m : ℤ) = S.val m + σ * ((f q').toNat - (f q).toNat))
    (hadj : S'.adj p m = S.adj p m - σ * ((f q').toNat - (f q).toNat))
    (hother : ∀ p', p' ≠ p → S'.adj p' m = S.adj p' m) :
    Ledger S' m base σ f (l.set p q') := by
  have hcount : ((l.set p q').countP f : ℤ) = l.countP f + ((f q').toNat - (f q).toNat) := by
    have := countP_set_add f hq q'
    omega
  refine ⟨?_, fun p' => ?_⟩
  · rw [hval, h.val, hcount]
    ring
  · rw [share_set f hq]
    by_cases hp : p' = p
    · rw [if_pos hp, hp, hadj, h.adj p, share_of_get f hq]
      ring
    · rw [if_neg hp, hother p' hp, h.adj p']

/-- A step that touches other members, by a process whose contribution here
does not change. -/
theorem same (h : Ledger S m base σ f l) (hq : l[p]? = some q) (hf : f q' = f q)
    (hval : S'.val m = S.val m) (hadj : ∀ p', S'.adj p' m = S.adj p' m) :
    Ledger S' m base σ f (l.set p q') := by
  refine h.set hq ?_ ?_ fun p' _ => hadj p'
  · rw [hval, hf]
    ring
  · rw [hadj, hf]
    ring

/-- One unit more or less always fits an adjustment: a process contributes one at most. -/
theorem undoFits (h : Ledger S m base σ f l) (hσ : σ = 1 ∨ σ = -1) (p : ℕ) {d : ℤ}
    (hlo : -1 ≤ d) (hhi : d ≤ 1) : UndoFits (S.adj p m + d) := by
  have hadj := h.adj p
  have hshare := share_le_one f l p
  rcases hσ with rfl | rfl <;> constructor <;> simp only [SEMAEM] <;> omega

/-- A new process contributes nothing. -/
theorem append (h : Ledger S m base σ f l) (hf : f q = false) :
    Ledger S m base σ f (l ++ [q]) := by
  refine ⟨?_, fun p => ?_⟩
  · rw [h.val, List.countP_append, List.countP_singleton, if_neg (by simp [hf])]
    simp
  · rw [share_append f hf, h.adj]

/-- A process exits: its contribution is taken back, whatever it was. The bound
says that what is left over is a possible value, so nothing is cut off. -/
theorem exit (h : Ledger S m base σ f l) (hq : l[p]? = some q) (hf : f q' = false)
    (hlo : 0 ≤ base + σ * ((l.set p q').countP f : ℤ))
    (hhi : base + σ * ((l.set p q').countP f : ℤ) ≤ SEMVMX) :
    Ledger (S.exit p) m base σ f (l.set p q') := by
  have hcount := countP_set_add f hq q'
  rw [hf, Bool.toNat_false, Nat.add_zero] at hcount
  have hsum : (S.val m : ℤ) + S.adj p m = base + σ * ((l.set p q').countP f : ℤ) := by
    rw [h.val, h.adj, share_of_get f hq, ← hcount]
    push_cast
    ring
  have hexit : ((S.exit p).val m : ℤ) = base + σ * ((l.set p q').countP f : ℤ) := by
    obtain ⟨w, hw⟩ := Int.eq_ofNat_of_zero_le hlo
    rw [SemSet.exit_val, clamp_eq (w := w) (by rw [hsum, hw]) (by omega), hw]
  refine ⟨hexit, fun p' => ?_⟩
  rw [SemSet.exit_adj, share_set f hq, hf]
  by_cases hp : p' = p
  · rw [if_pos hp, if_pos hp]
    simp
  · rw [if_neg hp, if_neg hp, h.adj]

/-- An operation with undo on a member whose ledger this is: the amount is what
the process's contribution changes by. -/
theorem shift (h : Ledger S m base σ f l) (hq : l[p]? = some q) {d : ℤ}
    (hd : d = σ * ((f q').toNat - (f q).toNat)) (hlo : 0 ≤ (S.val m : ℤ) + d)
    (hhi : (S.val m : ℤ) + d ≤ SEMVMX) :
    Ledger (S.shift p m d) m base σ f (l.set p q') := by
  refine h.set hq ?_ ?_ fun p' hp => ?_
  · obtain ⟨w, hw⟩ := Int.eq_ofNat_of_zero_le hlo
    rw [SemSet.shift_val, if_pos rfl, clamp_eq hw (by omega), ← hw, hd]
  · rw [SemSet.shift_adj, if_pos ⟨rfl, rfl⟩, hd]
  · rw [SemSet.shift_adj, if_neg (fun e => hp e.1)]

/-- An operation on another member. -/
theorem shift_ne (h : Ledger S m base σ f l) (p' : ℕ) {m' : Fin n} (hm : m ≠ m') (d : ℤ) :
    Ledger (S.shift p' m' d) m base σ f l :=
  ⟨by rw [SemSet.shift_val, if_neg hm, h.val],
    fun r => by rw [SemSet.shift_adj, if_neg (fun e => hm e.2), h.adj]⟩

/-- `SETVAL` on another member. -/
theorem setval_ne (h : Ledger S m base σ f l) {m' : Fin n} (hm : m ≠ m') (v : ℤ) :
    Ledger (S.setval m' v) m base σ f l :=
  ⟨by rw [SemSet.setval_val, if_neg hm, h.val],
    fun r => by rw [SemSet.setval_adj, if_neg hm, h.adj]⟩

/-- `SETVAL` opens a ledger, provided nobody contributes at that moment: the
adjustments are cleared, so what was contributed before could not be taken back. -/
theorem of_setval {v : ℕ} (hv : v ≤ SEMVMX) (hf : l.countP f = 0) :
    Ledger (S.setval m v) m v σ f l := by
  refine ⟨?_, fun p => ?_⟩
  · rw [SemSet.setval_val, if_pos rfl, clamp_eq (w := v) (by simp) hv, hf]
    simp
  · rw [SemSet.setval_adj, if_pos rfl, share_eq_zero_of_countP f hf]
    simp

/-- A fresh set's members are ledgers of 0. -/
theorem of_fresh (hf : l.countP f = 0) : Ledger (SemSet.fresh : SemSet n) m 0 σ f l :=
  ⟨by simp [hf], fun p => by simp [share_eq_zero_of_countP f hf]⟩

end Ledger

end UnixNetProg.SysV

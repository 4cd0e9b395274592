/-
The undo account of one semaphore: how many units are out, and with whom.

`Ledger` is about users that contribute all or nothing. Here a process may have
taken any number of units. `Account S m base g l` says that the value of member
`m` and the units `g` that the processes of `l` have taken make up `base`, and
that each process's adjustment is what it has taken. An exit then puts exactly
that back, however many units it was.
-/
import Mathlib.Algebra.Order.BigOperators.Group.List
import UnixNetProg.Lib.Pool
import UnixNetProg.Lib.SysV

set_option autoImplicit false

namespace UnixNetProg.Pool

variable {α : Type*} (g : α → ℕ)

/-- What member `p` has: 0 where there is none. -/
def owned (l : List α) (p : ℕ) : ℕ := (l[p]?.map g).getD 0

theorem owned_of_get {l : List α} {p : ℕ} {q : α} (hq : l[p]? = some q) : owned g l p = g q := by
  simp [owned, hq]

theorem owned_set {l : List α} {p : ℕ} {q : α} (hq : l[p]? = some q) (q' : α) (p' : ℕ) :
    owned g (l.set p q') p' = if p' = p then g q' else owned g l p' := by
  obtain ⟨hlt, -⟩ := List.getElem?_eq_some_iff.1 hq
  split
  · rename_i hp
    subst hp
    exact owned_of_get g (List.getElem?_set_self hlt)
  · rename_i hp
    rw [owned, owned, List.getElem?_set_ne fun e => hp e.symm]

/-- A new member that has nothing. -/
theorem owned_append {l : List α} {q : α} (hg : g q = 0) (p : ℕ) :
    owned g (l ++ [q]) p = owned g l p := by
  unfold owned
  rcases Nat.lt_trichotomy p l.length with hlt | heq | hgt
  · rw [List.getElem?_append_left hlt]
  · subst heq
    simp [hg]
  · rw [List.getElem?_eq_none (by simp; omega), List.getElem?_eq_none (by omega)]

/-- One member has at most what all of them have. -/
theorem le_sum_of_get {l : List α} {p : ℕ} {q : α} (hq : l[p]? = some q) :
    g q ≤ (l.map g).sum :=
  List.le_sum_of_mem (List.mem_map_of_mem (List.mem_of_getElem? hq))

end UnixNetProg.Pool

namespace UnixNetProg.SysV

open UnixNetProg.Pool

variable {n : ℕ} {α : Type*}

/-- The value of member `m` and the units taken make up `base`, and each
process's adjustment is what it has taken. -/
structure Account (S : SemSet n) (m : Fin n) (base : ℕ) (g : α → ℕ) (l : List α) : Prop where
  val : S.val m + (l.map g).sum = base
  adj : ∀ p, S.adj p m = owned g l p

namespace Account

variable {S S' : SemSet n} {m : Fin n} {base : ℕ} {g : α → ℕ} {l : List α} {p : ℕ} {q q' : α}

/-- One process changes from `q` to `q'`, and the value and its own adjustment
follow. -/
theorem set (h : Account S m base g l) (hq : l[p]? = some q)
    (hval : S'.val m + g q' = S.val m + g q)
    (hadj : S'.adj p m = g q') (hother : ∀ p', p' ≠ p → S'.adj p' m = S.adj p' m) :
    Account S' m base g (l.set p q') := by
  have hsum := sum_map_set_add g hq q'
  have htotal := h.val
  refine ⟨by omega, fun p' => ?_⟩
  rw [owned_set g hq]
  by_cases hp : p' = p
  · rw [if_pos hp, hp, hadj]
  · rw [if_neg hp, hother p' hp, h.adj]

/-- A step that touches other members, by a process that keeps what it has. -/
theorem same (h : Account S m base g l) (hq : l[p]? = some q) (hg : g q' = g q)
    (hval : S'.val m = S.val m) (hadj : ∀ p', S'.adj p' m = S.adj p' m) :
    Account S' m base g (l.set p q') := by
  refine h.set hq ?_ ?_ fun p' _ => hadj p'
  · rw [hval, hg]
  · rw [hadj, h.adj, owned_of_get g hq, hg]

/-- A new process has nothing. -/
theorem append (h : Account S m base g l) (hg : g q = 0) : Account S m base g (l ++ [q]) := by
  refine ⟨?_, fun p => ?_⟩
  · rw [← h.val, List.map_append, List.sum_append]
    simp [hg]
  · rw [owned_append g hg, h.adj]

/-- A process exits and everything it had is put back. -/
theorem exit (h : Account S m base g l) (hbase : base ≤ SEMVMX) (hq : l[p]? = some q)
    (hg : g q' = 0) : Account (S.exit p) m base g (l.set p q') := by
  have hsum := le_sum_of_get g hq
  have htotal := h.val
  have hval : (S.exit p).val m = S.val m + g q := by
    rw [SemSet.exit_val, h.adj, owned_of_get g hq]
    exact clamp_eq (by push_cast; rfl) (by omega)
  refine h.set hq (by omega) ?_ fun p' hp => ?_
  · rw [SemSet.exit_adj, if_pos rfl, hg, Nat.cast_zero]
  · rw [SemSet.exit_adj, if_neg hp]

/-- An operation with undo: the process has `d` units less after it, or `-d`
more. -/
theorem shift (h : Account S m base g l) (hbase : base ≤ SEMVMX) (hq : l[p]? = some q) {d : ℤ}
    (hd : (g q' : ℤ) = g q - d) (hlo : 0 ≤ (S.val m : ℤ) + d) :
    Account (S.shift p m d) m base g (l.set p q') := by
  have hsum := sum_map_set_add g hq q'
  have hle := le_sum_of_get g hq
  have htotal := h.val
  obtain ⟨v, hv⟩ := Int.eq_ofNat_of_zero_le hlo
  have hval : (S.shift p m d).val m = v := by
    rw [SemSet.shift_val, if_pos rfl]
    exact clamp_eq hv (by omega)
  refine h.set hq (by omega) ?_ fun p' hp => ?_
  · rw [SemSet.shift_adj, if_pos ⟨rfl, rfl⟩, h.adj, owned_of_get g hq, hd]
  · rw [SemSet.shift_adj, if_neg fun e => hp e.1]

/-- `SETVAL` opens an account, provided nobody has anything at that moment. -/
theorem of_setval {v : ℕ} (hv : v ≤ SEMVMX) (hl : ∀ q ∈ l, g q = 0) :
    Account (S.setval m v) m v g l := by
  have hsum : (l.map g).sum = 0 := by
    rw [sum_map_const g hl, Nat.zero_mul]
  refine ⟨?_, fun p => ?_⟩
  · rw [SemSet.setval_val, if_pos rfl, clamp_eq (w := v) (by simp) hv, hsum, Nat.add_zero]
  · rw [SemSet.setval_adj, if_pos rfl, owned]
    cases hp : l[p]? with
    | none => rfl
    | some q => simp [hl q (List.mem_of_getElem? hp)]

end Account

end UnixNetProg.SysV

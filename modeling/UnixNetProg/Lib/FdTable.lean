/-
The table of a process's open descriptors.

A descriptor is a number, and what it stands for is whatever the program at hand
distinguishes. `alloc` gives the lowest number that is free, as every call does that
makes a descriptor, and fails when no number below the limit is free.

`free` counts the numbers below the limit that are left. It is all that decides whether
`alloc` succeeds, so a program that opens and closes is followed by what it does to it.
-/
import Mathlib.Tactic.Common
import Mathlib.Logic.Function.Basic

set_option autoImplicit false

namespace UnixNetProg.FdTable

/-- What each descriptor stands for. -/
abbrev Table (δ : Type*) := ℕ → Option δ

namespace Table

variable {δ : Type*}

/-- The lowest free number below the limit. -/
def lowest (limit : ℕ) (t : Table δ) : Option ℕ := (List.range limit).find? fun i => (t i).isNone

/-- A new descriptor for `d`. -/
def alloc (limit : ℕ) (t : Table δ) (d : δ) : Option (ℕ × Table δ) :=
  (t.lowest limit).map fun i => (i, Function.update t i (some d))

def close (t : Table δ) (fd : ℕ) : Table δ := Function.update t fd none

/-- How many numbers below the limit are free. -/
def free (limit : ℕ) (t : Table δ) : ℕ := (List.range limit).countP fun i => (t i).isNone

/-- How many descriptors are open. -/
def opened (limit : ℕ) (t : Table δ) : ℕ := (List.range limit).countP fun i => (t i).isSome

variable {limit : ℕ} {t t' : Table δ} {d : δ} {i : ℕ}

theorem opened_add_free (limit : ℕ) (t : Table δ) : t.opened limit + t.free limit = limit := by
  have hnot : (fun i => (t i).isNone) = fun i => !(t i).isSome := by
    funext i
    exact (Option.not_isSome (t i)).symm
  have hsplit := List.length_eq_countP_add_countP (fun i => (t i).isSome) (l := List.range limit)
  rw [List.length_range] at hsplit
  rw [opened, free, hnot]
  simpa only [Bool.decide_eq_true, decide_not] using hsplit.symm

/-- One entry of a table changes. -/
theorem countP_range_update (f : Option δ → Bool) (hi : i < limit) (e : Option δ) :
    (List.range limit).countP (fun j => f (Function.update t i e j)) + (f (t i)).toNat =
      (List.range limit).countP (fun j => f (t j)) + (f e).toNat := by
  -- below and above the entry the two counts agree
  have hsame : ∀ n, n ≤ i → (List.range n).countP (fun j => f (Function.update t i e j)) =
      (List.range n).countP fun j => f (t j) := by
    intro n hn
    refine List.countP_congr fun j hj => ?_
    rw [List.mem_range] at hj
    rw [Function.update_of_ne (by omega)]
  induction limit with
  | zero => exact absurd hi (Nat.not_lt_zero _)
  | succ n ih =>
    rw [List.range_succ, List.countP_append, List.countP_append, List.countP_singleton,
      List.countP_singleton]
    by_cases hn : n = i
    · subst hn
      rw [hsame n (Nat.le_refl _), Function.update_self]
      cases f (t n) <;> cases f e <;> simp
    · have hrec := ih (by omega)
      rw [Function.update_of_ne hn]
      omega

/-- Opening takes a free number away. -/
theorem free_update (hi : i < limit) (hfree : t i = none) (d : δ) :
    free limit (Function.update t i (some d)) + 1 = t.free limit := by
  have hcount := countP_range_update (t := t) Option.isNone hi (some d)
  rw [hfree] at hcount
  simpa [free] using hcount

/-- Closing what was just opened. -/
theorem close_update (hfree : t i = none) (d : δ) : close (Function.update t i (some d)) i = t := by
  rw [close, Function.update_idem, ← hfree, Function.update_eq_self]

theorem alloc_eq_some (h : t.alloc limit d = some (i, t')) :
    i < limit ∧ t i = none ∧ t' = Function.update t i (some d) := by
  obtain ⟨j, hj, heq⟩ := Option.map_eq_some_iff.1 h
  cases heq
  have hmem := List.mem_of_find?_eq_some hj
  have hfree := List.find?_some hj
  rw [List.mem_range] at hmem
  exact ⟨hmem, by simpa using hfree, rfl⟩

/-- `alloc` succeeds if and only if a number is free. -/
theorem alloc_of_free (h : 0 < t.free limit) (d : δ) : ∃ i, i < limit ∧ t i = none ∧
    t.alloc limit d = some (i, Function.update t i (some d)) := by
  obtain ⟨j, hmem, hj⟩ := List.countP_pos_iff.1 h
  have hsome : (t.lowest limit).isSome := List.find?_isSome.2 ⟨j, hmem, hj⟩
  obtain ⟨i, hi⟩ := Option.isSome_iff_exists.1 hsome
  have halloc : t.alloc limit d = some (i, Function.update t i (some d)) := by
    rw [alloc, hi, Option.map_some]
  obtain ⟨hlt, hfree, -⟩ := alloc_eq_some halloc
  exact ⟨i, hlt, hfree, halloc⟩

theorem alloc_of_full (h : t.free limit = 0) (d : δ) : t.alloc limit d = none := by
  rw [alloc, Option.map_eq_none_iff, lowest, List.find?_eq_none]
  exact List.countP_eq_zero.1 h

/-! ### Copies, and tables without gaps -/

/-- `fd` becomes a copy of `fd'`; where `fd'` is not open nothing happens. -/
def dup2 (t : Table δ) (fd' fd : ℕ) : Table δ :=
  match t fd' with
  | some d => Function.update t fd (some d)
  | none => t

/-- A loop that closes the numbers below `n`, but for `keep`. -/
def closeBelow (n : ℕ) (keep : Option ℕ) (t : Table δ) : Table δ :=
  (List.range n).foldl (fun t i => if keep = some i then t else t.close i) t

/-- The numbers from 0 on stand for `l`, those after them up to `n` are free, and from `n` on
they are as in `rest`. -/
def dense (n : ℕ) (rest : Table δ) (l : List δ) : Table δ := fun i =>
  if i < l.length then l[i]? else if i < n then none else rest i

theorem closeBelow_apply (n : ℕ) (keep : Option ℕ) (t : Table δ) (i : ℕ) :
    t.closeBelow n keep i = if i < n ∧ keep ≠ some i then none else t i := by
  induction n with
  | zero =>
    rw [if_neg fun h => absurd h.1 (Nat.not_lt_zero _)]
    rfl
  | succ n ih =>
    have hsucc : t.closeBelow (n + 1) keep = if keep = some n then t.closeBelow n keep
        else (t.closeBelow n keep).close n := by
      rw [closeBelow, List.range_succ, List.foldl_append]
      rfl
    by_cases hin : i = n
    · subst hin
      by_cases hkeep : keep = some i
      · rw [hsucc, if_pos hkeep, ih, if_neg fun h => h.2 hkeep, if_neg fun h => h.2 hkeep]
      · rw [hsucc, if_neg hkeep, close, Function.update_self,
          if_pos ⟨Nat.lt_succ_self _, hkeep⟩]
    · have hiff : (i < n + 1 ∧ keep ≠ some i) ↔ (i < n ∧ keep ≠ some i) := by
        refine and_congr_left fun _ => ?_
        omega
      have hsame : t.closeBelow (n + 1) keep i = t.closeBelow n keep i := by
        rw [hsucc]
        split_ifs
        · rfl
        · exact Function.update_of_ne hin _ _
      rw [hsame, ih]
      simp only [hiff]

theorem dup2_of_open {fd' fd : ℕ} (h : t fd' = some d) :
    t.dup2 fd' fd = Function.update t fd (some d) := by
  rw [dup2, h]

section Dense

variable {n : ℕ} {rest : Table δ} {l : List δ} {fd : ℕ}

theorem dense_of_lt (h : i < l.length) : dense n rest l i = l[i]? := if_pos h

theorem dense_free (h : l.length ≤ i) (hn : i < n) : dense n rest l i = none := by
  rw [dense, if_neg (Nat.not_lt.2 h), if_pos hn]

theorem dense_congr (h : ∀ i, n ≤ i → t i = rest i) : dense n t l = dense n rest l := by
  funext i
  unfold dense
  split_ifs with hl hn
  · rfl
  · rfl
  · exact h i (Nat.not_lt.1 hn)

/-- The next number is added. -/
theorem update_dense (d : δ) :
    Function.update (dense n rest l) l.length (some d) = dense n rest (l ++ [d]) := by
  funext i
  have hlen : (l ++ [d]).length = l.length + 1 := by
    rw [List.length_append, List.length_singleton]
  rcases Nat.lt_trichotomy i l.length with hlt | rfl | hlt
  · rw [Function.update_of_ne (Nat.ne_of_lt hlt), dense_of_lt hlt, dense_of_lt (by omega),
      List.getElem?_append_left hlt]
  · rw [Function.update_self, dense_of_lt (by omega), List.getElem?_concat_length]
  · have hnot : ¬ i < (l ++ [d]).length := by omega
    rw [Function.update_of_ne (Nat.ne_of_gt hlt), dense, dense, if_neg (Nat.lt_asymm hlt),
      if_neg hnot]

/-- **A table without gaps stays so**: the next descriptor is the next number. -/
theorem alloc_dense (hn : l.length < n) (h : (dense n rest l).alloc limit d = some (fd, t')) :
    fd = l.length ∧ t' = dense n rest (l ++ [d]) := by
  obtain ⟨hlt, hfree, rfl⟩ := alloc_eq_some h
  obtain ⟨j, hj, heq⟩ := Option.map_eq_some_iff.1 h
  obtain rfl : j = fd := congrArg Prod.fst heq
  obtain ⟨-, -, hbelow⟩ := List.find?_range_eq_some.1 hj
  -- what is below it is in use, and it is not
  obtain rfl : j = l.length := by
    rcases Nat.lt_trichotomy j l.length with hlt | hlt | hlt
    · rw [dense_of_lt hlt, List.getElem?_eq_getElem hlt] at hfree
      cases hfree
    · exact hlt
    · have hused := hbelow l.length hlt
      rw [dense_free (Nat.le_refl _) hn] at hused
      cases hused
  exact ⟨rfl, update_dense d⟩

theorem close_dense (hn : l.length < n) (d : δ) :
    (dense n rest (l ++ [d])).close l.length = dense n rest l := by
  rw [← update_dense]
  exact close_update (dense_free (Nat.le_refl _) hn) d

/-- The copy that is made onto the next number. -/
theorem dup2_dense (h : dense n rest l fd = some d) :
    (dense n rest l).dup2 fd l.length = dense n rest (l ++ [d]) := by
  rw [dup2_of_open h, update_dense]

theorem closeBelow_none (n : ℕ) (t : Table δ) : t.closeBelow n none = dense n t [] := by
  funext i
  rw [closeBelow_apply, dense, if_neg (show ¬ i < [].length from Nat.not_lt_zero i)]
  simp only [ne_eq, reduceCtorEq, not_false_eq_true, and_true]

end Dense

end Table

end UnixNetProg.FdTable

/-
Pools of processes, as lists indexed by process number.

A step of the systems below changes one member of the pool, adds one at the
end, or leaves the pool alone. Everything counted over a pool ("how many hold
the lock", "how many have it open") therefore moves by at most one, and the
lemmas here say so in a form `omega` can use: the count after, plus what the
old member contributed, is the count before plus what the new one contributes.
-/
import Mathlib.Tactic.Common
import Mathlib.Tactic.Ring

set_option autoImplicit false

namespace UnixNetProg.Pool

variable {α : Type*} (f : α → Bool)

/-- Replacing a member moves the count from the old member's share to the new
one's. -/
theorem countP_set_add {l : List α} {p : ℕ} {q : α} (hq : l[p]? = some q) (q' : α) :
    (l.set p q').countP f + (f q).toNat = l.countP f + (f q').toNat := by
  obtain ⟨hlt, rfl⟩ := List.getElem?_eq_some_iff.1 hq
  have hpos : f l[p] = true → 0 < l.countP f := fun h =>
    List.countP_pos_iff.2 ⟨_, List.getElem_mem hlt, h⟩
  rw [List.countP_set hlt]
  cases hf : f l[p]
  · cases f q' <;> simp
  · have := hpos hf
    cases f q' <;> simp <;> omega

/-- A member that counts makes the count positive. -/
theorem countP_pos_of_get {l : List α} {p : ℕ} {q : α} (hq : l[p]? = some q)
    (hf : f q = true) : 0 < l.countP f :=
  List.countP_pos_iff.2 ⟨q, List.mem_of_getElem? hq, hf⟩

/-- No member counts when the count is zero. -/
theorem not_of_countP_eq_zero {l : List α} (h : l.countP f = 0) {p : ℕ} {q : α}
    (hq : l[p]? = some q) : f q = false := by
  have := List.countP_eq_zero.1 h q (List.mem_of_getElem? hq)
  simpa using this

/-- The count is zero when no member counts. -/
theorem countP_eq_zero_of_forall {l : List α}
    (h : ∀ (p : ℕ) (q : α), l[p]? = some q → f q = false) :
    l.countP f = 0 := by
  refine List.countP_eq_zero.2 fun q hq => ?_
  obtain ⟨p, hp⟩ := List.mem_iff_getElem?.1 hq
  simp [h p q hp]

/-- Two members that both count are the same member, if the count is at most
one. -/
theorem eq_of_countP_le_one {l : List α} (h : l.countP f ≤ 1) {p p' : ℕ} {q q' : α}
    (hq : l[p]? = some q) (hq' : l[p']? = some q') (hf : f q = true) (hf' : f q' = true) :
    p = p' := by
  induction l generalizing p p' with
  | nil => simp at hq
  | cons a l ih =>
    rw [List.countP_cons] at h
    -- one that comes first and one that comes later would be two
    cases p with
    | zero =>
      cases p' with
      | zero => rfl
      | succ p' =>
        simp only [List.getElem?_cons_zero, Option.some.injEq] at hq
        have := countP_pos_of_get f (l := l) (by simpa using hq') hf'
        subst hq
        simp only [hf, if_true] at h
        omega
    | succ p =>
      cases p' with
      | zero =>
        simp only [List.getElem?_cons_zero, Option.some.injEq] at hq'
        have := countP_pos_of_get f (l := l) (by simpa using hq) hf
        subst hq'
        simp only [hf', if_true] at h
        omega
      | succ p' =>
        rw [List.getElem?_cons_succ] at hq hq'
        have heq : p = p' := ih (by omega) hq hq'
        rw [heq]

/-- Replacing a member moves a sum over the pool from the old member's summand
to the new one's. -/
theorem sum_map_set_add (g : α → ℕ) {l : List α} {p : ℕ} {q : α} (hq : l[p]? = some q) (q' : α) :
    ((l.set p q').map g).sum + g q = (l.map g).sum + g q' := by
  induction l generalizing p with
  | nil => simp at hq
  | cons a l ih =>
    cases p with
    | zero =>
      obtain rfl : a = q := by simpa using hq
      simp only [List.set_cons_zero, List.map_cons, List.sum_cons]
      omega
    | succ p =>
      have := ih (by simpa using hq)
      simp only [List.set_cons_succ, List.map_cons, List.sum_cons]
      omega

/-- A sum over a pool whose members contribute at most `c` each. -/
theorem sum_map_le (g : α → ℕ) {l : List α} {c : ℕ} (h : ∀ q ∈ l, g q ≤ c) :
    (l.map g).sum ≤ c * l.length := by
  induction l with
  | nil => simp
  | cons a l ih =>
    have ha := h a List.mem_cons_self
    have hl := ih fun q hq => h q (List.mem_cons_of_mem _ hq)
    rw [List.map_cons, List.sum_cons, List.length_cons, Nat.mul_succ]
    omega

/-- A sum over a pool whose members all contribute the same. -/
theorem sum_map_const (g : α → ℕ) {l : List α} {c : ℕ} (h : ∀ q ∈ l, g q = c) :
    (l.map g).sum = c * l.length := by
  induction l with
  | nil => simp
  | cons a l ih =>
    rw [List.map_cons, List.sum_cons, h a List.mem_cons_self,
      ih fun q hq => h q (List.mem_cons_of_mem _ hq), List.length_cons]
    ring

/-- Counting is a sum of ones. -/
theorem sum_map_toNat (f : α → Bool) (l : List α) :
    (l.map fun q => (f q).toNat).sum = l.countP f := by
  induction l with
  | nil => rfl
  | cons a l ih =>
    rw [List.map_cons, List.sum_cons, List.countP_cons, ih]
    cases f a <;> simp [Nat.add_comm]

/-- A member of an updated pool is the new member at its place, or an old
member elsewhere. -/
theorem getElem?_set_cases {l : List α} {p p' : ℕ} {q r : α} (h : (l.set p q)[p']? = some r) :
    (p' = p ∧ r = q ∧ p < l.length) ∨ (p' ≠ p ∧ l[p']? = some r) := by
  rw [List.getElem?_set] at h
  split at h
  · rename_i hp
    split at h
    · rename_i hlt
      exact .inl ⟨hp.symm, (Option.some.inj h).symm, hlt⟩
    · simp at h
  · rename_i hp
    exact .inr ⟨fun e => hp e.symm, h⟩

/-- A member of a pool with one more process is the new one, at the end, or an
old one. -/
theorem getElem?_append_cases {l : List α} {p : ℕ} {q r : α} (h : (l ++ [q])[p]? = some r) :
    (p = l.length ∧ r = q) ∨ l[p]? = some r := by
  rcases Nat.lt_trichotomy p l.length with hlt | heq | hgt
  · right
    rwa [List.getElem?_append_left hlt] at h
  · left
    subst heq
    simpa [eq_comm] using h
  · rw [List.getElem?_eq_none (by simp; omega)] at h
    simp at h

/-! ## What one member contributes -/

/-- What member `p` contributes to a count: 1 or 0, and 0 where there is none. -/
def share (l : List α) (p : ℕ) : ℕ :=
  match l[p]? with
  | some q => (f q).toNat
  | none => 0

theorem share_of_get {l : List α} {p : ℕ} {q : α} (hq : l[p]? = some q) :
    share f l p = (f q).toNat := by
  rw [share, hq]

theorem share_le_one (l : List α) (p : ℕ) : share f l p ≤ 1 := by
  unfold share
  split
  · exact Bool.toNat_le _
  · exact Nat.zero_le _

theorem share_set {l : List α} {p : ℕ} {q : α} (hq : l[p]? = some q) (q' : α) (p' : ℕ) :
    share f (l.set p q') p' = if p' = p then (f q').toNat else share f l p' := by
  obtain ⟨hlt, -⟩ := List.getElem?_eq_some_iff.1 hq
  by_cases h : p' = p
  · subst h
    rw [if_pos rfl]
    exact share_of_get f (List.getElem?_set_self hlt)
  · rw [if_neg h, share, share, List.getElem?_set_ne (fun e => h e.symm)]

/-- A new process contributes nothing, so nobody's share moves. -/
theorem share_append {l : List α} {q : α} (hf : f q = false) (p : ℕ) :
    share f (l ++ [q]) p = share f l p := by
  unfold share
  rcases Nat.lt_trichotomy p l.length with hlt | heq | hgt
  · rw [List.getElem?_append_left hlt]
  · subst heq
    simp [hf]
  · rw [List.getElem?_eq_none (by simp; omega), List.getElem?_eq_none (by omega)]

theorem share_eq_zero_of_countP {l : List α} (h : l.countP f = 0) (p : ℕ) :
    share f l p = 0 := by
  unfold share
  cases hq : l[p]? with
  | none => rfl
  | some q => simp [not_of_countP_eq_zero f h hq]

end UnixNetProg.Pool

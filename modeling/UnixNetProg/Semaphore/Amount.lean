/-
`sem_op` with any amount.

`value` is an `int`, and `sem_op` in the structure is a `short`: the amount that is tested
against 0, and that the kernel gets, is what is left of `value` in 16 bits. The callers here
pass 1 and -1, which any type holds; the header promises a user-specified amount. What the
kernel refuses, because the value or the caller's adjustment would leave its range, is an error
of the call, as the header has it.

A call finds the set as others have left it, first when it is made, and again whenever the
process is woken. What it finds is a list of slots, with no more known of them than that.
-/
import UnixNetProg.Semaphore.Code

set_option autoImplicit false

namespace UnixNetProg.Semaphore

open UnixNetProg.SysV

/-! ## A call -/

/-- `sem_op (id, value)` at a slot: what it leaves, and how the C code goes on; `none` where
the process is put to sleep. -/
def attempt (id : ℕ) (value : ℤ) (p : ℕ) (asleep : Bool) (sl : Slot 3) :
    Option (Slot 3 × Next) :=
  match sem_op id value with
  | .goto pt => (pt.perform sl p asleep).map fun r => (r.1, pt.resume r.2)
  | next => some (sl, next)

/-- The same at the slots that are found one after the other: the slot at which the call
has come to something, with what it has left there. -/
def attempts (id : ℕ) (value : ℤ) (p : ℕ) (asleep : Bool) :
    List (Slot 3) → Option (Slot 3 × Slot 3 × Next)
  | [] => none
  | sl :: found =>
    match attempt id value p asleep sl with
    | some (sl', next) => some (sl, sl', next)
    | none => attempts id value p true found

/-- A `short` can hold it. -/
def IsShort (value : ℤ) : Prop := -0x8000 ≤ value ∧ value < 0x8000

/-- The amount can be applied as it is given, at once or after a wait: as long as there is too
little to take, nothing else is looked at. -/
def Applicable (id : ℕ) (value : ℤ) (p : ℕ) (sl : Slot 3) : Prop :=
  value ≠ 0 ∧ IsShort value ∧ ∃ s, sl.find id = some s ∧
    ((s.val 0 : ℤ) + value < 0 ∨
      (s.val 0 : ℤ) + value ≤ SEMVMX ∧ UndoFits (s.adj p 0 - value))

/-- What a call does that finds `sl`, and then, as long as it is asleep, `found`. -/
structure Exact (id : ℕ) (value : ℤ) (p : ℕ) (sl : Slot 3) (found : List (Slot 3)) : Prop where
  moved : ∀ here left v, attempts id value p false (sl :: found) = some (here, left, .ret v) →
    (left.value 0 : ℤ) = here.value 0 + value ∧ left.undo p 0 = here.undo p 0 - value
  waited : ∀ slept, slept <+: sl :: found → attempts id value p false slept = none →
    ∀ sl' ∈ slept, (sl'.value 0 : ℤ) < -value
  kept : ∀ here left msg,
    attempts id value p false (sl :: found) = some (here, left, .err_sys msg) → left = here
  refused : ¬ Applicable id value p sl →
    ∃ msg, attempt id value p false sl = some (sl, .err_sys msg)
  refused_later : ∀ here left next,
    attempts id value p false (sl :: found) = some (here, left, next) →
      ¬ Applicable id value p here → ∃ msg, next = .err_sys msg

/-! ## One attempt -/

section Attempt

variable {id p : ℕ} {value amount : ℤ} {asleep : Bool} {sl left : Slot 3} {s : SemSet 3}

theorem short_eq (h : IsShort value) : short value = value := by
  obtain ⟨hlo, hhi⟩ := h
  exact Int.bmod_eq_of_le_mul_two (by omega) (by omega)

/-- What `semop` makes of an amount. -/
theorem semop_amount (s : SemSet 3) (p : ℕ) (hne : amount ≠ 0) : s.semop p (op_op amount) =
    if (s.val 0 : ℤ) + amount < 0 then .block
    else if (SEMVMX : ℤ) < (s.val 0 : ℤ) + amount then .fail .ERANGE
    else if UndoFits (s.adj p 0 - amount) then .done (s.shift p 0 amount) else .fail .ERANGE := by
  simp only [op_op, SemSet.semop, SemSet.apply1, if_neg hne]
  split_ifs <;> rfl

/-- The amount is turned down at once: by the test against 0, or by the kernel, which does
not find the set, or does not want its value past `SEMVMX`, or the caller's adjustment out of
its range. -/
def Refused (id : ℕ) (value : ℤ) (p : ℕ) (sl : Slot 3) : Prop :=
  short value = 0 ∨ sl.find id = none ∨ ∃ s, sl.find id = some s ∧
    ((SEMVMX : ℤ) < (s.val 0 : ℤ) + short value ∨
      0 ≤ (s.val 0 : ℤ) + short value ∧ ¬ UndoFits (s.adj p 0 - short value))

/-- A set that is there. -/
theorem attempt_found (hne : short value ≠ 0) (hfind : sl.find id = some s) :
    attempt id value p asleep sl =
      if (s.val 0 : ℤ) + short value < 0 then none
      else if (SEMVMX : ℤ) < (s.val 0 : ℤ) + short value then some (sl, .err_sys "sem_op error")
      else if UndoFits (s.adj p 0 - short value) then
        some (sl.put id (s.shift p 0 (short value)), .ret 0)
      else some (sl, .err_sys "sem_op error") := by
  rw [attempt, sem_op, if_neg hne]
  simp only [Point.perform, Point.call, Slot.call, hfind, semop_amount s p hne]
  split_ifs <;> rfl

/-- **What is turned down ends in an error, and changes nothing.** -/
theorem attempt_refused (asleep : Bool) (h : Refused id value p sl) :
    ∃ msg, attempt id value p asleep sl = some (sl, .err_sys msg) := by
  by_cases hzero : short value = 0
  · refine ⟨"can't have value == 0", ?_⟩
    rw [attempt, sem_op, if_pos hzero]
  · refine ⟨"sem_op error", ?_⟩
    rcases h with hzero' | hnone | ⟨s, hfind, hlarge | ⟨hlow, hundo⟩⟩
    · exact absurd hzero' hzero
    · rw [attempt, sem_op, if_neg hzero]
      simp only [Point.perform, Point.call, Slot.call, hnone, Option.map_some, Point.resume]
    · have hlow : ¬ (s.val 0 : ℤ) + short value < 0 := by omega
      rw [attempt_found hzero hfind, if_neg hlow, if_pos hlarge]
    · rw [attempt_found hzero hfind, if_neg (not_lt.2 hlow), if_neg hundo, ite_self]

/-- **Anything else waits until there is enough, or is applied.** -/
theorem attempt_accepted (asleep : Bool) (h : ¬ Refused id value p sl) :
    ∃ s, sl.find id = some s ∧
      ((s.val 0 : ℤ) + short value < 0 ∧ attempt id value p asleep sl = none ∨
        0 ≤ (s.val 0 : ℤ) + short value ∧ (s.val 0 : ℤ) + short value ≤ SEMVMX ∧
          UndoFits (s.adj p 0 - short value) ∧
          attempt id value p asleep sl =
            some (sl.put id (s.shift p 0 (short value)), .ret 0)) := by
  rw [Refused, not_or, not_or] at h
  obtain ⟨hne, hset, hfits⟩ := h
  obtain ⟨s, hfind⟩ := Option.ne_none_iff_exists'.1 hset
  refine ⟨s, hfind, ?_⟩
  rw [attempt_found hne hfind]
  by_cases hlow : (s.val 0 : ℤ) + short value < 0
  · exact .inl ⟨hlow, if_pos hlow⟩
  · have hhigh : ¬ (SEMVMX : ℤ) < (s.val 0 : ℤ) + short value := fun hlarge =>
      hfits ⟨s, hfind, .inl hlarge⟩
    have hundo : UndoFits (s.adj p 0 - short value) := by
      by_contra hundo
      exact hfits ⟨s, hfind, .inr ⟨not_lt.1 hlow, hundo⟩⟩
    rw [if_neg hlow, if_neg hhigh, if_pos hundo]
    exact .inr ⟨not_lt.1 hlow, not_lt.1 hhigh, hundo, rfl⟩

/-- What can be applied as it is given is not turned down. -/
theorem applicable_of_accepted (hvalue : IsShort value) (h : ¬ Refused id value p sl) :
    Applicable id value p sl := by
  have hshort := short_eq hvalue
  have hne : short value ≠ 0 := fun hzero => h (.inl hzero)
  obtain ⟨s, hfind, ⟨hlow, -⟩ | ⟨-, hhigh, hundo, -⟩⟩ := attempt_accepted false h
  · rw [hshort] at hlow hne
    exact ⟨hne, hvalue, s, hfind, .inl hlow⟩
  · rw [hshort] at hhigh hundo hne
    exact ⟨hne, hvalue, s, hfind, .inr ⟨hhigh, hundo⟩⟩

/-- **An attempt that returns has moved `[0]` by the amount that was left in the `short`.** -/
theorem attempt_ret {v : ℤ} (h : attempt id value p asleep sl = some (left, .ret v)) :
    (left.value 0 : ℤ) = sl.value 0 + short value ∧
      left.undo p 0 = sl.undo p 0 - short value := by
  by_cases hrefused : Refused id value p sl
  · obtain ⟨msg, herr⟩ := attempt_refused asleep hrefused
    rw [herr] at h
    cases h
  · obtain ⟨s, hfind, ⟨-, hnone⟩ | ⟨hlow, hhigh, -, hsome⟩⟩ := attempt_accepted asleep hrefused
    · rw [hnone] at h
      cases h
    · rw [hsome] at h
      cases h
      have hcur := Slot.find_eq_some.1 hfind
      obtain ⟨w, hw⟩ := Int.eq_ofNat_of_zero_le hlow
      rw [Slot.value_of_cur hcur, Slot.undo_of_cur hcur]
      refine ⟨?_, by simp⟩
      rw [Slot.put_value, SemSet.shift_val, if_pos rfl, clamp_eq hw (by omega), hw]

/-- One that fails was turned down, and leaves everything as it was. -/
theorem attempt_err_sys {msg : String}
    (h : attempt id value p asleep sl = some (left, .err_sys msg)) :
    Refused id value p sl ∧ left = sl := by
  by_cases hrefused : Refused id value p sl
  · obtain ⟨msg', herr⟩ := attempt_refused asleep hrefused
    rw [herr] at h
    cases h
    exact ⟨hrefused, rfl⟩
  · obtain ⟨s, -, ⟨-, hnone⟩ | ⟨-, -, -, hsome⟩⟩ := attempt_accepted asleep hrefused
    · rw [hnone] at h
      cases h
    · rw [hsome] at h
      cases (Prod.mk.inj (Option.some.inj h)).2

/-- And the process sleeps only where there is too little. -/
theorem attempt_none (h : attempt id value p asleep sl = none) :
    (sl.value 0 : ℤ) < -short value := by
  by_cases hrefused : Refused id value p sl
  · obtain ⟨msg, herr⟩ := attempt_refused asleep hrefused
    rw [herr] at h
    cases h
  · obtain ⟨s, hfind, ⟨hlow, -⟩ | ⟨-, -, -, hsome⟩⟩ := attempt_accepted asleep hrefused
    · rw [Slot.value_of_cur (Slot.find_eq_some.1 hfind)]
      omega
    · rw [hsome] at h
      cases h

end Attempt

/-! ## A call -/

section Call

variable {id p : ℕ} {value : ℤ} {asleep : Bool} {sl here left : Slot 3} {found : List (Slot 3)}
  {next : Next}

/-- What comes of a call has come of one of its attempts. -/
theorem attempts_eq_some (h : attempts id value p asleep found = some (here, left, next)) :
    ∃ asleep, attempt id value p asleep here = some (left, next) := by
  induction found generalizing asleep with
  | nil => cases h
  | cons sl found ih =>
    rw [attempts] at h
    split at h
    · rename_i hsome
      cases h
      exact ⟨asleep, hsome⟩
    · exact ih h

theorem attempts_eq_none (h : attempts id value p asleep found = none) :
    ∀ sl ∈ found, ∃ asleep, attempt id value p asleep sl = none := by
  induction found generalizing asleep with
  | nil =>
    intro sl hsl
    cases hsl
  | cons sl found ih =>
    rw [attempts] at h
    split at h
    · cases h
    · rename_i hnone
      exact List.forall_mem_cons.2 ⟨⟨asleep, hnone⟩, ih h⟩

/-- An amount that a `short` can hold is applied as it is. -/
theorem exact_of_isShort (hvalue : IsShort value) : Exact id value p sl found := by
  have hshort := short_eq hvalue
  refine ⟨?_, ?_, ?_, ?_, ?_⟩
  · intro here left v h
    obtain ⟨asleep, hattempt⟩ := attempts_eq_some h
    have hmoved := attempt_ret hattempt
    rwa [hshort] at hmoved
  · intro slept _ h sl' hsl'
    obtain ⟨asleep, hattempt⟩ := attempts_eq_none h sl' hsl'
    have hless := attempt_none hattempt
    rwa [hshort] at hless
  · intro here left msg h
    obtain ⟨asleep, hattempt⟩ := attempts_eq_some h
    exact (attempt_err_sys hattempt).2
  · intro happ
    apply attempt_refused
    by_contra hrefused
    exact happ (applicable_of_accepted hvalue hrefused)
  · intro here left next h happ
    obtain ⟨asleep, hattempt⟩ := attempts_eq_some h
    have hrefused : Refused id value p here := by
      by_contra hrefused
      exact happ (applicable_of_accepted hvalue hrefused)
    obtain ⟨msg, herr⟩ := attempt_refused asleep hrefused
    rw [herr] at hattempt
    cases hattempt
    exact ⟨msg, rfl⟩

/-- One that is turned down does not come to anything else. -/
theorem exact_of_refused (hrefused : Refused id value p sl) : Exact id value p sl found := by
  obtain ⟨msg, h⟩ := attempt_refused false hrefused
  have hcall : ∀ found, attempts id value p false (sl :: found) = some (sl, sl, .err_sys msg) := by
    intro found
    rw [attempts, h]
  refine ⟨?_, ?_, ?_, fun _ => ⟨msg, h⟩, ?_⟩
  · intro here left v heq
    rw [hcall] at heq
    cases heq
  · intro slept hpre heq sl' hsl'
    cases slept with
    | nil => cases hsl'
    | cons first slept =>
      obtain rfl := (List.cons_prefix_cons.1 hpre).1
      rw [hcall] at heq
      cases heq
  · intro here left msg' heq
    rw [hcall] at heq
    cases heq
    rfl
  · intro here left next heq _
    rw [hcall] at heq
    cases heq
    exact ⟨msg, rfl⟩

end Call

end UnixNetProg.Semaphore

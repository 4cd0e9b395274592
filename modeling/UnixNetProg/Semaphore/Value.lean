/-
What the system calls of the routines do to `[0]`, the semaphore itself.

Only three of them touch it: the first `SETVAL` of `sem_create`, the `semop` of
`sem_op`, and a removal, after which there is no set.
-/
import UnixNetProg.Semaphore.Moves

set_option autoImplicit false

namespace UnixNetProg.Semaphore

open UnixNetProg.SysV UnixNetProg.Runs UnixNetProg.Pool

section Value

variable {U C : Type} {a : Act U C} {pt : Point} {sl sl' : Slot 3} {p id : ℕ} {asleep : Bool}
  {r : Except Errno ℕ}

/-- A line of the table that is none of the three. -/
theorem Trans.still {good : Prop} {c c' : Client} (ht : Trans good p (some pt) sl c sl' c')
    (hset : ∀ id v, pt ≠ .create_setval0 id v) (hop : ∀ id n, pt ≠ .op_semop id n)
    (hrm : ∀ id, pt ≠ .rm id) :
    sl'.value 0 = sl.value 0 ∧ ∀ p', sl'.undo p' 0 = sl.undo p' 0 := by
  cases ht with
  | create_new hnone =>
    rw [Slot.value, Slot.value, hnone]
    exact ⟨rfl, fun p' => by rw [Slot.undo, Slot.undo, hnone]; rfl⟩
  | lock hj | unlock hj | opened hj | endcreate hj | close hj | setval1 hj =>
    rw [Slot.value_of_cur hj]
    exact ⟨by simp, fun p' => by rw [Slot.undo_of_cur hj]; simp⟩
  | setval0 => exact absurd rfl (hset _ _)
  | op_none => exact absurd rfl (hop _ _)
  | op => exact absurd rfl (hop _ _)
  | removed => exact absurd rfl (hrm _)
  | _ => exact ⟨rfl, fun _ => rfl⟩

/-- A system call that is none of the three. -/
theorem Point.Comes.still (h : pt.Comes a sl p asleep sl' r)
    (hset : ∀ id v, pt ≠ .create_setval0 id v) (hop : ∀ id n, pt ≠ .op_semop id n)
    (hrm : ∀ id, pt ≠ .rm id) :
    sl'.value 0 = sl.value 0 ∧ ∀ p', sl'.undo p' 0 = sl.undo p' 0 := by
  have hf := h.follows True none
  cases hnx : pt.resume r with
  | goto pt' =>
    rw [hnx] at hf
    exact Trans.still hf hset hop hrm
  | ret v =>
    rw [hnx] at hf
    exact Trans.still hf hset hop hrm
  | err_sys msg =>
    rw [hnx] at hf
    obtain rfl : sl' = sl := hf
    exact ⟨rfl, fun _ => rfl⟩
  | err_dump msg =>
    rw [hnx] at hf
    obtain rfl : sl' = sl := hf
    exact ⟨rfl, fun _ => rfl⟩

/-- `SETVAL` on `[0]`. -/
theorem Point.Comes.setval0 {v : ℤ} {n : ℕ}
    (h : (Point.create_setval0 id v).Comes a sl p asleep sl' (.ok n)) :
    (sl'.value 0 : ℤ) = v ∧ ∀ p', sl'.undo p' 0 = 0 := by
  rcases h with hperf | ⟨-, hpt, -⟩
  · obtain ⟨S, -, hlo, hhi, rfl, -⟩ | ⟨-, e, he⟩ := perform_setval rfl hperf
    · obtain ⟨k, rfl⟩ := Int.eq_ofNat_of_zero_le hlo
      refine ⟨?_, fun p' => by simp⟩
      rw [Slot.put_value, SemSet.setval_val, if_pos rfl, clamp_eq (w := k) (by simp) (by omega)]
    · cases he
  · cases hpt

/-- The `semop` of `sem_op`. -/
theorem Point.Comes.op {amount : ℤ} {n : ℕ}
    (h : (Point.op_semop id amount).Comes a sl p asleep sl' (.ok n)) :
    (sl'.value 0 : ℤ) = sl.value 0 + amount ∧
      ∀ p', sl'.undo p' 0 = sl.undo p' 0 - if p' = p then amount else 0 := by
  rcases h with hperf | ⟨-, hpt, -⟩
  · obtain ⟨S, T, hcur, hop, rfl, -⟩ | ⟨-, e, he, -⟩ := perform_semop rfl hperf
    · rw [Slot.value_of_cur hcur, Slot.put_value]
      rcases semop_op S p hop with ⟨rfl, rfl⟩ | ⟨hlo, hhi, -, rfl⟩
      · exact ⟨by simp, fun p' => by rw [Slot.undo_of_cur hcur]; simp⟩
      · obtain ⟨k, hk⟩ := Int.eq_ofNat_of_zero_le hlo
        refine ⟨?_, fun p' => ?_⟩
        · rw [SemSet.shift_val, if_pos rfl, clamp_eq hk (by omega), hk]
        · rw [Slot.undo_of_cur hcur, Slot.put_undo, SemSet.shift_adj]
          by_cases hp : p' = p
          · simp [hp]
          · simp [hp]
    · cases he
  · cases hpt

/-- And it leaves the caller's adjustment in its range. -/
theorem Point.Comes.fits {amount : ℤ} {n : ℕ} (hne : amount ≠ 0)
    (h : (Point.op_semop id amount).Comes a sl p asleep sl' (.ok n)) :
    UndoFits (sl.undo p 0 - amount) := by
  rcases h with hperf | ⟨-, hpt, -⟩
  · obtain ⟨S, T, hcur, hop, -⟩ | ⟨-, e, he, -⟩ := perform_semop rfl hperf
    · rw [Slot.undo_of_cur hcur]
      rcases semop_op S p hop with ⟨rfl, -⟩ | ⟨-, -, hfits, -⟩
      · exact absurd rfl hne
      · exact hfits
    · cases he
  · cases hpt

/-- `sem_wait`'s operation is carried out when there is something to take. -/
theorem Point.Comes.wait {n : ℕ}
    (h : (Point.op_semop id (-1)).Comes a sl p asleep sl' (.ok n)) : 0 < sl.value 0 := by
  have := h.op.1
  omega

/-- The removal. -/
theorem Point.Comes.rm {n : ℕ} (h : (Point.rm id).Comes a sl p asleep sl' (.ok n)) :
    sl'.value 0 = 0 ∧ ∀ p', sl'.undo p' 0 = 0 := by
  rcases h with hperf | ⟨-, hpt, -⟩
  · obtain ⟨S, -, rfl, -⟩ | ⟨-, e, he⟩ := perform_rmid rfl hperf
    · exact ⟨rfl, fun _ => rfl⟩
    · cases he
  · cases hpt

end Value

end UnixNetProg.Semaphore

/-
`9_semaphores/semaphore.c`: the seven routines over System V semaphore sets.

A routine is a sequence of system calls with C code between them, and another
process may run between any two of the calls. So the routines are given here by
the points at which a process is inside one of them: `Point.call` is the system
call made there, and `Point.resume` is what the C code does with the result, up
to the next system call, the `return`, or the call of `err_sys`. The copies of
this file in `10_shared_memory` and `11_multi_buffer` have the same code and
differ in the text of one message, noted at its place.

Each set has three members: `[0]` is the semaphore, `[1]` counts the processes
that are done with it (from `BIGCOUNT` downwards), `[2]` is a lock.
-/
import UnixNetProg.Lib.SysV

set_option autoImplicit false

namespace UnixNetProg.Semaphore

open UnixNetProg.SysV

/-! ## The constants and the operation arrays -/

/-- Initial value of the process counter. -/
def BIGCOUNT : ℕ := 10000

def IPC_PRIVATE : ℤ := 0

/-- For the numbers of the members. -/
instance neZero_three : NeZero 3 := ⟨by decide⟩

/-- Wait for `[2]` to equal 0, then increment it (`9_semaphores/semaphore.c:28-31`). -/
def op_lock : List (Sembuf 3) := [⟨2, 0, false⟩, ⟨2, 1, true⟩]

/-- Decrement `[1]`, then `[2]` back to 0, both with undo on exit (`semaphore.c:33-37`). -/
def op_endcreate : List (Sembuf 3) := [⟨1, -1, true⟩, ⟨2, -1, true⟩]

/-- Decrement `[1]` with undo on exit (`semaphore.c:39-41`). -/
def op_open : List (Sembuf 3) := [⟨1, -1, true⟩]

/-- Wait for `[2]` to equal 0, increment it, then increment `[1]` (`semaphore.c:43-47`). -/
def op_close : List (Sembuf 3) := [⟨2, 0, false⟩, ⟨2, 1, true⟩, ⟨1, 1, true⟩]

/-- Decrement `[2]` back to 0 (`semaphore.c:49-51`). -/
def op_unlock : List (Sembuf 3) := [⟨2, -1, true⟩]

/-- `op_op` (`semaphore.c:53-55`) with its amount, 99 in the source, set by `sem_op`. -/
def op_op (amount : ℤ) : List (Sembuf 3) := [⟨0, amount, true⟩]

/-! ## The routines -/

/-- Where a process is inside one of the routines: about to make, or asleep in,
the system call named. -/
inductive Point
  | create_semget (initval : ℤ)
  | create_lock (id : ℕ) (initval : ℤ)
  | create_getval (id : ℕ) (initval : ℤ)
  | create_setval0 (id : ℕ) (initval : ℤ)
  | create_setval1 (id : ℕ)
  | create_endcreate (id : ℕ)
  | open_semget
  | open_op (id : ℕ)
  | rm (id : ℕ)
  | close_op (id : ℕ)
  | close_getval (id : ℕ)
  | close_unlock (id : ℕ)
  | op_semop (id : ℕ) (amount : ℤ)
  deriving DecidableEq, Repr

/-- The system call made at a point. -/
def Point.call : Point → Syscall 3
  | .create_semget _ => .semget true
  | .create_lock id _ => .semop id op_lock
  | .create_getval id _ => .getval id 1
  | .create_setval0 id initval => .setval id 0 initval
  | .create_setval1 id => .setval id 1 BIGCOUNT
  | .create_endcreate id => .semop id op_endcreate
  | .open_semget => .semget false
  | .open_op id => .semop id op_open
  | .rm id => .rmid id
  | .close_op id => .semop id op_close
  | .close_getval id => .getval id 1
  | .close_unlock id => .semop id op_unlock
  | .op_semop id amount => .semop id (op_op amount)

/-- How the C code goes on: to another system call, back to its caller with a
value (0 from a `void` routine), or out of the program. -/
inductive Next
  | goto (pt : Point)
  | ret (v : ℤ)
  | err_sys (msg : String)
  | err_dump (msg : String)
  deriving DecidableEq, Repr

/-- What the C code (`9_semaphores/semaphore.c:150-413`) does with the result of the system call
at a point. -/
def Point.resume : Point → Except Errno ℕ → Next
  | .create_semget initval, .ok id => .goto (.create_lock id initval)
  | .create_semget _, .error _ => .ret (-1)
  | .create_lock id initval, .ok _ => .goto (.create_getval id initval)
  | .create_lock _ initval, .error errno =>
    if errno = .EINVAL then .goto (.create_semget initval)   -- `goto again`
    else .err_sys "can't lock"
  | .create_getval id initval, .ok semval =>
    if semval = 0 then .goto (.create_setval0 id initval) else .goto (.create_endcreate id)
  | .create_getval _ _, .error _ => .err_sys "can't GETVAL"
  | .create_setval0 id _, .ok _ => .goto (.create_setval1 id)
  | .create_setval0 _ _, .error _ => .err_sys "can't SETVAL[0]"
  | .create_setval1 id, .ok _ => .goto (.create_endcreate id)
  | .create_setval1 _, .error _ => .err_sys "can't SETVAL[1]"
  | .create_endcreate id, .ok _ => .ret id
  | .create_endcreate _, .error _ => .err_sys "can't end create"
  | .open_semget, .ok id => .goto (.open_op id)
  | .open_semget, .error _ => .ret (-1)
  | .open_op id, .ok _ => .ret id
  | .open_op _, .error _ => .err_sys "can't open"
  | .rm _, .ok _ => .ret 0
  | .rm _, .error _ => .err_sys "can't IPC_RMID"
  | .close_op id, .ok _ => .goto (.close_getval id)
  | .close_op _, .error _ => .err_sys "can't semop"   -- elsewhere "can't semop: %s"
  | .close_getval id, .ok semval =>
    if semval > BIGCOUNT then .err_dump "sem[1] > BIGCOUNT"
    else if semval = BIGCOUNT then .goto (.rm id)     -- `sem_rm(id)`
    else .goto (.close_unlock id)
  | .close_getval _, .error _ => .err_sys "can't GETVAL"
  | .close_unlock _, .ok _ => .ret 0
  | .close_unlock _, .error _ => .err_sys "can't unlock"
  | .op_semop _ _, .ok _ => .ret 0
  | .op_semop _ _, .error _ => .err_sys "sem_op error"

/-- `sem_create (key, initval)` up to its first system call (`semaphore.c:150-255`). -/
def sem_create (key initval : ℤ) : Next :=
  if key = IPC_PRIVATE then .ret (-1)
  else if key = -1 then .ret (-1)
  else .goto (.create_semget initval)

/-- `sem_open (key)` up to its first system call (`semaphore.c:263-298`). -/
def sem_open (key : ℤ) : Next :=
  if key = IPC_PRIVATE then .ret (-1)
  else if key = -1 then .ret (-1)
  else .goto .open_semget

/-- `sem_rm (id)` up to its system call (`semaphore.c:303-312`). -/
def sem_rm (id : ℕ) : Next := .goto (.rm id)

/-- `sem_close (id)` up to its first system call (`semaphore.c:320-368`). -/
def sem_close (id : ℕ) : Next := .goto (.close_op id)

/-- The assignment to `op_op[0].sem_op`, a 16-bit `short`. -/
def short (value : ℤ) : ℤ := value.bmod (2 ^ 16)

/-- `sem_op (id, value)` up to its system call (`semaphore.c:391-413`). -/
def sem_op (id : ℕ) (value : ℤ) : Next :=
  if short value = 0 then .err_sys "can't have value == 0"
  else .goto (.op_semop id (short value))

/-- `sem_wait (id)` (`semaphore.c:374-377`). -/
def sem_wait (id : ℕ) : Next := sem_op id (-1)

/-- `sem_signal (id)` (`semaphore.c:382-385`). -/
def sem_signal (id : ℕ) : Next := sem_op id 1

theorem sem_wait_eq (id : ℕ) : sem_wait id = .goto (.op_semop id (-1)) := by
  simp [sem_wait, sem_op, show short (-1) = -1 from by decide]

theorem sem_signal_eq (id : ℕ) : sem_signal id = .goto (.op_semop id 1) := by
  simp [sem_signal, sem_op, show short 1 = 1 from by decide]

/-! ## What the system calls come to

`Point.perform` is the system call made at a point, as the kernel carries it
out for process `p`; `none` says that the process has to wait. -/

/-- The system call at `pt`, carried out by the kernel. -/
def Point.perform (pt : Point) (sl : Slot 3) (p : ℕ) (asleep : Bool) :
    Option (Slot 3 × Except Errno ℕ) :=
  match sl.call p asleep pt.call with
  | .done (sl', r) => some (sl', .ok r)
  | .fail e => some (sl, .error e)
  | .block => none

section Arrays

variable (s : SemSet 3) (p : ℕ)

/-- `op_lock` takes the lock if it is free. -/
theorem semop_lock : s.semop p op_lock =
    if s.val 2 = 0 then
      if UndoFits (s.adj p 2 - 1) then .done (s.shift p 2 1) else .fail .ERANGE
    else .block := by
  simp only [op_lock, SemSet.semop, SemSet.apply1_zero]
  by_cases h : s.val 2 = 0
  · by_cases hu : UndoFits (s.adj p 2 - 1) <;> simp [h, hu, SemSet.apply1_pos, SEMVMX]
  · simp [h]

/-- One unit is taken from a member, if there is one. -/
theorem apply1_take (m : Fin 3) : s.apply1 p ⟨m, -1, true⟩ =
    if 1 ≤ s.val m then
      if UndoFits (s.adj p m + 1) then .done (s.shift p m (-1)) else .fail .ERANGE
    else .block := by
  rw [SemSet.apply1_neg _ _ _ (by decide : (-1 : ℤ) < 0), sub_neg_eq_add]
  by_cases h : 1 ≤ s.val m
  · rw [if_neg (by omega), if_pos h]
  · rw [if_pos (by omega), if_neg h]

/-- `op_endcreate` counts the caller in and releases the lock. -/
theorem semop_endcreate : s.semop p op_endcreate =
    if 1 ≤ s.val 1 then
      if UndoFits (s.adj p 1 + 1) then
        if 1 ≤ s.val 2 then
          if UndoFits (s.adj p 2 + 1) then .done ((s.shift p 1 (-1)).shift p 2 (-1))
          else .fail .ERANGE
        else .block
      else .fail .ERANGE
    else .block := by
  simp only [op_endcreate, SemSet.semop, apply1_take]
  by_cases h1 : 1 ≤ s.val 1
  · by_cases hu1 : UndoFits (s.adj p 1 + 1)
    · by_cases h2 : 1 ≤ s.val 2
      · by_cases hu2 : UndoFits (s.adj p 2 + 1) <;> simp [h1, hu1, h2, hu2]
      · simp [h1, hu1, h2]
    · simp [h1, hu1]
  · simp [h1]

/-- `op_open` counts the caller in. -/
theorem semop_open : s.semop p op_open =
    if 1 ≤ s.val 1 then
      if UndoFits (s.adj p 1 + 1) then .done (s.shift p 1 (-1)) else .fail .ERANGE
    else .block := by
  simp only [op_open, SemSet.semop, apply1_take]
  by_cases h : 1 ≤ s.val 1
  · by_cases hu : UndoFits (s.adj p 1 + 1) <;> simp [h, hu]
  · simp [h]

/-- `op_close` takes the lock if it is free and counts the caller out. -/
theorem semop_close : s.semop p op_close =
    if s.val 2 = 0 then
      if UndoFits (s.adj p 2 - 1) ∧ s.val 1 < SEMVMX ∧ UndoFits (s.adj p 1 - 1) then
        .done ((s.shift p 2 1).shift p 1 1)
      else .fail .ERANGE
    else .block := by
  simp only [op_close, SemSet.semop, SemSet.apply1_zero]
  by_cases h : s.val 2 = 0
  · by_cases hu2 : UndoFits (s.adj p 2 - 1)
    · by_cases hb : s.val 1 < SEMVMX
      · have e : ¬ (SEMVMX : ℤ) < (s.val 1 : ℤ) + 1 := by omega
        by_cases hu1 : UndoFits (s.adj p 1 - 1) <;>
          simp [h, hu2, hb, e, hu1, SemSet.apply1_pos, show ¬ (SEMVMX : ℤ) < 1 by decide]
      · have e : (SEMVMX : ℤ) < (s.val 1 : ℤ) + 1 := by omega
        simp [h, hu2, hb, e, SemSet.apply1_pos, show ¬ (SEMVMX : ℤ) < 1 by decide]
    · simp [h, hu2, SemSet.apply1_pos, show ¬ (SEMVMX : ℤ) < 1 by decide]
  · simp [h]

/-- `op_unlock` releases the lock. -/
theorem semop_unlock : s.semop p op_unlock =
    if 1 ≤ s.val 2 then
      if UndoFits (s.adj p 2 + 1) then .done (s.shift p 2 (-1)) else .fail .ERANGE
    else .block := by
  simp only [op_unlock, SemSet.semop, apply1_take]
  by_cases h : 1 ≤ s.val 2
  · by_cases hu : UndoFits (s.adj p 2 + 1) <;> simp [h, hu]
  · simp [h]

/-- `sem_wait`'s operation takes one unit of `[0]`. -/
theorem semop_wait : s.semop p (op_op (-1)) =
    if 1 ≤ s.val 0 then
      if UndoFits (s.adj p 0 + 1) then .done (s.shift p 0 (-1)) else .fail .ERANGE
    else .block := by
  simp only [op_op, SemSet.semop, apply1_take]
  by_cases h : 1 ≤ s.val 0
  · by_cases hu : UndoFits (s.adj p 0 + 1) <;> simp [h, hu]
  · simp [h]

/-! What an array has found when it is carried out. -/

variable {s' : SemSet 3}

theorem of_semop_lock (h : s.semop p op_lock = .done s') :
    s.val 2 = 0 ∧ s' = s.shift p 2 1 := by
  rw [semop_lock] at h
  split_ifs at h with h2
  exact ⟨h2, (Outcome.done.inj h).symm⟩

theorem of_semop_endcreate (h : s.semop p op_endcreate = .done s') :
    1 ≤ s.val 1 ∧ 1 ≤ s.val 2 ∧ s' = (s.shift p 1 (-1)).shift p 2 (-1) := by
  rw [semop_endcreate] at h
  split_ifs at h with h1 _ h2
  exact ⟨h1, h2, (Outcome.done.inj h).symm⟩

theorem of_semop_open (h : s.semop p op_open = .done s') :
    1 ≤ s.val 1 ∧ s' = s.shift p 1 (-1) := by
  rw [semop_open] at h
  split_ifs at h with h1
  exact ⟨h1, (Outcome.done.inj h).symm⟩

theorem of_semop_close (h : s.semop p op_close = .done s') :
    s.val 2 = 0 ∧ s.val 1 < SEMVMX ∧ s' = (s.shift p 2 1).shift p 1 1 := by
  rw [semop_close] at h
  split_ifs at h with h2 hfit
  exact ⟨h2, hfit.2.1, (Outcome.done.inj h).symm⟩

theorem of_semop_unlock (h : s.semop p op_unlock = .done s') :
    1 ≤ s.val 2 ∧ s' = s.shift p 2 (-1) := by
  rw [semop_unlock] at h
  split_ifs at h with h2
  exact ⟨h2, (Outcome.done.inj h).symm⟩

/-- Whatever the amount, `sem_op`'s operation touches `[0]` alone. -/
theorem semop_op {amount : ℤ} (h : s.semop p (op_op amount) = .done s') :
    (amount = 0 ∧ s' = s) ∨
      (0 ≤ (s.val 0 : ℤ) + amount ∧ (s.val 0 : ℤ) + amount ≤ SEMVMX ∧
        UndoFits (s.adj p 0 - amount) ∧ s' = s.shift p 0 amount) := by
  unfold op_op at h
  simp only [SemSet.semop, SemSet.apply1] at h
  by_cases h0 : amount = 0
  · by_cases hz : s.val 0 = 0
    · simp only [h0, hz, if_true, Outcome.done.injEq] at h
      exact .inl ⟨h0, h.symm⟩
    · simp [h0, hz] at h
  · simp only [h0, if_false] at h
    by_cases hlo : (s.val 0 : ℤ) + amount < 0
    · simp [hlo] at h
    · by_cases hhi : (SEMVMX : ℤ) < (s.val 0 : ℤ) + amount
      · simp [hlo, hhi] at h
      · by_cases hu : UndoFits (s.adj p 0 - amount)
        · simp only [hlo, hhi, hu, if_false, if_true, Outcome.done.injEq] at h
          exact .inr ⟨by omega, by omega, hu, h.symm⟩
        · simp [hlo, hhi, hu] at h

end Arrays

end UnixNetProg.Semaphore

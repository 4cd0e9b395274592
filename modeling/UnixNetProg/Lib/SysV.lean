/-
System V semaphore sets, as the kernel keeps them.

A set of `n` members has a value per member and, for every process, an
adjustment per member: what will be added to the value when that process
exits. `semop` applies an array of operations as one step: if every element
can be applied, one after the other, the whole array is; if one would have to
wait, nothing happens and the caller sleeps; if one would take a value past
`SEMVMX`, or an adjustment out of the range of a `short`, nothing happens and
the call fails.

A `Slot` is what the kernel knows about one key: the set the key names now, if
any, and how many identifiers it has given out. Identifiers are not given out
twice, so an identifier other than the current one is that of a removed set.

Nothing here is about a particular program: how many members a set has, what
the members are for and which arrays are used is up to the caller.
-/
import Mathlib.Tactic.Common
import Mathlib.Tactic.Ring
import Mathlib.Algebra.Order.Group.Int

set_option autoImplicit false

namespace UnixNetProg.SysV

/-- The largest value a semaphore may have. -/
def SEMVMX : ℕ := 32767

/-- The largest adjustment a process may have. -/
def SEMAEM : ℕ := 32767

/-- An adjustment the kernel keeps: `semop` fails rather than to leave this range. -/
def UndoFits (d : ℤ) : Prop := -(SEMAEM : ℤ) - 1 ≤ d ∧ d ≤ SEMAEM

instance (d : ℤ) : Decidable (UndoFits d) := inferInstanceAs (Decidable (_ ∧ _))

/-- The errors of the semaphore calls. -/
inductive Errno
  | EINVAL
  | EIDRM
  | ERANGE
  | ENOENT
  | ENOSPC
  deriving DecidableEq, Repr

/-- What a system call comes to: it is done, it has to wait, or it fails. -/
inductive Outcome (β : Type*)
  | done (b : β)
  | block
  | fail (e : Errno)

/-- One element of the array given to `semop`; `undo` is the `SEM_UNDO` flag. -/
structure Sembuf (n : ℕ) where
  sem_num : Fin n
  sem_op : ℤ
  undo : Bool
  deriving DecidableEq, Repr

/-- A semaphore set: the value of each member, never above `SEMVMX`, and each
process's adjustments. -/
@[ext] structure SemSet (n : ℕ) where
  val : Fin n → ℕ
  adj : ℕ → Fin n → ℤ
  val_le : ∀ m, val m ≤ SEMVMX

/-- A value moved by an amount, kept between `0` and `SEMVMX`. -/
def clamp (v : ℕ) (d : ℤ) : ℕ := min ((v : ℤ) + d).toNat SEMVMX

theorem clamp_le (v : ℕ) (d : ℤ) : clamp v d ≤ SEMVMX := Nat.min_le_right _ _

/-- Nothing is cut off where the sum is in range. -/
theorem clamp_eq {v w : ℕ} {d : ℤ} (h : (v : ℤ) + d = w) (hw : w ≤ SEMVMX) : clamp v d = w := by
  unfold clamp
  rw [h, Int.toNat_natCast, Nat.min_eq_left hw]

@[simp] theorem clamp_zero {v : ℕ} (h : v ≤ SEMVMX) : clamp v 0 = v :=
  clamp_eq (by simp) h

namespace SemSet

variable {n : ℕ}

/-- A set just created. -/
def fresh : SemSet n := ⟨fun _ => 0, fun _ _ => 0, fun _ => Nat.zero_le _⟩

/-- The set with member `m` given the value `v`, cut to the range. -/
def withVal (s : SemSet n) (m : Fin n) (v : ℕ) (hv : v ≤ SEMVMX) : SemSet n where
  val := Function.update s.val m v
  adj := s.adj
  val_le := fun m' => by
    rw [Function.update_apply]
    split
    · exact hv
    · exact s.val_le m'

/-- `d` added to member `m`, to be taken back when `p` exits. -/
def shift (s : SemSet n) (p : ℕ) (m : Fin n) (d : ℤ) : SemSet n :=
  { s.withVal m (clamp (s.val m) d) (clamp_le _ _) with
    adj := Function.update s.adj p (Function.update (s.adj p) m (s.adj p m - d)) }

/-- One element of an operation array, performed for process `p`. The kernel looks at the
value first, then at the adjustment. -/
def apply1 (s : SemSet n) (p : ℕ) (op : Sembuf n) : Outcome (SemSet n) :=
  if op.sem_op = 0 then
    if s.val op.sem_num = 0 then .done s else .block
  else if (s.val op.sem_num : ℤ) + op.sem_op < 0 then .block
  else if (SEMVMX : ℤ) < (s.val op.sem_num : ℤ) + op.sem_op then .fail .ERANGE
  else if op.undo then
    if UndoFits (s.adj p op.sem_num - op.sem_op) then .done (s.shift p op.sem_num op.sem_op)
    else .fail .ERANGE
  else .done (s.withVal op.sem_num (clamp (s.val op.sem_num) op.sem_op) (clamp_le _ _))

/-- `semop`: the whole array, or nothing. -/
def semop (s : SemSet n) (p : ℕ) : List (Sembuf n) → Outcome (SemSet n)
  | [] => .done s
  | op :: ops =>
    match s.apply1 p op with
    | .done s' => s'.semop p ops
    | .block => .block
    | .fail e => .fail e

/-- `SETVAL`: the member gets the value and every process's adjustment for it
is cleared. -/
def setval (s : SemSet n) (m : Fin n) (v : ℤ) : SemSet n :=
  { s.withVal m (clamp 0 v) (clamp_le _ _) with
    adj := fun p => Function.update (s.adj p) m 0 }

/-- Process `p` exits: its adjustments are added and forgotten. -/
def exit (s : SemSet n) (p : ℕ) : SemSet n where
  val := fun m => clamp (s.val m) (s.adj p m)
  adj := Function.update s.adj p (fun _ => 0)
  val_le := fun _ => clamp_le _ _

@[simp] theorem fresh_val (m : Fin n) : (fresh : SemSet n).val m = 0 := rfl

@[simp] theorem fresh_adj (p : ℕ) (m : Fin n) : (fresh : SemSet n).adj p m = 0 := rfl

@[simp] theorem shift_val (s : SemSet n) (p : ℕ) (m m' : Fin n) (d : ℤ) :
    (s.shift p m d).val m' = if m' = m then clamp (s.val m) d else s.val m' := by
  simp only [shift, withVal, Function.update_apply]

@[simp] theorem shift_adj (s : SemSet n) (p p' : ℕ) (m m' : Fin n) (d : ℤ) :
    (s.shift p m d).adj p' m' =
      if p' = p ∧ m' = m then s.adj p m - d else s.adj p' m' := by
  simp only [shift, Function.update_apply]
  by_cases hp : p' = p
  · by_cases hm : m' = m <;> simp [hp, hm]
  · simp [hp]

@[simp] theorem setval_val (s : SemSet n) (m m' : Fin n) (v : ℤ) :
    (s.setval m v).val m' = if m' = m then clamp 0 v else s.val m' := by
  simp only [setval, withVal, Function.update_apply]

@[simp] theorem setval_adj (s : SemSet n) (m m' : Fin n) (v : ℤ) (p : ℕ) :
    (s.setval m v).adj p m' = if m' = m then 0 else s.adj p m' := by
  simp only [setval, Function.update_apply]

@[simp] theorem exit_val (s : SemSet n) (p : ℕ) (m : Fin n) :
    (s.exit p).val m = clamp (s.val m) (s.adj p m) := rfl

@[simp] theorem exit_adj (s : SemSet n) (p p' : ℕ) (m : Fin n) :
    (s.exit p).adj p' m = if p' = p then 0 else s.adj p' m := by
  simp only [exit, Function.update_apply]
  split <;> rfl

/-- Waiting for zero. -/
theorem apply1_zero (s : SemSet n) (p : ℕ) (m : Fin n) (u : Bool) :
    s.apply1 p ⟨m, 0, u⟩ = if s.val m = 0 then .done s else .block := by
  simp [apply1]

/-- Taking: it waits until the value is large enough. A value in range cannot
leave it downwards, so it fails for the adjustment alone. -/
theorem apply1_neg (s : SemSet n) (p : ℕ) (m : Fin n) {d : ℤ} (hd : d < 0) :
    s.apply1 p ⟨m, d, true⟩ =
      if (s.val m : ℤ) + d < 0 then .block
      else if UndoFits (s.adj p m - d) then .done (s.shift p m d) else .fail .ERANGE := by
  have hle := s.val_le m
  have hne : d ≠ 0 := by omega
  have hfit : ¬ (SEMVMX : ℤ) < (s.val m : ℤ) + d := by omega
  simp [apply1, hne, hfit]

/-- Giving: it never waits, and fails if the value would pass `SEMVMX` or the
adjustment would leave its range. -/
theorem apply1_pos (s : SemSet n) (p : ℕ) (m : Fin n) {d : ℤ} (hd : 0 < d) :
    s.apply1 p ⟨m, d, true⟩ =
      if (SEMVMX : ℤ) < (s.val m : ℤ) + d then .fail .ERANGE
      else if UndoFits (s.adj p m - d) then .done (s.shift p m d) else .fail .ERANGE := by
  have hne : d ≠ 0 := by omega
  have hwait : ¬ (s.val m : ℤ) + d < 0 := by omega
  simp [apply1, hne, hwait]

/-- The only error of an operation array on an existing set. -/
theorem semop_fail {s : SemSet n} {p : ℕ} {ops : List (Sembuf n)} {e : Errno}
    (h : s.semop p ops = .fail e) : e = .ERANGE := by
  induction ops generalizing s with
  | nil => cases h
  | cons op ops ih =>
    rw [semop] at h
    split at h
    · exact ih h
    · cases h
    · rename_i hop
      cases h
      unfold apply1 at hop
      split_ifs at hop <;> exact (Outcome.fail.inj hop).symm

end SemSet

/-! ## One key -/

/-- What the kernel keeps about one key: the identifiers below `next` have been
given out, and `cur` is the set the key names now. -/
structure Slot (n : ℕ) where
  next : ℕ
  cur : Option (ℕ × SemSet n)

/-- The system calls of a process about one key. `creat` is the `IPC_CREAT`
flag of `semget`. -/
inductive Syscall (n : ℕ)
  | semget (creat : Bool)
  | semop (id : ℕ) (ops : List (Sembuf n))
  | getval (id : ℕ) (m : Fin n)
  | setval (id : ℕ) (m : Fin n) (v : ℤ)
  | rmid (id : ℕ)
  deriving DecidableEq, Repr

/-- The identifier a call is about, except for `semget`, which has none yet. -/
def Syscall.id? {n : ℕ} : Syscall n → Option ℕ
  | .semget _ => none
  | .semop id _ | .getval id _ | .setval id _ _ | .rmid id => some id

namespace Slot

variable {n : ℕ}

/-- A key nobody has used. -/
def empty : Slot n := ⟨0, none⟩

/-- The set with identifier `id`, if it has not been removed. -/
def find (sl : Slot n) (id : ℕ) : Option (SemSet n) :=
  match sl.cur with
  | some (i, s) => if i = id then some s else none
  | none => none

/-- The slot with the set named now replaced by `s`, under the same identifier. -/
def put (sl : Slot n) (id : ℕ) (s : SemSet n) : Slot n := { sl with cur := some (id, s) }

/-- One system call of process `p`. `asleep` says that `p` was put to sleep in
this very call before: removal of the set then shows as `EIDRM`, not `EINVAL`. -/
def call (sl : Slot n) (p : ℕ) (asleep : Bool) : Syscall n → Outcome (Slot n × ℕ)
  | .semget creat =>
    match sl.cur with
    | some (i, _) => .done (sl, i)
    | none =>
      if creat then .done (⟨sl.next + 1, some (sl.next, .fresh)⟩, sl.next) else .fail .ENOENT
  | .semop id ops =>
    match sl.find id with
    | none => .fail (if asleep then .EIDRM else .EINVAL)
    | some s =>
      match s.semop p ops with
      | .done s' => .done (sl.put id s', 0)
      | .block => .block
      | .fail e => .fail e
  | .getval id m =>
    match sl.find id with
    | none => .fail .EINVAL
    | some s => .done (sl, s.val m)
  | .setval id m v =>
    match sl.find id with
    | none => .fail .EINVAL
    | some s =>
      if v < 0 ∨ (SEMVMX : ℤ) < v then .fail .ERANGE
      else .done (sl.put id (s.setval m v), 0)
  | .rmid id =>
    match sl.find id with
    | none => .fail .EINVAL
    | some _ => .done ({ sl with cur := none }, 0)

/-- Process `p` exits. -/
def exit (sl : Slot n) (p : ℕ) : Slot n :=
  { sl with cur := sl.cur.map fun c => (c.1, c.2.exit p) }

@[simp] theorem empty_cur : (empty : Slot n).cur = none := rfl

@[simp] theorem empty_next : (empty : Slot n).next = 0 := rfl

@[simp] theorem exit_next (sl : Slot n) (p : ℕ) : (sl.exit p).next = sl.next := rfl

@[simp] theorem put_next (sl : Slot n) (id : ℕ) (s : SemSet n) :
    (sl.put id s).next = sl.next := rfl

@[simp] theorem put_cur (sl : Slot n) (id : ℕ) (s : SemSet n) :
    (sl.put id s).cur = some (id, s) := rfl

theorem exit_cur (sl : Slot n) (p : ℕ) :
    (sl.exit p).cur = sl.cur.map fun c => (c.1, c.2.exit p) := rfl

/-- The key names one set at a time. -/
theorem cur_unique {sl : Slot n} {i j : ℕ} {s t : SemSet n} (hi : sl.cur = some (i, s))
    (hj : sl.cur = some (j, t)) : i = j ∧ s = t := by
  rw [hi] at hj
  exact Prod.mk.inj (Option.some.inj hj)

/-- The set that the key names, if any, is still there, with whatever values. -/
def Stays (sl sl' : Slot n) : Prop :=
  ∀ i s, sl.cur = some (i, s) → ∃ s', sl'.cur = some (i, s')

theorem Stays.refl (sl : Slot n) : sl.Stays sl := fun _ s hs => ⟨s, hs⟩

theorem Stays.put {sl : Slot n} {i : ℕ} {s : SemSet n} (h : sl.cur = some (i, s))
    (s' : SemSet n) : sl.Stays (sl.put i s') := by
  intro j t hj
  obtain ⟨rfl, -⟩ := cur_unique h hj
  exact ⟨s', rfl⟩

theorem Stays.exit (sl : Slot n) (p : ℕ) : sl.Stays (sl.exit p) := by
  intro i s hs
  refine ⟨s.exit p, ?_⟩
  rw [exit_cur, hs]
  rfl

theorem Stays.of_none {sl : Slot n} (h : sl.cur = none) (sl' : Slot n) : sl.Stays sl' := by
  intro i s hs
  rw [h] at hs
  cases hs

/-- The value of a member, of the set the key names now; 0 where there is none. -/
def value (sl : Slot n) (m : Fin n) : ℕ :=
  match sl.cur with
  | some (_, s) => s.val m
  | none => 0

/-- The adjustment of process `p` for a member. -/
def undo (sl : Slot n) (p : ℕ) (m : Fin n) : ℤ :=
  match sl.cur with
  | some (_, s) => s.adj p m
  | none => 0

theorem value_of_cur {sl : Slot n} {id : ℕ} {s : SemSet n} (h : sl.cur = some (id, s)) (m : Fin n) :
    sl.value m = s.val m := by
  rw [value, h]

theorem undo_of_cur {sl : Slot n} {id : ℕ} {s : SemSet n} (h : sl.cur = some (id, s)) (p : ℕ)
    (m : Fin n) : sl.undo p m = s.adj p m := by
  rw [undo, h]

@[simp] theorem put_value (sl : Slot n) (id : ℕ) (s : SemSet n) (m : Fin n) :
    (sl.put id s).value m = s.val m := rfl

@[simp] theorem put_undo (sl : Slot n) (id : ℕ) (s : SemSet n) (p : ℕ) (m : Fin n) :
    (sl.put id s).undo p m = s.adj p m := rfl

theorem value_le (sl : Slot n) (m : Fin n) : sl.value m ≤ SEMVMX := by
  unfold value
  split
  · rename_i s _
    exact s.val_le m
  · exact Nat.zero_le _

/-- The value after an exit, with or without a set. -/
theorem exit_value (sl : Slot n) (p : ℕ) (m : Fin n) :
    (sl.exit p).value m = clamp (sl.value m) (sl.undo p m) := by
  rcases sl with ⟨nx, _ | ⟨i, s⟩⟩
  · simp [exit, value, undo]
  · rfl

theorem exit_undo (sl : Slot n) (p p' : ℕ) (m : Fin n) :
    (sl.exit p).undo p' m = if p' = p then 0 else sl.undo p' m := by
  rcases sl with ⟨nx, _ | ⟨i, s⟩⟩
  · simp [exit, undo]
  · simp [exit, undo]

/-- A set is found under the identifier the key names now, and no other. -/
theorem find_eq_some {sl : Slot n} {id : ℕ} {s : SemSet n} :
    sl.find id = some s ↔ sl.cur = some (id, s) := by
  rcases sl with ⟨nx, _ | ⟨i, s'⟩⟩
  · simp [find]
  · simp only [find]
    split
    · rename_i h
      simp [h]
    · rename_i h
      simp [h]

/-- A set that is not found has been removed, or replaced. -/
theorem find_eq_none {sl : Slot n} {id : ℕ} :
    sl.find id = none ↔ ∀ s, sl.cur ≠ some (id, s) := by
  constructor
  · intro h s hs
    rw [find_eq_some.2 hs] at h
    cases h
  · intro h
    cases hf : sl.find id with
    | none => rfl
    | some s => exact absurd (find_eq_some.1 hf) (h s)

/-- On a set that is there, the only error is a value out of range. -/
theorem call_fail_of_find {sl : Slot n} {p id : ℕ} {asleep : Bool} {c : Syscall n}
    {s : SemSet n} {e : Errno} (hid : c.id? = some id) (hf : sl.find id = some s)
    (h : sl.call p asleep c = .fail e) : e = .ERANGE := by
  -- the other errors are those of a set that is not found
  cases c with
  | semget creat => cases hid
  | semop id' ops =>
    obtain rfl : id' = id := Option.some.inj hid
    simp only [call, hf] at h
    split at h
    · cases h
    · cases h
    · rename_i hop
      cases h
      exact SemSet.semop_fail hop
  | getval id' m =>
    obtain rfl : id' = id := Option.some.inj hid
    simp [call, hf] at h
  | setval id' m v =>
    obtain rfl : id' = id := Option.some.inj hid
    simp only [call, hf] at h
    split_ifs at h
    cases h
    rfl
  | rmid id' =>
    obtain rfl : id' = id := Option.some.inj hid
    simp [call, hf] at h

/-- A call sleeps only on a set that is there. -/
theorem find_of_call_block {sl : Slot n} {p : ℕ} {asleep : Bool} {c : Syscall n}
    (h : sl.call p asleep c = .block) : ∃ id s, c.id? = some id ∧ sl.find id = some s := by
  -- of the calls only `semop` blocks
  cases c with
  | semget creat =>
    simp only [call] at h
    split at h
    · cases h
    · split_ifs at h
  | semop id ops =>
    simp only [call] at h
    split at h
    · cases h
    · rename_i s hf
      exact ⟨id, s, rfl, hf⟩
  | getval id m =>
    simp only [call] at h
    split at h <;> cases h
  | setval id m v =>
    simp only [call] at h
    split at h
    · cases h
    · split_ifs at h
  | rmid id =>
    simp only [call] at h
    split at h <;> cases h

end Slot

end UnixNetProg.SysV

/-
Processes running programs that use `semaphore.c`, under the kernel of `SysV`.

A `World` has the semaphore slots of all keys, whatever memory the programs
share (`shared`), the processes, and a log of what has happened. A process is
in its own code, inside a routine of `semaphore.c` at a `Point`, or dead. One
step of the world is one step of one process: a piece of its own code, the call
of a routine, or one system call. A system call that has to wait puts the
process to sleep, and it tries again when it is next scheduled; every order of
the other processes' steps falls between the two.

`held` is not data of the C program: for each key it records the identifier of
the set the process has counted itself into (`op_endcreate` or `op_open`) and
not yet out of (`op_close`).

A process dies at any moment (`Act.die`), and so do `exit`, `err_sys` and
`err_dump`: the kernel then applies its adjustments on every key.
-/
import UnixNetProg.Lib.Runs
import UnixNetProg.Semaphore.Code

set_option autoImplicit false

namespace UnixNetProg.Semaphore

open UnixNetProg.SysV UnixNetProg.Runs

/-! ## Programs -/

/-- A call of one of the seven routines. A set is named by its key and the
identifier `semget` gave out for it. -/
inductive Call
  | sem_create (key initval : ℤ)
  | sem_open (key : ℤ)
  | sem_rm (key : ℤ) (id : ℕ)
  | sem_close (key : ℤ) (id : ℕ)
  | sem_wait (key : ℤ) (id : ℕ)
  | sem_signal (key : ℤ) (id : ℕ)
  | sem_op (key : ℤ) (id : ℕ) (value : ℤ)
  deriving DecidableEq, Repr

/-- The key a call is about. -/
def Call.key : Call → ℤ
  | .sem_create key _ | .sem_open key | .sem_rm key _ | .sem_close key _
  | .sem_wait key _ | .sem_signal key _ | .sem_op key _ _ => key

/-- The routine called, up to its first system call. -/
def Call.start : Call → Next
  | .sem_create key initval => Semaphore.sem_create key initval
  | .sem_open key => Semaphore.sem_open key
  | .sem_rm _ id => Semaphore.sem_rm id
  | .sem_close _ id => Semaphore.sem_close id
  | .sem_wait _ id => Semaphore.sem_wait id
  | .sem_signal _ id => Semaphore.sem_signal id
  | .sem_op _ id value => Semaphore.sem_op id value

/-- What a piece of a program's own code ends in. -/
inductive Does (U : Type)
  | go (u : U)
  | call (c : Call) (u : U)
  | exit
  | err_sys (msg : String)

/-- The same for a larger type of states. -/
def Does.map {U V : Type} (f : U → V) : Does U → Does V
  | .go u => .go (f u)
  | .call c u => .call c (f u)
  | .exit => .exit
  | .err_sys msg => .err_sys msg

/-- A program: its own code, from a state `U` of its own and the shared state
`S`, with a choice `C` for what is not determined (how much `read` returns, say)
and the slots for a `semctl` of its own; how it takes the value a routine
returns; and the states `main` starts in. `none` says that this choice is not
possible there. -/
structure Program (S U C : Type) where
  entry : U → Bool
  step : (ℤ → Slot 3) → S → U → C → Option (S × Does U)
  ret : U → ℤ → U

/-! ## Processes -/

/-- Where a process is. -/
inductive Pc
  | user
  | lib (key : ℤ) (pt : Point) (asleep : Bool)
  | dead
  deriving DecidableEq, Repr

/-- A process. -/
structure Proc (U : Type) where
  user : U
  held : ℤ → Option ℕ
  pc : Pc

instance instDecidableEqExcept {ε α : Type} [DecidableEq ε] [DecidableEq α] :
    DecidableEq (Except ε α)
  | .error e, .error e' => decidable_of_iff (e = e') ⟨congrArg _, Except.error.inj⟩
  | .ok a, .ok a' => decidable_of_iff (a = a') ⟨congrArg _, Except.ok.inj⟩
  | .error _, .ok _ => isFalse (by simp)
  | .ok _, .error _ => isFalse (by simp)

/-- What the log records: calls of routines, system calls with their results,
identifiers returned by `sem_create` and `sem_open`, and fatal errors. -/
inductive Event
  | call (p : ℕ) (c : Call)
  | sys (p : ℕ) (key : ℤ) (c : Syscall 3) (r : Except Errno ℕ)
  | opened (p : ℕ) (key : ℤ) (id : ℕ)
  | err_sys (p : ℕ) (msg : String)
  | err_dump (p : ℕ) (msg : String)
  deriving DecidableEq

/-- The state of the whole system. -/
structure World (S U : Type) where
  sem : ℤ → Slot 3
  shared : S
  procs : List (Proc U)
  log : List Event

/-- `held` for the key of a routine, after the system call at `pt` succeeded. -/
def Point.heldAfter : Point → Option ℕ → Option ℕ
  | .create_endcreate id, _ => some id
  | .open_op id, _ => some id
  | .close_op _, _ => none
  | _, h => h

/-- `held` after the system call at `pt` returned `r`. -/
def Point.heldAt (pt : Point) (r : Except Errno ℕ) (held : Option ℕ) : Option ℕ :=
  match r with
  | .ok _ => pt.heldAfter held
  | .error _ => held

/-- The identifier `sem_create` or `sem_open` returns after the call at `pt`. -/
def Point.opens : Point → Option ℕ
  | .create_endcreate id => some id
  | .open_op id => some id
  | _ => none

namespace World

variable {S U C : Type}

/-- Process `p` becomes `q`. -/
def setProc (w : World S U) (p : ℕ) (q : Proc U) : World S U :=
  { w with procs := w.procs.set p q }

/-- Something is recorded. -/
def note (w : World S U) (es : List Event) : World S U := { w with log := w.log ++ es }

/-- Process `p`, now `q`, is gone, and its adjustments are applied. -/
def kill (w : World S U) (p : ℕ) (q : Proc U) : World S U :=
  { w with
    sem := fun key => (w.sem key).exit p
    procs := w.procs.set p { q with held := fun _ => none, pc := .dead } }

/-- Process `p`, now `q`, has run a piece of its own code. -/
def does (P : Program S U C) (w : World S U) (p : ℕ) (q : Proc U) : Does U → World S U
  | .go u => w.setProc p { q with user := u }
  | .call c u =>
    match c.start with
    | .goto pt => (w.note [.call p c]).setProc p { q with user := u, pc := .lib c.key pt false }
    | .ret v => (w.note [.call p c]).setProc p { q with user := P.ret u v }
    | .err_sys msg => (w.note [.call p c, .err_sys p msg]).kill p q
    | .err_dump msg => (w.note [.call p c, .err_dump p msg]).kill p q
  | .exit => w.kill p q
  | .err_sys msg => (w.note [.err_sys p msg]).kill p q

/-- The system call at `pt`, on `key`, of process `p`, now `q`, has returned `r`
and left the slot `sl`; the routine goes on. -/
def complete (P : Program S U C) (w : World S U) (p : ℕ) (q : Proc U) (key : ℤ) (pt : Point)
    (sl : Slot 3) (r : Except Errno ℕ) : World S U :=
  let w := ({ w with sem := Function.update w.sem key sl }).note [.sys p key pt.call r]
  let held := Function.update q.held key (pt.heldAt r (q.held key))
  match pt.resume r with
  | .goto pt' => w.setProc p { q with held := held, pc := .lib key pt' false }
  | .ret v =>
    let opened := match r, pt.opens with
      | .ok _, some id => [.opened p key id]
      | _, _ => []
    (w.note opened).setProc p { user := P.ret q.user v, held := held, pc := .user }
  | .err_sys msg => (w.note [.err_sys p msg]).kill p q
  | .err_dump msg => (w.note [.err_dump p msg]).kill p q

end World

/-! ## The machine -/

/-- A step: a process starts, dies, runs a piece of its own code, or makes the
system call it is at; `nospace` is a `semget` that finds the tables full. -/
inductive Act (U C : Type)
  | spawn (u : U)
  | die (p : ℕ)
  | user (p : ℕ) (c : C)
  | sys (p : ℕ)
  | nospace (p : ℕ)

/-- The system calls that look the key up. -/
def Point.isSemget : Point → Bool
  | .create_semget _ | .open_semget => true
  | _ => false

namespace World

variable {S U C : Type}

/-- One step of the world. -/
def step (P : Program S U C) (w : World S U) : Act U C → Option (World S U)
  | .spawn u =>
    if P.entry u then some { w with procs := w.procs ++ [⟨u, fun _ => none, .user⟩] } else none
  | .die p =>
    match w.procs[p]? with
    | some q => if q.pc = .dead then none else some (w.kill p q)
    | none => none
  | .user p c =>
    match w.procs[p]? with
    | some q =>
      if q.pc = .user then
        match P.step w.sem w.shared q.user c with
        | some (s, d) => some (({ w with shared := s }).does P p q d)
        | none => none
      else none
    | none => none
  | .sys p =>
    match w.procs[p]? with
    | some q =>
      match q.pc with
      | .lib key pt asleep =>
        match pt.perform (w.sem key) p asleep with
        | some (sl, r) => some (w.complete P p q key pt sl r)
        | none =>
          if asleep then none else some (w.setProc p { q with pc := .lib key pt true })
      | _ => none
    | none => none
  | .nospace p =>
    match w.procs[p]? with
    | some q =>
      match q.pc with
      | .lib key pt _ =>
        if pt.isSemget then some (w.complete P p q key pt (w.sem key) (.error .ENOSPC)) else none
      | _ => none
    | none => none

/-! ### What a step does -/

section Step

variable {P : Program S U C} {w w' : World S U} {u : U} {c : C} {p : ℕ}

theorem of_step_spawn (h : w.step P (.spawn u) = some w') :
    P.entry u = true ∧ w' = { w with procs := w.procs ++ [⟨u, fun _ => none, .user⟩] } := by
  simp only [step] at h
  split_ifs at h with hu
  cases h
  exact ⟨hu, rfl⟩

theorem of_step_die (h : w.step P (.die p) = some w') :
    ∃ q, w.procs[p]? = some q ∧ q.pc ≠ .dead ∧ w' = w.kill p q := by
  simp only [step] at h
  split at h
  · rename_i q hq
    split_ifs at h with hdead
    cases h
    exact ⟨q, hq, hdead, rfl⟩
  · cases h

theorem of_step_user (h : w.step P (.user p c) = some w') :
    ∃ q s d, w.procs[p]? = some q ∧ q.pc = .user ∧
      P.step w.sem w.shared q.user c = some (s, d) ∧
        w' = ({ w with shared := s } : World S U).does P p q d := by
  simp only [step] at h
  split at h
  · rename_i q hq
    split_ifs at h with hpc
    split at h
    · rename_i s d hstep
      cases h
      exact ⟨q, s, d, hq, hpc, hstep, rfl⟩
    · cases h
  · cases h

/-- The call returns, or the process is put to sleep in it. -/
theorem of_step_sys (h : w.step P (.sys p) = some w') :
    ∃ q key pt asleep, w.procs[p]? = some q ∧ q.pc = .lib key pt asleep ∧
      ((∃ sl r, pt.perform (w.sem key) p asleep = some (sl, r) ∧
          w' = w.complete P p q key pt sl r) ∨
        (pt.perform (w.sem key) p asleep = none ∧ asleep = false ∧
          w' = w.setProc p { q with pc := .lib key pt true })) := by
  simp only [step] at h
  split at h
  · rename_i q hq
    split at h
    · rename_i key pt asleep hpc
      refine ⟨q, key, pt, asleep, hq, hpc, ?_⟩
      split at h
      · rename_i sl r hperf
        cases h
        exact .inl ⟨sl, r, hperf, rfl⟩
      · rename_i hwait
        split_ifs at h with hasleep
        cases h
        exact .inr ⟨hwait, by simpa using hasleep, rfl⟩
    · cases h
  · cases h

theorem of_step_nospace (h : w.step P (.nospace p) = some w') :
    ∃ q key pt asleep, w.procs[p]? = some q ∧ q.pc = .lib key pt asleep ∧ pt.isSemget = true ∧
      w' = w.complete P p q key pt (w.sem key) (.error .ENOSPC) := by
  simp only [step] at h
  split at h
  · rename_i q hq
    split at h
    · rename_i key pt asleep hpc
      split_ifs at h with hpt
      cases h
      exact ⟨q, key, pt, asleep, hq, hpc, hpt, rfl⟩
    · cases h
  · cases h

end Step

/-- No key has been used, and processes are at `us`. -/
def start (s : S) (us : List U) : World S U :=
  ⟨fun _ => .empty, s, us.map fun u => ⟨u, fun _ => none, .user⟩, []⟩

end World

/-- The system in which processes run `P`, from the shared state `s` with the
processes `us` already there. -/
def machine {S U C : Type} (P : Program S U C) (s : S) (us : List U) :
    Machine (World S U) (Act U C) where
  init := fun w => w = World.start s us
  step := World.step P

/-- The program that makes the calls it is given, in order, and exits. -/
def script : Program Unit (List Call) Unit where
  entry := fun _ => true
  step := fun _ _ calls _ =>
    match calls with
    | [] => some ((), .exit)
    | c :: calls => some ((), .call c calls)
  ret := fun calls _ => calls

end UnixNetProg.Semaphore

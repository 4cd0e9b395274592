/-
`1_file_record_locking/lock.c`: locking by the existence of a file.

Two of the five methods of `lock.c` are here, the two that share the name
`LOCKFILE`. `my_link_lock` makes a file of its own and links it to the name,
`my_open_lock` creates the name with `O_EXCL`; both fail with `EEXIST` while
somebody has the lock, and both try again after `sleep(1)`. Either unlock
removes the name.

As for the semaphores, a routine is given by the points at which a process is
inside it, with the system call made there and what the C code does with the
result. A `World` is a directory and the processes that share it; each runs a
`Program` of its own and calls the routines. The routines take a descriptor
that these methods do not use.

`got` is not data of the C program: it is the inode a process has made
`LOCKFILE` a name of, until it removes the name.
-/
import UnixNetProg.Lib.Files
import UnixNetProg.Lib.Runs
import UnixNetProg.Lib.Stdio

set_option autoImplicit false

namespace UnixNetProg.FileLock

open UnixNetProg.Files UnixNetProg.Runs UnixNetProg.Stdio

/-! ## The routines -/

/-- The name of the lock file. -/
def LOCKFILE : Name := "seqno.lock".toList

/-- The permissions of a lock file made by `open`. -/
def PERMS : ℕ := 0o666

/-- `sprintf(tempfile, "LCK%d", getpid())`. -/
def tempfile (pid : ℤ) : Name := "LCK".toList ++ sprintf_d pid

/-- The four routines (`1_file_record_locking/lock.c`: `my_link_lock`, 57-101; `my_link_unlock`,
103-111; `my_open_lock`, 148-165; `my_open_unlock`, 167-172). -/
inductive Routine
  | my_link_lock
  | my_link_unlock
  | my_open_lock
  | my_open_unlock
  deriving DecidableEq, Repr

/-- Where a process is inside one of the routines: about to make the system call
named. -/
inductive Point
  | link_creat
  | link_close
  | link_link
  | link_sleep
  | link_unlink
  | link_unlock
  | open_open
  | open_sleep
  | open_close
  | open_unlock
  deriving DecidableEq, Repr

/-- The system call made at a point by process `pid`; `none` for `close` and
`sleep`, which do not touch the directory. -/
def Point.call (pid : ℤ) : Point → Option Syscall
  | .link_creat => some (.creat (tempfile pid) 0o444)
  | .link_link => some (.link (tempfile pid) LOCKFILE)
  | .link_unlink => some (.unlink (tempfile pid))
  | .link_unlock => some (.unlink LOCKFILE)
  | .open_open => some (.openExcl LOCKFILE PERMS)
  | .open_unlock => some (.unlink LOCKFILE)
  | .link_close | .link_sleep | .open_sleep | .open_close => none

/-- How the C code goes on. -/
inductive Next
  | goto (pt : Point)
  | ret
  | err_sys (msg : String)
  deriving DecidableEq, Repr

/-- The routine called, up to its first system call. -/
def Routine.start : Routine → Point
  | .my_link_lock => .link_creat
  | .my_link_unlock => .link_unlock
  | .my_open_lock => .open_open
  | .my_open_unlock => .open_unlock

/-- What the C code does with the result of the system call at a point. -/
def Point.resume : Point → Except Errno Unit → Next
  | .link_creat, .ok _ => .goto .link_close
  | .link_creat, .error _ => .err_sys "can't creat temp file"
  | .link_close, _ => .goto .link_link
  | .link_link, .ok _ => .goto .link_unlink
  | .link_link, .error errno => if errno ≠ .EEXIST then .err_sys "link error" else .goto .link_sleep
  | .link_sleep, _ => .goto .link_link
  | .link_unlink, .ok _ => .ret
  | .link_unlink, .error _ => .err_sys "unlink error for tempfile"
  | .link_unlock, .ok _ => .ret
  | .link_unlock, .error _ => .err_sys "unlink error for LOCKFILE"
  | .open_open, .ok _ => .goto .open_close
  | .open_open, .error errno =>
    if errno ≠ .EEXIST then .err_sys "open error for lock file" else .goto .open_sleep
  | .open_sleep, _ => .goto .open_open
  | .open_close, _ => .ret
  | .open_unlock, .ok _ => .ret
  | .open_unlock, .error _ => .err_sys "unlink error for lock file"

/-- The system call at `pt`, carried out for process `pid`: the directory after
it, and its result. -/
def Point.perform (pt : Point) (pid : ℤ) (root : Bool) (d : Dir) : Dir × Except Errno Unit :=
  match pt.call pid with
  | none => (d, .ok ())
  | some c =>
    match d.call root c with
    | .ok d' => (d', .ok ())
    | .error e => (d, .error e)

/-- What a process has of `LOCKFILE` after the system call at `pt` succeeded. -/
def Point.gotAfter (d' : Dir) : Point → Option ℕ → Option ℕ
  | .link_link, _ | .open_open, _ => d'.entry LOCKFILE
  | .link_unlock, _ | .open_unlock, _ => none
  | _, got => got

/-! ## The world -/

/-- What a piece of a program's own code ends in. -/
inductive Does (U : Type)
  | go (u : U)
  | call (r : Routine) (u : U)
  | exit
  | err_sys (msg : String)

/-- A program that uses the routines: its own code, from its process id, the
state `S` shared by all processes and its own state `U`, with a choice `C` for
what is not determined; and how it goes on after a routine. -/
structure Program (S U C : Type) where
  entry : U → Bool
  step : ℤ → S → U → C → Option (S × Does U)
  ret : U → U

/-- Where a process is. -/
inductive Pc
  | user
  | lib (pt : Point)
  | exited
  | failed (msg : String)
  deriving DecidableEq, Repr

/-- A process. -/
structure Proc (U : Type) where
  pid : ℤ
  root : Bool
  user : U
  got : Option ℕ
  pc : Pc

/-- The process has not ended. -/
def Proc.live {U : Type} (q : Proc U) : Bool :=
  match q.pc with
  | .user | .lib _ => true
  | .exited | .failed _ => false

/-- The state of the whole system. -/
structure World (S U : Type) where
  dir : Dir
  shared : S
  procs : List (Proc U)

/-- A step: a process starts, runs a piece of its own code, or makes the system
call it is at. -/
inductive Act (U C : Type)
  | spawn (pid : ℤ) (root : Bool) (u : U)
  | user (p : ℕ) (c : C)
  | sys (p : ℕ)

/-- The process that takes the step. -/
def Act.actor {U C : Type} : Act U C → Option ℕ
  | .spawn .. => none
  | .user p _ | .sys p => some p

namespace World

variable {S U C : Type}

/-- Process `q` after its own code came to `d`. -/
def does (q : Proc U) : Does U → Proc U
  | .go u => { q with user := u }
  | .call r u => { q with user := u, pc := .lib r.start }
  | .exit => { q with pc := .exited }
  | .err_sys msg => { q with pc := .failed msg }

/-- Process `q`, at `pt`, after its system call returned `r` and left the
directory `d'`. -/
def complete (P : Program S U C) (q : Proc U) (pt : Point) (d' : Dir)
    (r : Except Errno Unit) : Proc U :=
  let got := match r with
    | .ok _ => pt.gotAfter d' q.got
    | .error _ => q.got
  match pt.resume r with
  | .goto pt' => { q with got := got, pc := .lib pt' }
  | .ret => { q with got := got, pc := .user, user := P.ret q.user }
  | .err_sys msg => { q with got := got, pc := .failed msg }

/-- One step of the world. Process ids of live processes are distinct. -/
def step (P : Program S U C) (w : World S U) : Act U C → Option (World S U)
  | .spawn pid root u =>
    if P.entry u ∧ ∀ q ∈ w.procs, q.live = true → q.pid ≠ pid then
      some { w with procs := w.procs ++ [⟨pid, root, u, none, .user⟩] }
    else none
  | .user p c =>
    match w.procs[p]? with
    | some q =>
      if q.pc = .user then
        match P.step q.pid w.shared q.user c with
        | some (s, d) => some { w with shared := s, procs := w.procs.set p (does q d) }
        | none => none
      else none
    | none => none
  | .sys p =>
    match w.procs[p]? with
    | some q =>
      match q.pc with
      | .lib pt =>
        let (d', r) := pt.perform q.pid q.root w.dir
        some { w with dir := d', procs := w.procs.set p (complete P q pt d' r) }
      | _ => none
    | none => none

/-! ### What a step does -/

section Step

variable {P : Program S U C} {w w' : World S U} {p : ℕ}

theorem of_step_spawn {pid : ℤ} {root : Bool} {u : U} (h : w.step P (.spawn pid root u) = some w') :
    (P.entry u = true ∧ ∀ q ∈ w.procs, q.live = true → q.pid ≠ pid) ∧
      w' = { w with procs := w.procs ++ [⟨pid, root, u, none, .user⟩] } := by
  simp only [step] at h
  split_ifs at h with hok
  cases h
  exact ⟨hok, rfl⟩

theorem of_step_user {c : C} (h : w.step P (.user p c) = some w') :
    ∃ q s d, w.procs[p]? = some q ∧ q.pc = .user ∧
      P.step q.pid w.shared q.user c = some (s, d) ∧
        w' = { w with shared := s, procs := w.procs.set p (does q d) } := by
  simp only [step] at h
  split at h
  · rename_i q hq
    split_ifs at h with hpc
    split at h
    · rename_i s d hstep
      cases h
      exact ⟨q, s, d, hq, hpc, hstep, rfl⟩
    · cases h
  · cases h

theorem of_step_sys (h : w.step P (.sys p) = some w') :
    ∃ q pt, w.procs[p]? = some q ∧ q.pc = .lib pt ∧
      w' = { w with
        dir := (pt.perform q.pid q.root w.dir).1
        procs := w.procs.set p (complete P q pt (pt.perform q.pid q.root w.dir).1
          (pt.perform q.pid q.root w.dir).2) } := by
  simp only [step] at h
  split at h
  · rename_i q hq
    split at h
    · rename_i pt hpc
      cases h
      exact ⟨q, pt, hq, hpc, rfl⟩
    · cases h
  · cases h

end Step

end World

/-- The system in which processes run `P` in a directory that holds neither the
lock file nor a temporary name. -/
def machine {S U C : Type} (P : Program S U C) (start : World S U → Prop) :
    Machine (World S U) (Act U C) where
  init := fun w => start w ∧ w.dir.entry LOCKFILE = none ∧
    (∀ pid, w.dir.entry (tempfile pid) = none) ∧
    (∀ q ∈ w.procs, q.pc = .user ∧ q.got = none) ∧
    w.procs.Pairwise fun q q' => q.pid ≠ q'.pid
  step := World.step P

/-! ## What the callers promise -/

/-- A routine that takes the lock. -/
def Routine.locks : Routine → Bool
  | .my_link_lock | .my_open_lock => true
  | .my_link_unlock | .my_open_unlock => false

/-- A piece of code of a process that has `got`: it takes the lock when it does
not have it, gives it back when it has, and does not end with it. -/
def Does.allowed {U : Type} (got : Option ℕ) : Does U → Prop
  | .go _ => True
  | .call r _ => got.isSome = !r.locks
  | .exit | .err_sys _ => got = none

/-- The step does not break the promise. -/
def World.keeps {S U C : Type} (P : Program S U C) (w : World S U) : Act U C → Prop
  | .user p c => ∀ q ∈ w.procs[p]?, ∀ sd ∈ P.step q.pid w.shared q.user c, sd.2.allowed q.got
  | _ => True

instance {U : Type} (got : Option ℕ) (d : Does U) : Decidable (d.allowed got) := by
  cases d <;> unfold Does.allowed <;> infer_instance

instance {S U C : Type} (P : Program S U C) (w : World S U) (a : Act U C) :
    Decidable (w.keeps P a) := by
  cases a <;> unfold World.keeps <;> infer_instance

end UnixNetProg.FileLock

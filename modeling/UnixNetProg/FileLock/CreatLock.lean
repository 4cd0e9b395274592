/-
`my_creat_lock` and `my_creat_unlock` of `lock.c`.

The lock is a file without permissions: `creat` makes it if it is not there and
is refused with `EACCES` if it is. That is a check of permissions, not of
existence, and it does not stop the superuser, for whom `creat` truncates the
file and succeeds. So the lock excludes exactly as long as no superuser gets to
its `creat` while the file is there (`creat_lock_excludes`); one that does is in
its critical section beside the holder (`superuser_enters`), and whichever of
the two unlocks last finds the file gone.
-/
import UnixNetProg.Lib.Files
import UnixNetProg.Lib.Pool
import UnixNetProg.Lib.Runs

set_option autoImplicit false

namespace UnixNetProg.FileLock.CreatLock

open UnixNetProg.Files UnixNetProg.Runs UnixNetProg.Pool

/-! ## The routines -/

/-- The name of the lock file. -/
def TEMPFILE : Name := "temp.lock".toList

/-- Where a process is inside one of the two routines (`1_file_record_locking/lock.c`:
`my_creat_lock`, 113-139; `my_creat_unlock`, 141-146): about to make the system call named. -/
inductive Point
  | creat_creat
  | creat_sleep
  | creat_close
  | creat_unlink
  deriving DecidableEq, Repr

/-- The system call made at a point; `none` for `close` and `sleep`, which do
not touch the directory. -/
def Point.call : Point → Option Syscall
  | .creat_creat => some (.creat TEMPFILE 0)
  | .creat_unlink => some (.unlink TEMPFILE)
  | .creat_sleep | .creat_close => none

/-- How the C code goes on. -/
inductive Next
  | goto (pt : Point)
  | ret
  | err_sys (msg : String)
  deriving DecidableEq, Repr

/-- What the C code does with the result of the system call at a point. -/
def Point.resume : Point → Except Errno Unit → Next
  | .creat_creat, .ok _ => .goto .creat_close
  | .creat_creat, .error errno =>
    if errno ≠ .EACCES then .err_sys "creat error" else .goto .creat_sleep
  | .creat_sleep, _ => .goto .creat_creat
  | .creat_close, _ => .ret
  | .creat_unlink, .ok _ => .ret
  | .creat_unlink, .error _ => .err_sys "unlink error for tempfile"

/-- The system call at `pt`, made by the superuser or another user: the
directory after it, and its result. -/
def Point.perform (pt : Point) (root : Bool) (d : Dir) : Dir × Except Errno Unit :=
  match pt.call with
  | none => (d, .ok ())
  | some c =>
    match d.call root c with
    | .ok d' => (d', .ok ())
    | .error e => (d, .error e)

/-! ## The world -/

/-- Where a process is: outside of its critical section, in it, in one of the
two routines, or ended. -/
inductive Pc
  | outside
  | lib (pt : Point)
  | critical
  | failed (msg : String)
  deriving DecidableEq, Repr

/-- A process, and whether the superuser runs it. -/
structure Proc where
  root : Bool
  pc : Pc
  deriving DecidableEq, Repr

/-- A directory and the processes that share it. -/
structure World where
  dir : Dir
  procs : List Proc

/-- A step: a process starts, calls one of the routines, or makes the system
call it is at. -/
inductive Act
  | spawn (root : Bool)
  | my_creat_lock (p : ℕ)
  | my_creat_unlock (p : ℕ)
  | sys (p : ℕ)

namespace World

/-- Process `q`, at `pt`, after its system call returned `r`. A lock returns into
the critical section, an unlock out of it. -/
def complete (q : Proc) (pt : Point) (r : Except Errno Unit) : Proc :=
  match pt.resume r with
  | .goto pt' => { q with pc := .lib pt' }
  | .ret => { q with pc := if pt = .creat_close then .critical else .outside }
  | .err_sys msg => { q with pc := .failed msg }

/-- One step of the world: every process locks when it is outside of its
critical section, and unlocks when it is in it. -/
def step (w : World) : Act → Option World
  | .spawn root => some { w with procs := w.procs ++ [⟨root, .outside⟩] }
  | .my_creat_lock p =>
    match w.procs[p]? with
    | some q =>
      if q.pc = .outside then
        some { w with procs := w.procs.set p { q with pc := .lib .creat_creat } }
      else none
    | none => none
  | .my_creat_unlock p =>
    match w.procs[p]? with
    | some q =>
      if q.pc = .critical then
        some { w with procs := w.procs.set p { q with pc := .lib .creat_unlink } }
      else none
    | none => none
  | .sys p =>
    match w.procs[p]? with
    | some q =>
      match q.pc with
      | .lib pt =>
        let (d, r) := pt.perform q.root w.dir
        some { dir := d, procs := w.procs.set p (complete q pt r) }
      | _ => none
    | none => none

end World

/-- Any number of processes, in a directory that does not have the lock file. -/
def machine : Machine World Act where
  init := fun w => w.procs = [] ∧ w.dir.entry TEMPFILE = none
  step := World.step

/-! ## What the calls come to -/

section Perform

variable {d : Dir} {root : Bool} {i : ℕ}

theorem perform_creat_new (h : d.entry TEMPFILE = none) :
    Point.creat_creat.perform root d = (d.make TEMPFILE 0, .ok ()) := by
  simp only [Point.perform, Point.call, Dir.call, Dir.creat_new h]

/-- A file without permissions stops everybody but the superuser. -/
theorem perform_creat_used (h : d.entry TEMPFILE = some i) (hmode : (d.inode i).mode = 0) :
    Point.creat_creat.perform false d = (d, .error .EACCES) := by
  simp only [Point.perform, Point.call, Dir.call, Dir.creat, h, hmode]
  rfl

theorem perform_unlink (root : Bool) (h : d.entry TEMPFILE = some i) :
    ∃ d', Point.creat_unlink.perform root d = (d', .ok ()) ∧ d'.entry TEMPFILE = none := by
  obtain ⟨d', hd', he, -⟩ := Dir.unlink_used h
  refine ⟨d', by simp only [Point.perform, Point.call, Dir.call, hd'], ?_⟩
  rw [he, Function.update_self]

end Perform

/-! ## The invariant -/

/-- The process is between the return of its `creat` and its `unlink`. -/
def Proc.owns (q : Proc) : Bool :=
  match q.pc with
  | .lib .creat_close | .critical | .lib .creat_unlink => true
  | _ => false

/-- The process is in its critical section. -/
def Proc.critical (q : Proc) : Bool := q.pc == .critical

/-- A superuser does not get to its `creat` while the lock file is there. -/
def World.guarded (w : World) (a : Act) : Prop :=
  match a with
  | .sys p => ∀ q ∈ w.procs[p]?, q.root = true → q.pc = .lib .creat_creat →
      w.dir.entry TEMPFILE = none
  | _ => True

instance (w : World) (a : Act) : Decidable (w.guarded a) := by
  cases a <;> unfold World.guarded <;> infer_instance

/-- The lock file is there if and only if some process owns it, and then it has
no permissions; at most one process does. No process has ended in an error. -/
structure LockInv (d : Dir) (ps : List Proc) : Prop where
  there : ps.countP Proc.owns = if (d.entry TEMPFILE).isSome then 1 else 0
  mode : ∀ {i}, d.entry TEMPFILE = some i → (d.inode i).mode = 0
  alive : ∀ {p : ℕ} {q : Proc}, ps[p]? = some q → ∀ msg, q.pc ≠ .failed msg

namespace LockInv

variable {d d' : Dir} {ps : List Proc} {p : ℕ} {q q' : Proc}

/-- A process that owns the lock file finds it. -/
theorem own_file (h : LockInv d ps) (hq : ps[p]? = some q) (ho : q.owns = true) :
    ∃ i, d.entry TEMPFILE = some i := by
  have hpos := countP_pos_of_get _ hq ho
  rw [h.there] at hpos
  by_cases hsome : (d.entry TEMPFILE).isSome = true
  · exact Option.isSome_iff_exists.1 hsome
  · rw [if_neg hsome] at hpos
    omega

/-- One process changes; what it owns and the lock file change together. -/
theorem set (h : LockInv d ps) (hq : ps[p]? = some q)
    (hthere : q'.owns.toNat + (if (d.entry TEMPFILE).isSome then 1 else 0)
      = q.owns.toNat + if (d'.entry TEMPFILE).isSome then 1 else 0)
    (hmode : ∀ {i}, d'.entry TEMPFILE = some i → (d'.inode i).mode = 0)
    (halive : ∀ msg, q'.pc ≠ .failed msg) : LockInv d' (ps.set p q') where
  there := by
    have hcount := countP_set_add Proc.owns hq q'
    have hold := h.there
    omega
  mode := hmode
  alive := by
    intro p₁ q₁ h₁
    rcases getElem?_set_cases h₁ with ⟨-, rfl, -⟩ | ⟨-, h₁⟩
    · exact halive
    · exact h.alive h₁

/-- One process changes, and nothing happens to the lock. -/
theorem quiet (h : LockInv d ps) (hq : ps[p]? = some q) (ho : q'.owns = q.owns)
    (halive : ∀ msg, q'.pc ≠ .failed msg) : LockInv d (ps.set p q') := by
  apply h.set hq _ h.mode halive
  rw [ho]

/-- **A system call of the two routines** keeps the invariant, if it is not a
superuser's `creat` of a file that is there. -/
theorem sys (h : LockInv d ps) (hq : ps[p]? = some q) {pt : Point} (hpc : q.pc = .lib pt)
    (hguard : q.root = true → pt = .creat_creat → d.entry TEMPFILE = none) :
    LockInv (pt.perform q.root d).1
      (ps.set p (World.complete q pt (pt.perform q.root d).2)) := by
  obtain ⟨root, pc⟩ := q
  obtain rfl : pc = .lib pt := hpc
  cases pt with
  | creat_creat =>
    cases hfile : d.entry TEMPFILE with
    | none =>
      rw [perform_creat_new hfile]
      apply h.set hq
      · rw [hfile, Dir.make_entry, Function.update_self]
        rfl
      · intro i hi
        rw [Dir.make_entry, Function.update_self] at hi
        cases hi
        simp [Dir.make]
      · intro msg
        exact nofun
    | some i =>
      -- the file is there, so the caller is not the superuser
      have hroot : root = false := by
        by_contra hroot
        have hnone := hguard (by simpa using hroot) rfl
        rw [hfile] at hnone
        cases hnone
      subst hroot
      rw [perform_creat_used hfile (h.mode hfile)]
      exact h.quiet hq rfl fun _ => nofun
  | creat_sleep => exact h.quiet hq rfl fun _ => nofun
  | creat_close => exact h.quiet hq rfl fun _ => nofun
  | creat_unlink =>
    obtain ⟨i, hi⟩ := h.own_file hq rfl
    obtain ⟨d', hd', hgone⟩ := perform_unlink root hi
    rw [hd']
    apply h.set hq
    · rw [hi, hgone]
      rfl
    · intro j hj
      rw [hgone] at hj
      cases hj
    · intro msg
      exact nofun

/-- Every step of the world keeps the invariant, under the same condition. -/
theorem step {w w' : World} {a : Act} (h : LockInv w.dir w.procs) (hguard : w.guarded a)
    (hs : w.step a = some w') : LockInv w'.dir w'.procs := by
  cases a with
  | spawn root =>
    cases hs
    refine ⟨?_, h.mode, ?_⟩
    · rw [List.countP_append, h.there]
      rfl
    · intro p q hq msg
      rcases getElem?_append_cases hq with ⟨-, rfl⟩ | hq
      · exact nofun
      · exact h.alive hq msg
  | my_creat_lock p =>
    simp only [World.step] at hs
    split at hs
    · rename_i q hq
      split_ifs at hs with hpc
      cases hs
      refine h.quiet hq ?_ fun _ => nofun
      rw [Proc.owns, Proc.owns, hpc]
    · cases hs
  | my_creat_unlock p =>
    simp only [World.step] at hs
    split at hs
    · rename_i q hq
      split_ifs at hs with hpc
      cases hs
      refine h.quiet hq ?_ fun _ => nofun
      rw [Proc.owns, Proc.owns, hpc]
    · cases hs
  | sys p =>
    simp only [World.step] at hs
    split at hs
    · rename_i q hq
      split at hs
      · rename_i pt hpc
        cases hs
        exact h.sys hq hpc fun hroot hpt => hguard q hq hroot (hpt ▸ hpc)
      · cases hs
    · cases hs

end LockInv

/-! ## In every run -/

/-- The invariant holds in every run in which no superuser gets to its `creat`
while the lock file is there. -/
theorem lockInv_of_reach {w : World} (h : machine.Reach World.guarded w) :
    LockInv w.dir w.procs := by
  apply h.invariant (I := fun w => LockInv w.dir w.procs)
  · rintro w ⟨hnone, hfile⟩
    refine ⟨?_, ?_, ?_⟩
    · rw [hnone, hfile]
      rfl
    · intro i hi
      rw [hfile] at hi
      cases hi
    · intro p q hq
      rw [hnone] at hq
      cases hq
  · intro w a w' _ hinv hguard hs
    exact hinv.step hguard hs

/-- The lock keeps its promise: at most one process is in its critical section,
and the `unlink` of an unlock removes the file. -/
structure Excludes (w : World) : Prop where
  one : w.procs.countP Proc.critical ≤ 1
  unlinks : ∀ (p : ℕ) (q : Proc), w.procs[p]? = some q → q.pc = .lib .creat_unlink →
    (Point.creat_unlink.perform q.root w.dir).2 = .ok ()

/-- **The `creat` lock excludes**, for any number of processes, in any
interleaving, as long as no superuser gets to its `creat` while the lock file is
there. -/
theorem creat_lock_excludes {w : World} (h : machine.Reach World.guarded w) : Excludes w := by
  have hinv := lockInv_of_reach h
  refine ⟨?_, ?_⟩
  · have hle : w.procs.countP Proc.critical ≤ w.procs.countP Proc.owns := by
      apply List.countP_mono_left
      intro q _ hcrit
      have hpc : q.pc = .critical := by simpa [Proc.critical] using hcrit
      rw [Proc.owns, hpc]
    have hone := hinv.there
    split_ifs at hone <;> omega
  · intro p q hq hpc
    obtain ⟨i, hi⟩ := hinv.own_file hq (by rw [Proc.owns, hpc])
    obtain ⟨d', hd', -⟩ := perform_unlink q.root hi
    rw [hd']

/-- An ordinary user and the superuser, one after the other. -/
theorem creat_lock_excludes_run :
    ∃ w, machine.Reach World.guarded w ∧
      w.procs = [⟨false, .lib .creat_sleep⟩, ⟨true, .critical⟩] ∧ Excludes w := by
  have hrun := Machine.Reach.run machine World.guarded (s := ⟨.empty, []⟩) ⟨rfl, rfl⟩
    [.spawn false, .spawn true, .my_creat_lock 0, .sys 0, .sys 0, .my_creat_unlock 0, .sys 0,
      .my_creat_lock 1, .sys 1, .my_creat_lock 0, .sys 0, .sys 1] (by decide +kernel)
  exact ⟨_, hrun, by decide +kernel, creat_lock_excludes hrun⟩

/-- **The superuser is not excluded.** An ordinary user has the lock; for the
superuser `creat` of the file succeeds all the same, and both are in their
critical sections. -/
theorem superuser_enters : ¬ ∀ w, machine.Reach (fun _ _ => True) w → Excludes w := by
  intro hall
  have hrun := Machine.Reach.run machine (fun _ _ => True) (s := ⟨.empty, []⟩) ⟨rfl, rfl⟩
    [.spawn false, .spawn true, .my_creat_lock 0, .sys 0, .sys 0, .my_creat_lock 1, .sys 1,
      .sys 1] (by decide +kernel)
  have hone := (hall _ hrun).one
  revert hone
  decide +kernel

/-- Whoever unlocks last ends in an error. -/
example : ∃ w, machine.Reach (fun _ _ => True) w ∧
    w.procs = [⟨false, .failed "unlink error for tempfile"⟩, ⟨true, .outside⟩] := by
  have hrun := Machine.Reach.run machine (fun _ _ => True) (s := ⟨.empty, []⟩) ⟨rfl, rfl⟩
    [.spawn false, .spawn true, .my_creat_lock 0, .sys 0, .sys 0, .my_creat_lock 1, .sys 1,
      .sys 1, .my_creat_unlock 1, .sys 1, .my_creat_unlock 0, .sys 0] (by decide +kernel)
  exact ⟨_, hrun, by decide +kernel⟩

end UnixNetProg.FileLock.CreatLock

/-
The children of a process: `fork`, `exit` and `wait`.

A child that has terminated stays until it is waited for, and so does its
process ID: no two children of a process have the same one, which the structure
carries. The signal that says that children have terminated is no part of this:
it says nothing about how many, so a count of those not yet waited for
(`zombies`) is what a handler has to be compared with.
-/
import Mathlib.Data.Fintype.EquivFin
import Mathlib.Data.List.Nodup
import Mathlib.Data.List.Perm.Basic
import Mathlib.Tactic.Common

set_option autoImplicit false

namespace UnixNetProg.Processes

/-- A child, with what it was forked for. -/
structure Child (τ : Type) where
  pid : ℕ
  job : τ
  live : Bool
  deriving DecidableEq, Repr

/-- The children that have not been waited for. -/
structure Children (τ : Type) where
  list : List (Child τ)
  nodup : (list.map (·.pid)).Nodup
  pos : ∀ c ∈ list, 0 < c.pid

namespace Children

variable {τ : Type}

instance : Membership (Child τ) (Children τ) := ⟨fun cs c => c ∈ cs.list⟩

theorem mem_def {cs : Children τ} {c : Child τ} : c ∈ cs ↔ c ∈ cs.list := Iff.rfl

def none : Children τ := ⟨[], List.nodup_nil, nofun⟩

/-- How many have terminated. -/
def zombies (cs : Children τ) : ℕ := cs.list.countP (!·.live)

/-- A new child; its process ID is nobody else's. -/
def fork (cs : Children τ) (pid : ℕ) (job : τ) : Option (Children τ) :=
  if h : 0 < pid ∧ pid ∉ cs.list.map (·.pid) then
    some
      { list := ⟨pid, job, true⟩ :: cs.list
        nodup := List.nodup_cons.2 ⟨h.2, cs.nodup⟩
        pos := List.forall_mem_cons.2 ⟨h.1, cs.pos⟩ }
  else .none

section Changes

variable [DecidableEq τ]

/-- A child terminates. -/
def exit (cs : Children τ) (c : Child τ) : Option (Children τ) :=
  if h : c ∈ cs.list ∧ c.live = true then
    some
      { list := { c with live := false } :: cs.list.erase c
        nodup := ((List.perm_cons_erase h.1).map (·.pid)).nodup_iff.1 cs.nodup
        pos := List.forall_mem_cons.2
          ⟨cs.pos c h.1, fun d hd => cs.pos d (List.mem_of_mem_erase hd)⟩ }
  else .none

/-- A child that has terminated is waited for, and its process ID is free. -/
def wait (cs : Children τ) (c : Child τ) : Option (Children τ) :=
  if c ∈ cs.list ∧ c.live = false then
    some
      { list := cs.list.erase c
        nodup := (List.erase_sublist.map Child.pid).nodup cs.nodup
        pos := fun d hd => cs.pos d (List.mem_of_mem_erase hd) }
  else .none

end Changes

variable {cs cs' : Children τ} {c d : Child τ} {pid : ℕ} {job : τ}

/-- The process ID says which child it is. -/
theorem eq_of_pid (hc : c ∈ cs) (hd : d ∈ cs) (h : c.pid = d.pid) : c = d :=
  List.inj_on_of_nodup_map cs.nodup hc hd h

/-- Without zombies all children are alive. -/
theorem live_of_zombies (h : cs.zombies = 0) (hc : c ∈ cs) : c.live = true := by
  have hno := List.countP_eq_zero.1 h c hc
  simpa using hno

theorem mem_fork (h : cs.fork pid job = some cs') : d ∈ cs' ↔ d = ⟨pid, job, true⟩ ∨ d ∈ cs := by
  unfold fork at h
  split_ifs at h
  cases h
  exact List.mem_cons

theorem zombies_fork (h : cs.fork pid job = some cs') : cs'.zombies = cs.zombies := by
  unfold fork at h
  split_ifs at h
  cases h
  simp [zombies]

/-- There is always a process ID that is free. -/
theorem exists_fork (cs : Children τ) (job : τ) : ∃ pid cs', cs.fork pid job = some cs' := by
  obtain ⟨pid, hpid⟩ := Infinite.exists_notMem_finset (0 :: cs.list.map (·.pid)).toFinset
  rw [List.mem_toFinset, List.mem_cons, not_or] at hpid
  exact ⟨pid, _, dif_pos ⟨Nat.pos_of_ne_zero hpid.1, hpid.2⟩⟩

variable [DecidableEq τ]

/-- A child is not among the others. -/
theorem mem_erase_iff (hc : c ∈ cs) : d ∈ cs.list.erase c ↔ d ∈ cs ∧ d.pid ≠ c.pid := by
  rw [cs.nodup.of_map.mem_erase_iff]
  constructor
  · rintro ⟨hne, hd⟩
    exact ⟨hd, fun hpid => hne (eq_of_pid hd hc hpid)⟩
  · rintro ⟨hd, hpid⟩
    exact ⟨fun heq => hpid (congrArg Child.pid heq), hd⟩

theorem of_exit (h : cs.exit c = some cs') : c ∈ cs ∧ c.live = true := by
  unfold exit at h
  split_ifs at h with hc
  exact hc

theorem mem_exit (h : cs.exit c = some cs') :
    d ∈ cs' ↔ d = { c with live := false } ∨ d ∈ cs ∧ d.pid ≠ c.pid := by
  have hc := (of_exit h).1
  unfold exit at h
  split_ifs at h
  cases h
  rw [← mem_erase_iff hc]
  exact List.mem_cons

theorem zombies_exit (h : cs.exit c = some cs') : cs'.zombies = cs.zombies + 1 := by
  obtain ⟨hc, hlive⟩ := of_exit h
  have hperm := (List.perm_cons_erase hc).countP_eq (!·.live)
  unfold exit at h
  split_ifs at h
  cases h
  simp only [zombies, hperm, List.countP_cons, hlive]
  simp

theorem of_wait (h : cs.wait c = some cs') : c ∈ cs ∧ c.live = false := by
  unfold wait at h
  split_ifs at h with hc
  exact hc

theorem mem_wait (h : cs.wait c = some cs') : d ∈ cs' ↔ d ∈ cs ∧ d.pid ≠ c.pid := by
  have hc := (of_wait h).1
  unfold wait at h
  split_ifs at h
  cases h
  exact mem_erase_iff hc

theorem zombies_wait (h : cs.wait c = some cs') : cs'.zombies + 1 = cs.zombies := by
  obtain ⟨hc, hlive⟩ := of_wait h
  have hperm := (List.perm_cons_erase hc).countP_eq (!·.live)
  unfold wait at h
  split_ifs at h
  cases h
  simp only [zombies, hperm, List.countP_cons, hlive]
  simp

end Children

end UnixNetProg.Processes

/-
Link locks and open locks exclude each other.

`LockInv` ties the directory to the processes: `LOCKFILE` is there if and only
if some process has made it and not removed it, and then it is that process's
file; a process has its temporary name exactly between `creat` and `unlink`.
That is enough for every call of the four routines to come out as it should:
`creat`, the two `unlink`s and `link` (but for `EEXIST`) never fail, and what an
unlock removes is the caller's own lock.

The programs may be any that take the lock when they do not have it and give it
back when they have it, by whichever of the two methods each time.
-/
import UnixNetProg.FileLock.Code
import UnixNetProg.Lib.Pool

set_option autoImplicit false

namespace UnixNetProg.FileLock

open UnixNetProg.Files UnixNetProg.Runs UnixNetProg.Stdio UnixNetProg.Pool

/-! ## Names -/

/-- The temporary name is not the name of the lock. -/
theorem tempfile_ne_LOCKFILE (pid : ℤ) : tempfile pid ≠ LOCKFILE := by
  intro h
  have hhead := congrArg List.head? h
  revert hhead
  unfold tempfile LOCKFILE
  simp

/-- Different processes have different temporary names. -/
theorem tempfile_injective {pid pid' : ℤ} (h : tempfile pid = tempfile pid') : pid = pid' :=
  sprintf_d_injective (List.append_cancel_left h)

/-! ## What the calls come to -/

section Perform

variable {d : Dir} {pid : ℤ} {root : Bool} {i : ℕ}

theorem perform_creat (h : d.entry (tempfile pid) = none) :
    Point.link_creat.perform pid root d = (d.make (tempfile pid) 0o444, .ok ()) := by
  simp only [Point.perform, Point.call, Dir.call, Dir.creat_new h]

theorem perform_open_new (h : d.entry LOCKFILE = none) :
    Point.open_open.perform pid root d = (d.make LOCKFILE PERMS, .ok ()) := by
  simp only [Point.perform, Point.call, Dir.call, Dir.openExcl_new h]

theorem perform_open_used (h : d.entry LOCKFILE = some i) :
    Point.open_open.perform pid root d = (d, .error .EEXIST) := by
  simp only [Point.perform, Point.call, Dir.call, Dir.openExcl_used h]

theorem perform_link_used {j : ℕ} (h : d.entry (tempfile pid) = some i)
    (h' : d.entry LOCKFILE = some j) :
    Point.link_link.perform pid root d = (d, .error .EEXIST) := by
  simp only [Point.perform, Point.call, Dir.call, Dir.link_used h h']

theorem perform_link_new (root : Bool) (h : d.entry (tempfile pid) = some i)
    (h' : d.entry LOCKFILE = none) :
    ∃ d', Point.link_link.perform pid root d = (d', .ok ()) ∧
      d'.entry = Function.update d.entry LOCKFILE (some i) := by
  obtain ⟨d', hd', he, -⟩ := Dir.link_new h h'
  exact ⟨d', by simp only [Point.perform, Point.call, Dir.call, hd'], he⟩

/-- Removing a name that is there. -/
theorem perform_unlink (root : Bool) {pt : Point} {name : Name}
    (hpt : pt.call pid = some (.unlink name))
    (h : d.entry name = some i) :
    ∃ d', pt.perform pid root d = (d', .ok ()) ∧ d'.entry = Function.update d.entry name none := by
  obtain ⟨d', hd', he, -⟩ := Dir.unlink_used h
  exact ⟨d', by simp only [Point.perform, hpt, Dir.call, hd'], he⟩

/-- `close` and `sleep`. -/
theorem perform_none {pt : Point} (hpt : pt.call pid = none) :
    pt.perform pid root d = (d, .ok ()) := by
  simp only [Point.perform, hpt]

end Perform

/-! ## The invariant -/

/-- The points at which a process has its temporary name. -/
def Point.temp : Point → Bool
  | .link_close | .link_link | .link_sleep | .link_unlink => true
  | _ => false

/-- The points at which a process has the lock. -/
def Point.owns : Point → Bool
  | .link_unlink | .open_close | .link_unlock | .open_unlock => true
  | _ => false

section Invariant

variable {U : Type}

/-- The process has its temporary name. -/
def Proc.temp (q : Proc U) : Bool :=
  match q.pc with
  | .lib pt => pt.temp
  | _ => false

/-- A process has the lock where its place says so. -/
def Proc.Wf (q : Proc U) : Prop :=
  match q.pc with
  | .lib pt => q.got.isSome = pt.owns
  | .user => True
  | _ => q.got = none

/-- The process has acquired the lock file and not unlinked it. -/
def Proc.owns (q : Proc U) : Bool := q.got.isSome

/-- The directory and the processes, in every reachable state. -/
structure LockInv (d : Dir) (ps : List (Proc U)) : Prop where
  wf : ∀ {p : ℕ} {q : Proc U}, ps[p]? = some q → q.Wf
  pids : ∀ {p p' : ℕ} {q q' : Proc U}, ps[p]? = some q → ps[p']? = some q' → q.live = true →
    q'.live = true → q.pid = q'.pid → p = p'
  temp : ∀ {p : ℕ} {q : Proc U}, ps[p]? = some q → q.temp = true →
    ∃ i, d.entry (tempfile q.pid) = some i
  mine : ∀ {pid : ℤ} {i : ℕ}, d.entry (tempfile pid) = some i →
    ∃ (p : ℕ) (q : Proc U), ps[p]? = some q ∧ q.temp = true ∧ q.pid = pid
  lock : ∀ {p : ℕ} {q : Proc U} {i : ℕ}, ps[p]? = some q → q.got = some i →
    d.entry LOCKFILE = some i
  held : ∀ {i : ℕ}, d.entry LOCKFILE = some i →
    ∃ (p : ℕ) (q : Proc U), ps[p]? = some q ∧ q.got = some i
  one : ps.countP Proc.owns ≤ 1

/-- A process that has a temporary name has not ended. -/
theorem Proc.live_of_temp {q : Proc U} (h : q.temp = true) : q.live = true := by
  unfold Proc.temp at h
  unfold Proc.live
  split at h
  · rename_i hpc
    rw [hpc]
  · cases h

namespace LockInv

variable {d d' : Dir} {ps : List (Proc U)} {p : ℕ} {q q' : Proc U} {i : ℕ}

/-- Two processes that have the lock are one. -/
theorem unique (h : LockInv d ps) {p' : ℕ} (hq : ps[p]? = some q) (hq' : ps[p']? = some q')
    (ho : q.owns = true) (ho' : q'.owns = true) : p = p' :=
  eq_of_countP_le_one _ h.one hq hq' ho ho'

/-- A process that is not past its `creat` finds no file of its name. -/
theorem no_temp (h : LockInv d ps) (hq : ps[p]? = some q) (hlive : q.live = true)
    (ht : q.temp = false) : d.entry (tempfile q.pid) = none := by
  cases he : d.entry (tempfile q.pid) with
  | none => rfl
  | some i =>
    obtain ⟨p', q', hq', ht', hpid⟩ := h.mine he
    obtain rfl := h.pids hq hq' hlive (Proc.live_of_temp ht') hpid.symm
    rw [hq] at hq'
    cases hq'
    rw [ht] at ht'
    cases ht'

/-- A process that has the lock knows whose file `LOCKFILE` is. -/
theorem own_file (h : LockInv d ps) (hq : ps[p]? = some q) (ho : q.owns = true) :
    ∃ i, q.got = some i ∧ d.entry LOCKFILE = some i := by
  obtain ⟨i, hi⟩ := Option.isSome_iff_exists.1 ho
  exact ⟨i, hi, h.lock hq hi⟩

/-- Where the lock file is not there, nobody has the lock. -/
theorem not_owns (h : LockInv d ps) (hnone : d.entry LOCKFILE = none) (hq : ps[p]? = some q) :
    q.got = none := by
  cases hg : q.got with
  | none => rfl
  | some i =>
    rw [h.lock hq hg] at hnone
    cases hnone

/-- What a step of one process may do to the name of the lock: nothing, take
it, or give it back. -/
inductive Move (d d' : Dir) (q q' : Proc U) : Prop
  | stay : q'.got = q.got → d'.entry LOCKFILE = d.entry LOCKFILE → Move d d' q q'
  | take (i : ℕ) : d.entry LOCKFILE = none → d'.entry LOCKFILE = some i → q'.got = some i →
      Move d d' q q'
  | give (i : ℕ) : q.got = some i → d'.entry LOCKFILE = none → q'.got = none → Move d d' q q'

/-- **One process takes a step**: its own temporary name follows its place, the
other temporary names stay, and the lock file moves as `Move` says. -/
theorem set (h : LockInv d ps) (hq : ps[p]? = some q) (hwf : q'.Wf) (hpid : q'.pid = q.pid)
    (hlive : q.live = true)
    (htemp : (d'.entry (tempfile q.pid)).isSome = q'.temp)
    (hother : ∀ pid, pid ≠ q.pid → d'.entry (tempfile pid) = d.entry (tempfile pid))
    (hmove : Move d d' q q') : LockInv d' (ps.set p q') where
  wf := fun hp => by
    rcases getElem?_set_cases hp with ⟨-, rfl, -⟩ | ⟨-, hp⟩
    · exact hwf
    · exact h.wf hp
  pids := fun {p₁ p₂ q₁ q₂} h₁ h₂ hl₁ hl₂ he => by
    -- the process that moved keeps its id, and was live before
    rcases getElem?_set_cases h₁ with ⟨rfl, rfl, -⟩ | ⟨-, old₁⟩
    · rcases getElem?_set_cases h₂ with ⟨rfl, -, -⟩ | ⟨-, old₂⟩
      · rfl
      · exact h.pids hq old₂ hlive hl₂ (hpid ▸ he)
    · rcases getElem?_set_cases h₂ with ⟨rfl, rfl, -⟩ | ⟨-, old₂⟩
      · exact h.pids old₁ hq hl₁ hlive (hpid ▸ he)
      · exact h.pids old₁ old₂ hl₁ hl₂ he
  temp := fun {p₁ q₁} h₁ ht => by
    rcases getElem?_set_cases h₁ with ⟨-, rfl, -⟩ | ⟨hne, h₁⟩
    · rw [hpid]
      rw [ht] at htemp
      exact Option.isSome_iff_exists.1 htemp
    · have hpid₁ : q₁.pid ≠ q.pid := fun he =>
        hne (h.pids h₁ hq (Proc.live_of_temp ht) hlive he)
      rw [hother _ hpid₁]
      exact h.temp h₁ ht
  mine := fun {pid i} he => by
    by_cases hp : pid = q.pid
    · subst hp
      rw [he, Option.isSome_some] at htemp
      exact ⟨p, q', List.getElem?_set_self (List.getElem?_eq_some_iff.1 hq).1, htemp.symm, hpid⟩
    · rw [hother _ hp] at he
      obtain ⟨p₁, q₁, h₁, ht, hpid₁⟩ := h.mine he
      have hne : p₁ ≠ p := by
        rintro rfl
        rw [hq] at h₁
        cases h₁
        exact hp hpid₁.symm
      exact ⟨p₁, q₁, by rw [List.getElem?_set_ne (fun e => hne e.symm)]; exact h₁, ht, hpid₁⟩
  lock := fun {p₁ q₁ i} h₁ hi => by
    rcases getElem?_set_cases h₁ with ⟨-, rfl, -⟩ | ⟨hne, h₁⟩
    · cases hmove with
      | stay hg hl => rw [hl]; exact h.lock hq (hg ▸ hi)
      | take j _ hl hg => rw [hl, ← hg, hi]
      | give j _ _ hg => rw [hg] at hi; cases hi
    · cases hmove with
      | stay hg hl => rw [hl]; exact h.lock h₁ hi
      | take j hnone _ _ => rw [h.not_owns hnone h₁] at hi; cases hi
      | give j hj _ _ =>
        exact absurd (h.unique h₁ hq (by simp [Proc.owns, hi]) (by simp [Proc.owns, hj])) hne
  held := fun {i} he => by
    have hself : (ps.set p q')[p]? = some q' :=
      List.getElem?_set_self (List.getElem?_eq_some_iff.1 hq).1
    cases hmove with
    | stay hg hl =>
      rw [hl] at he
      obtain ⟨p₁, q₁, h₁, hi⟩ := h.held he
      by_cases hp : p₁ = p
      · subst hp
        rw [hq] at h₁
        cases h₁
        exact ⟨p₁, q', hself, by rw [hg, hi]⟩
      · exact ⟨p₁, q₁, by rw [List.getElem?_set_ne (fun e => hp e.symm)]; exact h₁, hi⟩
    | take j _ hl hg =>
      rw [hl] at he
      exact ⟨p, q', hself, by rw [hg, he]⟩
    | give j _ hl _ =>
      rw [hl] at he
      cases he
  one := by
    have hcount := countP_set_add Proc.owns hq q'
    have hone := h.one
    cases hmove with
    | stay hg _ =>
      have hsame : q'.owns = q.owns := by rw [Proc.owns, hg, Proc.owns]
      rw [hsame] at hcount
      omega
    | take j hnone _ hg =>
      have hzero : ps.countP Proc.owns = 0 := by
        refine countP_eq_zero_of_forall _ fun p₁ q₁ h₁ => ?_
        rw [Proc.owns, h.not_owns hnone h₁]
        rfl
      have hq' : q'.owns.toNat ≤ 1 := Bool.toNat_le _
      omega
    | give j hj _ hg =>
      have hf : q'.owns = false := by rw [Proc.owns, hg]; rfl
      rw [hf, Bool.toNat_false] at hcount
      omega

/-- A step that leaves the directory as it is and changes neither what the
process has of the lock nor whether it has a temporary name. -/
theorem quiet (h : LockInv d ps) (hq : ps[p]? = some q) (hwf : q'.Wf) (hpid : q'.pid = q.pid)
    (hlive : q.live = true) (ht : q'.temp = q.temp) (hg : q'.got = q.got) :
    LockInv d (ps.set p q') := by
  refine h.set hq hwf hpid hlive ?_ (fun _ _ => rfl) (.stay hg rfl)
  rw [ht]
  cases htemp : q.temp with
  | false => rw [h.no_temp hq hlive htemp]; rfl
  | true =>
    obtain ⟨i, hi⟩ := h.temp hq htemp
    rw [hi]
    rfl

/-- A process starts, with an id of its own. -/
theorem append (h : LockInv d ps) (hpc : q'.pc = .user) (hg : q'.got = none)
    (hpid : ∀ q ∈ ps, q.live = true → q.pid ≠ q'.pid) : LockInv d (ps ++ [q']) where
  wf := fun hp => by
    rcases getElem?_append_cases hp with ⟨-, rfl⟩ | hp
    · simp only [Proc.Wf, hpc]
    · exact h.wf hp
  pids := fun {p₁ p₂ q₁ q₂} h₁ h₂ hl₁ hl₂ he => by
    rcases getElem?_append_cases h₁ with ⟨rfl, rfl⟩ | old₁
    · rcases getElem?_append_cases h₂ with ⟨rfl, -⟩ | old₂
      · rfl
      · exact absurd he.symm (hpid q₂ (List.mem_of_getElem? old₂) hl₂)
    · -- a live process has another id than the new one
      rcases getElem?_append_cases h₂ with ⟨-, rfl⟩ | old₂
      · exact absurd he (hpid q₁ (List.mem_of_getElem? old₁) hl₁)
      · exact h.pids old₁ old₂ hl₁ hl₂ he
  temp := fun hp ht => by
    rcases getElem?_append_cases hp with ⟨-, rfl⟩ | hp
    · simp [Proc.temp, hpc] at ht
    · exact h.temp hp ht
  mine := fun he => by
    obtain ⟨p₁, q₁, h₁, ht, hpid₁⟩ := h.mine he
    have hlt := (List.getElem?_eq_some_iff.1 h₁).1
    exact ⟨p₁, q₁, by rw [List.getElem?_append_left hlt]; exact h₁, ht, hpid₁⟩
  lock := fun hp hi => by
    rcases getElem?_append_cases hp with ⟨-, rfl⟩ | hp
    · rw [hg] at hi
      cases hi
    · exact h.lock hp hi
  held := fun he => by
    obtain ⟨p₁, q₁, h₁, hi⟩ := h.held he
    have hlt := (List.getElem?_eq_some_iff.1 h₁).1
    exact ⟨p₁, q₁, by rw [List.getElem?_append_left hlt]; exact h₁, hi⟩
  one := by
    rw [List.countP_append, List.countP_singleton, if_neg (by simp [Proc.owns, hg])]
    exact h.one

end LockInv

end Invariant

/-! ## Every step keeps it -/

section Steps

variable {S U C : Type} {P : Program S U C} {w w' : World S U} {a : Act U C} {d : Dir}
  {ps : List (Proc U)} {p : ℕ} {q : Proc U} {pt : Point}

/-- Either unlock removes the lock file, which is the caller's own. -/
theorem LockInv.unlock (h : LockInv d ps) (hq : ps[p]? = some q) (hpc : q.pc = .lib pt)
    (hpt : pt = .link_unlock ∨ pt = .open_unlock) :
    LockInv (pt.perform q.pid q.root d).1
        (ps.set p (World.complete P q pt (pt.perform q.pid q.root d).1
          (pt.perform q.pid q.root d).2)) ∧
      ∀ msg, pt.resume (pt.perform q.pid q.root d).2 ≠ .err_sys msg := by
  have hlive : q.live = true := by simp [Proc.live, hpc]
  have hcall : pt.call q.pid = some (.unlink LOCKFILE) := by rcases hpt with rfl | rfl <;> rfl
  have hown : q.owns = true := by
    have hwf := h.wf hq
    rw [Proc.Wf, hpc] at hwf
    rcases hpt with rfl | rfl <;> exact hwf
  have htemp : q.temp = false := by
    rw [Proc.temp, hpc]
    rcases hpt with rfl | rfl <;> rfl
  obtain ⟨i, hi, hl⟩ := h.own_file hq hown
  obtain ⟨d', hd', he⟩ := perform_unlink q.root hcall hl
  -- the lock file goes, and the caller gives up what it had
  have hdone : World.complete P q pt d' (.ok ()) =
      { q with got := none, pc := .user, user := P.ret q.user } := by
    rcases hpt with rfl | rfl <;> rfl
  rw [hd', hdone]
  have hne := tempfile_ne_LOCKFILE
  refine ⟨h.set hq trivial rfl hlive ?_ (fun pid _ => ?_) (.give i hi ?_ rfl), fun msg => ?_⟩
  · rw [he, Function.update_of_ne (hne _), h.no_temp hq hlive htemp]
    rfl
  · rw [he, Function.update_of_ne (hne _)]
  · rw [he, Function.update_self]
  · rcases hpt with rfl | rfl <;> simp [Point.resume]

/-- **A system call of the routines** keeps the invariant, and does not come to
an error that ends the process. -/
theorem LockInv.sys (h : LockInv d ps) (hq : ps[p]? = some q) (hpc : q.pc = .lib pt) :
    LockInv (pt.perform q.pid q.root d).1
        (ps.set p (World.complete P q pt (pt.perform q.pid q.root d).1
          (pt.perform q.pid q.root d).2)) ∧
      ∀ msg, pt.resume (pt.perform q.pid q.root d).2 ≠ .err_sys msg := by
  have hlive : q.live = true := by simp [Proc.live, hpc]
  have hgot : q.got.isSome = pt.owns := by
    have hwf := h.wf hq
    simpa only [Proc.Wf, hpc] using hwf
  have htempq : q.temp = pt.temp := by simp [Proc.temp, hpc]
  have hne := tempfile_ne_LOCKFILE
  cases pt with
  | link_creat =>
    -- nobody else makes a file of this name, so `creat` makes it
    rw [perform_creat (h.no_temp hq hlive htempq)]
    refine ⟨h.set hq (by exact hgot) rfl hlive ?_ (fun pid hpid => ?_) (.stay rfl ?_), by
      simp [Point.resume]⟩
    · rw [Dir.make_entry, Function.update_self]
      rfl
    · rw [Dir.make_entry, Function.update_of_ne fun e => hpid (tempfile_injective e)]
    · rw [Dir.make_entry, Function.update_of_ne (hne _).symm]
  | link_close =>
    rw [perform_none rfl]
    exact ⟨h.quiet hq (by exact hgot) rfl hlive htempq.symm rfl, by simp [Point.resume]⟩
  | link_link =>
    obtain ⟨i, hi⟩ := h.temp hq htempq
    cases hl : d.entry LOCKFILE with
    | some j =>
      -- somebody holds the lock
      rw [perform_link_used hi hl]
      refine ⟨?_, by simp [Point.resume]⟩
      exact h.quiet hq (by exact hgot) rfl hlive htempq.symm rfl
    | none =>
      -- the lock file is the one the caller has made
      obtain ⟨d', hd', he⟩ := perform_link_new q.root hi hl
      rw [hd']
      have hlock : d'.entry LOCKFILE = some i := by rw [he, Function.update_self]
      refine ⟨h.set hq ?_ rfl hlive ?_ (fun pid _ => ?_) (.take i hl hlock hlock), by
        simp [Point.resume]⟩
      · show (d'.entry LOCKFILE).isSome = true
        rw [hlock]
        rfl
      · rw [he, Function.update_of_ne (hne _), hi]
        rfl
      · rw [he, Function.update_of_ne (hne _)]
  | link_sleep =>
    rw [perform_none rfl]
    exact ⟨h.quiet hq (by exact hgot) rfl hlive htempq.symm rfl, by simp [Point.resume]⟩
  | link_unlink =>
    obtain ⟨i, hi⟩ := h.temp hq htempq
    obtain ⟨d', hd', he⟩ := perform_unlink q.root (rfl : Point.link_unlink.call _ = _) hi
    rw [hd']
    refine ⟨h.set hq trivial rfl hlive ?_ (fun pid hpid => ?_) (.stay rfl ?_), by
      simp [Point.resume]⟩
    · rw [he, Function.update_self]
      rfl
    · rw [he, Function.update_of_ne fun e => hpid (tempfile_injective e)]
    · rw [he, Function.update_of_ne (hne _).symm]
  | link_unlock => exact h.unlock hq hpc (.inl rfl)
  | open_unlock => exact h.unlock hq hpc (.inr rfl)
  | open_open =>
    have hnone := h.no_temp hq hlive htempq
    cases hl : d.entry LOCKFILE with
    | some j =>
      -- somebody holds the lock
      rw [perform_open_used hl]
      exact ⟨h.quiet hq (by exact hgot) rfl hlive htempq.symm rfl, by simp [Point.resume]⟩
    | none =>
      rw [perform_open_new hl]
      have hlock : (d.make LOCKFILE PERMS).entry LOCKFILE = some d.next := by
        rw [Dir.make_entry, Function.update_self]
      refine ⟨h.set hq ?_ rfl hlive ?_ (fun pid _ => ?_) (.take d.next hl hlock hlock), by
        simp [Point.resume]⟩
      · show ((d.make LOCKFILE PERMS).entry LOCKFILE).isSome = true
        rw [hlock]
        rfl
      · rw [Dir.make_entry, Function.update_of_ne (hne _), hnone]
        rfl
      · rw [Dir.make_entry, Function.update_of_ne (hne _)]
  | open_sleep =>
    rw [perform_none rfl]
    exact ⟨h.quiet hq (by exact hgot) rfl hlive htempq.symm rfl, by simp [Point.resume]⟩
  | open_close =>
    rw [perform_none rfl]
    exact ⟨h.quiet hq trivial rfl hlive htempq.symm rfl, by simp [Point.resume]⟩

/-- A piece of a process's own code keeps the invariant, if it keeps the
promise. -/
theorem LockInv.user (h : LockInv d ps) (hq : ps[p]? = some q) (hpc : q.pc = .user)
    {x : Does U} (hx : x.allowed q.got) : LockInv d (ps.set p (World.does q x)) := by
  have hlive : q.live = true := by simp [Proc.live, hpc]
  have htempq : q.temp = false := by simp [Proc.temp, hpc]
  cases x with
  | go u =>
    refine h.quiet hq ?_ rfl hlive rfl rfl
    simp only [World.does, Proc.Wf, hpc]
  | call r u =>
    refine h.quiet hq ?_ rfl hlive ?_ rfl
    · -- a routine that takes the lock starts without it, the other with it
      have hr : q.got.isSome = !r.locks := hx
      show q.got.isSome = r.start.owns
      rw [hr]
      cases r <;> rfl
    · rw [htempq]
      cases r <;> rfl
  | exit => exact h.quiet hq hx rfl hlive htempq.symm rfl
  | err_sys msg => exact h.quiet hq hx rfl hlive htempq.symm rfl

/-- **The invariant is kept by every step** of programs that keep their
promise. -/
theorem LockInv.step (h : LockInv w.dir w.procs) (hk : w.keeps P a)
    (hs : w.step P a = some w') : LockInv w'.dir w'.procs := by
  cases a with
  | spawn pid root u =>
    obtain ⟨hok, rfl⟩ := World.of_step_spawn hs
    exact h.append rfl rfl hok.2
  | user p c =>
    obtain ⟨q, s, d, hq, hpc, hstep, rfl⟩ := World.of_step_user hs
    exact h.user hq hpc (hk q hq (s, d) hstep)
  | sys p =>
    obtain ⟨q, pt, hq, hpc, rfl⟩ := World.of_step_sys hs
    exact (h.sys hq hpc).1

/-- The invariant holds at the start. -/
theorem LockInv.init {start : World S U → Prop} (h : (machine P start).init w) :
    LockInv w.dir w.procs := by
  obtain ⟨-, hlock, htemp, huser, hpids⟩ := h
  have hget : ∀ {p : ℕ} {q : Proc U}, w.procs[p]? = some q → q.pc = .user ∧ q.got = none :=
    fun hq => huser _ (List.mem_of_getElem? hq)
  refine ⟨fun hq => ?_, fun {p p' q q'} hq hq' _ _ he => ?_, fun hq ht => ?_, fun he => ?_,
    fun hq hi => ?_, fun he => ?_, ?_⟩
  · simp only [Proc.Wf, (hget hq).1]
  · -- ids are distinct in a list of pairwise distinct ids
    by_contra hne
    obtain ⟨hlt, rfl⟩ := List.getElem?_eq_some_iff.1 hq
    obtain ⟨hlt', rfl⟩ := List.getElem?_eq_some_iff.1 hq'
    rcases Nat.lt_or_gt_of_ne hne with hpp | hpp
    · exact List.pairwise_iff_getElem.1 hpids p p' hlt hlt' hpp he
    · exact List.pairwise_iff_getElem.1 hpids p' p hlt' hlt hpp he.symm
  · simp [Proc.temp, (hget hq).1] at ht
  · rw [htemp] at he
    cases he
  · rw [(hget hq).2] at hi
    cases hi
  · rw [hlock] at he
    cases he
  · rw [countP_eq_zero_of_forall Proc.owns fun p q hq => by rw [Proc.owns, (hget hq).2]; rfl]
    exact Nat.zero_le _

/-- The invariant holds in every reachable state. -/
theorem lockInv_of_reach {start : World S U → Prop} {ok : World S U → Act U C → Prop}
    (hok : ∀ w a, ok w a → w.keeps P a) (h : (machine P start).Reach ok w) :
    LockInv w.dir w.procs := by
  apply h.invariant (I := fun w => LockInv w.dir w.procs) (fun w hw => LockInv.init hw)
  intro w a w' _ hinv hwa hstep
  exact hinv.step (hok w a hwa) hstep

end Steps

/-! ## Mutual exclusion -/

/-- The process is between the return of its lock call and its unlock call. -/
def Proc.critical {U : Type} (q : Proc U) : Bool := q.pc == .user && q.owns

/-- The process is inside `my_link_lock`. -/
def Proc.linking {U : Type} (q : Proc U) : Bool :=
  match q.pc with
  | .lib .link_creat | .lib .link_close | .lib .link_link | .lib .link_sleep
  | .lib .link_unlink => true
  | _ => false

section Results

variable {S U C : Type} {P : Program S U C} {start : World S U → Prop} {w : World S U}

/-- **Link locks and open locks exclude each other.** For any number of
processes that take the lock by `my_link_lock` or `my_open_lock` and give it
back by either unlock, in any interleaving of their calls: at most one of them
is in its critical section; `LOCKFILE` exists if and only if some process has
acquired it and not unlinked it; an unlock removes the lock file its caller has
acquired, while nobody else has one; and no temporary name is left when nobody
is inside `my_link_lock`. -/
theorem locks_exclude (h : (machine P start).Reach (World.keeps P) w) :
    w.procs.countP Proc.critical ≤ 1 ∧
    ((w.dir.entry LOCKFILE).isSome = true ↔ ∃ q ∈ w.procs, q.owns = true) ∧
    (∀ (p : ℕ) (q : Proc U) (pt : Point), w.procs[p]? = some q → q.pc = .lib pt →
      pt = .link_unlock ∨ pt = .open_unlock → ∃ i, q.got = some i ∧ w.dir.entry LOCKFILE = some i ∧
        ∀ (p' : ℕ) (q' : Proc U), w.procs[p']? = some q' → p' ≠ p → q'.got = none) ∧
    ((∀ q ∈ w.procs, q.linking = false) → ∀ pid, w.dir.entry (tempfile pid) = none) := by
  have hinv := lockInv_of_reach (fun _ _ hk => hk) h
  refine ⟨?_, ?_, fun p q pt hq hpc hpt => ?_, fun hnone pid => ?_⟩
  · -- a process in its critical section has the lock
    refine Nat.le_trans (List.countP_mono_left fun q _ hcrit => ?_) hinv.one
    exact (Bool.and_eq_true_iff.1 hcrit).2
  · constructor
    · intro hsome
      obtain ⟨i, hi⟩ := Option.isSome_iff_exists.1 hsome
      obtain ⟨p, q, hq, hg⟩ := hinv.held hi
      exact ⟨q, List.mem_of_getElem? hq, by simp [Proc.owns, hg]⟩
    · rintro ⟨q, hmem, ho⟩
      obtain ⟨p, hq⟩ := List.mem_iff_getElem?.1 hmem
      obtain ⟨i, -, hi⟩ := hinv.own_file hq ho
      rw [hi]
      rfl
  · have hwf := hinv.wf hq
    have ho : q.owns = true := by
      rw [Proc.Wf, hpc] at hwf
      rcases hpt with rfl | rfl <;> exact hwf
    obtain ⟨i, hg, hi⟩ := hinv.own_file hq ho
    refine ⟨i, hg, hi, fun p' q' hq' hne => ?_⟩
    cases hg' : q'.got with
    | none => rfl
    | some j => exact absurd (hinv.unique hq' hq (by simp [Proc.owns, hg']) ho) hne
  · cases he : w.dir.entry (tempfile pid) with
    | none => rfl
    | some i =>
      obtain ⟨p, q, hq, ht, -⟩ := hinv.mine he
      have hlink := hnone q (List.mem_of_getElem? hq)
      -- a temporary file belongs to somebody who is linking
      unfold Proc.temp at ht
      split at ht
      · rename_i pt hpc
        cases pt <;> simp_all [Proc.linking, Point.temp]
      · cases ht

/-- No call of the four routines ends the process: `creat`, `link` and the
`unlink`s do not fail, but for a lock file that is already there. -/
theorem routines_never_fail (h : (machine P start).Reach (World.keeps P) w) {p : ℕ} {q : Proc U}
    {pt : Point} (hq : w.procs[p]? = some q) (hpc : q.pc = .lib pt) (msg : String) :
    pt.resume (pt.perform q.pid q.root w.dir).2 ≠ .err_sys msg :=
  ((lockInv_of_reach (fun _ _ hk => hk) h).sys (P := P) hq hpc).2 msg

end Results

/-- The program that calls the routines it is given, in order, and exits. -/
def script : Program Unit (List Routine) Unit where
  entry := fun _ => true
  step := fun _ _ rs _ =>
    match rs with
    | [] => some ((), .exit)
    | r :: rs => some ((), .call r rs)
  ret := id

/-- Two processes that take the lock once each, one by either method. -/
def twoMethods : World Unit (List Routine) where
  dir := .empty
  shared := ()
  procs := [⟨101, false, [.my_link_lock, .my_link_unlock], none, .user⟩,
    ⟨202, false, [.my_open_lock, .my_open_unlock], none, .user⟩]

/-- One process has the lock by a link, the other one finds the name there and
sleeps. -/
theorem locks_exclude_run :
    ∃ w, (machine script (· = twoMethods)).Reach (World.keeps script) w ∧
      w.procs.map (fun q => (q.pc, q.owns)) = [(.user, true), (.lib .open_sleep, false)] ∧
      w.procs.countP Proc.critical ≤ 1 ∧
      ∀ pid, w.dir.entry (tempfile pid) = none := by
  have hrun := Machine.Reach.run (machine script (· = twoMethods)) (World.keeps script)
    (s := twoMethods)
    ⟨rfl, rfl, fun _ => rfl, by decide +kernel, by decide +kernel⟩
    [.user 0 (), .sys 0, .sys 0, .user 1 (), .sys 0, .sys 1, .sys 0] (by decide +kernel)
  obtain ⟨hone, -, -, htemp⟩ := locks_exclude hrun
  exact ⟨_, hrun, by decide +kernel, hone, htemp (by decide +kernel)⟩

end UnixNetProg.FileLock

/-
The numbers that `9_semaphores/main.c` prints, when processes may die anywhere.

`sem_signal` is undone for a process that dies, so the others go on. What the dead process
did in its critical section is not undone: if it has printed a number and not written the
next one, the next process prints the same number again.

`seqno_numbers` says that this is all that goes wrong. The file always reads as some
number `n`; the numbers printed never get smaller; and each number is printed once by the
process that put the next one in the file, and otherwise only by processes that have not
done that, of which all but one are dead.
-/
import UnixNetProg.Semaphore.SeqNo

set_option autoImplicit false

namespace UnixNetProg.Semaphore

open UnixNetProg.SysV UnixNetProg.Runs UnixNetProg.Pool UnixNetProg.Stdio
open UnixNetProg.Files (fread fwrite fread_zero fwrite_zero length_fwrite_zero)

/-! ## What a process owes -/

/-- The number that has been printed and not yet replaced in the file. A process that dies
still owes it. -/
def SeqNo.owed (u : SeqNo) : Option ℤ :=
  match u.stage with
  | .format => some u.seqno
  | .again | .write => some (u.seqno - 1)
  | _ => none

/-- The process has printed `v` and not written the number after it. -/
def Proc.owes (v : ℤ) (q : Proc SeqNo) : Bool := q.user.owed == some v

/-- The statements at which a process knows what is in the file. -/
def Stage.deep : Stage → Bool
  | .read | .scan | .print | .format | .again | .write => true
  | _ => false

/-- What the local variables are worth while the file reads as `n`. -/
def SeqNo.Facts (n : ℤ) (u : SeqNo) : Prop :=
  match u.stage with
  | .read => u.off = 0
  | .scan => sscanf_d u.buff = some n
  | .print | .format => u.seqno = n
  | .again => u.seqno = n + 1 ∧ u.buff = sprintf_0d 3 (n + 1) ++ ['\n']
  | .write => u.off = 0 ∧ u.seqno = n + 1 ∧ u.buff = sprintf_0d 3 (n + 1) ++ ['\n']
  | _ => True

/-- What holds of a process: inside a routine it has read nothing. -/
def Proc.Knows (n : ℤ) (q : Proc SeqNo) : Prop :=
  match q.pc with
  | .user => q.user.Facts n
  | .lib .. => q.user.stage.deep = false
  | .dead => True

theorem SeqNo.Facts.shallow {u : SeqNo} (n : ℤ) (h : u.stage.deep = false) : u.Facts n := by
  unfold SeqNo.Facts
  revert h
  cases u.stage <;> simp [Stage.deep]

theorem SeqNo.owed_shallow {u : SeqNo} (h : u.stage.deep = false) : u.owed = none := by
  unfold SeqNo.owed
  revert h
  cases u.stage <;> simp [Stage.deep]

/-- A routine is called, and returns, where nothing has been read. -/
theorem deep_call {s s' : SeqFile} {u u' : SeqNo} {c : Call}
    (hs : seq_step s u = some (s', .call c u')) :
    s' = s ∧ u.stage.deep = false ∧ u'.stage.deep = false := by
  obtain ⟨stage, pid, i, off, buff, seqno, semid⟩ := u
  cases stage <;> simp only [seq_step] at hs <;> (try split at hs) <;> (try split_ifs at hs) <;>
    cases hs <;> exact ⟨rfl, rfl, rfl⟩

theorem stage_ret (u : SeqNo) (v : ℤ) : (main.ret u v).stage = u.stage := by
  obtain ⟨stage, pid, i, off, buff, seqno, semid⟩ := u
  cases stage <;> rfl

/-- The statement that ends the program leaves the file and the output alone. -/
theorem shared_quit {s s' : SeqFile} {u : SeqNo} {d : Does SeqNo}
    (hs : seq_step s u = some (s', d)) (hd : ∀ u', d ≠ .go u') : s' = s := by
  obtain ⟨stage, pid, i, off, buff, seqno, semid⟩ := u
  cases stage <;> simp only [seq_step] at hs <;> (try split at hs) <;> (try split_ifs at hs) <;>
    cases hs <;> first | rfl | exact absurd rfl (hd _)

/-! ## The invariant -/

/-- The file reads as `n`, having started at `s`; `printed` accounts for everything that has
been printed. -/
structure Numbers (s n : ℤ) (w : World SeqFile SeqNo) : Prop where
  le : s ≤ n
  file : ∃ data, w.shared.seqfile = some data ∧ data.length < MAXBUFF ∧ sscanf_d data = some n
  knows : ∀ {p : ℕ} {q : Proc SeqNo}, w.procs[p]? = some q → q.Knows n
  printed : ∀ v, (w.shared.out.map Prod.snd).count v =
    (if s ≤ v ∧ v < n then 1 else 0) + w.procs.countP (Proc.owes v)
  order : (w.shared.out.map Prod.snd).Pairwise (· ≤ ·)
  most : ∀ v ∈ w.shared.out.map Prod.snd, v ≤ n

namespace Numbers

variable {s n : ℤ} {w w' : World SeqFile SeqNo} {p : ℕ} {q q' : Proc SeqNo}

/-- A step that neither prints nor writes. -/
theorem quiet (h : Numbers s n w) (hq : w.procs[p]? = some q) (hshared : w'.shared = w.shared)
    (hp : w'.procs = w.procs.set p q') (hknows : q'.Knows n)
    (howed : q'.user.owed = q.user.owed) : Numbers s n w' where
  le := h.le
  file := hshared ▸ h.file
  knows := fun hp' => by
    rw [hp] at hp'
    rcases getElem?_set_cases hp' with ⟨-, rfl, -⟩ | ⟨-, hp'⟩
    · exact hknows
    · exact h.knows hp'
  printed := fun v => by
    have hcount := countP_set_add (Proc.owes v) hq q'
    have hsame : q'.owes v = q.owes v := by rw [Proc.owes, howed, Proc.owes]
    rw [hsame] at hcount
    rw [hshared, hp, h.printed v]
    omega
  order := hshared ▸ h.order
  most := hshared ▸ h.most

/-- A process is added that has read nothing. -/
theorem append (h : Numbers s n w) (hshared : w'.shared = w.shared)
    (hp : w'.procs = w.procs ++ [q']) (hknows : q'.Knows n) (howed : q'.user.owed = none) :
    Numbers s n w' where
  le := h.le
  file := hshared ▸ h.file
  knows := fun hp' => by
    rw [hp] at hp'
    rcases getElem?_append_cases hp' with ⟨-, rfl⟩ | hp'
    · exact hknows
    · exact h.knows hp'
  printed := fun v => by
    have hnone : q'.owes v = false := by rw [Proc.owes, howed]; rfl
    rw [hshared, hp, List.countP_append, List.countP_singleton, hnone, h.printed v]
    simp
  order := hshared ▸ h.order
  most := hshared ▸ h.most

/-- **A process prints the number the file reads as**, and owes it. -/
theorem print (h : Numbers s n w) (hq : w.procs[p]? = some q) {pid : ℤ}
    (hshared : w'.shared = { w.shared with out := w.shared.out ++ [(pid, n)] })
    (hp : w'.procs = w.procs.set p q') (hknows : q'.Knows n) (hold : q.user.owed = none)
    (hnew : q'.user.owed = some n) : Numbers s n w' where
  le := h.le
  file := hshared ▸ h.file
  knows := fun hp' => by
    rw [hp] at hp'
    rcases getElem?_set_cases hp' with ⟨-, rfl, -⟩ | ⟨-, hp'⟩
    · exact hknows
    · exact h.knows hp'
  printed := fun v => by
    have hcount := countP_set_add (Proc.owes v) hq q'
    have hbefore : q.owes v = false := by rw [Proc.owes, hold]; rfl
    have hafter : q'.owes v = decide (n = v) := by
      rw [Proc.owes, hnew]
      by_cases hv : n = v <;> simp [hv]
    rw [hbefore, hafter, Bool.toNat_false] at hcount
    have hout := h.printed v
    simp only [hshared, hp, List.map_append, List.map_cons, List.map_nil, List.count_append,
      List.count_singleton]
    by_cases hv : n = v
    · simp only [hv, decide_true, Bool.toNat_true, beq_self_eq_true, if_true] at hcount hout ⊢
      omega
    · simp only [hv, decide_false, Bool.toNat_false, beq_iff_eq, if_false] at hcount ⊢
      omega
  order := by
    simp only [hshared, List.map_append, List.map_cons, List.map_nil]
    rw [List.pairwise_append]
    exact ⟨h.order, List.pairwise_singleton _ _, fun v hv u hu => by
      rw [List.mem_singleton.1 hu]
      exact h.most v hv⟩
  most := by
    simp only [hshared, List.map_append, List.map_cons, List.map_nil]
    intro v hv
    rcases List.mem_append.1 hv with hv | hv
    · exact h.most v hv
    · exact (List.mem_singleton.1 hv).le

/-- **A process writes the number that comes next**, and owes nothing any more. Nobody else
has read the number that is replaced. -/
theorem write (h : Numbers s n w) (hq : w.procs[p]? = some q) {data : List Char}
    (hs : 0 ≤ s) (hmax : n < INT_MAX) (hdata : w.shared.seqfile = some data)
    (hshared : w'.shared =
      { w.shared with seqfile := some (fwrite data 0 (sprintf_0d 3 (n + 1) ++ ['\n'])) })
    (hp : w'.procs = w.procs.set p q') (hknows : q'.Knows (n + 1)) (hold : q.user.owed = some n)
    (hnew : q'.user.owed = none)
    (hothers : ∀ {p' : ℕ} {q₁ : Proc SeqNo}, p' ≠ p → w.procs[p']? = some q₁ →
      q₁.Knows (n + 1)) : Numbers s (n + 1) w' where
  le := h.le.trans (by omega)
  file := by
    obtain ⟨data', hdata', hlen, -⟩ := h.file
    obtain rfl : data = data' := Option.some.inj (hdata.symm.trans hdata')
    have hle := h.le
    have hline := length_sprintf_0d_le 3 (v := n + 1) (by omega) (by omega)
    refine ⟨_, congrArg SeqFile.seqfile hshared, ?_, ?_⟩
    · rw [length_fwrite_zero, List.length_append, List.length_singleton]
      simp only [MAXBUFF] at hlen ⊢
      omega
    · rw [fwrite_zero, List.append_assoc]
      exact sscanf_d_sprintf_0d 3 _ _ (by simp)
  knows := fun hp' => by
    rw [hp] at hp'
    rcases getElem?_set_cases hp' with ⟨-, rfl, -⟩ | ⟨hne, hp'⟩
    · exact hknows
    · exact hothers hne hp'
  printed := fun v => by
    have hcount := countP_set_add (Proc.owes v) hq q'
    have hbefore : q.owes v = decide (n = v) := by
      rw [Proc.owes, hold]
      by_cases hv : n = v <;> simp [hv]
    have hafter : q'.owes v = false := by rw [Proc.owes, hnew]; rfl
    rw [hbefore, hafter, Bool.toNat_false] at hcount
    have hout := h.printed v
    have hle := h.le
    simp only [hshared, hp]
    by_cases hv : n = v
    · subst hv
      simp only [decide_true, Bool.toNat_true] at hcount
      rw [if_neg (by omega)] at hout
      rw [if_pos (by omega)]
      omega
    · -- the numbers other than `n` are where they were
      simp only [hv, decide_false, Bool.toNat_false] at hcount
      have hiff : (s ≤ v ∧ v < n + 1) ↔ s ≤ v ∧ v < n := by omega
      simp only [hiff]
      omega
  order := by
    simp only [hshared]
    exact h.order
  most := by
    simp only [hshared]
    exact fun v hv => (h.most v hv).trans (by omega)

end Numbers

/-! ## One step -/

section Step

variable {s n : ℤ} {w w' : World SeqFile SeqNo} {a : Act SeqNo Unit} {p : ℕ} {q : Proc SeqNo}

/-- The number in the file can still be counted on in an `int`. -/
def inRange (w : World SeqFile SeqNo) : Prop :=
  ∀ data ∈ w.shared.seqfile, ∀ v ∈ sscanf_d data, v < INT_MAX

instance (w : World SeqFile SeqNo) : Decidable (inRange w) :=
  inferInstanceAs (Decidable (∀ data ∈ w.shared.seqfile, ∀ v ∈ sscanf_d data, v < INT_MAX))

/-- A process that has read the file and is alive is in its critical section. -/
theorem critical_of_deep (hpc : q.pc = .user) (hdeep : q.user.stage.deep = true) :
    q.critical = true := by
  simp only [Proc.critical, hpc]
  revert hdeep
  cases q.user.stage <;> decide

/-- Where one process has read the file, the others have not. -/
theorem Numbers.others (h : Numbers s n w) (hone : w.procs.countP Proc.critical ≤ 1)
    (hq : w.procs[p]? = some q) (hpc : q.pc = .user) (hdeep : q.user.stage.deep = true)
    (m : ℤ) {p' : ℕ} {q₁ : Proc SeqNo} (hne : p' ≠ p) (hq₁ : w.procs[p']? = some q₁) :
    q₁.Knows m := by
  have hknows := h.knows hq₁
  unfold Proc.Knows at hknows ⊢
  cases hpc₁ : q₁.pc with
  | user =>
    apply SeqNo.Facts.shallow
    by_contra hdeep₁
    have hc₁ := critical_of_deep hpc₁ (by simpa using hdeep₁)
    exact hne (eq_of_countP_le_one _ hone hq₁ hq hc₁ (critical_of_deep hpc hdeep))
  | lib key pt asleep =>
    rw [hpc₁] at hknows
    exact hknows
  | dead => trivial

/-- **A statement of `main` that stays in its own code.** -/
theorem Numbers.own {u : SeqNo} (h : Numbers s n w) (hone : w.procs.countP Proc.critical ≤ 1)
    (hs : 0 ≤ s) (hmax : n < INT_MAX) (hq : w.procs[p]? = some q) (hpc : q.pc = .user)
    (hstep : seq_step w.shared q.user = some (w'.shared, .go u))
    (hp : w'.procs = w.procs.set p { q with user := u }) : ∃ m, Numbers s m w' := by
  have hknows := h.knows hq
  rw [Proc.Knows, hpc] at hknows
  have hothers : q.user.stage.deep = true → ∀ {p' : ℕ} {q₁ : Proc SeqNo}, p' ≠ p →
      w.procs[p']? = some q₁ → q₁.Knows (n + 1) :=
    fun hdeep => h.others hone hq hpc hdeep (n + 1)
  obtain ⟨data, hdata, hlen, hscan⟩ := h.file
  obtain ⟨⟨stage, pid, i, off, buff, seqno, semid⟩, held, pc⟩ := q
  obtain rfl : pc = .user := hpc
  simp only at hstep hp hothers
  generalize hshared : w'.shared = after at hstep
  cases stage <;> simp only [seq_step, hdata] at hstep
  case «open» =>
    cases hstep
    exact ⟨n, h.quiet hq hshared hp trivial rfl⟩
  case check =>
    split_ifs at hstep
    · cases hstep
    · cases hstep
      exact ⟨n, h.quiet hq hshared hp trivial rfl⟩
  case test => split_ifs at hstep <;> cases hstep
  case lseek =>
    cases hstep
    exact ⟨n, h.quiet hq hshared hp rfl rfl⟩
  case read =>
    obtain rfl : off = 0 := hknows
    rw [fread_zero hlen.le] at hstep
    split_ifs at hstep
    · cases hstep
    · cases hstep
      exact ⟨n, h.quiet hq hshared hp hscan rfl⟩
  case scan =>
    have hread : sscanf_d buff = some n := hknows
    rw [hread] at hstep
    cases hstep
    exact ⟨n, h.quiet hq hshared hp rfl rfl⟩
  case print =>
    obtain rfl : seqno = n := hknows
    cases hstep
    rw [← hdata] at hshared
    exact ⟨_, h.print hq hshared hp rfl rfl rfl⟩
  case format =>
    obtain rfl : seqno = n := hknows
    cases hstep
    refine ⟨_, h.quiet hq hshared hp ⟨rfl, rfl⟩ ?_⟩
    simp [SeqNo.owed]
  case again =>
    cases hstep
    exact ⟨n, h.quiet hq hshared hp ⟨rfl, hknows⟩ rfl⟩
  case write =>
    obtain ⟨rfl, rfl, rfl⟩ : off = 0 ∧ seqno = n + 1 ∧ buff = sprintf_0d 3 (n + 1) ++ ['\n'] :=
      hknows
    cases hstep
    refine ⟨n + 1, h.write hq hs hmax hdata hshared hp trivial ?_ rfl (hothers rfl)⟩
    simp [SeqNo.owed]
  all_goals cases hstep

/-- **A step keeps the account.** -/
theorem Numbers.step (h : Numbers s n w) (hone : w.procs.countP Proc.critical ≤ 1)
    (hs : 0 ≤ s) (hmax : n < INT_MAX) (hstep : w.step main a = some w') :
    ∃ m, Numbers s m w' := by
  have hlib : ∀ {p : ℕ} {q : Proc SeqNo} {key : ℤ} {pt : Point} {asleep : Bool},
      w.procs[p]? = some q → q.pc = .lib key pt asleep → q.user.stage.deep = false := by
    intro p q key pt asleep hq hpc
    have hknows := h.knows hq
    rwa [Proc.Knows, hpc] at hknows
  cases World.step_moves hstep with
  | spawn u hu _ hshared hp =>
    have hst : u.stage = .open := by simpa [main] using hu
    have hshallow : u.stage.deep = false := by rw [hst]; rfl
    exact ⟨n, h.append hshared hp (SeqNo.Facts.shallow n hshallow) (SeqNo.owed_shallow hshallow)⟩
  | die p q _ hq _ _ hshared hp => exact ⟨n, h.quiet hq hshared hp trivial rfl⟩
  | quit p q c d _ hq hpc hmain hgo _ _ hp =>
    exact ⟨n, h.quiet hq (shared_quit hmain hgo) hp trivial rfl⟩
  | own p q c u _ hq hpc hmain _ hp => exact h.own hone hs hmax hq hpc hmain hp
  | enter p q c call u pt _ hq hpc hmain _ _ hp =>
    obtain ⟨hshared, hold, hnew⟩ := deep_call hmain
    exact ⟨n, h.quiet hq hshared hp hnew
      ((SeqNo.owed_shallow hnew).trans (SeqNo.owed_shallow hold).symm)⟩
  | straight p q c call u v _ hq hpc hmain _ _ hp =>
    obtain ⟨hshared, hold, hnew⟩ := deep_call hmain
    have hret : (main.ret u v).stage.deep = false := by rw [stage_ret]; exact hnew
    refine ⟨n, h.quiet hq hshared hp ?_
      ((SeqNo.owed_shallow hret).trans (SeqNo.owed_shallow hold).symm)⟩
    rw [Proc.Knows, hpc]
    exact SeqNo.Facts.shallow n hret
  | sleep p q key pt _ hq hpc _ _ hshared hp =>
    have hshallow := hlib hq hpc
    exact ⟨n, h.quiet hq hshared hp hshallow rfl⟩
  | goto p q key pt pt' asleep sl r _ hq hpc _ _ _ hshared hp =>
    have hshallow := hlib hq hpc
    exact ⟨n, h.quiet hq hshared hp hshallow rfl⟩
  | ret p q key pt asleep sl r v _ hq hpc _ _ _ hshared hp =>
    have hold := hlib hq hpc
    have hret : (main.ret q.user v).stage.deep = false := by rw [stage_ret]; exact hold
    exact ⟨n, h.quiet hq hshared hp (SeqNo.Facts.shallow n hret)
      ((SeqNo.owed_shallow hret).trans (SeqNo.owed_shallow hold).symm)⟩
  | fails p q key pt asleep r _ hq _ _ _ _ hshared hp =>
    exact ⟨n, h.quiet hq hshared hp trivial rfl⟩

end Step

/-! ## Every run -/

section Runs

variable {data : List Char} {s : ℤ} {w : World SeqFile SeqNo}

/-- Fewer than `BIGCOUNT` processes at a time, and numbers that an `int` holds. -/
def belowBigcountInRange (w : World SeqFile SeqNo) (a : Act SeqNo Unit) : Prop :=
  aliveBelowBigcount w a ∧ inRange w

instance (w : World SeqFile SeqNo) (a : Act SeqNo Unit) : Decidable (belowBigcountInRange w a) :=
  inferInstanceAs (Decidable (_ ∧ _))

theorem numbers_of_reach (hs : 0 ≤ s) (hlen : data.length < MAXBUFF)
    (hscan : sscanf_d data = some s)
    (h : (machine main ⟨some data, []⟩ []).Reach belowBigcountInRange w) : ∃ n, Numbers s n w := by
  apply h.invariant (I := fun w => ∃ n, Numbers s n w)
  · rintro w rfl
    refine ⟨s, le_rfl, ⟨data, rfl, hlen, hscan⟩, fun hp => ?_, fun v => ?_, .nil, nofun⟩
    · cases hp
    · have hnot : ¬ (s ≤ v ∧ v < s) := by omega
      rw [if_neg hnot]
      rfl
  · rintro w a w' hw ⟨n, hn⟩ ⟨-, hrange⟩ hstep
    obtain ⟨data', hdata', -, hscan'⟩ := hn.file
    have hone := (seqno_exclusion (hw.mono fun _ _ h => h.1)).1
    exact hn.step hone hs (hrange data' hdata' n hscan') hstep

/-- A process that is alive and owes a number is in its critical section. -/
theorem critical_of_owed {n : ℤ} (h : Numbers s n w) {q : Proc SeqNo} (hq : q ∈ w.procs)
    (hlive : q.pc ≠ .dead) (howed : q.user.owed.isSome = true) : q.critical = true := by
  obtain ⟨p, hp⟩ := List.mem_iff_getElem?.1 hq
  have hknows := h.knows hp
  have hdeep : q.user.stage.deep = true := by
    by_contra hshallow
    rw [SeqNo.owed_shallow (by simpa using hshallow)] at howed
    cases howed
  unfold Proc.Knows at hknows
  cases hpc : q.pc with
  | user => exact critical_of_deep hpc hdeep
  | lib key pt asleep =>
    rw [hpc, hdeep] at hknows
    cases hknows
  | dead => exact absurd hpc hlive

end Runs

end UnixNetProg.Semaphore

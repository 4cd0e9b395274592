/-
`9_semaphores/main.c`: the sequence number program, locked by a semaphore.

The processes run one program: `sem_create(SEMKEY, 1)`, twenty times the
critical section between `sem_wait` and `sem_signal`, `sem_close`. Any of them
may die anywhere; the last one to close removes the set and the next one to
start makes it again.

`seq` is the discipline of the program. It gives the promise the routines ask
for and, because the program never calls `sem_open`, that a set in use is never
removed. Its budget of `[0]` is one unit, which a process has while it is in its
critical section: at most one does.
-/
import UnixNetProg.Lib.Files
import UnixNetProg.Lib.Stdio
import UnixNetProg.Semaphore.Budget

set_option autoImplicit false

namespace UnixNetProg.Semaphore

open UnixNetProg.SysV UnixNetProg.Runs UnixNetProg.Pool UnixNetProg.Stdio
open UnixNetProg.Files (fread fwrite)

/-! ## The program -/

def MAXBUFF : ℕ := 100

/-- Where `main` is in its own code: before the statement named. `check` is the
test of the identifier, `again` the second `lseek` of the loop. -/
inductive Stage
  | open
  | create
  | check
  | test
  | lseek
  | read
  | scan
  | print
  | format
  | again
  | write
  | signal
  | done
  deriving DecidableEq, Repr

/-- The local variables of `main`, with the offset of its descriptor. -/
structure SeqNo where
  stage : Stage
  pid : ℤ
  i : ℕ
  off : ℕ
  buff : List Char
  seqno : ℤ
  semid : ℤ
  deriving DecidableEq, Repr

/-- What the processes share besides the semaphores: the file, if it is there,
and the numbers printed, each with the process that printed it. -/
structure SeqFile where
  seqfile : Option (List Char)
  out : List (ℤ × ℤ)
  deriving DecidableEq, Repr

/-- One statement of `main` (`9_semaphores/main.c:14-63`). A call of a routine leaves the stage
at which `main` goes on when the routine returns. A file of `MAXBUFF` characters or more makes
the null byte after them fall outside `buff`; what that destroys is not represented. The
`printf` is out at once: its text ends in a newline, and standard output is a terminal, which is
line-buffered. -/
def seq_step (s : SeqFile) (u : SeqNo) : Option (SeqFile × Does SeqNo) :=
  match u.stage with
  | .open =>
    match s.seqfile with
    | none => some (s, .err_sys "can't open seqno")
    | some _ => some (s, .go { u with stage := .create, off := 0 })
  | .create => some (s, .call (.sem_create SEMKEY 1) { u with stage := .check })
  | .check =>
    if u.semid < 0 then some (s, .err_sys "can't open semaphore")
    else some (s, .go { u with stage := .test, i := 0 })
  | .test =>
    if u.i < 20 then some (s, .call (.sem_wait SEMKEY u.semid.toNat) { u with stage := .lseek })
    else some (s, .call (.sem_close SEMKEY u.semid.toNat) { u with stage := .done })
  | .lseek => some (s, .go { u with stage := .read, off := 0 })
  | .read =>
    match s.seqfile with
    | none => none   -- an open file stays
    | some data =>
      let bytes := fread data u.off MAXBUFF
      if bytes.length = 0 then some (s, .err_sys "read error")
      else some (s, .go { u with stage := .scan, buff := bytes, off := u.off + bytes.length })
  | .scan =>
    match sscanf_d u.buff with
    | none => some (s, .err_sys "sscanf error")
    | some v => some (s, .go { u with stage := .print, seqno := v })
  | .print => some ({ s with out := s.out ++ [(u.pid, u.seqno)] }, .go { u with stage := .format })
  | .format =>
    let seqno := u.seqno + 1
    some (s, .go { u with stage := .again, seqno := seqno, buff := sprintf_0d 3 seqno ++ ['\n'] })
  | .again => some (s, .go { u with stage := .write, off := 0 })
  | .write =>
    match s.seqfile with
    | none => none
    | some data =>
      some ({ s with seqfile := some (fwrite data u.off u.buff) },
        .go { u with stage := .signal, off := u.off + u.buff.length })
  | .signal =>
    some (s, .call (.sem_signal SEMKEY u.semid.toNat) { u with stage := .test, i := u.i + 1 })
  | .done => some (s, .exit)

/-- `main.c`. Only `sem_create` returns a value that is used. -/
def main : Program SeqFile SeqNo Unit where
  entry := fun u => u.stage == .open
  step := fun _ s u _ => seq_step s u
  ret := fun u v =>
    match u.stage with
    | .check => { u with semid := v }
    | _ => u

/-! ## What a process has at each point -/

/-- The identifier is that of the set the process has open. -/
def SeqNo.has (u : SeqNo) (held : Option ℕ) : Prop := ∃ j : ℕ, u.semid = j ∧ held = some j

/-- In its own code, a process has the set open between the return of
`sem_create` and the call of `sem_close`. -/
def SeqNo.Own (u : SeqNo) (held : Option ℕ) : Prop :=
  match u.stage with
  | .open | .create | .done => held = none
  | .check => (u.semid < 0 ∧ held = none) ∨ u.has held
  | _ => u.has held

/-- The routine that returns to this stage. -/
def SeqNo.routine (u : SeqNo) : Option Call :=
  match u.stage with
  | .check => some (.sem_create SEMKEY 1)
  | .lseek => some (.sem_wait SEMKEY u.semid.toNat)
  | .test => some (.sem_signal SEMKEY u.semid.toNat)
  | .done => some (.sem_close SEMKEY u.semid.toNat)
  | _ => none

/-- Inside a routine, the stage says which call of it this is. -/
def SeqNo.At (u : SeqNo) (held : Option ℕ) : Point → Prop
  | .create_semget v | .create_lock _ v | .create_getval _ v | .create_setval0 _ v =>
    v = 1 ∧ u.stage = .check ∧ held = none
  | .create_setval1 _ | .create_endcreate _ => u.stage = .check ∧ held = none
  | .op_semop id amount => held = some id ∧
    ((amount = -1 ∧ u.stage = .lseek) ∨ (amount = 1 ∧ u.stage = .test))
  | .close_op id => u.stage = .done ∧ held = some id
  | .close_getval _ | .close_unlock _ | .rm _ => u.stage = .done ∧ held = none
  | .open_semget | .open_op _ => False

section Program

variable {w w' : World SeqFile SeqNo} {a : Act SeqNo Unit} {p : ℕ} {q : Proc SeqNo}

/-- A statement of `main` that stays in its own code. -/
theorem SeqNo.Own.go {s s' : SeqFile} {u u' : SeqNo} {held : Option ℕ} (h : u.Own held)
    (hs : seq_step s u = some (s', .go u')) : u'.Own held := by
  obtain ⟨stage, pid, i, off, buff, seqno, semid⟩ := u
  cases stage <;> simp only [seq_step] at hs
  case check =>
    split_ifs at hs with hneg
    · cases hs
    · cases hs
      rcases h with ⟨hlt, -⟩ | hhas
      · exact absurd hlt hneg
      · exact hhas
  case «open» =>
    split at hs
    · cases hs
    · cases hs
      exact h
  case test => split_ifs at hs <;> cases hs
  case read =>
    split at hs
    · cases hs
    · split_ifs at hs <;> cases hs
      exact h
  case scan =>
    split at hs
    · cases hs
    · cases hs
      exact h
  case write =>
    split at hs
    · cases hs
    · cases hs
      exact h
  all_goals cases hs <;> exact h

/-- A statement of `main` that calls a routine, and what the routine returns to. -/
theorem SeqNo.Own.call {s s' : SeqFile} {u u' : SeqNo} {held : ℤ → Option ℕ} {c : Call}
    (h : u.Own (held SEMKEY)) (hs : seq_step s u = some (s', .call c u')) :
    c.Ready (held c.key) ∧ u'.routine = some c ∧
      ∀ v h, c.Returns h v → (main.ret u' v).Own (Function.update held c.key h SEMKEY) := by
  have hkey : SEMKEY ≠ IPC_PRIVATE ∧ SEMKEY ≠ -1 := by decide
  obtain ⟨stage, pid, i, off, buff, seqno, semid⟩ := u
  cases stage <;> simp only [seq_step] at hs
  case create =>
    cases hs
    refine ⟨⟨hkey.1, hkey.2, h⟩, rfl, fun v h' hret => ?_⟩
    rw [Call.key, Function.update_self]
    -- -1 and no set, or an identifier and its set
    rcases hret with ⟨rfl, hnone⟩ | ⟨id, rfl, hid⟩
    · exact .inl ⟨Int.negSucc_lt_zero 0, hnone⟩
    · exact .inr ⟨id, rfl, hid⟩
  case test =>
    obtain ⟨j, hj, hheld⟩ := h
    simp only at hj
    subst hj
    split_ifs at hs
    · cases hs
      refine ⟨hheld, rfl, fun v h' hret => ?_⟩
      rw [Call.key, Function.update_self]
      exact ⟨j, rfl, hret⟩
    · cases hs
      refine ⟨hheld, rfl, fun v h' hret => ?_⟩
      rw [Call.key, Function.update_self]
      exact hret
  case signal =>
    obtain ⟨j, hj, hheld⟩ := h
    simp only at hj
    subst hj
    cases hs
    refine ⟨hheld, rfl, fun v h' hret => ?_⟩
    rw [Call.key, Function.update_self]
    exact ⟨j, rfl, hret⟩
  all_goals (try split at hs) <;> (try split_ifs at hs) <;> cases hs

/-- The discipline of `main`. -/
def seq : Discipline main where
  Own := fun u held => u.Own (held SEMKEY)
  routine := SeqNo.routine
  entry := fun {u} hu => by
    have hst : u.stage = .open := by simpa [main] using hu
    simp only [SeqNo.Own, hst]
  go := SeqNo.Own.go
  call := SeqNo.Own.call

/-- A process inside a routine. -/
theorem seq_lib {key : ℤ} {pt : Point} {asleep : Bool} (h : seq.Ok q)
    (hpc : q.pc = .lib key pt asleep) : key = SEMKEY ∧ q.user.At (q.held SEMKEY) pt := by
  simp only [Discipline.Ok, hpc] at h
  obtain ⟨cl, hmemo, rfl, hwithin, -⟩ := h
  obtain ⟨u, held, pc⟩ := q
  obtain ⟨stage, pid, i, off, buff, seqno, semid⟩ := u
  cases stage <;> simp only [seq, SeqNo.routine, Option.some.injEq, reduceCtorEq] at hmemo <;>
    subst hmemo <;> refine ⟨rfl, ?_⟩ <;> cases pt <;> first
      | exact hwithin.elim
      | exact ⟨rfl, hwithin⟩
      | exact ⟨hwithin.1, rfl, hwithin.2⟩
      | exact ⟨rfl, hwithin.2.trans (congrArg some hwithin.1.symm)⟩
      | exact ⟨hwithin.2.2.trans (congrArg some hwithin.1.symm), .inl ⟨hwithin.2.1, rfl⟩⟩
      | exact ⟨hwithin.2.2.trans (congrArg some hwithin.1.symm), .inr ⟨hwithin.2.1, rfl⟩⟩

/-- The program never calls `sem_open`. -/
theorem seq_timely (h : ∀ q ∈ w.procs, seq.Ok q) (a : Act SeqNo Unit) : w.timely SEMKEY a := by
  intro pt hpt
  simp only [World.sysAt, Option.mem_def, Option.bind_eq_some_iff] at hpt
  obtain ⟨p, -, q, hq, hat⟩ := hpt
  cases hpc : q.pc with
  | lib key pt' asleep =>
    obtain ⟨rfl, hin⟩ := seq_lib (h q (List.mem_of_getElem? hq)) hpc
    simp only [hpc, Pc.at?, if_true] at hat
    obtain rfl : pt' = pt := Option.some.inj hat
    cases pt' with
    | open_op id => exact hin.elim
    | _ => trivial
  | _ => simp [hpc, Pc.at?] at hat

end Program

/-! ## Mutual exclusion -/

/-- The statements between `sem_wait` and `sem_signal`. -/
def Stage.inside : Stage → Bool
  | .lseek | .read | .scan | .print | .format | .again | .write | .signal => true
  | _ => false

/-- A process is in its critical section from the `semop` of `sem_wait` to that
of `sem_signal`. -/
def Proc.critical (q : Proc SeqNo) : Bool :=
  match q.pc with
  | .user => q.user.stage.inside
  | .lib _ (.op_semop _ amount) _ => amount == 1
  | _ => false

/-- A statement of `main` that stays in its own code stays inside or outside. -/
theorem inside_go {s s' : SeqFile} {u u' : SeqNo} (hs : seq_step s u = some (s', .go u')) :
    u'.stage.inside = u.stage.inside := by
  obtain ⟨stage, pid, i, off, buff, seqno, semid⟩ := u
  cases stage <;> simp only [seq_step] at hs <;> (try split at hs) <;> (try split_ifs at hs) <;>
    cases hs <;> rfl

/-- `main` has one unit between `sem_wait` and `sem_signal`. -/
def seq_budget : Budget seq SEMKEY 1 where
  own := fun u => u.stage.inside.toNat
  out := fun u => if u.stage = .test then 1 else 0
  entry := fun {u} hu => by
    have hst : u.stage = .open := by simpa [main] using hu
    simp [hst, Stage.inside]
  held := fun {u held} hown hpos => by
    obtain ⟨stage, pid, i, off, buff, seqno, semid⟩ := u
    have hown : SeqNo.Own ⟨stage, pid, i, off, buff, seqno, semid⟩ (held SEMKEY) := hown
    cases stage <;> first
      | (obtain ⟨j, -, hj⟩ := hown; exact ⟨j, hj⟩)
      | exact absurd hpos (by simp [Stage.inside])
  go := fun _ hs => congrArg Bool.toNat (inside_go hs)
  call := fun {sem s s' u u' c held cl} _ hs => by
    obtain ⟨stage, pid, i, off, buff, seqno, semid⟩ := u
    have hs : seq_step s ⟨stage, pid, i, off, buff, seqno, semid⟩ = some (s', .call cl u') := hs
    cases stage <;> simp only [seq_step] at hs <;> (try split at hs) <;> (try split_ifs at hs) <;>
      cases hs <;> simp [Stage.inside, Call.Fits, Call.amount, main]

/-- A process in its critical section is one that has a unit. -/
theorem units_seq {q : Proc SeqNo} (h : seq.Ok q) : seq_budget.units q = q.critical.toNat := by
  obtain ⟨u, held, pc⟩ := q
  cases pc with
  | user | dead => rfl
  | lib key pt asleep =>
    obtain ⟨-, hat⟩ := seq_lib h rfl
    have hout : ∀ {st : Stage}, u.stage = st → st ≠ .test → seq_budget.out u = 0 :=
      fun hst hne => if_neg (hst ▸ hne)
    cases pt with
    | op_semop id amount =>
      rcases hat with ⟨-, ⟨rfl, hst⟩ | ⟨rfl, hst⟩⟩
      · exact hout hst (by decide)
      · exact if_pos hst
    | create_semget | create_lock | create_getval | create_setval0 => exact hout hat.2.1 (by decide)
    | create_setval1 | create_endcreate | close_op | close_getval | close_unlock | rm =>
      exact hout hat.1 (by decide)
    | open_semget | open_op => exact hat.elim

/-- So the units out are the processes in their critical section. -/
theorem total_seq {w : World SeqFile SeqNo} (h : ∀ q ∈ w.procs, seq.Ok q) :
    seq_budget.total w = w.procs.countP Proc.critical := by
  rw [Budget.total, ← sum_map_toNat, List.map_congr_left fun q hq => units_seq (h q hq)]

/-! ## In every run -/

/-- Fewer than `BIGCOUNT` processes are alive. -/
def aliveBelowBigcount (w : World SeqFile SeqNo) (_ : Act SeqNo Unit) : Prop := w.alive < BIGCOUNT

instance (w : World SeqFile SeqNo) (a : Act SeqNo Unit) : Decidable (aliveBelowBigcount w a) :=
  inferInstanceAs (Decidable (_ < _))

section Runs

variable {s : SeqFile} {w : World SeqFile SeqNo}

theorem seq_of_reach {ok : World SeqFile SeqNo → Act SeqNo Unit → Prop}
    (h : (machine main s []).Reach ok w) : ∀ q ∈ w.procs, seq.Ok q :=
  seq.reach (fun _ hu => by cases hu) h

/-- Nobody calls `sem_open`, so nobody opens a set that is being removed. -/
theorem steady_of_reach (h : (machine main s []).Reach aliveBelowBigcount w) :
    (machine main s []).Reach (Budget.Steady SEMKEY) w :=
  h.strengthen fun _ a _ hw ha _ => ⟨ha, seq_timely (seq_of_reach hw) a⟩

/-- **Mutual exclusion survives crashes, removal and creation.** However the
processes are started, scheduled and killed, fewer than `BIGCOUNT` at a time:
at most one live process is between its `sem_wait` and its `sem_signal`, and
`[0]` of the set, once initialised, is 1 less the number of such processes. -/
theorem seqno_exclusion (h : (machine main s []).Reach aliveBelowBigcount w) :
    w.procs.countP Proc.critical ≤ 1 ∧
    ∀ i T, (w.sem SEMKEY).cur = some (i, T) → Set1 SEMKEY i w.log →
      T.val 0 + w.procs.countP Proc.critical = 1 := by
  have hsteady := steady_of_reach h
  rw [← total_seq (seq_of_reach h)]
  exact ⟨seq_budget.total_le hsteady, fun _ _ => seq_budget.val_of_set hsteady⟩

end Runs

/-- `main`, about to be run as process number `pid`. -/
def SeqNo.start (pid : ℤ) : SeqNo := ⟨.open, pid, 0, 0, [], 0, 0⟩

/-- Three processes: one dies in its critical section, the next one gets in. -/
theorem seqno_exclusion_run :
    ∃ w, (machine main ⟨some ['1', '\n'], []⟩ []).Reach aliveBelowBigcount w ∧
      (w.procs.map Proc.critical = [false, true, false]) ∧
      ((w.sem SEMKEY).cur.map fun c => c.2.val 0) = some 0 ∧
      w.procs.countP Proc.critical ≤ 1 := by
  have hrun := Machine.Reach.run (machine main ⟨some ['1', '\n'], []⟩ []) aliveBelowBigcount rfl
    [.spawn (.start 7), .spawn (.start 8), .spawn (.start 9),
      .user 0 (), .user 0 (), .sys 0, .sys 0, .sys 0, .sys 0, .sys 0, .sys 0,
      .user 1 (), .user 1 (), .sys 1, .sys 1, .sys 1, .sys 1,
      .user 2 (), .user 2 (), .sys 2, .sys 2, .sys 2, .sys 2,
      .user 0 (), .user 0 (), .sys 0, .user 0 (), .user 0 (),
      .user 1 (), .user 1 (), .sys 1, .user 2 (), .user 2 (), .sys 2,
      .die 0, .sys 1] (by decide +kernel)
  exact ⟨_, hrun, by decide +kernel, by decide +kernel, (seqno_exclusion hrun).1⟩

end UnixNetProg.Semaphore

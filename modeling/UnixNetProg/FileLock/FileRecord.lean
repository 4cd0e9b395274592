/-
`1_file_record_locking/file_record.c`: the sequence number program.

Each process takes the next number from a file twenty times: it locks, reads
the file, parses the number, prints it, writes the number plus one over it, and
unlocks. The lock is the one of `my_open_lock`; `lseek`, `read`, `printf` and
`write` are steps of their own, and the other processes run between them.

`RecordInv` is the state of the whole: what has been printed so far is `s`,
`s + 1`, ..., in this order, the file reads as the number that comes next unless
the process that has the lock is between printing and writing, and the number
of numbers printed is the number of iterations the processes have made. From
any reachable state the processes can all finish (`no_lost_number`), so the
numbers printed are `s` to `s + 20 * N - 1`, each once.
-/
import UnixNetProg.FileLock.Exclusion

set_option autoImplicit false

namespace UnixNetProg.FileLock

open UnixNetProg.Files UnixNetProg.Runs UnixNetProg.Stdio UnixNetProg.Pool

/-! ## The program -/

/-- The most that is read of the file. -/
def MAXBUFF : ℕ := 100

/-- Where `main` is in its own code: before the statement named. `again` is the
second `lseek` of the loop. -/
inductive Stage
  | open
  | test
  | lseek
  | read
  | scan
  | print
  | format
  | again
  | write
  | unlock
  deriving DecidableEq, Repr

/-- The local variables of `main`, with the offset of its descriptor. -/
structure Main where
  stage : Stage
  i : ℕ
  off : ℕ
  buff : List Char
  seqno : ℤ
  deriving DecidableEq, Repr

/-- What the processes share: the file, if it is there, and the numbers that
have been printed, each with the process that printed it. -/
structure Shared where
  seqfile : Option (List Char)
  out : List (ℤ × ℤ)
  deriving DecidableEq, Repr

/-- `sprintf(buff, "%03d\n", seqno)`. -/
def line (seqno : ℤ) : List Char := sprintf_0d 3 seqno ++ ['\n']

/-- One statement of `main` (`1_file_record_locking/file_record.c:12-61`). A call of a routine
leaves the stage at which `main` goes on when the routine returns. The `printf` is out at once:
its text ends in a newline, and standard output is a terminal, which is line-buffered. -/
def main_step (pid : ℤ) (s : Shared) (u : Main) : Option (Shared × Does Main) :=
  match u.stage with
  | .open =>
    match s.seqfile with
    | none => some (s, .err_sys "can't open seqno\n")
    | some _ => some (s, .go { u with stage := .test, i := 0, off := 0 })
  | .test =>
    if u.i < 20 then some (s, .call .my_open_lock { u with stage := .lseek }) else some (s, .exit)
  | .lseek => some (s, .go { u with stage := .read, off := 0 })
  | .read =>
    match s.seqfile with
    | none => none   -- an open file stays
    | some data =>
      let bytes := fread data u.off MAXBUFF
      if bytes.length = 0 then some (s, .err_sys "read error\n")
      else some (s, .go { u with stage := .scan, buff := bytes, off := u.off + bytes.length })
  | .scan =>
    match sscanf_d u.buff with
    | none => some (s, .err_sys "sscanf error\n")
    | some v => some (s, .go { u with stage := .print, seqno := v })
  | .print => some ({ s with out := s.out ++ [(pid, u.seqno)] }, .go { u with stage := .format })
  | .format =>
    some (s, .go { u with stage := .again, seqno := u.seqno + 1, buff := line (u.seqno + 1) })
  | .again => some (s, .go { u with stage := .write, off := 0 })
  | .write =>
    match s.seqfile with
    | none => none
    | some data =>
      some ({ s with seqfile := some (fwrite data u.off u.buff) },
        .go { u with stage := .unlock, off := u.off + u.buff.length })
  | .unlock => some (s, .call .my_open_unlock { u with stage := .test, i := u.i + 1 })

/-- `file_record.c`. -/
def main : Program Shared Main Unit where
  entry := fun _ => false
  step := fun pid s u _ => main_step pid s u
  ret := id

/-- `N` processes about to start, and a file that holds the number `s`. -/
def start (s N : ℕ) (w : World Shared Main) : Prop :=
  w.procs.length = N ∧ (∀ q ∈ w.procs, q.user.stage = .open) ∧ w.shared.out = [] ∧
    ∃ data, w.shared.seqfile = some data ∧ data.length < MAXBUFF ∧ sscanf_d data = some (s : ℤ)

/-! ## What holds of one process -/

/-- The statements between the lock and the unlock. -/
def Stage.inside : Stage → Bool
  | .open | .test => false
  | _ => true

/-- The statements after the first one inside: a process is there only with the
lock. -/
def Stage.deep : Stage → Bool
  | .open | .test | .lseek => false
  | _ => true

/-- The number has been printed and not yet replaced in the file. -/
def Stage.stale : Stage → Bool
  | .format | .again | .write => true
  | _ => false

/-- How many numbers a process has printed. -/
def Main.printed (u : Main) : ℕ :=
  match u.stage with
  | .open => 0
  | .format | .again | .write | .unlock => u.i + 1
  | _ => u.i

/-- What the local variables are worth, when `k` numbers have been printed. -/
def Main.Facts (s k : ℕ) (u : Main) : Prop :=
  match u.stage with
  | .read => u.off = 0
  | .scan => sscanf_d u.buff = some ((s + k : ℕ) : ℤ)
  | .print => u.seqno = (s + k : ℕ)
  | .format => u.seqno + 1 = (s + k : ℕ)
  | .again => u.buff = line (s + k : ℕ)
  | .write => u.off = 0 ∧ u.buff = line (s + k : ℕ)
  | _ => True

/-- Where a process is, inside or outside the routines. -/
def Proc.Place (q : Proc Main) : Prop :=
  match q.pc with
  | .user => q.owns = q.user.stage.inside
  | .lib .open_open | .lib .open_sleep | .lib .open_close => q.user.stage = .lseek
  | .lib .open_unlock => q.user.stage = .test
  | .lib _ => False
  | .exited => q.user.stage = .test ∧ q.user.i = 20
  | .failed _ => False

/-- What holds of one process when `k` numbers have been printed. -/
structure Proc.Phase (s k : ℕ) (q : Proc Main) : Prop where
  place : q.Place
  le : q.user.stage ≠ .open → q.user.i ≤ 20
  lt : q.user.stage.inside = true → q.user.i < 20
  facts : q.user.Facts s k

/-- A process deep inside has the lock. -/
theorem Proc.Phase.owns {s k : ℕ} {q : Proc Main} (h : q.Phase s k)
    (hdeep : q.user.stage.deep = true) : q.owns = true := by
  have hplace := h.place
  unfold Proc.Place at hplace
  split at hplace
  · rw [hplace]
    revert hdeep
    cases q.user.stage <;> decide
  · rw [hplace] at hdeep
    cases hdeep
  · rw [hplace] at hdeep
    cases hdeep
  · rw [hplace] at hdeep
    cases hdeep
  · rw [hplace] at hdeep
    cases hdeep
  · exact hplace.elim
  · rw [hplace.1] at hdeep
    cases hdeep
  · exact hplace.elim

/-- What holds of a process that is not deep inside does not depend on how much
has been printed. -/
theorem Proc.Phase.shallow {s k : ℕ} {q : Proc Main} (h : q.Phase s k) (k' : ℕ)
    (hdeep : q.user.stage.deep = false) : q.Phase s k' := by
  refine ⟨h.place, h.le, h.lt, ?_⟩
  unfold Main.Facts
  revert hdeep
  cases q.user.stage <;> simp [Stage.deep]

/-! ## The invariant -/

/-- The file and the output, with what has been printed. -/
structure RecordInv (s N : ℕ) (w : World Shared Main) : Prop where
  size : w.procs.length = N
  phase : ∀ {p : ℕ} {q : Proc Main}, w.procs[p]? = some q → q.Phase s w.shared.out.length
  out : w.shared.out.map Prod.snd =
    (List.range w.shared.out.length).map fun j => ((s + j : ℕ) : ℤ)
  count : w.shared.out.length = (w.procs.map fun q => q.user.printed).sum
  file : ∃ data, w.shared.seqfile = some data ∧ data.length < MAXBUFF ∧
    ((∀ q ∈ w.procs, q.user.stage.stale = false) →
      sscanf_d data = some ((s + w.shared.out.length : ℕ) : ℤ))

namespace RecordInv

variable {s N : ℕ} {w : World Shared Main} {p : ℕ} {q q' : Proc Main} {d' : Dir}

/-- At most `20 * N` numbers are printed. -/
theorem out_le (h : RecordInv s N w) : w.shared.out.length ≤ 20 * N := by
  rw [h.count, ← h.size]
  refine sum_map_le _ fun q hq => ?_
  obtain ⟨p, hp⟩ := List.mem_iff_getElem?.1 hq
  have hphase := h.phase hp
  have hle := hphase.le
  have hlt := hphase.lt
  unfold Main.printed
  revert hle hlt
  cases q.user.stage <;> simp only [Stage.inside] <;> intro hle hlt <;> simp at hle hlt ⊢ <;>
    omega

/-- After a step of one process the others are where they were. -/
theorem phase_set (h : RecordInv s N w) (hphase : q'.Phase s w.shared.out.length) {p₁ : ℕ}
    {q₁ : Proc Main} (hp : (w.procs.set p q')[p₁]? = some q₁) :
    q₁.Phase s w.shared.out.length := by
  rcases getElem?_set_cases hp with ⟨-, rfl, -⟩ | ⟨-, hp⟩
  · exact hphase
  · exact h.phase hp

/-- What is printed in a step of one process is printed by that process. -/
theorem printed_set (h : RecordInv s N w) (hq : w.procs[p]? = some q) (q' : Proc Main) :
    ((w.procs.set p q').map fun q => q.user.printed).sum + q.user.printed =
      w.shared.out.length + q'.user.printed := by
  rw [h.count]
  exact sum_map_set_add (fun q : Proc Main => q.user.printed) hq q'

/-- A process takes a step that neither prints nor writes. -/
theorem quiet (h : RecordInv s N w) (hq : w.procs[p]? = some q)
    (hphase : q'.Phase s w.shared.out.length) (hprinted : q'.user.printed = q.user.printed)
    (hstale : q'.user.stage.stale = q.user.stage.stale) :
    RecordInv s N { w with dir := d', procs := w.procs.set p q' } where
  size := by rw [List.length_set, h.size]
  phase := h.phase_set hphase
  out := h.out
  count := by
    have hsum := h.printed_set hq q'
    show w.shared.out.length = ((w.procs.set p q').map fun q => q.user.printed).sum
    omega
  file := by
    obtain ⟨data, hdata, hlen, hfresh⟩ := h.file
    refine ⟨data, hdata, hlen, fun hall => hfresh fun q₁ hq₁ => ?_⟩
    obtain ⟨p₁, hp₁⟩ := List.mem_iff_getElem?.1 hq₁
    -- a buffer is stale before the step if it is after it
    by_cases hpp : p₁ = p
    · subst hpp
      rw [hq] at hp₁
      cases hp₁
      rw [← hstale]
      exact hall q' (List.mem_iff_getElem?.2
        ⟨p₁, List.getElem?_set_self (List.getElem?_eq_some_iff.1 hq).1⟩)
    · exact hall q₁ (List.mem_iff_getElem?.2
        ⟨p₁, by rw [List.getElem?_set_ne fun e => hpp e.symm]; exact hp₁⟩)

/-- Where one process has the lock, the others are not deep inside. -/
theorem others_shallow (h : RecordInv s N w) (hlock : LockInv w.dir w.procs)
    (hq : w.procs[p]? = some q) (ho : q.owns = true) {p₁ : ℕ} {q₁ : Proc Main}
    (hq₁ : w.procs[p₁]? = some q₁) (hne : p₁ ≠ p) : q₁.user.stage.deep = false := by
  by_contra hdeep
  exact hne (hlock.unique hq₁ hq ((h.phase hq₁).owns (by simpa using hdeep)) ho)

/-- What a process that has the lock and has not printed finds in the file. -/
theorem fresh (h : RecordInv s N w) (hlock : LockInv w.dir w.procs)
    (hq : w.procs[p]? = some q) (ho : q.owns = true) (hstale : q.user.stage.stale = false) :
    ∃ data, w.shared.seqfile = some data ∧ data.length < MAXBUFF ∧
      sscanf_d data = some ((s + w.shared.out.length : ℕ) : ℤ) := by
  obtain ⟨data, hdata, hlen, hfresh⟩ := h.file
  refine ⟨data, hdata, hlen, hfresh fun q₁ hq₁ => ?_⟩
  obtain ⟨p₁, hp₁⟩ := List.mem_iff_getElem?.1 hq₁
  by_cases hpp : p₁ = p
  · subst hpp
    rw [hq] at hp₁
    cases hp₁
    exact hstale
  · have hshallow := h.others_shallow hlock hq ho hp₁ hpp
    revert hshallow
    cases q₁.user.stage <;> decide

/-- **The process that has the lock prints the next number.** -/
theorem print (h : RecordInv s N w) (hlock : LockInv w.dir w.procs)
    (hq : w.procs[p]? = some q) (ho : q.owns = true) {pid : ℤ} {v : ℤ}
    (hv : v = (s + w.shared.out.length : ℕ))
    (hphase : q'.Phase s (w.shared.out.length + 1))
    (hprinted : q'.user.printed = q.user.printed + 1) (hstale : q'.user.stage.stale = true) :
    RecordInv s N { w with
      shared := { w.shared with out := w.shared.out ++ [(pid, v)] }
      procs := w.procs.set p q' } where
  size := by rw [List.length_set, h.size]
  phase := fun {p₁ q₁} hp => by
    have hlen : (w.shared.out ++ [(pid, v)]).length = w.shared.out.length + 1 := by simp
    show q₁.Phase s (w.shared.out ++ [(pid, v)]).length
    rw [hlen]
    rcases getElem?_set_cases hp with ⟨-, rfl, -⟩ | ⟨hne, hp⟩
    · exact hphase
    · -- the others hold no number yet
      exact (h.phase hp).shallow _ (h.others_shallow hlock hq ho hp hne)
  out := by
    have hout := h.out
    simp only [List.map_append, List.map_cons, List.map_nil, List.length_append,
      List.length_cons, List.length_nil, List.range_succ, hout, hv]
  count := by
    have hsum := h.printed_set hq q'
    show (w.shared.out ++ [(pid, v)]).length = ((w.procs.set p q').map fun q => q.user.printed).sum
    rw [List.length_append, List.length_singleton]
    omega
  file := by
    obtain ⟨data, hdata, hlen, -⟩ := h.file
    refine ⟨data, hdata, hlen, fun hall => ?_⟩
    -- the number that was printed is still to be written
    have hmem : q' ∈ w.procs.set p q' := List.mem_iff_getElem?.2
      ⟨p, List.getElem?_set_self (List.getElem?_eq_some_iff.1 hq).1⟩
    rw [hall q' hmem] at hstale
    cases hstale

/-- **The process that has the lock writes the number that comes next.** -/
theorem write (h : RecordInv s N w) (hq : w.procs[p]? = some q)
    {data : List Char} (hdata : w.shared.seqfile = some data)
    (hmax : s + 20 * N ≤ INT_MAX)
    (hphase : q'.Phase s w.shared.out.length) (hprinted : q'.user.printed = q.user.printed) :
    RecordInv s N { w with
      shared := { w.shared with
        seqfile := some (fwrite data 0 (line (s + w.shared.out.length : ℕ))) }
      procs := w.procs.set p q' } where
  size := by rw [List.length_set, h.size]
  phase := h.phase_set hphase
  out := h.out
  count := by
    have hsum := h.printed_set hq q'
    show w.shared.out.length = ((w.procs.set p q').map fun q => q.user.printed).sum
    omega
  file := by
    obtain ⟨data', hdata', hlen, -⟩ := h.file
    obtain rfl : data = data' := Option.some.inj (hdata.symm.trans hdata')
    refine ⟨_, rfl, ?_, fun _ => ?_⟩
    · -- a line is at most eleven characters long
      have hle := h.out_le
      have hline := length_sprintf_0d_le 3 (v := ((s + w.shared.out.length : ℕ) : ℤ)) (by omega)
        (by omega)
      rw [length_fwrite_zero]
      simp only [line, List.length_append, List.length_singleton]
      simp only [MAXBUFF] at hlen ⊢
      omega
    · rw [fwrite_zero]
      unfold line
      rw [List.append_assoc]
      exact sscanf_d_sprintf_0d 3 _ _ (by simp)

end RecordInv

/-! ## One step -/

/-- How many steps a process has left, if it does not have to wait. -/
def Proc.left (q : Proc Main) : ℕ :=
  let rest := (20 - q.user.i) * 20
  match q.pc with
  | .user =>
    match q.user.stage with
    | .open => 402
    | .test => rest + 1
    | .lseek => rest - 3
    | .read => rest - 4
    | .scan => rest - 5
    | .print => rest - 6
    | .format => rest - 7
    | .again => rest - 8
    | .write => rest - 9
    | .unlock => rest - 10
  | .lib .open_sleep => rest
  | .lib .open_open => rest - 1
  | .lib .open_close => rest - 2
  | .lib .open_unlock => rest + 2
  | _ => 0

section Step

variable {s N : ℕ} {w w' : World Shared Main} {p : ℕ} {q : Proc Main} {pt : Point}

/-- **A statement of `main`**, at any stage: it can be executed, it is no error,
it keeps the promise to the routines and the invariant, and brings the process
closer to its end. -/
theorem RecordInv.user_step (h : RecordInv s N w) (hlock : LockInv w.dir w.procs)
    (hmax : s + 20 * N ≤ INT_MAX) (hq : w.procs[p]? = some q) (hpc : q.pc = .user) :
    ∃ s' x, main_step q.pid w.shared q.user = some (s', x) ∧ x.allowed q.got ∧
      RecordInv s N { w with shared := s', procs := w.procs.set p (World.does q x) } ∧
      (World.does q x).left < q.left := by
  obtain ⟨hplace, hle, hlt, hfacts⟩ := h.phase hq
  obtain ⟨pid, root, ⟨stage, i, off, buff, seqno⟩, got, pc⟩ := q
  obtain rfl : pc = .user := hpc
  have hown : got.isSome = stage.inside := hplace
  have hkeep : ∀ u : Main, u.stage.inside = stage.inside →
      (⟨pid, root, u, got, .user⟩ : Proc Main).Place := fun u hu => by
    rw [Proc.Place, Proc.owns, hown, hu]
  cases stage with
  | «open» =>
    obtain ⟨data, hdata, -, -⟩ := h.file
    refine ⟨w.shared, .go ⟨.test, 0, 0, buff, seqno⟩, ?_, trivial, ?_, ?_⟩
    · simp only [main_step, hdata]
    · refine h.quiet hq ⟨hkeep _ rfl, ?_, ?_, trivial⟩ rfl rfl
      · intro _
        exact Nat.zero_le _
      · intro hin
        cases hin
    · simp [World.does, Proc.left]
  | test =>
    have hnone : got = none := by simpa [Stage.inside] using hown
    have hi := hle fun hst => by cases hst
    by_cases hlast : i < 20
    · refine ⟨w.shared, .call .my_open_lock ⟨.lseek, i, off, buff, seqno⟩, ?_, ?_, ?_, ?_⟩
      · simp only [main_step, hlast, if_true]
      · rw [Does.allowed, hnone]
        rfl
      · exact h.quiet hq ⟨rfl, fun _ => hi, fun _ => hlast, trivial⟩ rfl rfl
      · simp only [World.does, Routine.start, Proc.left]
        omega
    · obtain rfl : i = 20 := by simp only at hi; omega
      refine ⟨w.shared, .exit, ?_, hnone, ?_, ?_⟩
      · simp only [main_step, if_neg hlast]
      · exact h.quiet hq ⟨⟨rfl, rfl⟩, hle, hlt, trivial⟩ rfl rfl
      · simp [World.does, Proc.left]
  | lseek =>
    have hi := hlt rfl
    refine ⟨w.shared, .go ⟨.read, i, 0, buff, seqno⟩, rfl, trivial, ?_, ?_⟩
    · exact h.quiet hq ⟨hkeep _ rfl, fun _ => Nat.le_of_lt hi, fun _ => hi, rfl⟩ rfl rfl
    · simp only [World.does, Proc.left]
      simp only at hi
      omega
  | read =>
    have hi := hlt rfl
    obtain rfl : off = 0 := hfacts
    -- the file holds the number that comes next, and is read as a whole
    obtain ⟨data, hdata, hlen, hscan⟩ := h.fresh hlock hq hown rfl
    have hread : fread data 0 MAXBUFF = data := fread_zero (Nat.le_of_lt hlen)
    have hne : data.length ≠ 0 := by
      intro hz
      rw [List.length_eq_zero_iff.1 hz] at hscan
      cases hscan
    refine ⟨w.shared, .go ⟨.scan, i, 0 + data.length, data, seqno⟩, ?_, trivial, ?_, ?_⟩
    · simp only [main_step, hdata, hread, if_neg hne]
    · exact h.quiet hq ⟨hkeep _ rfl, fun _ => Nat.le_of_lt hi, fun _ => hi, hscan⟩ rfl rfl
    · simp only [World.does, Proc.left]
      simp only at hi
      omega
  | scan =>
    have hi := hlt rfl
    have hscan : sscanf_d buff = some ((s + w.shared.out.length : ℕ) : ℤ) := hfacts
    refine ⟨w.shared, .go ⟨.print, i, off, buff, (s + w.shared.out.length : ℕ)⟩, ?_, trivial,
      ?_, ?_⟩
    · simp only [main_step, hscan]
    · exact h.quiet hq ⟨hkeep _ rfl, fun _ => Nat.le_of_lt hi, fun _ => hi, rfl⟩ rfl rfl
    · simp only [World.does, Proc.left]
      simp only at hi
      omega
  | print =>
    have hi := hlt rfl
    have hseq : seqno = (s + w.shared.out.length : ℕ) := hfacts
    refine ⟨_, .go ⟨.format, i, off, buff, seqno⟩, rfl, trivial, ?_, ?_⟩
    · -- the number that is printed is the next one
      refine h.print hlock hq hown hseq ?_ rfl rfl
      refine ⟨hkeep _ rfl, fun _ => Nat.le_of_lt hi, fun _ => hi, ?_⟩
      show seqno + 1 = ((s + (w.shared.out.length + 1) : ℕ) : ℤ)
      rw [hseq]
      push_cast
      ring
    · simp only [World.does, Proc.left]
      simp only at hi
      omega
  | format =>
    have hi := hlt rfl
    have hseq : seqno + 1 = (s + w.shared.out.length : ℕ) := hfacts
    refine ⟨w.shared, .go ⟨.again, i, off, line (seqno + 1), seqno + 1⟩, rfl, trivial, ?_, ?_⟩
    · refine h.quiet hq ⟨hkeep _ rfl, fun _ => Nat.le_of_lt hi, fun _ => hi, ?_⟩ rfl rfl
      show line (seqno + 1) = line (s + w.shared.out.length : ℕ)
      rw [hseq]
    · simp only [World.does, Proc.left]
      simp only at hi
      omega
  | again =>
    have hi := hlt rfl
    have hbuff : buff = line (s + w.shared.out.length : ℕ) := hfacts
    refine ⟨w.shared, .go ⟨.write, i, 0, buff, seqno⟩, rfl, trivial, ?_, ?_⟩
    · exact h.quiet hq ⟨hkeep _ rfl, fun _ => Nat.le_of_lt hi, fun _ => hi, rfl, hbuff⟩ rfl rfl
    · simp only [World.does, Proc.left]
      simp only at hi
      omega
  | write =>
    have hi := hlt rfl
    obtain ⟨hoff, hbuff⟩ : off = 0 ∧ buff = line (s + w.shared.out.length : ℕ) := hfacts
    obtain ⟨data, hdata, -, -⟩ := h.file
    subst hoff hbuff
    refine ⟨_, .go ⟨.unlock, i, _, _, seqno⟩, by simp only [main_step, hdata]; rfl, trivial,
      ?_, ?_⟩
    · exact h.write hq hdata hmax ⟨hkeep _ rfl, fun _ => Nat.le_of_lt hi, fun _ => hi, trivial⟩ rfl
    · simp only [World.does, Proc.left]
      simp only at hi
      omega
  | unlock =>
    have hi := hlt rfl
    refine ⟨w.shared, .call .my_open_unlock ⟨.test, i + 1, off, buff, seqno⟩, rfl, ?_, ?_, ?_⟩
    · rw [Does.allowed, hown]
      rfl
    · refine h.quiet hq ⟨rfl, fun _ => hi, ?_, trivial⟩ rfl rfl
      intro hin
      cases hin
    · simp only [World.does, Routine.start, Proc.left]
      simp only at hi
      omega

/-- **A system call of a routine** keeps the invariant, and where nobody else has
the lock it brings the process closer to its end. -/
theorem RecordInv.sys_step (h : RecordInv s N w) (hlock : LockInv w.dir w.procs)
    (hq : w.procs[p]? = some q) (hpc : q.pc = .lib pt) :
    RecordInv s N { w with
        dir := (pt.perform q.pid q.root w.dir).1
        procs := w.procs.set p (World.complete main q pt (pt.perform q.pid q.root w.dir).1
          (pt.perform q.pid q.root w.dir).2) } ∧
      (q.owns = true ∨ w.dir.entry LOCKFILE = none →
        (World.complete main q pt (pt.perform q.pid q.root w.dir).1
          (pt.perform q.pid q.root w.dir).2).left < q.left) := by
  obtain ⟨hplace, hle, hlt, hfacts⟩ := h.phase hq
  have hwf := hlock.wf hq
  obtain ⟨pid, root, ⟨stage, i, off, buff, seqno⟩, got, pc⟩ := q
  obtain rfl : pc = .lib pt := hpc
  have hown : got.isSome = pt.owns := hwf
  cases pt with
  | open_open =>
    obtain rfl : stage = .lseek := hplace
    have hi := hlt rfl
    simp only at hi
    cases hl : w.dir.entry LOCKFILE with
    | some j =>
      rw [perform_open_used hl]
      refine ⟨?_, fun hor => ?_⟩
      · exact h.quiet hq ⟨rfl, hle, hlt, hfacts⟩ rfl rfl
      · -- the lock is taken, so this process is not one step closer
        rcases hor with ho | hnone
        · rw [Proc.owns, hown] at ho
          cases ho
        · cases hnone
    | none =>
      rw [perform_open_new hl]
      refine ⟨?_, fun _ => ?_⟩
      · exact h.quiet hq ⟨rfl, hle, hlt, hfacts⟩ rfl rfl
      · simp only [World.complete, Point.resume, Proc.left]
        omega
  | open_sleep =>
    obtain rfl : stage = .lseek := hplace
    have hi := hlt rfl
    simp only at hi
    rw [perform_none rfl]
    refine ⟨?_, fun _ => ?_⟩
    · exact h.quiet hq ⟨rfl, hle, hlt, hfacts⟩ rfl rfl
    · simp only [World.complete, Point.resume, Proc.left]
      omega
  | open_close =>
    obtain rfl : stage = .lseek := hplace
    have hi := hlt rfl
    simp only at hi
    rw [perform_none rfl]
    refine ⟨?_, fun _ => ?_⟩
    · exact h.quiet hq ⟨hown, hle, hlt, hfacts⟩ rfl rfl
    · simp only [World.complete, Point.resume, Proc.left, main, id]
      omega
  | open_unlock =>
    obtain rfl : stage = .test := hplace
    obtain ⟨j, hg, hl⟩ := hlock.own_file hq hown
    obtain ⟨d', hd', -⟩ := perform_unlink root (rfl : Point.open_unlock.call pid = _) hl
    rw [hd']
    refine ⟨?_, fun _ => ?_⟩
    · exact h.quiet hq ⟨rfl, hle, hlt, hfacts⟩ rfl rfl
    · simp only [World.complete, Point.resume, Proc.left, main, id]
      omega
  | _ => exact hplace.elim

/-- Every step of the processes keeps the promise to the routines and the
invariant. -/
theorem RecordInv.step {a : Act Main Unit} (h : RecordInv s N w) (hlock : LockInv w.dir w.procs)
    (hmax : s + 20 * N ≤ INT_MAX) (hs : w.step main a = some w') :
    w.keeps main a ∧ RecordInv s N w' := by
  cases a with
  | spawn pid root u => simp [World.step, main] at hs
  | user p c =>
    obtain ⟨q, s₁, x₁, hq, hpc, hmain, rfl⟩ := World.of_step_user hs
    obtain ⟨s', x, hstep, hx, hinv, -⟩ := h.user_step hlock hmax hq hpc
    -- `main` has no choice, so this is the step that was taken
    have hsame : some (s₁, x₁) = some (s', x) := hmain.symm.trans hstep
    cases hsame
    refine ⟨?_, hinv⟩
    rintro q₁ hq₁ ⟨s₁, x₁⟩ h₁
    rw [hq] at hq₁
    obtain rfl := Option.some.inj hq₁
    rw [hmain] at h₁
    cases h₁
    exact hx
  | sys p =>
    obtain ⟨q, pt, hq, hpc, rfl⟩ := World.of_step_sys hs
    exact ⟨trivial, (h.sys_step hlock hq hpc).1⟩

end Step

/-! ## Every run -/

/-- The numbers from `s` on. -/
def numbers (s k : ℕ) : List ℤ := (List.range k).map fun j => ((s + j : ℕ) : ℤ)

/-- All processes have ended. -/
def World.finished {S U : Type} (w : World S U) : Prop := ∀ q ∈ w.procs, q.live = false

section Runs

variable {s N : ℕ} {w : World Shared Main}

/-- Both invariants hold in every reachable state. -/
theorem recordInv_of_reach (hmax : s + 20 * N ≤ INT_MAX)
    (h : (machine main (start s N)).Reach (fun _ _ => True) w) :
    LockInv w.dir w.procs ∧ RecordInv s N w := by
  apply h.invariant (I := fun w => LockInv w.dir w.procs ∧ RecordInv s N w)
  · intro w hw
    refine ⟨LockInv.init hw, ?_⟩
    obtain ⟨⟨hN, hopen, hout, data, hdata, hlen, hscan⟩, -, -, huser, -⟩ := hw
    refine ⟨hN, fun hq => ?_, ?_, ?_, data, hdata, hlen, fun _ => ?_⟩
    · have hmem := List.mem_of_getElem? hq
      have hst := hopen _ hmem
      obtain ⟨hpc, hgot⟩ := huser _ hmem
      refine ⟨?_, fun hne => absurd hst hne, fun hin => ?_, ?_⟩
      · rw [Proc.Place, hpc, Proc.owns, hgot, hst]
        rfl
      · rw [hst] at hin
        cases hin
      · rw [Main.Facts, hst]
        trivial
    · rw [hout]
      rfl
    · rw [hout, sum_map_const (c := 0) _ fun q hq => by rw [Main.printed, hopen q hq]]
      simp
    · rw [hout]
      exact hscan
  · intro w a w' _ hinv _ hstep
    obtain ⟨hkeep, hrec⟩ := hinv.2.step hinv.1 hmax hstep
    exact ⟨hinv.1.step hkeep hstep, hrec⟩

/-- A process that has the lock has not ended. -/
theorem LockInv.live_of_owns {U : Type} {d : Dir} {ps : List (Proc U)} (h : LockInv d ps) {p : ℕ}
    {q : Proc U} (hq : ps[p]? = some q) (ho : q.owns = true) : q.live = true := by
  have hwf := h.wf hq
  unfold Proc.Wf at hwf
  unfold Proc.live
  rw [Proc.owns] at ho
  split at hwf
  · rename_i pt hpc
    rw [hpc]
  · rename_i hpc
    rw [hpc]
  · rw [hwf] at ho
    cases ho

/-- A live process that has the lock, or finds it free, can take a step that brings it closer
to its end. -/
theorem proc_down {p : ℕ} {q : Proc Main} (hlock : LockInv w.dir w.procs) (hrec : RecordInv s N w)
    (hmax : s + 20 * N ≤ INT_MAX) (hq : w.procs[p]? = some q) (hlive : q.live = true)
    (hfree : q.owns = true ∨ w.dir.entry LOCKFILE = none) :
    ∃ a w', a.actor = some p ∧ w.step main a = some w' ∧
      (w'.procs.map Proc.left).sum < (w.procs.map Proc.left).sum := by
  -- the others have as many steps left as before
  have hsum := fun q' => sum_map_set_add Proc.left hq q'
  unfold Proc.live at hlive
  split at hlive
  · rename_i hpc
    obtain ⟨s', x, hstep, -, -, hlt⟩ := hrec.user_step hlock hmax hq hpc
    have hmain : main.step q.pid w.shared q.user () = some (s', x) := hstep
    refine ⟨.user p (), { w with shared := s', procs := w.procs.set p (World.does q x) }, rfl, ?_,
      ?_⟩
    · simp only [World.step, hq, hpc, if_true, hmain]
    · have := hsum (World.does q x)
      show ((w.procs.set p (World.does q x)).map Proc.left).sum < _
      omega
  · rename_i pt hpc
    obtain ⟨-, hlt⟩ := hrec.sys_step hlock hq hpc
    have hlt := hlt hfree
    refine ⟨.sys p, { w with
      dir := (pt.perform q.pid q.root w.dir).1
      procs := w.procs.set p (World.complete main q pt (pt.perform q.pid q.root w.dir).1
        (pt.perform q.pid q.root w.dir).2) }, rfl, ?_, ?_⟩
    · simp only [World.step, hq, hpc]
    · have := hsum (World.complete main q pt (pt.perform q.pid q.root w.dir).1
        (pt.perform q.pid q.root w.dir).2)
      show ((w.procs.set p _).map Proc.left).sum < _
      omega
  · cases hlive
  · cases hlive

/-- **While processes are left, one of them can take a step that brings it closer
to its end**: the one that has the lock, or any one if nobody has it. -/
theorem step_down (hmax : s + 20 * N ≤ INT_MAX)
    (h : (machine main (start s N)).Reach (fun _ _ => True) w) (hnot : ¬ w.finished) :
    ∃ a w', True ∧ (machine main (start s N)).step w a = some w' ∧
      (w'.procs.map Proc.left).sum < (w.procs.map Proc.left).sum := by
  obtain ⟨hlock, hrec⟩ := recordInv_of_reach hmax h
  -- who is to take the step
  obtain ⟨p, q, hq, hlive, hfree⟩ : ∃ (p : ℕ) (q : Proc Main), w.procs[p]? = some q ∧
      q.live = true ∧ (q.owns = true ∨ w.dir.entry LOCKFILE = none) := by
    cases hl : w.dir.entry LOCKFILE with
    | some i =>
      obtain ⟨p, q, hq, hi⟩ := hlock.held hl
      have ho : q.owns = true := by rw [Proc.owns, hi]; rfl
      exact ⟨p, q, hq, hlock.live_of_owns hq ho, .inl ho⟩
    | none =>
      simp only [World.finished, not_forall] at hnot
      obtain ⟨q, hmem, hq⟩ := hnot
      obtain ⟨p, hp⟩ := List.mem_iff_getElem?.1 hmem
      exact ⟨p, q, hp, by simpa using hq, .inr rfl⟩
  obtain ⟨a, w', -, hstep, hlt⟩ := proc_down hlock hrec hmax hq hlive hfree
  exact ⟨a, w', trivial, hstep, hlt⟩

/-- **No sequence number is lost.** `N` processes run the program on a file that
holds `s`, with `s + 20 * N` in the range of `int`. In every reachable state, of
any interleaving: the numbers printed so far, by all processes together, are
`s`, `s + 1` and so on, each once and in this order; no process has ended with
an error; when all have ended, the numbers are those up to `s + 20 * N - 1` and
the file reads as `s + 20 * N`; and they can always all come to their end. -/
theorem no_lost_number (hmax : s + 20 * N ≤ INT_MAX)
    (h : (machine main (start s N)).Reach (fun _ _ => True) w) :
    (∃ k ≤ 20 * N, w.shared.out.map Prod.snd = numbers s k) ∧
    (∀ q ∈ w.procs, ∀ msg, q.pc ≠ .failed msg) ∧
    (w.finished → w.shared.out.map Prod.snd = numbers s (20 * N) ∧
      ∃ data, w.shared.seqfile = some data ∧ sscanf_d data = some ((s + 20 * N : ℕ) : ℤ)) ∧
    ∃ w', ((machine main (start s N)).startedAt w).Reach (fun _ _ => True) w' ∧ w'.finished := by
  obtain ⟨hlock, hrec⟩ := recordInv_of_reach hmax h
  have hplace : ∀ q ∈ w.procs, q.Place := by
    intro q hq
    obtain ⟨p, hp⟩ := List.mem_iff_getElem?.1 hq
    exact (hrec.phase hp).place
  refine ⟨⟨_, hrec.out_le, hrec.out⟩, fun q hq msg hpc => ?_, fun hdone => ?_, ?_⟩
  · have := hplace q hq
    rw [Proc.Place, hpc] at this
    exact this
  · -- every process has made its twenty iterations
    have hended : ∀ q ∈ w.procs, q.user.stage = .test ∧ q.user.i = 20 := by
      intro q hq
      have hlive := hdone q hq
      have hp := hplace q hq
      unfold Proc.live at hlive
      split at hlive
      · cases hlive
      · cases hlive
      · rename_i hpc
        rw [Proc.Place, hpc] at hp
        exact hp
      · rename_i hpc
        rw [Proc.Place, hpc] at hp
        exact hp.elim
    have hall : w.shared.out.length = 20 * N := by
      rw [hrec.count, sum_map_const (c := 20) _ fun q hq => ?_, hrec.size]
      rw [Main.printed, (hended q hq).1, (hended q hq).2]
    obtain ⟨data, hdata, -, hfresh⟩ := hrec.file
    refine ⟨?_, data, hdata, ?_⟩
    · rw [hrec.out, hall]
      rfl
    · rw [← hall]
      exact hfresh fun q hq => by rw [(hended q hq).1]; rfl
  · exact h.finishes (fun w => (w.procs.map Proc.left).sum)
      fun w hw hnot => step_down hmax hw hnot

end Runs

/-- Two processes about to start on a file that holds 7. -/
def twoProcesses : World Shared Main where
  dir := .empty
  shared := ⟨some "007\n".toList, []⟩
  procs := [⟨101, false, ⟨.open, 0, 0, [], 0⟩, none, .user⟩,
    ⟨202, false, ⟨.open, 0, 0, [], 0⟩, none, .user⟩]

/-- The first process takes a number while the second one waits for the lock,
which then takes the next one. -/
theorem no_lost_number_run :
    ∃ w, (machine main (start 7 2)).Reach (fun _ _ => True) w ∧
      w.shared.out = [(101, 7), (202, 8)] ∧ w.shared.seqfile = some "009\n".toList ∧
      ∃ w', ((machine main (start 7 2)).startedAt w).Reach (fun _ _ => True) w' ∧
        w'.finished := by
  have hrun := Machine.Reach.run (machine main (start 7 2)) (fun _ _ => True) (s := twoProcesses)
    ⟨⟨rfl, by decide +kernel, rfl, _, rfl, by decide +kernel, by decide +kernel⟩, rfl,
      fun _ => rfl, by decide +kernel, by decide +kernel⟩
    [.user 0 (), .user 0 (), .sys 0, .sys 0, .user 1 (), .user 1 (), .sys 1,
      .user 0 (), .user 0 (), .user 0 (), .user 0 (), .user 0 (), .user 0 (), .user 0 (),
      .user 0 (), .sys 0, .sys 1, .sys 1, .sys 1,
      .user 1 (), .user 1 (), .user 1 (), .user 1 (), .user 1 (), .user 1 (), .user 1 ()]
    (by decide +kernel)
  obtain ⟨-, -, -, hend⟩ := no_lost_number (s := 7) (N := 2) (by decide) hrun
  exact ⟨_, hrun, by decide +kernel, by decide +kernel, hend⟩

end UnixNetProg.FileLock

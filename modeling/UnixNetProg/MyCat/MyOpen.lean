/-
`my_open`: what its result says about the calls that were made.

`Code` has `my_open` as `mycat` finds it, where only a full table makes a call fail. Here each
call of the parent and of the child answers as it likes, with any error number. An error gets
from the child to the parent as an exit status, which has eight bits, and out of
`my_recvfile` as a number that is not negative: `my_open_tells_iff` says when the result is
still the right one. `close` succeeds and leaves `errno` as it is.
-/
import UnixNetProg.Lib.Stdio
import UnixNetProg.MyCat.Code

set_option autoImplicit false

namespace UnixNetProg.MyCat.MyOpen

open UnixNetProg.FdTable UnixNetProg.Stdio

/-! ## The two programs -/

/-- A positive `errno`. -/
abbrev Errno := {e : ℕ // 0 < e}

/-- What a call returns, or why it fails. -/
abbrev Answer (α : Type) := Except Errno α

def EXIT_FAILURE : ℕ := 1

/-- How the calls answer. `signal` is what `wait` finds in the low byte of the status: 0 if
the child has exited. `recvmsg` finds a descriptor if one has been sent, and the end of the
stream if not. -/
structure Kernel where
  s_pipe : Answer (ℕ × ℕ)
  fork : Bool
  execl : Answer Unit
  openfile : String → ℤ → Answer ℕ
  sendmsg : ℤ → ℕ → Answer Unit
  wait : Bool
  signal : Fin 256
  recvmsg : Answer ℕ

/-- `snprintf (arg, sizeof (arg), "%d", v)` for an array of 10. -/
def argument (v : ℤ) : List Char := (sprintf_d v).take 9

/-- `atoi`. -/
def atoi (s : List Char) : ℤ := (sscanf_d s).getD 0

/-- The exit code of the child, and whether there is a descriptor in the socket. -/
structure Child where
  code : ℕ
  sent : Bool
  deriving DecidableEq, Repr

/-- `my_sendfile` (`7.passing_file_descriptor/send_recv_file.c:109-265`). -/
def my_sendfile (k : Kernel) (sockfd : ℤ) (fd : ℕ) : Child :=
  match k.sendmsg sockfd fd with
  | .error e => ⟨e, false⟩
  | .ok _ => ⟨0, true⟩

/-- `main` of `openfile` (`openfile.c:12-34`), for its three arguments. -/
def openfile (k : Kernel) (argsfd : List Char) (filename : String) (argmode : List Char) : Child :=
  match k.openfile filename (atoi argmode) with
  | .error e => ⟨e, false⟩
  | .ok fd => my_sendfile k (atoi argsfd) fd

/-- The child of `my_open`. -/
def child (k : Kernel) (sfd1 : ℕ) (filename : String) (mode : ℤ) : Child :=
  match k.execl with
  | .error _ => ⟨EXIT_FAILURE, false⟩   -- `err_sys`
  | .ok _ => openfile k (argument sfd1) filename (argument mode)

/-- What `wait` stores. -/
def status (k : Kernel) (c : Child) : ℕ :=
  if k.signal = 0 then c.code % 256 * 256 else k.signal

/-- A value is returned, with `errno`, or the process ends with a message. -/
inductive Outcome
  | returned (ret : ℤ) (errno : ℕ)
  | ended (msg : String)
  deriving DecidableEq, Repr

/-- `my_recvfile` (`send_recv_file.c:267-299`). -/
def my_recvfile (k : Kernel) (sent : Bool) (errno : ℕ) : Outcome :=
  match k.recvmsg with
  | .error e => .returned e.val e
  | .ok fd => if sent then .returned fd errno else .ended "Invalid control messsage"

/-- `my_open` (`my_open.c:6-138`); `errno` is what it was before. -/
def my_open (k : Kernel) (filename : String) (mode : ℤ) (errno : ℕ) : Outcome :=
  match k.s_pipe with
  | .error e => .returned (-1) e
  | .ok sfd =>
    if k.fork = false then .ended "can't fork"
    else if k.wait = false then .ended "wait error"
    else
      let c := child k sfd.2 filename mode
      let status := status k c
      if status % 256 ≠ 0 then .ended "child did not exist"
      else
        let status := status / 256 % 256
        if status = 0 then my_recvfile k c.sent errno else .returned (-1) status

/-! ## What should hold -/

/-- The descriptor received, if no call fails, or else the error of the first that does. -/
def Kernel.happens (k : Kernel) (filename : String) (mode : ℤ) : Answer ℕ := do
  let sfd ← k.s_pipe
  k.execl
  let fd ← k.openfile filename (atoi (argument mode))
  k.sendmsg (atoi (argument sfd.2)) fd
  k.recvmsg

/-- The result is the descriptor received, or -1 with the `errno` of the call that failed. -/
def Tells (k : Kernel) (filename : String) (mode : ℤ) : Outcome → Prop
  | .returned ret errno =>
    match k.happens filename mode with
    | .ok fd => ret = fd
    | .error e => ret = -1 ∧ errno = e
  | .ended _ => True

/-- Nothing but the answers of the child's calls and of `recvmsg` decides. -/
def Kernel.Quiet (k : Kernel) : Prop := k.fork = true ∧ k.wait = true ∧ k.signal = 0

/-- The error numbers get through, and `recvmsg` does not fail. -/
def Kernel.Clear (k : Kernel) (filename : String) (mode : ℤ) : Prop :=
  ∀ sfd, k.s_pipe = .ok sfd → k.Quiet →
    match k.execl with
    | .error e => e.val = EXIT_FAILURE
    | .ok _ =>
      match (k.openfile filename (atoi (argument mode))).bind
        (k.sendmsg (atoi (argument sfd.2))) with
      | .error e => e.val < 256 ∨ e.val % 256 = 0 ∧ ∃ fd, k.recvmsg = .ok fd
      | .ok _ => ∃ fd, k.recvmsg = .ok fd

section Results

variable {k : Kernel} {filename : String} {mode : ℤ} {errno : ℕ}

/-- An argument of at most nine characters arrives as it was. -/
theorem atoi_argument {v : ℤ} (h : (sprintf_d v).length ≤ 9) : atoi (argument v) = v := by
  have hread := sscanf_d_sprintf_0d 0 v [] (by simp)
  rw [List.append_nil] at hread
  rw [atoi, argument, List.take_of_length_le h, sprintf_d, hread, Option.getD_some]

/-- The child exits with the error number of the first call that fails in `openfile`. -/
theorem openfile_eq (argsfd argmode : List Char) :
    openfile k argsfd filename argmode =
      match (k.openfile filename (atoi argmode)).bind (k.sendmsg (atoi argsfd)) with
      | .error e => ⟨e, false⟩
      | .ok _ => ⟨0, true⟩ := by
  unfold openfile my_sendfile
  cases k.openfile filename (atoi argmode) with
  | error e => rfl
  | ok fd => rfl

/-- How the parent goes on after a child that exits with `c.code`. -/
def after (k : Kernel) (errno : ℕ) (c : Child) : Outcome :=
  if c.code % 256 = 0 then my_recvfile k c.sent errno else .returned (-1) (c.code % 256 : ℕ)

/-- How the parent goes on if the child has exited. -/
theorem my_open_quiet {sfd : ℕ × ℕ} (hpipe : k.s_pipe = .ok sfd) (h : k.Quiet) :
    my_open k filename mode errno =
      after k errno (child k sfd.2 filename mode) := by
  obtain ⟨hfork, hwait, hsignal⟩ := h
  have hdiv (n : ℕ) : n % 256 * 256 / 256 % 256 = n % 256 := by omega
  unfold my_open status after
  simp only [hpipe, hfork, hwait, hsignal, if_true, Bool.true_eq_false, if_false,
    Nat.mul_mod_left, ne_eq, not_true_eq_false, hdiv]

/-- Something ends the parent before it looks at the child. -/
theorem my_open_not_quiet {sfd : ℕ × ℕ} (hpipe : k.s_pipe = .ok sfd) (h : ¬ k.Quiet) :
    ∃ msg, my_open k filename mode errno = .ended msg := by
  unfold my_open status
  simp only [hpipe]
  by_cases hfork : k.fork = false
  · exact ⟨_, if_pos hfork⟩
  by_cases hwait : k.wait = false
  · exact ⟨_, (if_neg hfork).trans (if_pos hwait)⟩
  have hsignal : k.signal ≠ 0 := by
    intro hzero
    exact h ⟨Bool.eq_true_of_not_eq_false hfork, Bool.eq_true_of_not_eq_false hwait, hzero⟩
  have hlow : k.signal.val % 256 ≠ 0 := by
    rw [Nat.mod_eq_of_lt k.signal.isLt]
    exact fun hzero => hsignal (Fin.ext hzero)
  rw [if_neg hfork, if_neg hwait, if_neg hsignal]
  exact ⟨_, if_pos hlow⟩

/-- The child exits with the number `n` because of `e`: the parent gets the low byte of it,
and if that is 0 it looks for a descriptor. -/
theorem tells_exit_iff {e : Errno} (h : k.happens filename mode = .error e) (n : ℕ) :
    Tells k filename mode (after k errno ⟨n, false⟩) ↔
      n % 256 = e ∨ n % 256 = 0 ∧ ∃ fd, k.recvmsg = .ok fd := by
  have hpos := e.2
  by_cases hzero : n % 256 = 0
  · -- the status looks like 0, and `my_recvfile` is called
    rw [after, if_pos hzero, hzero]
    unfold my_recvfile Tells
    cases hrecv : k.recvmsg with
    | error e' =>
      simp only [h]
      constructor
      · rintro ⟨hneg, -⟩
        omega
      · rintro (heq | ⟨-, fd, hok⟩)
        · omega
        · cases hok
    | ok fd => simp
  · -- the status is what `my_open` puts into `errno`
    rw [after, if_neg hzero]
    unfold Tells
    simp only [h, true_and]
    constructor
    · exact .inl
    · rintro (heq | ⟨habs, -⟩)
      · exact heq
      · exact absurd habs hzero

/-- The child has sent a descriptor. -/
theorem tells_sent_iff (h : k.happens filename mode = k.recvmsg) :
    Tells k filename mode (after k errno ⟨0, true⟩) ↔ ∃ fd, k.recvmsg = .ok fd := by
  rw [after, if_pos (Nat.zero_mod 256)]
  unfold my_recvfile Tells
  cases hrecv : k.recvmsg with
  | error e =>
    simp only [h, hrecv]
    apply iff_of_false
    · rintro ⟨hneg, -⟩
      omega
    · rintro ⟨fd, hok⟩
      cases hok
  | ok fd =>
    simp only [h, hrecv, if_true]
    exact iff_of_true trivial ⟨fd, rfl⟩

/-- What the errors must be like where nothing but the answers of the child decides. -/
theorem clear_iff_of_quiet {sfd : ℕ × ℕ} (hpipe : k.s_pipe = .ok sfd) (hquiet : k.Quiet) :
    k.Clear filename mode ↔
      match k.execl with
      | .error e => e.val = EXIT_FAILURE
      | .ok _ =>
        match (k.openfile filename (atoi (argument mode))).bind
          (k.sendmsg (atoi (argument sfd.2))) with
        | .error e => e.val < 256 ∨ e.val % 256 = 0 ∧ ∃ fd, k.recvmsg = .ok fd
        | .ok _ => ∃ fd, k.recvmsg = .ok fd := by
  unfold Kernel.Clear
  rw [hpipe]
  constructor
  · exact fun h => h sfd rfl hquiet
  · intro h _ hsfd _
    cases hsfd
    exact h

/-- The child has ended, with an exit status of its own. -/
theorem tells_quiet_iff {sfd : ℕ × ℕ} (hpipe : k.s_pipe = .ok sfd) (hquiet : k.Quiet) :
    Tells k filename mode (my_open k filename mode errno) ↔ k.Clear filename mode := by
  rw [clear_iff_of_quiet hpipe hquiet, my_open_quiet hpipe hquiet]
  unfold child
  cases hexec : k.execl with
  | error e =>
    have hfirst : k.happens filename mode = .error e := by
      unfold Kernel.happens
      rw [hpipe, hexec]
      rfl
    rw [tells_exit_iff hfirst]
    simp only [EXIT_FAILURE]
    omega
  | ok u =>
    rw [openfile_eq]
    have hrest : k.happens filename mode =
        ((k.openfile filename (atoi (argument mode))).bind
          (k.sendmsg (atoi (argument sfd.2)))).bind fun _ => k.recvmsg := by
      unfold Kernel.happens
      rw [hpipe, hexec]
      cases k.openfile filename (atoi (argument mode)) <;> rfl
    cases hsend : (k.openfile filename (atoi (argument mode))).bind
        (k.sendmsg (atoi (argument sfd.2))) with
    | error e =>
      rw [hsend] at hrest
      simp only
      rw [tells_exit_iff hrest]
      -- an error number below 256 is its own low byte
      have hlow : e.val % 256 = e ↔ e.val < 256 := by omega
      rw [hlow]
    | ok u' =>
      rw [hsend] at hrest
      exact tells_sent_iff hrest

/-- **The result is unambiguous if and only if the error numbers get through**: an exit
status has room for them, and `recvmsg` does not fail. -/
theorem my_open_tells_iff (k : Kernel) (filename : String) (mode : ℤ) (errno : ℕ) :
    Tells k filename mode (my_open k filename mode errno) ↔ k.Clear filename mode := by
  cases hpipe : k.s_pipe with
  | error e =>
    apply iff_of_true
    · unfold my_open Tells Kernel.happens
      rw [hpipe]
      exact ⟨rfl, rfl⟩
    · intro sfd h
      rw [hpipe] at h
      cases h
  | ok sfd =>
    by_cases hquiet : k.Quiet
    · exact tells_quiet_iff hpipe hquiet
    · -- `my_open` ends the process, with a message of its own
      obtain ⟨msg, hend⟩ := @my_open_not_quiet k filename mode errno sfd hpipe hquiet
      rw [hend]
      exact iff_of_true trivial fun _ _ h => absurd h hquiet

end Results

/-- The file is open and its descriptor sent, but the table of the parent is full. -/
def fullTable : Kernel where
  s_pipe := .ok (3, 4)
  fork := true
  execl := .ok ()
  openfile := fun _ _ => .ok 3
  sendmsg := fun _ _ => .ok ()
  wait := true
  signal := 0
  recvmsg := .error ⟨24, by decide⟩

/-- 24 is returned, which is not a descriptor. -/
theorem my_open_fullTable : my_open fullTable "f" 0 0 = .returned 24 24 ∧
    ¬ Tells fullTable "f" 0 (my_open fullTable "f" 0 0) := by
  have hret : my_open fullTable "f" 0 0 = .returned 24 24 := by decide
  refine ⟨hret, fun h => ?_⟩
  have heq : (24 : ℤ) = -1 := by
    rw [hret] at h
    exact h.1
  cases heq

/-! ## `my_open` in `mycat` -/

/-- A call that fails only if there is no free number. -/
def allocates (limit : ℕ) (t : Table Desc) : Answer ℕ :=
  match t.lowest limit with
  | some i => .ok i
  | none => .error ⟨EMFILE, EMFILE.2.1⟩

/-- The kernel that `mycat` finds. -/
def kernel (env : Env) (t : Table Desc) : Kernel :=
  match MyCat.s_pipe env.limit t with
  | none => { fullTable with s_pipe := .error ⟨EMFILE, EMFILE.2.1⟩ }
  | some (sfd0, sfd1, t) =>
    { fullTable with
      s_pipe := .ok (sfd0, sfd1)
      openfile := fun filename _ =>
        match env.fs filename with
        | .cannot errno => .error ⟨errno, errno.2.1⟩
        | .opens _ _ => allocates env.limit (t.close sfd0)
      recvmsg := allocates env.limit (t.close sfd1) }

/-- What `my_open` does besides to `errno` and to the table. -/
def Outcome.value : Outcome → Except String ℤ
  | .returned ret _ => .ok ret
  | .ended msg => .error msg

/-- A child of `mycat` exits with an error number. -/
theorem my_open_exits {env : Env} {t t' : Table Desc} {sfd0 sfd1 : ℕ} {filename : String}
    (hpipe : MyCat.s_pipe env.limit t = some (sfd0, sfd1, t')) {e : MyCat.Errno}
    (h : MyCat.openfile env.limit (t'.close sfd0) (env.fs filename) = .exits e) :
    (MyCat.my_open env t filename).map Prod.snd = .ok (-1) := by
  have hlow : e.val % 256 ≠ 0 := by
    have hrange := e.2
    omega
  have hzero : e.val % 256 * 256 % 256 = 0 := Nat.mul_mod_left _ _
  have hcode : e.val % 256 * 256 / 256 % 256 = e.val % 256 := by omega
  unfold MyCat.my_open
  simp only [hpipe, h, MyCat.Child.status, hzero, hcode, ne_eq, not_true_eq_false, if_false, hlow]
  rfl

/-- It has sent a descriptor. -/
theorem my_open_sent {env : Env} {t t' : Table Desc} {sfd0 sfd1 : ℕ} {filename : String}
    (hpipe : MyCat.s_pipe env.limit t = some (sfd0, sfd1, t')) {d : Desc}
    (h : MyCat.openfile env.limit (t'.close sfd0) (env.fs filename) = .sent d) :
    (MyCat.my_open env t filename).map Prod.snd =
      .ok (((t'.close sfd1).lowest env.limit).getD EMFILE : ℕ) := by
  unfold MyCat.my_open
  simp only [hpipe, h, MyCat.Child.status, MyCat.my_recvfile, Table.alloc]
  cases (t'.close sfd1).lowest env.limit <;> rfl

/-- **`my_open` of `mycat` is this one**, with the kernel that `mycat` finds. -/
theorem my_open_kernel (env : Env) (t : Table Desc) (filename : String) (errno : ℕ) :
    (MyCat.my_open env t filename).map Prod.snd =
      (my_open (kernel env t) filename 0 errno).value := by
  cases hpipe : MyCat.s_pipe env.limit t with
  | none =>
    unfold MyCat.my_open kernel
    rw [hpipe]
    rfl
  | some q =>
    obtain ⟨sfd0, sfd1, t'⟩ := q
    have hquiet : (kernel env t).Quiet := by
      unfold kernel
      rw [hpipe]
      exact ⟨rfl, rfl, rfl⟩
    have hsfd : (kernel env t).s_pipe = .ok (sfd0, sfd1) := by
      unfold kernel
      rw [hpipe]
    have hrecv : (kernel env t).recvmsg = allocates env.limit (t'.close sfd1) := by
      unfold kernel
      rw [hpipe]
    rw [my_open_quiet hsfd hquiet]
    -- the child, in the two models
    have hchild : (∃ e : MyCat.Errno, child (kernel env t) sfd1 filename 0 = ⟨e, false⟩ ∧
          MyCat.openfile env.limit (t'.close sfd0) (env.fs filename) = .exits e) ∨
        ∃ d, child (kernel env t) sfd1 filename 0 = ⟨0, true⟩ ∧
          MyCat.openfile env.limit (t'.close sfd0) (env.fs filename) = .sent d := by
      unfold kernel
      simp only [hpipe, child, fullTable, openfile, my_sendfile, MyCat.openfile, Table.alloc,
        allocates]
      cases env.fs filename with
      | cannot e => exact .inl ⟨e, rfl, rfl⟩
      | opens chunks fails =>
        simp only
        cases (t'.close sfd0).lowest env.limit with
        | none => exact .inl ⟨EMFILE, rfl, rfl⟩
        | some i => exact .inr ⟨_, rfl, rfl⟩
    -- what the parent makes of the status
    rcases hchild with ⟨e, hc, hopen⟩ | ⟨d, hc, hopen⟩
    · have hlow : e.val % 256 ≠ 0 := by
        have hrange := e.2
        omega
      rw [my_open_exits hpipe hopen, hc, after, if_neg hlow]
      rfl
    · rw [my_open_sent hpipe hopen, hc, after, if_pos (Nat.zero_mod 256), my_recvfile, hrecv,
        allocates]
      cases (t'.close sfd1).lowest env.limit <;> rfl

end UnixNetProg.MyCat.MyOpen

/-
`12.inetd/inetd.c`: the main loop of `inetd`, and its handler of `SIGCHLD`.

The loop waits in `select` for one of four services, forks a child for it, and
goes on; a datagram service is taken out of the set while its child is running.
`sig_child` puts it back. The loop and the handler share `read_sockfds`,
`udp_select_conn` and the `child_pid` of each service, and the handler may run
between any two steps of the loop, so these are as small as the machine makes
them: `udp_select_conn++`, `FD_SET` and `FD_CLR` are a load and a store. The four
sockets are descriptors of one word of an `fd_set`.

A child is a process that `inetd` has forked and not waited for; that it
terminates is a step. Signals do not queue: `pending` is set by the first child
that terminates and cleared when the handler is entered. It is entered only once
at a time, and between its entry and its `waitpid` more children may terminate.

`udp_select_conn` is an `int`; its overflow, which is undefined, is not modelled.
-/
import UnixNetProg.Lib.Children
import UnixNetProg.Lib.Runs
import Mathlib.Data.Fintype.Pi
import Mathlib.Data.Fin.VecNotation

set_option autoImplicit false

namespace UnixNetProg.Inetd

open UnixNetProg.Processes UnixNetProg.Runs

/-! ## Services -/

def ARR_ELE_CNT : ℕ := 4

/-- An index of `serv_arr`. -/
abbrev Serv := Fin ARR_ELE_CNT

/-- 0 for stream, 1 for datagram. -/
def sock_type : Serv → ℕ := ![0, 1, 0, 1]

def service : Serv → String := !["str_echo", "dg_echo", "str_dis", "dg_dis"]

/-- The bits of an `fd_set` for the sockets of the services. -/
abbrev Fd_set := Serv → Bool

/-! ## The state -/

/-- Where the main loop is. `record` stands before `serv_arr[i].child_pid = pid`,
`load` and `store` are `udp_select_conn++`, `fill` and `filled` are the `FD_SET`
of the loop over `j`, `check`, `clear` and `cleared` the loop over `k`; the
second of a pair holds the value that was loaded. -/
inductive At
  | select
  | blocked (passed : Fd_set)
  | scan (i : ℕ)
  | accept (i : Serv)
  | fork (i : Serv)
  | record (i : Serv) (pid : ℕ)
  | load
  | store (v : ℤ)
  | fill (j : ℕ)
  | filled (j : Serv) (word : Fd_set)
  | test
  | check (k : ℕ)
  | clear (k : Serv)
  | cleared (k : Serv) (word : Fd_set)
  | exited
  deriving DecidableEq

structure World where
  read_sockfds : Fd_set
  udp_select_conn : ℤ
  child_pid : Serv → ℤ
  children : Children Serv
  pending : Bool
  handling : Bool
  pc : At

/-- Before the first `select`: every socket is in the set, and `child_pid` is
initialized for the datagram services. -/
def start : World where
  read_sockfds := fun _ => true
  udp_select_conn := 0
  child_pid := ![-1, 0, -1, 0]
  children := .none
  pending := false
  handling := false
  pc := .select

/-! ## The main loop -/

/-- The loop over `i`: the first socket in the set is served. -/
def World.scanned (w : World) (i : ℕ) : At :=
  if h : i < ARR_ELE_CNT then
    if w.read_sockfds ⟨i, h⟩ then
      if sock_type ⟨i, h⟩ = 0 then
        if service ⟨i, h⟩ = "str_echo" ∨ service ⟨i, h⟩ = "str_dis" then .accept ⟨i, h⟩
        else .scan (i + 1)
      else if service ⟨i, h⟩ = "dg_echo" ∨ service ⟨i, h⟩ = "dg_dis" then .fork ⟨i, h⟩
      else .scan (i + 1)
    else .scan (i + 1)
  else .fill 0

/-- The loop over `k`: a datagram service with a child is taken out. -/
def World.checked (w : World) (k : ℕ) : At :=
  if h : k < ARR_ELE_CNT then
    if sock_type ⟨k, h⟩ = 1 ∧ w.child_pid ⟨k, h⟩ ≠ 0 then .clear ⟨k, h⟩ else .check (k + 1)
  else .select

/-- A step of the main loop that no outcome of a system call decides. -/
def World.go (w : World) : Option World :=
  match w.pc with
  | .select => some { w with pc := .blocked w.read_sockfds }
  | .blocked _ => none
  | .scan i => some { w with pc := w.scanned i }
  | .accept i => some { w with pc := .fork i }
  | .fork _ => none
  | .record i pid => some { w with child_pid := Function.update w.child_pid i pid, pc := .load }
  | .load => some { w with pc := .store w.udp_select_conn }
  | .store v => some { w with udp_select_conn := v + 1, pc := .fill 0 }
  | .fill j =>
    if h : j < ARR_ELE_CNT then some { w with pc := .filled ⟨j, h⟩ w.read_sockfds }
    else some { w with pc := .test }
  | .filled j word =>
    some { w with read_sockfds := Function.update word j true, pc := .fill (j + 1) }
  | .test => some { w with pc := if w.udp_select_conn ≠ 0 then .check 0 else .select }
  | .check k => some { w with pc := w.checked k }
  | .clear k => some { w with pc := .cleared k w.read_sockfds }
  | .cleared k word =>
    some { w with read_sockfds := Function.update word k false, pc := .check (k + 1) }
  | .exited => none

/-- `select` returns with some of the sockets it was given. -/
def World.ready (w : World) (fds : Fd_set) : Option World :=
  match w.pc with
  | .blocked passed =>
    if ∀ i, fds i = true → passed i = true then some { w with read_sockfds := fds, pc := .scan 0 }
    else none
  | _ => none

/-- `fork` returns in the parent: it breaks out of the loop over `i`, with a
datagram service once the child is recorded and counted. -/
def World.forked (w : World) (pid : ℕ) : Option World :=
  match w.pc with
  | .fork i => (w.children.fork pid i).map fun cs =>
    { w with children := cs, pc := if sock_type i = 0 then .fill 0 else .record i pid }
  | _ => none

/-- A system call fails: `select` other than with `EINTR`, `accept` or `fork`. -/
def World.fails (w : World) : Option World :=
  match w.pc with
  | .blocked _ | .accept _ | .fork _ => some { w with pc := .exited }
  | _ => none

/-! ## The handler -/

/-- The service whose child `pid` is, by the table. -/
def World.serviceOf (w : World) (pid : ℕ) : Option Serv :=
  (List.finRange ARR_ELE_CNT).find? fun i => decide ((pid : ℤ) = w.child_pid i)

/-- The socket of a service is put back into the set. -/
def World.putBack (w : World) (i : Serv) : World :=
  { w with
    read_sockfds := Function.update w.read_sockfds i true
    udp_select_conn := w.udp_select_conn - 1
    child_pid := Function.update w.child_pid i 0 }

/-- `sig_child` (`12.inetd/inetd.c:507-531`) once `waitpid` has returned `pid`; the loop around
it is left. -/
def World.reaped (w : World) (pid : ℕ) : World :=
  match w.serviceOf pid with
  | some i => { w.putBack i with handling := false }
  | none => { w with handling := false }

/-- A step: of the main loop, of a child, or of the handler. -/
inductive Act
  | go
  | ready (fds : Fd_set)
  | forked (pid : ℕ)
  | fails
  | exits (c : Child Serv)
  | sigchld
  | waitpid (c : Child Serv)
  | nochild

/-- The loop of `main` (`12.inetd/inetd.c:279-496`), and `sig_child`. -/
def World.step (w : World) : Act → Option World
  | .go => if w.handling then none else w.go
  | .ready fds => if w.handling then none else w.ready fds
  | .forked pid => if w.handling then none else w.forked pid
  | .fails => if w.handling then none else w.fails
  | .exits c => (w.children.exit c).map fun cs => { w with children := cs, pending := true }
  | .sigchld =>
    -- a `select` that is interrupted returns `EINTR`, and is called again
    if w.pending = true ∧ w.handling = false ∧ w.pc ≠ .exited then
      some { w with
        pending := false
        handling := true
        pc := match w.pc with | .blocked _ => .select | pc => pc }
    else none
  | .waitpid c =>
    if w.handling then (w.children.wait c).map fun cs => { w with children := cs }.reaped c.pid
    else none
  | .nochild =>
    if w.handling = true ∧ w.children.zombies = 0 then some { w with handling := false } else none

def machine : Machine World Act where
  init := fun w => w = start
  step := World.step

/-! ## What a step can do -/

/-- Each step of the main loop, of a child, and of the handler, with what it
finds. -/
inductive Moves (w : World) : Act → World → Prop
  | call : w.pc = .select → w.handling = false →
      Moves w .go { w with pc := .blocked w.read_sockfds }
  | ready {passed fds : Fd_set} : w.pc = .blocked passed → (∀ i, fds i = true → passed i = true) →
      Moves w (.ready fds) { w with read_sockfds := fds, pc := .scan 0 }
  | skip {i : ℕ} : w.pc = .scan i → Moves w .go { w with pc := .scan (i + 1) }
  | scanned {i : ℕ} : w.pc = .scan i → Moves w .go { w with pc := .fill 0 }
  | stream {i : Serv} : w.pc = .scan i → w.read_sockfds i = true → sock_type i = 0 →
      Moves w .go { w with pc := .accept i }
  | datagram {i : Serv} : w.pc = .scan i → w.read_sockfds i = true → sock_type i ≠ 0 →
      Moves w .go { w with pc := .fork i }
  | accepted {i : Serv} : w.pc = .accept i → Moves w .go { w with pc := .fork i }
  | served {i : Serv} {pid : ℕ} {cs : Children Serv} : w.pc = .fork i → sock_type i = 0 →
      w.children.fork pid i = some cs →
        Moves w (.forked pid) { w with children := cs, pc := .fill 0 }
  | forked {i : Serv} {pid : ℕ} {cs : Children Serv} : w.pc = .fork i → sock_type i ≠ 0 →
      w.children.fork pid i = some cs →
      Moves w (.forked pid) { w with children := cs, pc := .record i pid }
  | record {i : Serv} {pid : ℕ} : w.pc = .record i pid →
      Moves w .go { w with child_pid := Function.update w.child_pid i pid, pc := .load }
  | load : w.pc = .load → Moves w .go { w with pc := .store w.udp_select_conn }
  | store {v : ℤ} : w.pc = .store v → Moves w .go { w with udp_select_conn := v + 1, pc := .fill 0 }
  | fill {j : Serv} : w.pc = .fill j → Moves w .go { w with pc := .filled j w.read_sockfds }
  | full {j : ℕ} : w.pc = .fill j → ARR_ELE_CNT ≤ j → Moves w .go { w with pc := .test }
  | filled {j : Serv} {word : Fd_set} : w.pc = .filled j word →
      Moves w .go { w with read_sockfds := Function.update word j true, pc := .fill (j + 1) }
  | some_conn : w.pc = .test → w.udp_select_conn ≠ 0 → Moves w .go { w with pc := .check 0 }
  | no_conn : w.pc = .test → w.udp_select_conn = 0 → Moves w .go { w with pc := .select }
  | keep {k : Serv} : w.pc = .check k → (sock_type k = 1 → w.child_pid k = 0) →
      Moves w .go { w with pc := .check (k + 1) }
  | checked {k : ℕ} : w.pc = .check k → ARR_ELE_CNT ≤ k → Moves w .go { w with pc := .select }
  | clear {k : Serv} : w.pc = .check k → sock_type k = 1 → w.child_pid k ≠ 0 →
      Moves w .go { w with pc := .clear k }
  | cleared {k : Serv} : w.pc = .clear k → Moves w .go { w with pc := .cleared k w.read_sockfds }
  | stored {k : Serv} {word : Fd_set} : w.pc = .cleared k word →
      Moves w .go { w with read_sockfds := Function.update word k false, pc := .check (k + 1) }
  | fails : ((∃ passed, w.pc = .blocked passed) ∨ ∃ i, w.pc = .accept i ∨ w.pc = .fork i) →
      Moves w .fails { w with pc := .exited }
  | exits {c : Child Serv} {cs : Children Serv} : w.children.exit c = some cs →
      Moves w (.exits c) { w with children := cs, pending := true }
  | interrupt {passed : Fd_set} : w.pc = .blocked passed → w.pending = true → w.handling = false →
      Moves w .sigchld { w with pending := false, handling := true, pc := .select }
  | enter : (∀ passed, w.pc ≠ .blocked passed) → w.pending = true → w.handling = false →
      Moves w .sigchld { w with pending := false, handling := true }
  | known {c : Child Serv} {cs : Children Serv} {i : Serv} : w.handling = true →
      w.children.wait c = some cs → w.child_pid i = c.pid →
      Moves w (.waitpid c) { w.putBack i with children := cs, handling := false }
  | unknown {c : Child Serv} {cs : Children Serv} : w.handling = true →
      w.children.wait c = some cs → (∀ i, w.child_pid i ≠ c.pid) →
      Moves w (.waitpid c) { w with children := cs, handling := false }
  | nochild : w.handling = true → w.children.zombies = 0 →
      Moves w .nochild { w with handling := false }

section Inversion

variable {w w' : World}

theorem moves_scanned {i : ℕ} (hpc : w.pc = .scan i) :
    Moves w .go { w with pc := w.scanned i } := by
  unfold World.scanned
  split_ifs with hi hset htype hname hname
  · exact .stream (i := ⟨i, hi⟩) hpc hset htype
  · exact .skip hpc
  · exact .datagram (i := ⟨i, hi⟩) hpc hset htype
  · exact .skip hpc
  · exact .skip hpc
  · exact .scanned hpc

theorem moves_checked {k : ℕ} (hpc : w.pc = .check k) :
    Moves w .go { w with pc := w.checked k } := by
  unfold World.checked
  split_ifs with hk hrec
  · exact .clear (k := ⟨k, hk⟩) hpc hrec.1 hrec.2
  · apply Moves.keep (k := ⟨k, hk⟩) hpc
    intro htype
    by_contra hne
    exact hrec ⟨htype, hne⟩
  · exact .checked hpc (Nat.not_lt.1 hk)

theorem moves_go (hhandling : w.handling = false) (h : w.go = some w') : Moves w .go w' := by
  unfold World.go at h
  split at h <;> rename_i hpc
  · cases h
    exact .call hpc hhandling
  · cases h
  · cases h
    exact moves_scanned hpc
  · cases h
    exact .accepted hpc
  · cases h
  · cases h
    exact .record hpc
  · cases h
    exact .load hpc
  · cases h
    exact .store hpc
  · split_ifs at h with hj <;> cases h
    · exact .fill (j := ⟨_, hj⟩) hpc
    · exact .full hpc (Nat.not_lt.1 hj)
  · cases h
    exact .filled hpc
  · cases h
    split_ifs with hconn
    · exact .some_conn hpc hconn
    · exact .no_conn hpc (not_not.1 hconn)
  · cases h
    exact moves_checked hpc
  · cases h
    exact .cleared hpc
  · cases h
    exact .stored hpc
  · cases h

theorem moves_forked {pid : ℕ} (h : w.forked pid = some w') : Moves w (.forked pid) w' := by
  unfold World.forked at h
  split at h
  · rename_i hpc
    obtain ⟨cs, hfork, rfl⟩ := Option.map_eq_some_iff.1 h
    split_ifs with htype
    · exact .served hpc htype hfork
    · exact .forked hpc htype hfork
  · cases h

/-- The handler finds the child in the table, or does not. -/
theorem moves_waitpid {c : Child Serv} {cs : Children Serv} (hhandling : w.handling = true)
    (hwait : w.children.wait c = some cs) :
    Moves w (.waitpid c) ({ w with children := cs }.reaped c.pid) := by
  unfold World.reaped World.serviceOf
  split
  · rename_i hfind
    have hpid := List.find?_some hfind
    exact .known hhandling hwait (of_decide_eq_true hpid).symm
  · rename_i hfind
    apply Moves.unknown hhandling hwait
    intro i hpid
    have hno := List.find?_eq_none.1 hfind i (List.mem_finRange i)
    exact hno (decide_eq_true hpid.symm)

/-- **What a step can do.** -/
theorem moves_of_step {a : Act} (h : w.step a = some w') : Moves w a w' := by
  cases a with
  | go =>
    simp only [World.step] at h
    split_ifs at h with hhandling
    exact moves_go (by simpa using hhandling) h
  | ready fds =>
    simp only [World.step, World.ready] at h
    split_ifs at h
    split at h
    · rename_i hpc
      split_ifs at h with hsub
      cases h
      exact .ready hpc hsub
    · cases h
  | forked pid =>
    simp only [World.step] at h
    split_ifs at h
    exact moves_forked h
  | fails =>
    simp only [World.step, World.fails] at h
    split_ifs at h
    split at h <;> rename_i hpc <;> cases h
    · exact .fails (.inl ⟨_, hpc⟩)
    · exact .fails (.inr ⟨_, .inl hpc⟩)
    · exact .fails (.inr ⟨_, .inr hpc⟩)
  | exits c =>
    obtain ⟨cs, hexit, rfl⟩ := Option.map_eq_some_iff.1 h
    exact .exits hexit
  | sigchld =>
    simp only [World.step] at h
    split_ifs at h with hcond
    obtain ⟨hpending, hhandling, -⟩ := hcond
    cases h
    split
    · rename_i hpc
      exact .interrupt hpc hpending hhandling
    · rename_i hpc
      exact .enter hpc hpending hhandling
  | waitpid c =>
    simp only [World.step] at h
    split_ifs at h with hhandling
    obtain ⟨cs, hwait, rfl⟩ := Option.map_eq_some_iff.1 h
    exact moves_waitpid hhandling hwait
  | nochild =>
    simp only [World.step] at h
    split_ifs at h with hcond
    cases h
    exact .nochild hcond.1 hcond.2

end Inversion

end UnixNetProg.Inetd

/-
What a search for a reserved port leaves open.

`socket` makes a descriptor, the lowest one that is free, and neither function closes it:
a search that fails behind it returns -1, and the caller, who has not been told the
descriptor, cannot close it either. `my_open`, which fails as well with descriptors of its
own, closes them.

The open descriptors are followed through the system calls that `Search` records.
-/
import Mathlib.Data.Int.LeastGreatest
import UnixNetProg.Lib.FdTable
import UnixNetProg.Rresvport.Search

set_option autoImplicit false

namespace UnixNetProg.Rresvport

open UnixNetProg.FdTable

/-! ## The process -/

/-- A process has as many descriptors as it may have. -/
def EMFILE : ℕ := 24

/-- What a descriptor stands for. -/
inductive Desc
  | file
  | socket (type : SockType)
  deriving DecidableEq, Repr

/-- The system: how many descriptors a process may have, why it refuses a socket, if it
does, and what it answers to `bind` for each port. -/
structure Kernel where
  limit : ℕ
  refuses : Option ℕ
  bind : ℕ → Except ℕ Unit

/-- What it answers a process with these descriptors. -/
def Kernel.net (k : Kernel) (t : Table Desc) : Net where
  socket :=
    match k.refuses with
    | some errno => .error errno
    | none =>
      match t.lowest k.limit with
      | some sockfd => .ok sockfd
      | none => .error EMFILE
  bind := k.bind

/-- The descriptors after a system call. -/
def Net.perform (net : Net) (t : Table Desc) : Call → Table Desc
  | .socket _ type _ =>
    match net.socket with
    | .ok sockfd => Function.update t sockfd (some (.socket type))
    | .error _ => t
  | .bind _ _ => t

/-- The descriptors after some of them. -/
def Net.descriptors (net : Net) (t : Table Desc) (calls : List Call) : Table Desc :=
  calls.foldl net.perform t

/-- A call that has failed leaves the descriptors as they were. -/
def Clean (net : Net) (t : Table Desc) (r : Result) : Prop :=
  r.ret = -1 → net.descriptors t r.state.calls = t

/-- There is no socket to be closed: the port is refused, or `socket` fails, or the search
from `p` finds a port. -/
def NothingToClose (net : Net) (p : ℤ) : Prop :=
  p < 512 ∨ 1024 < p ∨ (∃ errno, net.socket = .error errno) ∨
    ∃ q, IsGreatest (net.free p) q ∧ net.bind q.toNat = .ok ()

/-! ## The calls -/

section Calls

variable {v : Copy} {net : Net} {t : Table Desc} {k : Kernel} {sockfd : ℕ} {p : ℤ} {errno : ℕ}

/-- The loop makes calls of `bind`, and no others. -/
theorem loop_calls (v : Copy) (net : Net) (sockfd : ℕ) (desired : ℤ) (s : State) :
    ∃ ports : List ℤ, (v.loop net sockfd desired s).state.calls =
      s.calls ++ ports.map (attempt sockfd) := by
  induction s using Copy.loop.induct net sockfd with
  | case1 s hlo hbind ih =>
    -- the port in use, and then the ones that the rest of the loop tries
    obtain ⟨ports, hports⟩ := ih
    refine ⟨s.crport :: ports, ?_⟩
    rw [loop_used hlo hbind]
    apply hports.trans
    show s.calls ++ [attempt sockfd s.crport] ++ ports.map (attempt sockfd) = _
    rw [List.append_assoc, List.map_cons, List.singleton_append]
  | case2 s hlo errno hbind hne =>
    rw [loop_error hlo hbind hne]
    exact ⟨[s.crport], rfl⟩
  | case3 s hlo hbind =>
    rw [loop_ok hlo hbind]
    exact ⟨[s.crport], rfl⟩
  | case4 s hlo =>
    rw [loop_end (Int.not_le.1 hlo)]
    exact ⟨[], (List.append_nil _).symm⟩

/-- `bind` makes no descriptor and closes none. -/
theorem descriptors_attempts (net : Net) (t : Table Desc) (sockfd : ℕ) (ports : List ℤ) :
    net.descriptors t (ports.map (attempt sockfd)) = t := by
  induction ports with
  | nil => rfl
  | cons port ports ih => exact ih

/-- **A search that has its socket ends with that socket open**, however it ends. -/
theorem descriptors_search (hsocket : net.socket = .ok sockfd) (hlo : 512 ≤ p) (hhi : p ≤ 1024) :
    net.descriptors t (v.rresvport net (entry p errno)).state.calls =
      Function.update t sockfd (some (.socket v.type)) := by
  obtain ⟨ports, hports⟩ := loop_calls v net sockfd p
    ((entry p errno).call (.socket AF_INET v.type 0))
  have hsearch : v.rresvport net (entry p errno) =
      v.loop net sockfd p ((entry p errno).call (.socket AF_INET v.type 0)) :=
    rresvport_inside hlo hhi hsocket
  have hcalls : ((entry p errno).call (.socket AF_INET v.type 0)).calls =
      [.socket AF_INET v.type 0] := rfl
  have hopen : net.descriptors t [.socket AF_INET v.type 0] =
      Function.update t sockfd (some (.socket v.type)) := by
    simp only [Net.descriptors, List.foldl_cons, List.foldl_nil, Net.perform, hsocket]
  rw [hsearch, hports, hcalls]
  unfold Net.descriptors at hopen ⊢
  rw [List.foldl_append, hopen]
  exact descriptors_attempts net _ sockfd ports

/-- Without a socket there is nothing to be left open. -/
theorem descriptors_no_socket (hsocket : net.socket = .error errno) (t : Table Desc)
    (calls : List Call) : net.descriptors t calls = t := by
  induction calls with
  | nil => rfl
  | cons c calls ih =>
    have hsame : net.perform t c = t := by
      cases c with
      | socket domain type protocol => simp only [Net.perform, hsocket]
      | bind sockfd sbai => rfl
    unfold Net.descriptors at ih ⊢
    rw [List.foldl_cons, hsame, ih]

/-- A search that has its socket fails unless it finds a port. -/
theorem search_fails (hsocket : net.socket = .ok sockfd) (hlo : 512 ≤ p) (hhi : p ≤ 1024)
    (hnone : ∀ q, IsGreatest (net.free p) q → net.bind q.toNat ≠ .ok ()) :
    (v.rresvport net (entry p errno)).ret = -1 := by
  by_cases hfree : net.free p = ∅
  · exact (search_in_use hsocket hlo hhi hfree).1
  · -- the highest port that is not in use cannot be bound either
    obtain ⟨m, hm⟩ := Set.nonempty_iff_ne_empty.2 hfree
    obtain ⟨q, hq, hmax⟩ := Int.exists_greatest_of_bdd (P := fun m => m ∈ net.free p)
      ⟨p, fun _ hz => hz.2.1⟩ ⟨m, hm⟩
    have hgreatest : IsGreatest (net.free p) q := ⟨hq, hmax⟩
    exact (search_found hsocket hhi hgreatest).failed (hnone q hgreatest)

/-- The socket has a descriptor that was free. -/
theorem free_of_socket (h : (k.net t).socket = .ok sockfd) : t sockfd = none := by
  unfold Kernel.net at h
  simp only at h
  split at h
  · cases h
  · split at h
    · rename_i hlowest
      cases h
      simpa using List.find?_some hlowest
    · cases h

/-- **A search leaves nothing behind if and only if there is no socket to be closed.** -/
theorem clean_iff (v : Copy) (k : Kernel) (t : Table Desc) (p : ℤ) (errno : ℕ) :
    Clean (k.net t) t (v.rresvport (k.net t) (entry p errno)) ↔ NothingToClose (k.net t) p := by
  constructor
  · intro hclean
    by_contra hopen
    unfold NothingToClose at hopen
    push Not at hopen
    obtain ⟨hlo, hhi, hsocket, hnone⟩ := hopen
    cases hfd : (k.net t).socket with
    | error e => exact hsocket e hfd
    | ok sockfd =>
      have hleft := hclean (search_fails hfd hlo hhi hnone)
      rw [descriptors_search hfd hlo hhi] at hleft
      -- the descriptor was free, and now it is not
      have hat := congrFun hleft sockfd
      rw [Function.update_self, free_of_socket hfd] at hat
      cases hat
  · rintro (hlo | hhi | ⟨e, hsocket⟩ | ⟨q, hq, hbind⟩) hret
    · rw [(search_outside (.inl hlo)).2.1]
      rfl
    · rw [(search_outside (.inr hhi)).2.1]
      rfl
    · exact descriptors_no_socket hsocket t _
    · -- this search has not failed
      cases hfd : (k.net t).socket with
      | error e => exact descriptors_no_socket hfd t _
      | ok sockfd =>
        by_cases hhi : p ≤ 1024
        · have hfound : Found v.type (k.net t) p sockfd q (v.rresvport (k.net t) (entry p errno)) :=
            search_found hfd hhi hq
          have hret' := (hfound.bound hbind).1
          rw [hret] at hret'
          omega
        · rw [(search_outside (.inr (Int.not_le.1 hhi))).2.1]
          rfl

end Calls

/-- **Neither function leaves anything behind if and only if there is no socket to be
closed.** -/
theorem rresvport_clean_iff (k : Kernel) (t : Table Desc) (p : ℤ) (errno : ℕ) :
    (Clean (k.net t) t (my_rresvport (k.net t) (entry p errno)) ↔ NothingToClose (k.net t) p) ∧
      (Clean (k.net t) t (my_rresvport_udp (k.net t) (entry p errno)) ↔
        NothingToClose (k.net t) p) :=
  ⟨clean_iff stream k t p errno, clean_iff dgram k t p errno⟩

/-- A system on which no port can be bound to. -/
def refused : Kernel := ⟨10, none, fun _ => .error 13⟩

/-- A process with its three standard files. -/
def standard : Table Desc := fun i => if i < 3 then some .file else none

/-- The socket that could not be bound stays open. -/
theorem rresvport_leaks :
    ¬ Clean (refused.net standard) standard
      (my_rresvport (refused.net standard) (entry 1023 0)) := by
  intro hclean
  have hsocket : (refused.net standard).socket = .ok 3 := rfl
  have hleft := hclean (search_fails hsocket (by decide) (by decide) fun _ _ => nofun)
  rw [my_rresvport, descriptors_search hsocket (by decide) (by decide)] at hleft
  have hat := congrFun hleft 3
  revert hat
  decide

end UnixNetProg.Rresvport

/-
`11.tcp_daemon/tcp_daemon.c`: a child for each connection, and a handler that waits for all of
them.

`daemon_start` closes everything, so the log file is 0 and its `dup` is 1, the socket is 2 and
a connection 3. The parent accepts, forks and closes; a child has the connection and not the
socket.

`sig_child` calls `wait3` until there is nothing left to wait for. Signals do not queue, and a
child may terminate at any moment, in the handler as well; it makes no difference, because
a child that has terminated and is not waited for has a signal pending or a handler running
(`Reaps.owed`).
-/
import UnixNetProg.Lib.Children
import UnixNetProg.Lib.FdTable
import UnixNetProg.Lib.Runs

set_option autoImplicit false

namespace UnixNetProg.TcpDaemon

open UnixNetProg.FdTable UnixNetProg.Processes UnixNetProg.Runs

/-! ## Before the loop -/

def NOFILE : ℕ := 256

/-- What a descriptor stands for: a connection has the number of the `accept` it came from. -/
inductive Desc
  | log
  | sock
  | conn (n : ℕ)
  | inherited (k : ℕ)
  deriving DecidableEq

/-- What the system calls before the loop come to, and how many descriptors there may be. -/
structure Env where
  limit : ℕ
  getppid : ℕ
  fork : Bool
  setpgid : Bool
  openLog : Bool
  socket : Bool
  listen : Bool

/-- A call that makes a descriptor, if it succeeds. -/
def Env.make (e : Env) (ok : Bool) (t : Table Desc) (d : Desc) : Option (ℕ × Table Desc) :=
  if ok then t.alloc e.limit d else none

/-- `daemon_start` up to the loop (`11.tcp_daemon/tcp_daemon.c:71-198`): the descriptors and the
socket; `none` where it returns before. A socket that was not made, or not bound, is only
noticed by `listen`: without one it fails, and one that is not bound it binds to a port of its
own. -/
def daemon_start (e : Env) (t : Table Desc) : Option (Table Desc × ℕ) :=
  if e.getppid = 1 ∨ (e.fork = true ∧ e.setpgid = true) then
    (e.make e.openLog (t.closeBelow NOFILE none) .log).bind fun (_, t) =>
      -- where `dup` fails there is no descriptor left for the socket either
      (e.make true t .log).bind fun (_, t) =>
        (e.make e.socket t .sock).bind fun (sockfd, t) =>
          if e.listen then some (t, sockfd) else none
  else none

/-! ## The loop, the handler and the children -/

/-- Where the parent is; `fork` and `close` have `accepted_sock_fd`. -/
inductive At
  | accept
  | fork (fd : ℕ)
  | close (fd : ℕ)
  | returned
  deriving DecidableEq

/-- A child as it was forked: its connection, the descriptor it knows it by, and what it has
open when it calls `str_echo`. -/
structure Forked where
  pid : ℕ
  job : ℕ
  accepted_sock_fd : ℕ
  fds : Table Desc

structure World where
  table : Table Desc
  sockfd : ℕ
  accepted : ℕ
  children : Children ℕ
  forked : List Forked
  pending : Bool
  handling : Bool
  pc : At

/-- A step: of the parent, of a child, or of the handler. -/
inductive Act
  | go
  | forked (pid : ℕ)
  | fails
  | exits (c : Child ℕ)
  | sigchld
  | wait3 (c : Child ℕ)
  | nochild

/-- The loop of `daemon_start` (`tcp_daemon.c:200-218`) and `sig_child` (`tcp_daemon.c:56-69`). -/
def World.step (e : Env) (w : World) : Act → Option World
  | .go =>
    if w.handling then none
    else
      match w.pc with
      | .accept => (w.table.alloc e.limit (.conn w.accepted)).map fun (fd, t) =>
        { w with table := t, accepted := w.accepted + 1, pc := .fork fd }
      | .close fd => some { w with table := w.table.close fd, pc := .accept }
      | .fork _ | .returned => none
  | .forked pid =>
    if w.handling then none
    else
      match w.pc with
      | .fork fd => (w.children.fork pid (w.accepted - 1)).map fun cs =>
        { w with
          children := cs
          forked := ⟨pid, w.accepted - 1, fd, w.table.close w.sockfd⟩ :: w.forked
          pc := .close fd }
      | .accept | .close _ | .returned => none
  | .fails =>
    if w.handling then none
    else
      match w.pc with
      | .accept | .fork _ => some { w with pc := .returned }
      | .close _ | .returned => none
  | .exits c => (w.children.exit c).map fun cs => { w with children := cs, pending := true }
  | .sigchld =>
    if w.pending = true ∧ w.handling = false ∧ w.pc ≠ .returned then
      some { w with pending := false, handling := true }
    else none
  | .wait3 c =>
    -- and once more
    if w.handling then (w.children.wait c).map fun cs => { w with children := cs } else none
  | .nochild =>
    if w.handling = true ∧ w.children.zombies = 0 then some { w with handling := false } else none

/-- The daemon, started with the descriptors `t`. -/
def daemon (e : Env) (t : Table Desc) : Machine World Act where
  init := fun w => daemon_start e t = some (w.table, w.sockfd) ∧ w.accepted = 0 ∧
    w.children = .none ∧ w.forked = [] ∧ w.pending = false ∧ w.handling = false ∧ w.pc = .accept
  step := World.step e

/-! ## What stays true -/

/-- What the parent has open where no connection is in its hands. -/
def opened : List Desc := [.log, .log, .sock]

theorem make_dense {e : Env} {ok : Bool} {rest t : Table Desc} {l : List Desc} {d : Desc} {fd : ℕ}
    (hl : l.length < NOFILE) (h : e.make ok (Table.dense NOFILE rest l) d = some (fd, t)) :
    fd = l.length ∧ t = Table.dense NOFILE rest (l ++ [d]) := by
  unfold Env.make at h
  split_ifs at h
  exact Table.alloc_dense hl h

theorem daemon_start_eq {e : Env} {t t' : Table Desc} {sockfd : ℕ}
    (h : daemon_start e t = some (t', sockfd)) :
    t' = Table.dense NOFILE t opened ∧ sockfd = 2 := by
  unfold daemon_start at h
  split at h
  swap
  · cases h
  rw [Table.closeBelow_none] at h
  -- each is the next number
  obtain ⟨⟨fd, t₁⟩, hlog, h⟩ := Option.bind_eq_some_iff.1 h
  obtain ⟨rfl, rfl⟩ := make_dense (by decide) hlog
  obtain ⟨⟨fd', t₂⟩, hdup, h⟩ := Option.bind_eq_some_iff.1 h
  obtain ⟨rfl, rfl⟩ := make_dense (by decide) hdup
  obtain ⟨⟨fd'', t₃⟩, hsocket, h⟩ := Option.bind_eq_some_iff.1 h
  obtain ⟨rfl, rfl⟩ := make_dense (by decide) hsocket
  simp only at h
  split_ifs at h
  cases h
  exact ⟨rfl, rfl⟩

/-- The connection that the parent has in its hands, if any, and whether a child has it too. -/
def At.hand (pc : At) : Option (ℕ × Bool) :=
  match pc with
  | .accept | .returned => none
  | .fork fd => some (fd, false)
  | .close fd => some (fd, true)

/-- What a child has: the connection in place of the socket. -/
structure Forked.Ready (rest : Table Desc) (f : Forked) : Prop where
  fd : f.accepted_sock_fd = opened.length
  fds : f.fds = (Table.dense NOFILE rest (opened ++ [.conn f.job])).close 2

/-- The descriptors, the children, and who waits for them. -/
structure Reaps (rest : Table Desc) (w : World) : Prop where
  sockfd : w.sockfd = 2
  table : w.pc ≠ .returned → w.table = Table.dense NOFILE rest
    (opened ++ w.pc.hand.toList.map fun _ => .conn (w.accepted - 1))
  hand : ∀ h ∈ w.pc.hand, h.1 = opened.length ∧ 0 < w.accepted
  given : ∃ n ≤ w.accepted, w.forked.map Forked.job = (List.range n).reverse ∧
    (w.pc ≠ .returned →
      n + (w.pc.hand.toList.countP fun h => !h.2) = w.accepted)
  ready : ∀ f ∈ w.forked, f.Ready rest
  child : ∀ c ∈ w.children, ∃ f ∈ w.forked, f.pid = c.pid ∧ f.job = c.job
  owed : w.children.zombies ≠ 0 → w.pending = true ∨ w.handling = true

namespace Reaps

variable {e : Env} {t rest : Table Desc} {w w' : World}

theorem start (h : (daemon e t).init w) : Reaps t w := by
  obtain ⟨hboot, haccepted, hchildren, hforked, -, -, hpc⟩ := h
  obtain ⟨htable, hsockfd⟩ := daemon_start_eq hboot
  refine ⟨hsockfd, fun _ => ?_, ?_, ⟨0, Nat.zero_le _, ?_, fun _ => ?_⟩, ?_, ?_, ?_⟩
  · rw [htable, hpc]
    rfl
  · rw [hpc]
    nofun
  · rw [hforked]
    rfl
  · rw [hpc, haccepted]
    rfl
  · rw [hforked]
    nofun
  · rw [hchildren]
    nofun
  · rw [hchildren]
    exact fun h => absurd rfl h

/-- A connection is accepted: it is the next number. -/
theorem accept (h : Reaps rest w) {fd : ℕ} {t : Table Desc} (hpc : w.pc = .accept)
    (halloc : w.table.alloc e.limit (.conn w.accepted) = some (fd, t)) :
    Reaps rest { w with table := t, accepted := w.accepted + 1, pc := .fork fd } := by
  have hlive : w.pc ≠ .returned := by
    rw [hpc]
    nofun
  have htable := h.table hlive
  obtain ⟨n, hn, hgiven, hcount⟩ := h.given
  have hcount := hcount hlive
  rw [hpc] at htable hcount
  have htable : w.table = Table.dense NOFILE rest opened := htable
  have hcount : n = w.accepted := hcount
  rw [htable] at halloc
  obtain ⟨rfl, rfl⟩ := Table.alloc_dense (by decide) halloc
  refine ⟨h.sockfd, fun _ => rfl, ?_, ⟨n, hn.trans (Nat.le_succ _), hgiven, fun _ => ?_⟩,
    h.ready, h.child, h.owed⟩
  · rintro _ ⟨⟩
    exact ⟨rfl, Nat.succ_pos _⟩
  · show n + 1 = w.accepted + 1
    rw [hcount]

/-- A child is forked, and has the connection. -/
theorem fork (h : Reaps rest w) {fd pid : ℕ} {cs : Children ℕ} (hpc : w.pc = .fork fd)
    (hfork : w.children.fork pid (w.accepted - 1) = some cs) :
    Reaps rest { w with
      children := cs
      forked := ⟨pid, w.accepted - 1, fd, w.table.close w.sockfd⟩ :: w.forked
      pc := .close fd } := by
  have hlive : w.pc ≠ .returned := by
    rw [hpc]
    nofun
  have htable := h.table hlive
  obtain ⟨hfd, hpos⟩ := h.hand (fd, false) (by rw [hpc]; rfl)
  obtain ⟨n, hn, hgiven, hcount⟩ := h.given
  have hcount := hcount hlive
  rw [hpc] at htable hcount
  have hcount : n + 1 = w.accepted := hcount
  refine ⟨h.sockfd, fun _ => htable, ?_, ⟨n + 1, hcount.le, ?_, fun _ => hcount⟩, ?_, ?_, ?_⟩
  · rintro _ ⟨⟩
    exact ⟨hfd, hpos⟩
  · rw [List.map_cons, hgiven, List.range_succ, List.reverse_append, ← hcount]
    rfl
  · refine List.forall_mem_cons.2 ⟨⟨hfd, ?_⟩, h.ready⟩
    show w.table.close w.sockfd = _
    rw [htable, h.sockfd]
    rfl
  · intro c hc
    rcases (Children.mem_fork hfork).1 hc with rfl | hold
    · exact ⟨_, List.mem_cons_self, rfl, rfl⟩
    · obtain ⟨f, hf, hsame⟩ := h.child c hold
      exact ⟨f, List.mem_cons_of_mem _ hf, hsame⟩
  · rw [Children.zombies_fork hfork]
    exact h.owed

/-- The parent closes its copy. -/
theorem close (h : Reaps rest w) {fd : ℕ} (hpc : w.pc = .close fd) :
    Reaps rest { w with table := w.table.close fd, pc := .accept } := by
  have hlive : w.pc ≠ .returned := by
    rw [hpc]
    nofun
  have htable := h.table hlive
  obtain ⟨hfd, -⟩ := h.hand (fd, true) (by rw [hpc]; rfl)
  obtain ⟨n, hn, hgiven, hcount⟩ := h.given
  have hcount := hcount hlive
  rw [hpc] at htable hcount
  have hfd : fd = opened.length := hfd
  refine ⟨h.sockfd, fun _ => ?_, nofun, ⟨n, hn, hgiven, fun _ => hcount⟩, h.ready, h.child,
    h.owed⟩
  show w.table.close fd = _
  rw [htable, hfd]
  exact Table.close_dense (by decide) _

/-- A step that has nothing to do with descriptors: what matters is who is left to be waited
for. -/
theorem children (h : Reaps rest w) {cs : Children ℕ} {pending handling : Bool}
    (hsub : ∀ c ∈ cs, ∃ d ∈ w.children, d.pid = c.pid ∧ d.job = c.job)
    (howed : cs.zombies ≠ 0 → pending = true ∨ handling = true) :
    Reaps rest { w with children := cs, pending := pending, handling := handling } := by
  refine ⟨h.sockfd, h.table, h.hand, h.given, h.ready, fun c hc => ?_, howed⟩
  obtain ⟨d, hd, hpid, hjob⟩ := hsub c hc
  obtain ⟨f, hf, hfpid, hfjob⟩ := h.child d hd
  exact ⟨f, hf, hfpid.trans hpid, hfjob.trans hjob⟩

/-- **Every step keeps it.** -/
theorem step (h : Reaps rest w) {a : Act} (hs : w.step e a = some w') : Reaps rest w' := by
  cases a with
  | go =>
    simp only [World.step] at hs
    split_ifs at hs
    split at hs
    · rename_i hpc
      obtain ⟨⟨fd, t⟩, halloc, rfl⟩ := Option.map_eq_some_iff.1 hs
      exact h.accept hpc halloc
    · rename_i fd hpc
      cases hs
      exact h.close hpc
    · cases hs
    · cases hs
  | forked pid =>
    simp only [World.step] at hs
    split_ifs at hs
    split at hs
    · rename_i fd hpc
      obtain ⟨cs, hfork, rfl⟩ := Option.map_eq_some_iff.1 hs
      exact h.fork hpc hfork
    all_goals cases hs
  | fails =>
    have hreturned : Reaps rest { w with pc := .returned } := by
      obtain ⟨n, hn, hgiven, -⟩ := h.given
      exact ⟨h.sockfd, fun hpc => absurd rfl hpc, nofun,
        ⟨n, hn, hgiven, fun hpc => absurd rfl hpc⟩, h.ready, h.child, h.owed⟩
    simp only [World.step] at hs
    split_ifs at hs
    split at hs <;> cases hs <;> exact hreturned
  | exits c =>
    obtain ⟨cs, hexit, rfl⟩ := Option.map_eq_some_iff.1 hs
    refine h.children (fun d hd => ?_) fun _ => .inl rfl
    rcases (Children.mem_exit hexit).1 hd with rfl | ⟨hold, -⟩
    · exact ⟨c, (Children.of_exit hexit).1, rfl, rfl⟩
    · exact ⟨d, hold, rfl, rfl⟩
  | sigchld =>
    simp only [World.step] at hs
    split_ifs at hs
    cases hs
    exact h.children (fun c hc => ⟨c, hc, rfl, rfl⟩) fun _ => .inr rfl
  | wait3 c =>
    simp only [World.step] at hs
    split_ifs at hs with hhandling
    obtain ⟨cs, hwait, rfl⟩ := Option.map_eq_some_iff.1 hs
    exact h.children (fun d hd => ⟨d, ((Children.mem_wait hwait).1 hd).1, rfl, rfl⟩)
      fun _ => .inr hhandling
  | nochild =>
    simp only [World.step] at hs
    split_ifs at hs with hcond
    cases hs
    exact h.children (fun c hc => ⟨c, hc, rfl, rfl⟩) fun hzombies => absurd hcond.2 hzombies

end Reaps

theorem reaps_of_reach {e : Env} {t : Table Desc} {w : World}
    (h : (daemon e t).Reach (fun _ _ => True) w) : Reaps t w := by
  apply h.invariant (I := Reaps t)
  · intro w hw
    exact .start hw
  · intro w a w' _ hinv _ hs
    exact hinv.step hs

/-! ## The handler -/

/-- Only the handler runs. -/
def handlerOnly (_ : World) (a : Act) : Prop :=
  match a with
  | .sigchld | .wait3 _ | .nochild => True
  | .go | .forked _ | .fails | .exits _ => False

/-- What the handler leaves as it is: the parent, and the children that run. -/
def Kept (w w' : World) : Prop :=
  w'.pc = w.pc ∧ w'.table = w.table ∧ ∀ c, c.live = true → (c ∈ w'.children ↔ c ∈ w.children)

section Handler

variable {e : Env} {t : Table Desc} {w w' : World} {a : Act}

theorem Kept.trans {w'' : World} (h : Kept w w') (h' : Kept w' w'') : Kept w w'' :=
  ⟨h'.1.trans h.1, h'.2.1.trans h.2.1, fun c hc => (h'.2.2 c hc).trans (h.2.2 c hc)⟩

/-- The handler waits for none that runs. -/
theorem kept_of_step (ha : handlerOnly w a) (hs : w.step e a = some w') : Kept w w' := by
  cases a with
  | sigchld | nochild =>
    simp only [World.step] at hs
    split_ifs at hs
    cases hs
    exact ⟨rfl, rfl, fun _ _ => Iff.rfl⟩
  | wait3 c =>
    simp only [World.step] at hs
    split_ifs at hs with hhandling
    obtain ⟨cs, hwait, rfl⟩ := Option.map_eq_some_iff.1 hs
    obtain ⟨hc, hdead⟩ := Children.of_wait hwait
    refine ⟨rfl, rfl, fun d hd => ?_⟩
    rw [Children.mem_wait hwait]
    refine ⟨And.left, fun hmem => ⟨hmem, fun hpid => ?_⟩⟩
    rw [Children.eq_of_pid hmem hc hpid, hdead] at hd
    cases hd
  | go | forked pid | fails | exits c => exact ha.elim

theorem kept_of_reach (h : ((daemon e t).startedAt w).Reach handlerOnly w') : Kept w w' := by
  induction h with
  | init hw =>
    rw [hw]
    exact ⟨rfl, rfl, fun _ _ => Iff.rfl⟩
  | step _ hok hs ih => exact ih.trans (kept_of_step hok hs)

/-- What the handler still has to do. -/
def World.owes (w : World) : ℕ := w.children.zombies + 2 * w.pending.toNat + w.handling.toNat

/-- The signal is caught, or a child is waited for, or the handler returns. -/
theorem handler_down (hlive : w.pc ≠ .returned) (hbusy : w.pending = true ∨ w.handling = true) :
    ∃ a w', handlerOnly w a ∧ w.step e a = some w' ∧ w'.owes < w.owes := by
  by_cases hhandling : w.handling = true
  · by_cases hzombies : w.children.zombies = 0
    · refine ⟨.nochild, { w with handling := false }, trivial, if_pos ⟨hhandling, hzombies⟩, ?_⟩
      rw [World.owes, World.owes, hhandling]
      exact Nat.lt_succ_self _
    · obtain ⟨c, hc, hdead⟩ := List.countP_pos_iff.1 (Nat.pos_of_ne_zero hzombies)
      obtain ⟨cs, hwait⟩ : ∃ cs, w.children.wait c = some cs :=
        ⟨_, if_pos ⟨hc, by simpa using hdead⟩⟩
      have hless := Children.zombies_wait hwait
      refine ⟨.wait3 c, { w with children := cs }, trivial, ?_, ?_⟩
      · simp only [World.step, if_pos hhandling, hwait, Option.map_some]
      · simp only [World.owes]
        omega
  · have hpending := hbusy.resolve_right hhandling
    have hhandling : w.handling = false := by simpa using hhandling
    refine ⟨.sigchld, { w with pending := false, handling := true }, trivial,
      if_pos ⟨hpending, hhandling, hlive⟩, ?_⟩
    rw [World.owes, World.owes, hpending, hhandling]
    exact Nat.lt_succ_self _

/-- **The handler comes to its end**, and has waited for all that have terminated. -/
theorem reaps_all (h : (daemon e t).Reach (fun _ _ => True) w) (hlive : w.pc ≠ .returned) :
    ∃ w', ((daemon e t).startedAt w).Reach handlerOnly w' ∧ Kept w w' ∧
      w'.children.zombies = 0 ∧ w'.pending = false ∧ w'.handling = false := by
  have hstart : ((daemon e t).startedAt w).Reach handlerOnly w := .init rfl
  have hdown : ∀ v, ((daemon e t).startedAt w).Reach handlerOnly v →
      ¬ (v.pending = false ∧ v.handling = false) →
        ∃ a v', handlerOnly v a ∧ ((daemon e t).startedAt w).step v a = some v' ∧
          v'.owes < v.owes := by
    intro v hv hbusy
    apply handler_down
    · rw [(kept_of_reach hv).1]
      exact hlive
    · by_contra hnot
      rw [not_or, Bool.not_eq_true, Bool.not_eq_true] at hnot
      exact hbusy hnot
  obtain ⟨v, hv, hpending, hhandling⟩ := hstart.finishes World.owes hdown
  have hv : ((daemon e t).startedAt w).Reach handlerOnly v := hv
  refine ⟨v, hv, kept_of_reach hv, ?_, hpending, hhandling⟩
  have hinv := reaps_of_reach (h.append (hv.mono fun _ _ _ => trivial))
  by_contra hzombies
  rcases hinv.owed hzombies with h | h
  · rw [hpending] at h
    cases h
  · rw [hhandling] at h
    cases h

end Handler

/-! ## In every run -/

section Runs

variable {e : Env} {t : Table Desc} {w : World}

/-- Two children have two connections. -/
theorem Reaps.apart (h : Reaps t w) {c d : Child ℕ} (hc : c ∈ w.children) (hd : d ∈ w.children)
    (hjob : c.job = d.job) : c = d := by
  obtain ⟨n, -, hgiven, -⟩ := h.given
  have hnodup : (w.forked.map Forked.job).Nodup := by
    rw [hgiven]
    exact List.nodup_reverse.2 List.nodup_range
  obtain ⟨f, hf, hfpid, hfjob⟩ := h.child c hc
  obtain ⟨g, hg, hgpid, hgjob⟩ := h.child d hd
  have hsame : f.job = g.job := by rw [hfjob, hgjob, hjob]
  obtain rfl := List.inj_on_of_nodup_map hnodup hf hg hsame
  exact Children.eq_of_pid hc hd (hfpid.symm.trans hgpid)

/-- **The daemon keeps nothing.** In every run, whenever the parent waits in `accept`, it has
the log file on 0 and 1, the socket on 2 and nothing else below `NOFILE`, and every connection
that was accepted has been given to one child, in their order; each child has its connection on
3 and not the socket, and no two have the same one. A child that has terminated is not waited
for only as long as a signal is pending or the handler runs; and the handler, once it is let
to, comes to an end with all of them waited for, and leaves the parent and the others alone. -/
theorem no_zombies (h : (daemon e t).Reach (fun _ _ => True) w) :
    (w.pc = .accept → w.table = Table.dense NOFILE t opened ∧
      w.forked.map Forked.job = (List.range w.accepted).reverse) ∧
    (∀ c ∈ w.children, (∃ f ∈ w.forked, f.pid = c.pid ∧ f.job = c.job ∧ f.Ready t) ∧
      ∀ d ∈ w.children, c.job = d.job → c = d) ∧
    (w.children.zombies ≠ 0 → w.pending = true ∨ w.handling = true) ∧
    (w.pc ≠ .returned → ∃ w', ((daemon e t).startedAt w).Reach handlerOnly w' ∧ Kept w w' ∧
      w'.children.zombies = 0 ∧ w'.pending = false ∧ w'.handling = false) := by
  have hinv := reaps_of_reach h
  refine ⟨fun hpc => ?_, fun c hc => ⟨?_, fun d hd => hinv.apart hc hd⟩, hinv.owed, reaps_all h⟩
  · have hlive : w.pc ≠ .returned := by
      rw [hpc]
      nofun
    have htable := hinv.table hlive
    obtain ⟨n, -, hgiven, hcount⟩ := hinv.given
    have hcount := hcount hlive
    rw [hpc] at htable hcount
    obtain rfl : n = w.accepted := hcount
    exact ⟨htable, hgiven⟩
  · obtain ⟨f, hf, hpid, hjob⟩ := hinv.child c hc
    exact ⟨f, hf, hpid, hjob, hinv.ready f hf⟩

end Runs

/-- Everything succeeds. -/
def env : Env := ⟨NOFILE, 2, true, true, true, true, true⟩

def nothing : Table Desc := fun _ => none

theorem daemon_start_env : (daemon_start env nothing).isSome = true := by decide +kernel

def listening : World :=
  ⟨((daemon_start env nothing).get daemon_start_env).1,
    ((daemon_start env nothing).get daemon_start_env).2, 0, .none, [], false, false, .accept⟩

theorem daemon_start_listening :
    daemon_start env nothing = some (listening.table, listening.sockfd) := by
  rw [listening, Prod.mk.eta, Option.some_get]

/-- Two connections, whose children terminate before the handler is entered. -/
def twoDeaths : List Act :=
  [.go, .forked 7, .go, .go, .forked 8, .exits ⟨7, 0, true⟩, .exits ⟨8, 1, true⟩, .sigchld]

theorem twoDeaths_runs :
    ((daemon env nothing).exec (fun _ _ => True) listening twoDeaths).isSome = true := by
  decide +kernel

/-- One signal for the two of them, and both are waited for. -/
theorem no_zombies_two : ∃ w, (daemon env nothing).Reach (fun _ _ => True) w ∧
    w.children.zombies = 2 ∧
    ∃ w', ((daemon env nothing).startedAt w).Reach handlerOnly w' ∧ w'.children.zombies = 0 ∧
      w'.handling = false := by
  have hrun := Machine.Reach.run (daemon env nothing) (fun _ _ => True) (s := listening)
    ⟨daemon_start_listening, rfl, rfl, rfl, rfl, rfl, rfl⟩ twoDeaths twoDeaths_runs
  obtain ⟨-, -, -, hends⟩ := no_zombies hrun
  obtain ⟨w', hw', -, hzombies, -, hhandling⟩ := hends (by decide +kernel)
  exact ⟨_, hrun, by decide +kernel, w', hw', hzombies, hhandling⟩

end UnixNetProg.TcpDaemon

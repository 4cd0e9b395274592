/-
What `inetd` hands over to a child: its descriptors, and what it executes.

`daemon_start` leaves the process with `/dev/null` on 0, 1 and 2, the log file and the four
sockets come next, and a connection that is accepted is number 8 until it is the child's.
A child closes everything but its own socket, puts that on 0, 1 and 2, and executes the
program of the service. `Sys` adds this to the loop: the descriptors, `exec_path`, and what
each child has had when it came to `execl`.

A child has its own copy of the descriptors, so what it does to them is done in the step
that forks it.
-/
import UnixNetProg.Inetd.Rearm
import UnixNetProg.Lib.FdTable

set_option autoImplicit false

namespace UnixNetProg.Inetd

open UnixNetProg.FdTable UnixNetProg.Processes UnixNetProg.Runs

/-! ## Before the loop -/

def PATH_LEN : ℕ := 512

/-- As many descriptors as `daemon_start` and the children close. -/
def NOFILE : ℕ := 256

/-- What a descriptor stands for: a connection has the number of the `accept` it came from. -/
inductive Desc
  | null
  | log
  | sock (i : Serv)
  | conn (n : ℕ)
  | inherited (k : ℕ)
  deriving DecidableEq

/-- What the system calls before the loop come to, and how many descriptors there may be. -/
structure Env where
  limit : ℕ
  getppid : ℕ
  fork : Bool
  setpgid : Bool
  openNull : Bool
  openLog : Bool
  socket : Serv → Bool
  bind : Serv → Bool

/-- `daemon_start` (`12.inetd/inetd.c:533-616`); `none` where the process exits. It returns at
once where it cannot fork, or cannot change its process group. -/
def daemon_start (e : Env) (t : Table Desc) : Option (Table Desc) :=
  if e.getppid = 1 ∨ (e.fork = true ∧ e.setpgid = true) then
    match if e.openNull then (t.closeBelow NOFILE none).alloc e.limit .null else none with
    | some (fd, t) => if fd = 0 then some ((t.dup2 fd 1).dup2 fd 2) else none
    | none => none
  else some t

/-- The loop over the services: `socket` and `bind`. That `listen` fails is only written to the
log. -/
def openSockets (e : Env) : List Serv → Table Desc → (Serv → ℕ) → Option (Table Desc × (Serv → ℕ))
  | [], t, sockfd => some (t, sockfd)
  | i :: is, t, sockfd =>
    match if e.socket i then t.alloc e.limit (.sock i) else none with
    | some (fd, t) => if e.bind i then openSockets e is t (Function.update sockfd i fd) else none
    | none => none

/-- `main` up to the loop, but for the tables that are filled in. -/
def boot (e : Env) (t : Table Desc) : Option (Table Desc × (Serv → ℕ)) :=
  (daemon_start e t).bind fun t =>
    match if e.openLog then t.alloc e.limit .log else none with
    | some (_, t) => openSockets e (List.finRange ARR_ELE_CNT) t fun _ => 0
    | none => none

def strlcpy (src : List Char) (size : ℕ) : List Char := src.take (size - 1)

def strlcat (dst src : List Char) (size : ℕ) : List Char := dst ++ src.take (size - 1 - dst.length)

/-! ## The loop -/

/-- A child when it calls `execl`. -/
structure Exec where
  pid : ℕ
  job : Serv
  path : List Char
  fds : Table Desc

structure Sys where
  world : World
  table : Table Desc
  sockfd : Serv → ℕ
  accept_sockfd : ℕ
  accepted : ℕ
  exec_path : List Char
  launched : List Exec

/-- Everything is closed but `fd`, which is put on 0, 1 and 2. -/
def takeOver (t : Table Desc) (fd : ℕ) : Table Desc :=
  ((((t.closeBelow NOFILE (some fd)).dup2 fd 0).dup2 fd 1).dup2 fd 2).close fd

/-- What a child does before `execl`. -/
def Sys.childFds (x : Sys) (i : Serv) : Table Desc :=
  if sock_type i = 0 then takeOver (x.table.close (x.sockfd i)) x.accept_sockfd
  else takeOver x.table (x.sockfd i)

/-- The loop (`12.inetd/inetd.c:279-496`), with `cwd` as it is after the slash is added. -/
def Sys.step (e : Env) (cwd : List Char) (x : Sys) (a : Act) : Option Sys :=
  (x.world.step a).bind fun w =>
    match a, x.world.pc with
    | .ready _, _ => some { x with world := w, exec_path := strlcpy cwd (PATH_LEN + 1) }
    | .go, .accept _ =>
      (x.table.alloc e.limit (.conn x.accepted)).map fun (fd, t) =>
        { x with world := w, table := t, accept_sockfd := fd, accepted := x.accepted + 1 }
    | .forked pid, .fork i =>
      -- `strlcat` comes before the `fork`
      let path := strlcat x.exec_path (service i).toList (PATH_LEN + 1)
      some { x with
        world := w
        exec_path := path
        table := if sock_type i = 0 then x.table.close x.accept_sockfd else x.table
        launched := ⟨pid, i, path, x.childFds i⟩ :: x.launched }
    | _, _ => some { x with world := w }

/-- `inetd` started in the directory `dir`, whose name `getcwd` has room for, with whatever
descriptors `t` there are. -/
def sys (e : Env) (dir : List Char) (t : Table Desc) : Machine Sys Act where
  init := fun x => x.world = start ∧ boot e t = some (x.table, x.sockfd) ∧ x.accepted = 0 ∧
    x.launched = [] ∧ dir.length < PATH_LEN
  step := Sys.step e (dir ++ ['/'])

/-! ## The descriptors of `inetd` -/

/-- What `inetd` has open where no connection is in its hands. -/
def opened : List Desc :=
  [.null, .null, .null, .log] ++ (List.finRange ARR_ELE_CNT).map .sock

section Tables

variable {e : Env} {t t' rest : Table Desc} {l : List Desc} {d : Desc} {fd : ℕ}

theorem daemon_start_eq (hok : e.getppid = 1 ∨ e.fork = true ∧ e.setpgid = true)
    (h : daemon_start e t = some t') : t' = Table.dense NOFILE t [.null, .null, .null] := by
  rw [daemon_start, if_pos hok, Table.closeBelow_none] at h
  split at h
  · rename_i fd t₁ hnull
    split_ifs at hnull with hopen
    obtain ⟨rfl, rfl⟩ := Table.alloc_dense (by decide) hnull
    rw [if_pos (show [].length = 0 from rfl)] at h
    obtain rfl := Option.some.inj h
    have hone : (Table.dense NOFILE t [.null]).dup2 0 1 = Table.dense NOFILE t [.null, .null] :=
      Table.dup2_dense rfl
    have htwo : (Table.dense NOFILE t [.null, .null]).dup2 0 2 =
        Table.dense NOFILE t [.null, .null, .null] :=
      Table.dup2_dense rfl
    show ((Table.dense NOFILE t [.null]).dup2 0 1).dup2 0 2 = _
    rw [hone, htwo]
  · cases h

/-- The sockets are the next numbers, in their order. -/
theorem openSockets_eq {is : List Serv} {s s' : Serv → ℕ} (hnodup : is.Nodup)
    (hlen : l.length + is.length ≤ NOFILE)
    (h : openSockets e is (Table.dense NOFILE rest l) s = some (t', s')) :
    t' = Table.dense NOFILE rest (l ++ is.map .sock) ∧ (∀ i, i ∉ is → s' i = s i) ∧
      ∀ j i, is[j]? = some i → s' i = l.length + j := by
  induction is generalizing l s with
  | nil =>
    cases h
    exact ⟨by rw [List.map_nil, List.append_nil], fun i _ => rfl, fun j i hi => by cases hi⟩
  | cons i is ih =>
    obtain ⟨hi, hnodup⟩ := List.nodup_cons.1 hnodup
    rw [List.length_cons] at hlen
    rw [openSockets] at h
    split at h
    · rename_i fd t₁ hsocket
      split_ifs at hsocket with hok
      obtain ⟨rfl, rfl⟩ := Table.alloc_dense (by omega) hsocket
      split_ifs at h with hbind
      have hlen' : (l ++ [Desc.sock i]).length = l.length + 1 := by
        rw [List.length_append, List.length_singleton]
      obtain ⟨htable, hother, hthese⟩ := ih hnodup (by omega) h
      refine ⟨?_, fun k hk => ?_, fun j k hk => ?_⟩
      · rw [htable, List.map_cons, List.append_assoc]
        rfl
      · obtain ⟨hki, hk⟩ := not_or.1 (mt List.mem_cons.2 hk)
        rw [hother k hk, Function.update_of_ne hki]
      · cases j with
        | zero =>
          obtain rfl : i = k := Option.some.inj hk
          rw [hother i hi, Function.update_self, Nat.add_zero]
        | succ j =>
          have := hthese j k hk
          omega
    · cases h

/-- **The descriptors before the loop**: 0 to 2 are `/dev/null`, 3 is the log file, and the
sockets are 4 to 7. -/
theorem boot_eq {s : Serv → ℕ} (hok : e.getppid = 1 ∨ e.fork = true ∧ e.setpgid = true)
    (h : boot e t = some (t', s)) :
    t' = Table.dense NOFILE t opened ∧ ∀ i : Serv, s i = 4 + i := by
  obtain ⟨t₁, hstart, h⟩ := Option.bind_eq_some_iff.1 h
  obtain rfl := daemon_start_eq hok hstart
  split at h
  · rename_i fd t₂ hlog
    split_ifs at hlog with hopen
    obtain ⟨rfl, rfl⟩ := Table.alloc_dense (by decide) hlog
    obtain ⟨htable, -, hsockfd⟩ := openSockets_eq (List.nodup_finRange _) (by decide) h
    refine ⟨htable, fun i => hsockfd i i ?_⟩
    revert i
    decide
  · cases h

/-- **What a child has left**: one thing, on 0, 1 and 2. -/
theorem takeOver_eq (hopen : t fd = some d) (hlow : 3 ≤ fd) (hhigh : fd < NOFILE) :
    takeOver t fd = Table.dense NOFILE t [d, d, d] := by
  have hkept : t.closeBelow NOFILE (some fd) fd = some d := by
    rw [Table.closeBelow_apply, if_neg fun h => h.2 rfl, hopen]
  have hne : fd ≠ 0 ∧ fd ≠ 1 ∧ fd ≠ 2 := by omega
  rw [takeOver, Table.dup2_of_open hkept, Table.dup2_of_open
    ((Function.update_of_ne hne.1 _ _).trans hkept), Table.dup2_of_open
    ((Function.update_of_ne hne.2.1 _ _).trans ((Function.update_of_ne hne.1 _ _).trans hkept))]
  funext i
  rw [Table.close]
  by_cases hi : i < 3
  · rw [Table.dense_of_lt hi, Function.update_of_ne (by omega)]
    obtain rfl | rfl | rfl : i = 0 ∨ i = 1 ∨ i = 2 := by omega
    · rfl
    · rfl
    · rfl
  · rw [Table.dense, if_neg (show ¬ i < [d, d, d].length from hi)]
    by_cases hfd : i = fd
    · rw [hfd, Function.update_self, if_pos hhigh]
    · rw [Function.update_of_ne hfd, Function.update_of_ne (by omega),
        Function.update_of_ne (by omega), Function.update_of_ne (by omega),
        Table.closeBelow_apply]
      have hkeep : some fd ≠ some i := fun h => hfd (Option.some.inj h).symm
      by_cases hn : i < NOFILE
      · rw [if_pos ⟨hn, hkeep⟩, if_pos hn]
      · rw [if_neg fun h => hn h.1, if_neg hn]

end Tables

/-! ## What a step does -/

/-- The service whose connection the loop has in its hands. -/
def At.hand (pc : At) : Option Serv :=
  match pc with
  | .fork i => if sock_type i = 0 then some i else none
  | _ => none

/-- Between `select` and the `fork`. -/
def At.scanning (pc : At) : Bool :=
  match pc with
  | .scan _ | .accept _ | .fork _ => true
  | _ => false

/-- A step that is neither the return of `select` nor an `accept` nor a `fork`. -/
structure Follows (w w' : World) : Prop where
  hand : w'.pc ≠ .exited → w'.pc.hand = w.pc.hand
  live : w'.pc ≠ .exited → w.pc ≠ .exited
  scanning : w'.pc.scanning = true → w.pc.scanning = true
  children : ∀ c ∈ w'.children, ∃ c' ∈ w.children, c'.pid = c.pid ∧ c'.job = c.job

section Steps

variable {e : Env} {cwd : List Char} {w w' : World} {x x' : Sys} {a : Act}

/-- A step of the loop, on the table of services. -/
theorem Follows.goto {w' : World} (hchildren : w'.children = w.children)
    (hhand : w'.pc.hand = w.pc.hand) (hlive : w.pc ≠ .exited)
    (hscanning : w'.pc.scanning = true → w.pc.scanning = true) : Follows w w' :=
  ⟨fun _ => hhand, fun _ => hlive, hscanning, fun c hc => ⟨c, hchildren ▸ hc, rfl, rfl⟩⟩

theorem follows_of_moves (h : Moves w a w') (hready : ∀ fds, a ≠ .ready fds)
    (haccept : ∀ i, w.pc = .accept i → a ≠ .go) (hforked : ∀ pid, a ≠ .forked pid) :
    Follows w w' := by
  have hplain : ∀ {pc : At} {w'}, w.pc = pc → w'.children = w.children → pc ≠ .exited →
      pc.hand = none → w'.pc.hand = none → (w'.pc.scanning = true → pc.scanning = true) →
        Follows w w' := by
    rintro pc w' rfl hchildren hlive hhand hhand' hscanning
    exact .goto hchildren (hhand'.trans hhand.symm) hlive hscanning
  cases h with
  | ready => exact absurd rfl (hready _)
  | accepted hpc => exact absurd rfl (haccept _ hpc)
  | served | forked => exact absurd rfl (hforked _)
  | datagram hpc _ htype => exact hplain hpc rfl nofun rfl (if_neg htype) fun _ => rfl
  | skip hpc | stream hpc => exact hplain hpc rfl nofun rfl rfl fun _ => rfl
  | call hpc | scanned hpc | record hpc | load hpc | store hpc | fill hpc | full hpc | filled hpc
  | some_conn hpc | no_conn hpc | keep hpc | checked hpc | clear hpc | cleared hpc | stored hpc =>
    exact hplain hpc rfl nofun rfl rfl nofun
  | interrupt hpc => exact hplain hpc rfl nofun rfl rfl nofun
  | fails hpc =>
    exact ⟨fun h => absurd rfl h, fun h => absurd rfl h, nofun, fun c hc => ⟨c, hc, rfl, rfl⟩⟩
  | enter | nochild =>
    exact ⟨fun _ => rfl, fun h => h, fun h => h, fun c hc => ⟨c, hc, rfl, rfl⟩⟩
  | exits hexit =>
    refine ⟨fun _ => rfl, fun h => h, fun h => h, fun c hc => ?_⟩
    rcases (Children.mem_exit hexit).1 hc with rfl | ⟨hold, -⟩
    · exact ⟨_, (Children.of_exit hexit).1, rfl, rfl⟩
    · exact ⟨c, hold, rfl, rfl⟩
  | known _ hwait | unknown _ hwait =>
    refine ⟨fun _ => rfl, fun h => h, fun h => h, fun c hc => ⟨c, ?_, rfl, rfl⟩⟩
    exact ((Children.mem_wait hwait).1 hc).1

/-- What a step does to the descriptors: `select` returns, a connection is accepted, a child
is forked, or nothing. -/
inductive Sys.Moves (e : Env) (cwd : List Char) (x : Sys) : Sys → Prop
  | ready {w : World} {fds : Fd_set} : x.world.pc = .blocked fds → w.pc = .scan 0 →
      w.children = x.world.children →
      Moves e cwd x { x with world := w, exec_path := strlcpy cwd (PATH_LEN + 1) }
  | accept {w : World} {i : Serv} {fd : ℕ} {t : Table Desc} : x.world.pc = .accept i →
      w = { x.world with pc := .fork i } →
      x.table.alloc e.limit (.conn x.accepted) = some (fd, t) →
      Moves e cwd x
        { x with world := w, table := t, accept_sockfd := fd, accepted := x.accepted + 1 }
  | forked {w : World} {i : Serv} {pid : ℕ} : x.world.pc = .fork i →
      x.world.children.fork pid i = some w.children → w.pc.hand = none → w.pc.scanning = false →
      Moves e cwd x { x with
        world := w
        exec_path := strlcat x.exec_path (service i).toList (PATH_LEN + 1)
        table := if sock_type i = 0 then x.table.close x.accept_sockfd else x.table
        launched := ⟨pid, i, strlcat x.exec_path (service i).toList (PATH_LEN + 1), x.childFds i⟩
          :: x.launched }
  | other {w : World} : Follows x.world w → Moves e cwd x { x with world := w }

theorem Sys.moves_of_step (h : x.step e cwd a = some x') : Sys.Moves e cwd x x' := by
  obtain ⟨w, hw, h⟩ := Option.bind_eq_some_iff.1 h
  have hmoves := Inetd.moves_of_step hw
  split at h
  · cases h
    cases hmoves with
    | ready hpc => exact .ready hpc rfl rfl
  · rename_i i hpc _
    obtain ⟨⟨fd, t⟩, halloc, rfl⟩ := Option.map_eq_some_iff.1 h
    have hgo : w = { x.world with pc := .fork i } := by
      simp only [World.step, World.go, hpc] at hw
      split_ifs at hw
      exact (Option.some.inj hw).symm
    exact .accept hpc hgo halloc
  · rename_i pid i hpc _
    cases h
    cases hmoves with
    | served hpc' _ hfork =>
      obtain rfl := At.fork.inj (hpc.symm.trans hpc')
      exact .forked hpc hfork rfl rfl
    | forked hpc' _ hfork =>
      obtain rfl := At.fork.inj (hpc.symm.trans hpc')
      exact .forked hpc hfork rfl rfl
  · rename_i hready _ haccept hforked
    cases h
    refine .other (follows_of_moves hmoves hready (fun i hpc hgo => haccept i hgo hpc) ?_)
    rintro pid rfl
    cases hmoves with
    | served hpc => exact hforked pid _ rfl hpc
    | forked hpc => exact hforked pid _ rfl hpc

end Steps

/-! ## What stays true -/

/-- The connection that a child reads from. -/
def Exec.conn (c : Exec) : Option ℕ :=
  match c.fds 0 with
  | some (.conn n) => some n
  | _ => none

/-- The connections that children have been given, the last one first. -/
def Sys.given (x : Sys) : List ℕ := x.launched.filterMap Exec.conn

/-- The child that was last forked with this process ID. -/
def Sys.child (x : Sys) (pid : ℕ) : Option Exec := x.launched.find? fun c => decide (c.pid = pid)

/-- What a child has when it calls `execl`: the path of its service, and one thing on 0, 1 and
2, which for a stream service is a connection and for a datagram service its socket. -/
structure Exec.Ready (dir : List Char) (rest : Table Desc) (c : Exec) : Prop where
  path : c.path = (dir ++ '/' :: (service c.job).toList).take PATH_LEN
  fds : ∃ d, c.fds = Table.dense NOFILE rest [d, d, d] ∧
    (sock_type c.job = 0 → ∃ n, d = .conn n) ∧ (sock_type c.job = 1 → d = .sock c.job)

/-- The descriptors that `inetd` has, and what the children have. -/
structure Handing (dir : List Char) (rest : Table Desc) (x : Sys) : Prop where
  sockfd : ∀ i : Serv, x.sockfd i = 4 + i
  table : x.world.pc ≠ .exited → x.table = Table.dense NOFILE rest
    (opened ++ x.world.pc.hand.toList.map fun _ => .conn (x.accepted - 1))
  hand : x.world.pc.hand.isSome = true → x.accept_sockfd = opened.length ∧ 0 < x.accepted
  path : x.world.pc.scanning = true → x.exec_path = strlcpy (dir ++ ['/']) (PATH_LEN + 1)
  given : ∃ n ≤ x.accepted, x.given = (List.range n).reverse ∧
    (x.world.pc ≠ .exited → n + x.world.pc.hand.toList.length = x.accepted)
  ready : ∀ c ∈ x.launched, c.Ready dir rest
  child : ∀ c ∈ x.world.children, ∃ l, x.child c.pid = some l ∧ l.job = c.job

namespace Handing

variable {e : Env} {dir : List Char} {t rest : Table Desc} {x x' : Sys}

theorem start (hok : e.getppid = 1 ∨ e.fork = true ∧ e.setpgid = true)
    (h : (sys e dir t).init x) : Handing dir t x := by
  obtain ⟨hworld, hboot, haccepted, hlaunched, -⟩ := h
  obtain ⟨htable, hsockfd⟩ := boot_eq hok hboot
  refine ⟨hsockfd, fun _ => ?_, ?_, ?_, ⟨0, Nat.zero_le _, ?_, ?_⟩, ?_, ?_⟩
  · rw [htable, hworld]
    rfl
  · rw [hworld]
    nofun
  · rw [hworld]
    nofun
  · rw [Sys.given, hlaunched]
    rfl
  · rw [hworld, haccepted]
    exact fun _ => rfl
  · rw [hlaunched]
    nofun
  · rw [hworld]
    nofun

/-- A step of the loop that has nothing to do with descriptors. -/
theorem other (h : Handing dir rest x) {w : World} (hw : Follows x.world w) :
    Handing dir rest { x with world := w } := by
  obtain ⟨n, hn, hgiven, hcount⟩ := h.given
  refine ⟨h.sockfd, fun hlive => ?_, fun hhand => ?_, fun hs => h.path (hw.scanning hs),
    ⟨n, hn, hgiven, fun hlive => ?_⟩, h.ready, fun c hc => ?_⟩
  · show x.table = _
    rw [hw.hand hlive]
    exact h.table (hw.live hlive)
  · have hlive : w.pc ≠ .exited := by
      intro hpc
      simp only [hpc] at hhand
      cases hhand
    apply h.hand
    rw [← hw.hand hlive]
    exact hhand
  · rw [hw.hand hlive]
    exact hcount (hw.live hlive)
  · obtain ⟨c', hc', hpid, hjob⟩ := hw.children c hc
    obtain ⟨l, hl, hljob⟩ := h.child c' hc'
    exact ⟨l, hpid ▸ hl, hljob.trans hjob⟩

theorem handed (h : Handing dir rest x) {i : Serv} (hpc : x.world.pc = .fork i) :
    x.table = Table.dense NOFILE rest
      (opened ++ if sock_type i = 0 then [.conn (x.accepted - 1)] else []) := by
  rw [h.table (by rw [hpc]; nofun), hpc]
  simp only [At.hand]
  split_ifs <;> rfl

/-- The sockets are where they were put, and below the connection. -/
theorem socket_opened (rest : Table Desc) (l : List Desc) (i : Serv) :
    4 + (i : ℕ) < opened.length ∧ opened.length < NOFILE ∧
      Table.dense NOFILE rest (opened ++ l) (4 + i) = some (.sock i) := by
  have hall : ∀ i : Serv, 4 + (i : ℕ) < opened.length ∧ opened[4 + (i : ℕ)]? = some (.sock i) := by
    decide
  obtain ⟨hlt, hget⟩ := hall i
  refine ⟨hlt, by decide, ?_⟩
  rw [Table.dense_of_lt (by rw [List.length_append]; omega), List.getElem?_append_left hlt, hget]

/-- Beyond what is closed there is what was there before. -/
theorem beyond (l : List Desc) (hl : l.length ≤ NOFILE) (k : ℕ) (hk : NOFILE ≤ k) :
    Table.dense NOFILE rest l k = rest k := by
  rw [Table.dense, if_neg (by omega), if_neg (by omega)]

/-- **What the child gets.** -/
theorem childFds (h : Handing dir rest x) {i : Serv} (hpc : x.world.pc = .fork i) :
    x.childFds i =
      let d := if sock_type i = 0 then Desc.conn (x.accepted - 1) else .sock i
      Table.dense NOFILE rest [d, d, d] := by
  have htable := h.handed hpc
  obtain ⟨hlt, hhigh, hsock⟩ := socket_opened rest
    (if sock_type i = 0 then [Desc.conn (x.accepted - 1)] else []) i
  rw [Sys.childFds, htable, h.sockfd]
  by_cases htype : sock_type i = 0
  · simp only [if_pos htype] at hsock ⊢
    obtain ⟨hfd, -⟩ := h.hand (by rw [hpc, At.hand, if_pos htype]; rfl)
    have hconn : (Table.dense NOFILE rest (opened ++ [Desc.conn (x.accepted - 1)])).close (4 + i)
        opened.length = some (.conn (x.accepted - 1)) := by
      rw [Table.close, Function.update_of_ne (Nat.ne_of_gt hlt), Table.dense_of_lt
        (by rw [List.length_append, List.length_singleton]; omega), List.getElem?_concat_length]
    rw [hfd, takeOver_eq hconn (by omega) hhigh]
    -- beyond `NOFILE` nothing has been closed
    apply Table.dense_congr
    intro k hk
    rw [Table.close, Function.update_of_ne (by omega)]
    exact beyond _ (by rw [List.length_append, List.length_singleton]; omega) k hk
  · simp only [if_neg htype, List.append_nil] at hsock ⊢
    rw [takeOver_eq hsock (by omega) (by omega)]
    exact Table.dense_congr (beyond _ hhigh.le)

/-- `strlcpy` and then `strlcat`, into as much as there is room for. -/
theorem strlcat_strlcpy (s s' : List Char) (size : ℕ) :
    strlcat (strlcpy s size) s' size = (s ++ s').take (size - 1) := by
  rw [strlcat, strlcpy, List.take_append, List.length_take]
  congr 2
  omega

/-- A child is forked: it is ready, and the connection is out of the parent's hands. -/
theorem forked (h : Handing dir rest x) {w : World} {i : Serv} {pid : ℕ}
    (hpc : x.world.pc = .fork i) (hfork : x.world.children.fork pid i = some w.children)
    (hhand : w.pc.hand = none) (hscanning : w.pc.scanning = false) :
    Handing dir rest { x with
      world := w
      exec_path := strlcat x.exec_path (service i).toList (PATH_LEN + 1)
      table := if sock_type i = 0 then x.table.close x.accept_sockfd else x.table
      launched := ⟨pid, i, strlcat x.exec_path (service i).toList (PATH_LEN + 1), x.childFds i⟩
        :: x.launched } := by
  have htable := h.handed hpc
  have hfds := h.childFds hpc
  have hlive : x.world.pc ≠ .exited := by
    rw [hpc]
    nofun
  have hpath : strlcat x.exec_path (service i).toList (PATH_LEN + 1) =
      (dir ++ '/' :: (service i).toList).take PATH_LEN := by
    rw [h.path (by rw [hpc]; rfl), strlcat_strlcpy, List.append_assoc]
    rfl
  obtain ⟨n, hn, hgiven, hcount⟩ := h.given
  have hcount := hcount hlive
  rw [hpc, At.hand] at hcount
  refine ⟨h.sockfd, fun _ => ?_, ?_, ?_, ?_, ?_, ?_⟩
  · show (if sock_type i = 0 then x.table.close x.accept_sockfd else x.table) = _
    rw [hhand, htable]
    by_cases htype : sock_type i = 0
    · obtain ⟨hfd, -⟩ := h.hand (by rw [hpc, At.hand, if_pos htype]; rfl)
      rw [if_pos htype, if_pos htype, hfd, Table.close_dense (by decide)]
      rfl
    · rw [if_neg htype, if_neg htype]
      rfl
  · rw [hhand]
    nofun
  · rw [hscanning]
    nofun
  · -- the connection in hand is the next one that is given
    rw [hhand]
    simp only [Sys.given, List.filterMap_cons, Exec.conn, hfds] at hgiven ⊢
    by_cases htype : sock_type i = 0
    · simp only [if_pos htype] at hcount ⊢
      have hsucc : n + 1 = x.accepted := hcount
      refine ⟨n + 1, hsucc.le, ?_, fun _ => hsucc⟩
      rw [hgiven, List.range_succ, List.reverse_append, ← hsucc]
      rfl
    · simp only [if_neg htype] at hcount ⊢
      exact ⟨n, hn, hgiven, fun _ => hcount⟩
  · refine List.forall_mem_cons.2 ⟨⟨hpath, _, hfds, fun htype => ?_, fun htype => ?_⟩, h.ready⟩
    · exact ⟨_, if_pos htype⟩
    · have hone : sock_type i = 1 := htype
      exact if_neg (by omega)
  · intro c hc
    rcases (Children.mem_fork hfork).1 hc with rfl | hold
    · exact ⟨_, List.find?_cons_of_pos (by simp), rfl⟩
    · -- the process ID of another child is another one
      obtain ⟨l, hl, hjob⟩ := h.child c hold
      have hne : pid ≠ c.pid := by
        rintro rfl
        unfold Children.fork at hfork
        split_ifs at hfork with hfresh
        exact hfresh.2 (List.mem_map_of_mem hold)
      exact ⟨l, (List.find?_cons_of_neg (by simpa using hne)).trans hl, hjob⟩

/-- A connection is accepted: it is the next number. -/
theorem accept (h : Handing dir rest x) {i : Serv} {fd : ℕ} (hpc : x.world.pc = .accept i)
    (htype : sock_type i = 0) (halloc : x.table.alloc e.limit (.conn x.accepted) = some (fd, t)) :
    Handing dir rest { x with
      world := { x.world with pc := .fork i }
      table := t
      accept_sockfd := fd
      accepted := x.accepted + 1 } := by
  have hlive : x.world.pc ≠ .exited := by
    rw [hpc]
    nofun
  have htable := h.table hlive
  obtain ⟨n, hn, hgiven, hcount⟩ := h.given
  have hcount := hcount hlive
  rw [hpc] at htable hcount
  have hhand : (At.fork i).hand = some i := if_pos htype
  have htable : x.table = Table.dense NOFILE rest opened := htable
  rw [htable] at halloc
  obtain ⟨rfl, rfl⟩ := Table.alloc_dense (by decide) halloc
  refine ⟨h.sockfd, fun _ => ?_, fun _ => ⟨rfl, Nat.succ_pos _⟩, fun _ => ?_,
    ⟨n, hn.trans (Nat.le_succ _), hgiven, fun _ => ?_⟩, h.ready, h.child⟩
  · rw [hhand]
    rfl
  · exact h.path (by rw [hpc]; rfl)
  · rw [hhand]
    have hcount : n + 0 = x.accepted := hcount
    show n + 1 = x.accepted + 1
    omega

/-- `select` returns: the path is as it was before the loop. -/
theorem selected (h : Handing dir rest x) {w : World} {fds : Fd_set}
    (hpc : x.world.pc = .blocked fds) (hpc' : w.pc = .scan 0)
    (hchildren : w.children = x.world.children) :
    Handing dir rest
      { x with world := w, exec_path := strlcpy (dir ++ ['/']) (PATH_LEN + 1) } := by
  have hlive : x.world.pc ≠ .exited := by
    rw [hpc]
    nofun
  have hhand : w.pc.hand = x.world.pc.hand := by rw [hpc, hpc']; rfl
  obtain ⟨n, hn, hgiven, hcount⟩ := h.given
  refine ⟨h.sockfd, fun _ => ?_, fun hsome => ?_, fun _ => rfl, ⟨n, hn, hgiven, fun _ => ?_⟩,
    h.ready, fun c hc => h.child c (hchildren ▸ hc)⟩
  · show x.table = _
    rw [hhand]
    exact h.table hlive
  · exact h.hand (by rwa [← hhand])
  · rw [hhand]
    exact hcount hlive

/-- **Every step keeps it.** -/
theorem step (h : Handing dir rest x) (hone : OneChild x.world) {a : Act}
    (hs : (sys e dir t).step x a = some x') : Handing dir rest x' := by
  cases Sys.moves_of_step hs with
  | ready hpc hpc' hchildren => exact h.selected hpc hpc' hchildren
  | accept hpc hw halloc =>
    obtain rfl := hw
    have htype := hone.off
    rw [hpc] at htype
    exact h.accept hpc htype halloc
  | forked hpc hfork hhand hscanning => exact h.forked hpc hfork hhand hscanning
  | other hw => exact h.other hw

end Handing

/-! ## In every run -/

section Runs

variable {e : Env} {dir : List Char} {t : Table Desc} {x : Sys}

/-- The loop is the one it was. -/
theorem world_of_reach (h : (sys e dir t).Reach (fun _ _ => True) x) :
    machine.Reach (fun _ _ => True) x.world := by
  induction h with
  | init hx => exact .init hx.1
  | step _ _ hs ih =>
    obtain ⟨w, hw, hs⟩ := Option.bind_eq_some_iff.1 hs
    refine .step ih trivial (hw.trans (congrArg some ?_))
    -- the step of the loop is the step of the whole
    split at hs
    · exact congrArg Sys.world (Option.some.inj hs)
    · obtain ⟨_, _, rfl⟩ := Option.map_eq_some_iff.1 hs
      rfl
    · exact congrArg Sys.world (Option.some.inj hs)
    · exact congrArg Sys.world (Option.some.inj hs)

theorem handing_of_reach (hok : e.getppid = 1 ∨ e.fork = true ∧ e.setpgid = true)
    (h : (sys e dir t).Reach (fun _ _ => True) x) : Handing dir t x := by
  apply h.invariant (I := Handing dir t)
  · intro x hx
    exact .start hok hx
  · intro x a x' hx hinv _ hs
    exact hinv.step (oneChild_of_reach (world_of_reach hx)) hs

theorem mem_of_child {pid : ℕ} {k : Exec} (h : x.child pid = some k) :
    k ∈ x.launched ∧ k.pid = pid :=
  ⟨List.mem_of_find?_eq_some h, of_decide_eq_true (List.find?_some h :)⟩

/-- What comes out once comes from one. -/
theorem eq_of_nodup_filterMap {α β : Type} {f : α → Option β} {l : List α}
    (h : (l.filterMap f).Nodup) {a b : α} {n : β} (ha : a ∈ l) (hb : b ∈ l) (hfa : f a = some n)
    (hfb : f b = some n) : a = b := by
  have hpair := List.pairwise_filterMap.1 h
  have : Std.Symm fun a b => ∀ i, f a = some i → ∀ j, f b = some j → i ≠ j :=
    ⟨fun a b hab i hi j hj => (hab j hj i hi).symm⟩
  by_contra hne
  exact hpair.forall ha hb hne n hfa n hfb rfl

/-- A connection is given to one child. -/
theorem Handing.given_once (h : Handing dir t x) {k l : Exec} (hk : k ∈ x.launched)
    (hl : l ∈ x.launched) {n : ℕ} (hkn : k.fds 0 = some (.conn n))
    (hln : l.fds 0 = some (.conn n)) : k = l := by
  obtain ⟨m, -, hgiven, -⟩ := h.given
  have hnodup : x.given.Nodup := by
    rw [hgiven]
    exact List.nodup_reverse.2 List.nodup_range
  apply eq_of_nodup_filterMap (n := n) hnodup hk hl
  · rw [Exec.conn, hkn]
  · rw [Exec.conn, hln]

/-- **Two running children have different things on 0, 1 and 2.** -/
theorem Handing.apart (h : Handing dir t x) (hone : OneChild x.world) {c d : Child Serv}
    {k l : Exec} (hc : c ∈ x.world.children) (hd : d ∈ x.world.children)
    (hclive : c.live = true) (hdlive : d.live = true) (hne : c ≠ d)
    (hk : x.child c.pid = some k) (hl : x.child d.pid = some l) : k.fds 0 ≠ l.fds 0 := by
  obtain ⟨k', hk', hkjob⟩ := h.child c hc
  obtain ⟨l', hl', hljob⟩ := h.child d hd
  obtain rfl : k = k' := Option.some.inj (hk.symm.trans hk')
  obtain rfl : l = l' := Option.some.inj (hl.symm.trans hl')
  obtain ⟨hkmem, hkpid⟩ := mem_of_child hk
  obtain ⟨hlmem, hlpid⟩ := mem_of_child hl
  have hpid : c.pid ≠ d.pid := fun heq => hne (Children.eq_of_pid hc hd heq)
  have hkl : k ≠ l := by
    rintro rfl
    exact hpid (hkpid.symm.trans hlpid)
  obtain ⟨dk, hkfds, hkconn, hksock⟩ := (h.ready k hkmem).fds
  obtain ⟨dl, hlfds, hlconn, hlsock⟩ := (h.ready l hlmem).fds
  have hk0 : k.fds 0 = some dk := by rw [hkfds]; rfl
  have hl0 : l.fds 0 = some dl := by rw [hlfds]; rfl
  intro heq
  obtain rfl : dk = dl := Option.some.inj (hk0.symm.trans (heq.trans hl0))
  rcases sock_type_cases k.job with hkt | hkt
  · obtain ⟨n, rfl⟩ := hkconn hkt
    exact hkl (h.given_once hkmem hlmem hk0 hl0)
  · rcases sock_type_cases l.job with hlt | hlt
    · obtain ⟨n, rfl⟩ := hlconn hlt
      exact hkl (h.given_once hkmem hlmem hk0 hl0)
    · -- both are children of one datagram service, which has one
      have hjob : c.job = d.job := by
        have hsock := (hksock hkt).symm.trans (hlsock hlt)
        rw [← hkjob, ← hljob]
        exact Desc.sock.inj hsock
      have hcmine := hone.mine c hc hclive (hkjob ▸ hkt)
      have hdmine := hone.mine d hd hdlive (hljob ▸ hlt)
      rw [hjob, hdmine] at hcmine
      omega

/-- **What `inetd` and its children have.** Started anywhere, with any descriptors, `inetd` has
the same eight whenever it waits in `select`: `/dev/null` on 0, 1 and 2, the log file on 3, and
the sockets on 4 to 7, none of the others below `NOFILE`. Every connection that is accepted is
given to one child, in their order; a child comes to `execl` with the path of its service, as
far as it fits, and with 0, 1 and 2 alone, which are one connection for a stream service and
its socket for a datagram service; and no two running children have the same one. -/
theorem handover (hok : e.getppid = 1 ∨ e.fork = true ∧ e.setpgid = true)
    (h : (sys e dir t).Reach (fun _ _ => True) x) :
    (∀ fds, x.world.pc = .blocked fds → x.table = Table.dense NOFILE t opened ∧
      x.given = (List.range x.accepted).reverse) ∧
    (∀ c ∈ x.world.children, ∃ k, x.child c.pid = some k ∧ k.job = c.job ∧ k.Ready dir t) ∧
    ∀ c ∈ x.world.children, ∀ d ∈ x.world.children, c.live = true → d.live = true → c ≠ d →
      ∀ k l, x.child c.pid = some k → x.child d.pid = some l → k.fds 0 ≠ l.fds 0 := by
  have hinv := handing_of_reach hok h
  have hone := oneChild_of_reach (world_of_reach h)
  refine ⟨fun fds hpc => ?_, fun c hc => ?_, ?_⟩
  · have hlive : x.world.pc ≠ .exited := by
      rw [hpc]
      nofun
    have htable := hinv.table hlive
    obtain ⟨n, -, hgiven, hcount⟩ := hinv.given
    have hcount := hcount hlive
    rw [hpc] at htable hcount
    refine ⟨htable, ?_⟩
    obtain rfl : n = x.accepted := hcount
    exact hgiven
  · obtain ⟨k, hk, hjob⟩ := hinv.child c hc
    exact ⟨k, hk, hjob, hinv.ready k (mem_of_child hk).1⟩
  · intro c hc d hd hclive hdlive hne k l hk hl
    exact hinv.apart hone hc hd hclive hdlive hne hk hl

end Runs

/-- Everything succeeds, and a shell has left three descriptors open. -/
def env : Env := ⟨NOFILE, 2, true, true, true, true, fun _ => true, fun _ => true⟩

def shell : Table Desc := fun i => if i < 3 then some (.inherited i) else none

theorem boot_env : (boot env shell).isSome = true := by decide +kernel

def stream_echo : Serv := ⟨0, by decide⟩

/-- A connection for `str_echo`, and a datagram for `dg_echo` afterwards. -/
def twoLaunches : List Act :=
  [.go, .ready fun i => i == stream_echo, .go, .go, .forked 7] ++ List.replicate 11 .go ++
    [.ready fun i => i == dg_echo, .go, .go, .forked 8]

def booted : Sys :=
  ⟨start, ((boot env shell).get boot_env).1, ((boot env shell).get boot_env).2, 0, 0, [], []⟩

def usr_sbin : List Char := ['/', 's', 'b', 'i', 'n']

theorem twoLaunches_runs :
    ((sys env usr_sbin shell).exec (fun _ _ => True) booted twoLaunches).isSome = true := by
  decide +kernel

theorem boot_booted : boot env shell = some (booted.table, booted.sockfd) := by
  rw [booted, Prod.mk.eta, Option.some_get]

theorem twoLaunches_reach : (sys env usr_sbin shell).Reach (fun _ _ => True)
    (((sys env usr_sbin shell).exec (fun _ _ => True) booted twoLaunches).get
      twoLaunches_runs) := by
  apply Machine.Reach.run (sys env usr_sbin shell) (fun _ _ => True)
  exact ⟨rfl, boot_booted, rfl, rfl, by decide⟩

theorem twoLaunches_children :
    (((sys env usr_sbin shell).exec (fun _ _ => True) booted twoLaunches).get
      twoLaunches_runs).world.children.list = [⟨8, dg_echo, true⟩, ⟨7, stream_echo, true⟩] := by
  decide +kernel

/-- Two children run, and do not read the same. -/
theorem handover_two : ∃ x, (sys env usr_sbin shell).Reach (fun _ _ => True) x ∧
    ∃ k l, x.child 7 = some k ∧ x.child 8 = some l ∧ k.job = stream_echo ∧ l.job = dg_echo ∧
      k.fds 0 ≠ l.fds 0 := by
  obtain ⟨-, hready, happart⟩ := handover (e := env) (.inr ⟨rfl, rfl⟩) twoLaunches_reach
  have hseven : (⟨7, stream_echo, true⟩ : Child Serv) ∈ (((sys env usr_sbin shell).exec
      (fun _ _ => True) booted twoLaunches).get twoLaunches_runs).world.children := by
    rw [Children.mem_def, twoLaunches_children]
    decide
  have height : (⟨8, dg_echo, true⟩ : Child Serv) ∈ (((sys env usr_sbin shell).exec
      (fun _ _ => True) booted twoLaunches).get twoLaunches_runs).world.children := by
    rw [Children.mem_def, twoLaunches_children]
    decide
  obtain ⟨k, hk, hkjob, -⟩ := hready _ hseven
  obtain ⟨l, hl, hljob, -⟩ := hready _ height
  refine ⟨_, twoLaunches_reach, k, l, hk, hl, hkjob, hljob, ?_⟩
  exact happart _ hseven _ height rfl rfl (by decide) k l hk hl

end UnixNetProg.Inetd

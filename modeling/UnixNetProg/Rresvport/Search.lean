/-
`rresvport.c`: the search for a reserved port, `my_rresvport` and its copy for
datagram sockets.

The port the caller passes by reference is also the variable of the loop: `bind`
is tried with it, and as long as it fails with `EADDRINUSE` the port is
decremented, down to 512. The two functions are written out twice; they differ
in the type of the socket and in the wording of what they print.

`bind` is given by what it answers for each port, the one it finds in `sin_port`
of the address it is passed. The error numbers are those of the BSDs. Printing
leaves `errno` alone.
-/
import Mathlib.Order.Bounds.Basic
import Mathlib.Tactic.Linarith

set_option autoImplicit false

namespace UnixNetProg.Rresvport

/-! ## The network -/

def EADDRINUSE : ℕ := 48

def EAGAIN : ℕ := 35

inductive SockType
  | SOCK_STREAM
  | SOCK_DGRAM
  deriving DecidableEq, Repr

/-- To network byte order and back, on a machine with the low byte first. -/
def htons (v : BitVec 16) : BitVec 16 := v <<< 8 ||| v >>> 8

structure Sockaddr_in where
  sin_family : ℕ
  sin_port : BitVec 16
  sin_addr : BitVec 32
  deriving DecidableEq, Repr

def AF_INET : ℕ := 2

/-- The same in either byte order. -/
def INADDR_ANY : BitVec 32 := 0

/-- What the system answers: `socket` with a descriptor, `bind` by the port; or
with an error number. -/
structure Net where
  socket : Except ℕ ℕ
  bind : ℕ → Except ℕ Unit

inductive Call
  | socket (domain : ℕ) (type : SockType) (protocol : ℕ)
  | bind (sockfd : ℕ) (sbai : Sockaddr_in)
  deriving DecidableEq, Repr

/-- The port that `bind` reads in an address. -/
def Sockaddr_in.port (sbai : Sockaddr_in) : ℕ := (htons sbai.sin_port).toNat

/-- The address for a port, any interface. -/
def sbai (crport : ℤ) : Sockaddr_in where
  sin_family := AF_INET
  sin_port := htons (BitVec.ofInt 16 crport)
  sin_addr := INADDR_ANY

/-! ## What is printed -/

inductive Message
  | large (port : ℤ)
  | small (port : ℤ)
  | no_socket (errno : ℕ)
  | bind_errno (errno : ℕ)
  | connected (port : ℤ)
  | in_use (desired : ℤ)

/-- `perror` appends the text of the error. -/
inductive Out
  | stdout (text : String)
  | stderr (text : String)
  | perror (text : String) (errno : ℕ)
  deriving DecidableEq, Repr

/-- One of the two copies: its name, the type of its socket, and a word that only
one of them has before the port. -/
structure Copy where
  name : String
  type : SockType
  port : String

def Copy.text (v : Copy) : Message → Out
  | .large port =>
    .stderr ("[" ++ v.name ++ " error] supplied the desired port to be > 1024. " ++ v.port ++
      toString port ++ " can be automatically assigned by system. Note that if the port is " ++
      "> 5000, the system doesn't automatically assign it.\n")
  | .small port =>
    .stderr ("[" ++ v.name ++ " error] supplied the desired port to be < 512. 1-255 are ports " ++
      "used by standard Internet applications. 256-511 are considered reserved by 4.3BSD, but " ++
      "they aren't used by standard Internet application, and they are never allocated by " ++
      "rresvport. Hence, " ++ v.port ++ toString port ++ " cannot be assigned.\n")
  | .no_socket errno =>
    .perror (v.name ++ ": failed to create an Internet stream socket.") errno
  | .bind_errno errno =>
    .stderr ("[" ++ v.name ++ " error] bind errno: " ++ toString errno ++ "\n")
  | .connected port =>
    .stdout ("[" ++ v.name ++ " log] connected to INADDR_ANY with port " ++ toString port ++ "\n")
  | .in_use desired =>
    .stderr ("[" ++ v.name ++ " error] all reserved ports (min: 512 - desired: " ++
      toString desired ++ ") in use.\n")

/-! ## The search -/

/-- The port of the caller, `errno`, the system calls made and what was printed. -/
structure State where
  crport : ℤ
  errno : ℕ
  calls : List Call
  out : List Out

namespace State

def call (s : State) (c : Call) : State := { s with calls := s.calls ++ [c] }

def fails (s : State) (errno : ℕ) : State := { s with errno := errno }

def print (s : State) (v : Copy) (m : Message) : State := { s with out := s.out ++ [v.text m] }

/-- `(*crport)--`. -/
def next (s : State) : State := { s with crport := s.crport - 1 }

end State

structure Result where
  ret : ℤ
  state : State

/-- The loop over `*crport`. -/
def Copy.loop (v : Copy) (net : Net) (sockfd : ℕ) (original_desired_port : ℤ) (s : State) :
    Result :=
  if 512 ≤ s.crport then
    match net.bind (sbai s.crport).port with
    | .error errno =>
      if errno = EADDRINUSE then
        v.loop net sockfd original_desired_port
          ((s.call (.bind sockfd (sbai s.crport))).fails errno).next
      else
        ⟨-1, ((s.call (.bind sockfd (sbai s.crport))).fails errno).print v (.bind_errno errno)⟩
    | .ok () => ⟨sockfd, (s.call (.bind sockfd (sbai s.crport))).print v (.connected s.crport)⟩
  else ⟨-1, (s.print v (.in_use original_desired_port)).fails EAGAIN⟩
termination_by (s.crport - 511).toNat
decreasing_by
  simp only [State.next, State.fails, State.call]
  omega

def Copy.rresvport (v : Copy) (net : Net) (s : State) : Result :=
  if 1024 < s.crport then ⟨-1, s.print v (.large s.crport)⟩
  else if s.crport < 512 then ⟨-1, s.print v (.small s.crport)⟩
  else
    match net.socket with
    | .error errno =>
      ⟨-1, ((s.call (.socket AF_INET v.type 0)).fails errno).print v (.no_socket errno)⟩
    | .ok sockfd => v.loop net sockfd s.crport (s.call (.socket AF_INET v.type 0))

def stream : Copy := ⟨"my_rresvport", .SOCK_STREAM, "port: "⟩

def dgram : Copy := ⟨"my_rresvport_udp", .SOCK_DGRAM, ""⟩

/-- `my_rresvport` (`rresvport_tcp_udp/rresvport.c:111-163`). -/
def my_rresvport (net : Net) (s : State) : Result := stream.rresvport net s

/-- `my_rresvport_udp` (`rresvport_tcp_udp/rresvport.c:168-219`). -/
def my_rresvport_udp (net : Net) (s : State) : Result := dgram.rresvport net s

/-! ## The port in the address -/

theorem htons_htons (v : BitVec 16) : htons (htons v) = v := by
  ext i hi
  simp [htons]
  grind

/-- `bind` reads the port that the search has put into the address. -/
theorem port_sbai {crport : ℤ} (hlo : 0 ≤ crport) (hhi : crport < 65536) :
    ((sbai crport).port : ℤ) = crport := by
  simp only [Sockaddr_in.port, sbai, htons_htons, BitVec.toNat_ofInt]
  omega

/-! ## The ports that are tried -/

/-- `p`, `p - 1`, and so on down to `q`. -/
def down (p q : ℤ) : List ℤ := (List.range (p - q + 1).toNat).map fun i : ℕ => p - i

/-- The ports from 512 to `p` that are not in use. -/
def Net.free (net : Net) (p : ℤ) : Set ℤ :=
  {m | 512 ≤ m ∧ m ≤ p ∧ net.bind m.toNat ≠ .error EADDRINUSE}

/-- A call of `bind` for a port. -/
def attempt (sockfd : ℕ) (port : ℤ) : Call := .bind sockfd (sbai port)

namespace State

/-- The ports for which `bind` has been called. -/
def tried (s : State) : List ℤ :=
  s.calls.filterMap fun
    | .socket _ _ _ => none
    | .bind _ sbai => some sbai.port

/-- The port was in use. -/
def used (sockfd : ℕ) (s : State) : State :=
  ((s.call (attempt sockfd s.crport)).fails EADDRINUSE).next

variable {sockfd : ℕ} {s : State}

theorem used_crport (n : ℕ) : ((used sockfd)^[n] s).crport = s.crport - n := by
  induction n with
  | zero => simp
  | succ n ih =>
    rw [Function.iterate_succ_apply']
    show ((used sockfd)^[n] s).crport - 1 = s.crport - (n + 1 : ℕ)
    rw [ih]
    omega

theorem used_calls (n : ℕ) : ((used sockfd)^[n] s).calls =
    s.calls ++ (List.range n).map fun i : ℕ => attempt sockfd (s.crport - i) := by
  induction n with
  | zero => simp
  | succ n ih =>
    rw [Function.iterate_succ_apply', List.range_succ, List.map_append, ← List.append_assoc, ← ih]
    show _ ++ [attempt sockfd ((used sockfd)^[n] s).crport] = _
    rw [used_crport]
    rfl

end State

section Loop

variable {v : Copy} {net : Net} {sockfd : ℕ} {desired : ℤ} {s : State}

theorem bind_port (hlo : 512 ≤ s.crport) (hhi : s.crport ≤ 1024) :
    net.bind (sbai s.crport).port = net.bind s.crport.toNat := by
  have hport : ((sbai s.crport).port : ℤ) = s.crport := port_sbai (by omega) (by omega)
  congr 1
  omega

/-- A port in use is passed over. -/
theorem loop_used (hlo : 512 ≤ s.crport)
    (hbind : net.bind (sbai s.crport).port = .error EADDRINUSE) :
    v.loop net sockfd desired s = v.loop net sockfd desired (s.used sockfd) := by
  rw [Copy.loop, if_pos hlo, hbind]
  rfl

/-- `bind` succeeds. -/
theorem loop_ok (hlo : 512 ≤ s.crport) (hbind : net.bind (sbai s.crport).port = .ok ()) :
    v.loop net sockfd desired s =
      ⟨sockfd, (s.call (attempt sockfd s.crport)).print v (.connected s.crport)⟩ := by
  rw [Copy.loop, if_pos hlo, hbind]
  rfl

/-- `bind` fails for another reason. -/
theorem loop_error (hlo : 512 ≤ s.crport) {errno : ℕ}
    (hbind : net.bind (sbai s.crport).port = .error errno) (hne : errno ≠ EADDRINUSE) :
    v.loop net sockfd desired s =
      ⟨-1, ((s.call (attempt sockfd s.crport)).fails errno).print v (.bind_errno errno)⟩ := by
  rw [Copy.loop, if_pos hlo, hbind]
  exact if_neg hne

/-- No port is left. -/
theorem loop_end (hlo : s.crport < 512) :
    v.loop net sockfd desired s = ⟨-1, (s.print v (.in_use desired)).fails EAGAIN⟩ := by
  rw [Copy.loop, if_neg (Int.not_le.2 hlo)]

/-- So are all of the ports in use down to one that is not. -/
theorem loop_iterate (hhi : s.crport ≤ 1024) (n : ℕ)
    (hused : ∀ m, s.crport - n < m → m ≤ s.crport →
      512 ≤ m ∧ net.bind m.toNat = .error EADDRINUSE) :
    v.loop net sockfd desired s = v.loop net sockfd desired ((State.used sockfd)^[n] s) := by
  induction n with
  | zero => rfl
  | succ n ih =>
    rw [ih fun m hm hle => hused m (by omega) hle, Function.iterate_succ_apply']
    have hcrport : ((State.used sockfd)^[n] s).crport = s.crport - n := State.used_crport n
    -- The next one tried is the one below those `n`.
    obtain ⟨hlo, hbind⟩ := hused (s.crport - n) (by omega) (by omega)
    rw [← hcrport] at hlo hbind
    rw [← bind_port hlo (by omega)] at hbind
    exact loop_used hlo hbind

end Loop

/-! ## The highest free port -/

/-- Before a call of one of the functions. -/
def entry (crport : ℤ) (errno : ℕ) : State := ⟨crport, errno, [], []⟩

/-- What the search from `p` does where `q` is the highest port that is not in
use. -/
structure Found (type : SockType) (net : Net) (p : ℤ) (sockfd : ℕ) (q : ℤ) (r : Result) : Prop where
  calls : r.state.calls = .socket AF_INET type 0 :: (down p q).map (attempt sockfd)
  tried : r.state.tried = down p q
  bound : net.bind q.toNat = .ok () → r.ret = sockfd ∧ r.state.crport = q
  failed : net.bind q.toNat ≠ .ok () → r.ret = -1

/-- What the search from `p` does. -/
structure Highest (type : SockType) (net : Net) (p : ℤ) (r : Result) : Prop where
  found : ∀ sockfd q, net.socket = .ok sockfd → p ≤ 1024 → IsGreatest (net.free p) q →
    Found type net p sockfd q r
  in_use : ∀ sockfd, net.socket = .ok sockfd → 512 ≤ p → p ≤ 1024 → net.free p = ∅ →
    r.ret = -1 ∧ r.state.errno = EAGAIN
  outside : p < 512 ∨ 1024 < p → r.ret = -1 ∧ r.state.calls = [] ∧ r.state.crport = p

section Search

variable {v : Copy} {net : Net} {sockfd : ℕ} {p q : ℤ} {errno : ℕ}

theorem down_concat (hle : q ≤ p) :
    down p q = ((List.range (p - q).toNat).map fun i : ℕ => p - i) ++ [q] := by
  have hlen : (p - q + 1).toNat = (p - q).toNat + 1 := by omega
  have hlast : p - ((p - q).toNat : ℤ) = q := by omega
  rw [down, hlen, List.range_succ, List.map_append, List.map_singleton, hlast]

/-- The ports of the addresses are the ones that were meant. -/
theorem tried_of_calls {s : State} {type : SockType} (hlo : 512 ≤ q) (hhi : p ≤ 1024)
    (hcalls : s.calls = .socket AF_INET type 0 :: (down p q).map (attempt sockfd)) :
    s.tried = down p q := by
  rw [State.tried, hcalls, List.filterMap_cons, List.filterMap_map]
  show List.filterMap (fun m : ℤ => some ((sbai m).port : ℤ)) (down p q) = down p q
  rw [List.filterMap_eq_map']
  conv_rhs => rw [← List.map_id (down p q)]
  apply List.map_congr_left
  intro m hm
  obtain ⟨i, hi, rfl⟩ := List.mem_map.1 hm
  rw [List.mem_range] at hi
  exact port_sbai (by omega) (by omega)

theorem rresvport_inside {s : State} (hlo : 512 ≤ s.crport) (hhi : s.crport ≤ 1024)
    (hsocket : net.socket = .ok sockfd) :
    v.rresvport net s = v.loop net sockfd s.crport (s.call (.socket AF_INET v.type 0)) := by
  rw [Copy.rresvport, if_neg (Int.not_lt.2 hhi), if_neg (Int.not_lt.2 hlo), hsocket]

/-- The search comes down to `q`, every port above it being in use. -/
theorem search_down (v : Copy) (errno : ℕ) (hsocket : net.socket = .ok sockfd) (hp : 512 ≤ p)
    (hhi : p ≤ 1024) (hle : q ≤ p)
    (hused : ∀ m, q < m → m ≤ p → 512 ≤ m ∧ net.bind m.toNat = .error EADDRINUSE) :
    ∃ s : State, v.rresvport net (entry p errno) = v.loop net sockfd p s ∧ s.crport = q ∧
      s.calls = .socket AF_INET v.type 0 ::
        (List.range (p - q).toNat).map fun i : ℕ => attempt sockfd (p - i) := by
  refine ⟨_, (rresvport_inside hp hhi hsocket).trans (loop_iterate hhi (p - q).toNat ?_), ?_, ?_⟩
  · intro m hm hmp
    have hqm : p - ((p - q).toNat : ℤ) < m := hm
    exact hused m (by omega) hmp
  · rw [State.used_crport]
    show p - ((p - q).toNat : ℤ) = q
    omega
  · rw [State.used_calls]
    rfl

/-- The highest port that is not in use is where the search stops. -/
theorem search_found (hsocket : net.socket = .ok sockfd) (hhi : p ≤ 1024)
    (hq : IsGreatest (net.free p) q) :
    Found v.type net p sockfd q (v.rresvport net (entry p errno)) := by
  obtain ⟨⟨hlo, hle, hfree⟩, hmax⟩ := hq
  -- A port above `q` that is not in use would be in the set, and `q` its maximum.
  have hused : ∀ m, q < m → m ≤ p → 512 ≤ m ∧ net.bind m.toNat = .error EADDRINUSE := by
    intro m hm hmp
    have hm512 : 512 ≤ m := by omega
    refine ⟨hm512, ?_⟩
    by_contra hne
    have hmq : m ≤ q := hmax ⟨hm512, hmp, hne⟩
    omega
  obtain ⟨s, hs, rfl, hcalls⟩ := search_down v errno hsocket (by omega) hhi hle hused
  -- `q` itself is tried last, whatever comes of it.
  have hlast : s.calls ++ [attempt sockfd s.crport] =
      .socket AF_INET v.type 0 :: (down p s.crport).map (attempt sockfd) := by
    rw [hcalls, down_concat hle, List.map_append, List.map_map]
    rfl
  have hport : net.bind (sbai s.crport).port = net.bind s.crport.toNat := bind_port hlo (by omega)
  rw [hs]
  cases hbind : net.bind s.crport.toNat with
  | ok _ =>
    rw [loop_ok hlo (hport.trans hbind)]
    exact ⟨hlast, tried_of_calls hlo hhi hlast, fun _ => ⟨rfl, rfl⟩, fun hne => absurd hbind hne⟩
  | error e =>
    have hne : e ≠ EADDRINUSE := by
      rintro rfl
      exact hfree hbind
    rw [loop_error hlo (hport.trans hbind) hne]
    refine ⟨hlast, tried_of_calls hlo hhi hlast, ?_, fun _ => rfl⟩
    intro hok
    rw [hok] at hbind
    cases hbind

/-- Every port is in use. -/
theorem search_in_use (hsocket : net.socket = .ok sockfd) (hlo : 512 ≤ p) (hhi : p ≤ 1024)
    (hfree : net.free p = ∅) : (v.rresvport net (entry p errno)).ret = -1 ∧
      (v.rresvport net (entry p errno)).state.errno = EAGAIN := by
  have hused : ∀ m, 511 < m → m ≤ p → 512 ≤ m ∧ net.bind m.toNat = .error EADDRINUSE := by
    intro m hm hmp
    have hm512 : 512 ≤ m := by omega
    refine ⟨hm512, ?_⟩
    by_contra hne
    have hmem : m ∈ net.free p := ⟨hm512, hmp, hne⟩
    rw [hfree] at hmem
    exact hmem
  obtain ⟨s, hs, hcrport, -⟩ := search_down v errno hsocket hlo hhi (by omega) hused
  rw [hs, loop_end (by omega)]
  exact ⟨rfl, rfl⟩

/-- The port that is asked for is not a reserved one. -/
theorem search_outside (h : p < 512 ∨ 1024 < p) :
    (v.rresvport net (entry p errno)).ret = -1 ∧
      (v.rresvport net (entry p errno)).state.calls = [] ∧
      (v.rresvport net (entry p errno)).state.crport = p := by
  unfold Copy.rresvport
  split_ifs with hhi hlo
  · exact ⟨rfl, rfl, rfl⟩
  · exact ⟨rfl, rfl, rfl⟩
  · exact absurd h (not_or.2 ⟨hlo, hhi⟩)

theorem search_highest (v : Copy) (net : Net) (p : ℤ) (errno : ℕ) :
    Highest v.type net p (v.rresvport net (entry p errno)) where
  found _ _ hsocket hhi hq := search_found hsocket hhi hq
  in_use _ hsocket hlo hhi hfree := search_in_use hsocket hlo hhi hfree
  outside h := search_outside h

end Search

/-! ## The two copies -/

/-- The call with a socket of another type. -/
def Call.retype (type : SockType) : Call → Call
  | .socket domain _ protocol => .socket domain type protocol
  | .bind sockfd sbai => .bind sockfd sbai

/-- The same in the two copies: the calls but for the type of the socket, and the
messages, each in its own words. -/
structure Alike (v v' : Copy) (s s' : State) : Prop where
  crport : s'.crport = s.crport
  errno : s'.errno = s.errno
  calls : s'.calls = s.calls.map (Call.retype v'.type)
  out : ∃ ms : List Message, s.out = ms.map v.text ∧ s'.out = ms.map v'.text

namespace Alike

variable {v v' : Copy} {net : Net} {sockfd errno : ℕ} {desired : ℤ} {s s' : State}

theorem call (h : Alike v v' s s') (c : Call) :
    Alike v v' (s.call c) (s'.call (c.retype v'.type)) := by
  refine ⟨h.crport, h.errno, ?_, h.out⟩
  show s'.calls ++ _ = (s.calls ++ [c]).map _
  rw [h.calls, List.map_append, List.map_singleton]

theorem fails (h : Alike v v' s s') (errno : ℕ) : Alike v v' (s.fails errno) (s'.fails errno) :=
  ⟨h.crport, rfl, h.calls, h.out⟩

theorem print (h : Alike v v' s s') (m : Message) :
    Alike v v' (s.print v m) (s'.print v' m) := by
  obtain ⟨ms, hout, hout'⟩ := h.out
  refine ⟨h.crport, h.errno, h.calls, ms ++ [m], ?_, ?_⟩
  · show s.out ++ _ = _
    rw [hout, List.map_append, List.map_singleton]
  · show s'.out ++ _ = _
    rw [hout', List.map_append, List.map_singleton]

theorem next (h : Alike v v' s s') : Alike v v' s.next s'.next :=
  ⟨congrArg (· - 1) h.crport, h.errno, h.calls, h.out⟩

theorem used (h : Alike v v' s s') : Alike v v' (s.used sockfd) (s'.used sockfd) := by
  have hused := ((h.call (attempt sockfd s.crport)).fails EADDRINUSE).next
  unfold State.used
  rw [h.crport]
  exact hused

theorem loop (h : Alike v v' s s') :
    (v'.loop net sockfd desired s').ret = (v.loop net sockfd desired s).ret ∧
      Alike v v' (v.loop net sockfd desired s).state (v'.loop net sockfd desired s').state := by
  -- both are at the same port, and what `bind` says of it does not depend on the type
  induction s using Copy.loop.induct net sockfd generalizing s' with
  | case1 s hlo hbind ih =>
    rw [loop_used hlo hbind]
    rw [← h.crport] at hlo hbind
    rw [loop_used hlo hbind]
    exact ih h.used
  | case2 s hlo errno hbind hne =>
    rw [loop_error hlo hbind hne]
    have hcall := ((h.call (attempt sockfd s.crport)).fails errno).print (.bind_errno errno)
    rw [← h.crport] at hlo hbind hcall ⊢
    rw [loop_error hlo hbind hne]
    exact ⟨rfl, hcall⟩
  | case3 s hlo hbind =>
    rw [loop_ok hlo hbind]
    have hcall := (h.call (attempt sockfd s.crport)).print (.connected s.crport)
    rw [← h.crport] at hlo hbind hcall ⊢
    rw [loop_ok hlo hbind]
    exact ⟨rfl, hcall⟩
  | case4 s hlo =>
    rw [loop_end (Int.not_le.1 hlo)]
    rw [← h.crport] at hlo
    rw [loop_end (Int.not_le.1 hlo)]
    exact ⟨rfl, (h.print _).fails _⟩

/-- The search is the same for every socket, but for its type. -/
theorem rresvport (h : Alike v v' s s') :
    (v'.rresvport net s').ret = (v.rresvport net s).ret ∧
      Alike v v' (v.rresvport net s).state (v'.rresvport net s').state := by
  unfold Copy.rresvport
  rw [h.crport]
  split_ifs with hhi hlo
  · exact ⟨rfl, h.print _⟩
  · exact ⟨rfl, h.print _⟩
  · cases net.socket with
    | ok sockfd => exact loop (h.call (.socket AF_INET v.type 0))
    | error errno => exact ⟨rfl, ((h.call (.socket AF_INET v.type 0)).fails errno).print _⟩

end Alike

/-- **The search returns the highest free port**, for either type of socket, and
the two copies do the same. -/
theorem rresvport_highest (net : Net) (p : ℤ) (errno : ℕ) :
    Highest .SOCK_STREAM net p (my_rresvport net (entry p errno)) ∧
      Highest .SOCK_DGRAM net p (my_rresvport_udp net (entry p errno)) ∧
      (my_rresvport_udp net (entry p errno)).ret = (my_rresvport net (entry p errno)).ret ∧
      Alike stream dgram (my_rresvport net (entry p errno)).state
        (my_rresvport_udp net (entry p errno)).state := by
  have hentry : Alike stream dgram (entry p errno) (entry p errno) := ⟨rfl, rfl, rfl, [], rfl, rfl⟩
  exact ⟨search_highest stream net p errno, search_highest dgram net p errno, hentry.rresvport⟩

/-- The two highest ports are in use. -/
def twoInUse : Net where
  socket := .ok 3
  bind port := if port = 1022 ∨ port = 1023 then .error EADDRINUSE else .ok ()

theorem twoInUse_free : IsGreatest (twoInUse.free 1023) 1021 := by
  refine ⟨⟨by decide, by decide, nofun⟩, ?_⟩
  rintro m ⟨hlo, hle, hfree⟩
  by_contra hgt
  apply hfree
  exact if_pos (by omega)

theorem rresvport_highest_twoInUse :
    (my_rresvport twoInUse (entry 1023 0)).state.tried = [1023, 1022, 1021] ∧
      (my_rresvport twoInUse (entry 1023 0)).ret = 3 ∧
      (my_rresvport twoInUse (entry 1023 0)).state.crport = 1021 := by
  have hfound := (rresvport_highest twoInUse 1023 0).1.found 3 1021 rfl (by decide) twoInUse_free
  exact ⟨hfound.tried, hfound.bound rfl⟩

end UnixNetProg.Rresvport

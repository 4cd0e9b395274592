/-
`dg_echo` and `dg_dis` of `12.inetd`: the children that serve the datagram services.

Each receives datagrams in one buffer, `mesg`, and keeps the address the first one came
from; later ones are taken if their port is that of the first. `dg_echo` sends back what it
has received, `dg_dis` a datagram without data; a datagram that begins with the command of
the service ends it. The buffer is compared as it is, whatever is left in it from before.

`recvfrom` may fail; it then leaves the buffer and the address as they were. `msgcnt` is an
`int`, and is taken to wrap around. What `sendto` is given is recorded, and it may fail.
-/
import UnixNetProg.Lib.Memory
import UnixNetProg.Lib.Runs

set_option autoImplicit false

namespace UnixNetProg.DgService

open UnixNetProg.Memory UnixNetProg.Runs

def MAXMESG : ℕ := 2048

/-- `sin_family` is always the same. -/
structure Sockaddr_in where
  sin_addr : BitVec 32
  sin_port : BitVec 16
  deriving DecidableEq, Repr

structure Datagram where
  src : Sockaddr_in
  data : List Char
  deriving DecidableEq, Repr

/-- What `recvfrom` gets of it. -/
def Datagram.got (d : Datagram) : List Char := d.data.take MAXMESG

/-! ## The two programs -/

def UDP_CMD : List Char := "udpquit\n".toList

def UDP_DIS : List Char := "udpdiscard\n".toList

inductive Service
  | echo
  | dis
  deriving DecidableEq, Repr

def Service.command : Service → List Char
  | .echo => UDP_CMD
  | .dis => UDP_DIS

/-- About to call `recvfrom`; out of the loop; or `exit (EXIT_FAILURE)`. -/
inductive At
  | recvfrom
  | quit
  | failure
  deriving DecidableEq, Repr

/-- The variables of `main`. -/
structure Child where
  mesg : Mem Char
  pcli_addr : Sockaddr_in
  first_client : Sockaddr_in
  msgcnt : BitVec 32
  pc : At

/-- What `sendto` is given. -/
structure Reply where
  dest : Sockaddr_in
  data : List Char
  deriving DecidableEq, Repr

/-- The first `n` bytes of the buffer. -/
def Child.front (w : Child) (n : ℕ) : List Char := load w.mesg 0 n

/-- Behind the last `sendto` of the loop. -/
def Child.answered (w : Child) (sent : Bool) : Child :=
  if sent then { w with msgcnt := w.msgcnt + 1 } else { w with pc := .failure }

/-- `"closing\n"`, with its null byte. -/
def closing : List Char := "closing\n".toList ++ ['\x00']

/-- `dg_echo` (`12.inetd/dg_echo.c:6-52`) after it has received `n` bytes, and what it sends. -/
def dg_echo (w : Child) (n : ℕ) (sent : Bool) : Child × List Reply :=
  if strncmp '\x00' w.mesg UDP_CMD 8 then ({ w with pc := .quit }, [])
  else (w.answered sent, [⟨w.pcli_addr, w.front n⟩])

/-- `dg_dis` (`12.inetd/dg_dis.c:6-61`). Whether its first `sendto` fails does not matter. -/
def dg_dis (w : Child) (n : ℕ) (sent : Bool) : Child × List Reply :=
  let empty : List Reply := if n = 0 then [⟨w.pcli_addr, closing⟩] else []
  if strncmp '\x00' w.mesg UDP_DIS 11 then
    ({ w with pc := if sent then .quit else .failure }, empty ++ [⟨w.pcli_addr, closing⟩])
  else (w.answered sent, empty ++ [⟨w.pcli_addr, []⟩])

def Service.serve : Service → Child → ℕ → Bool → Child × List Reply
  | .echo => dg_echo
  | .dis => dg_dis

/-- The test behind `recvfrom`; `none` is the `continue`. -/
def Child.tested (w : Child) : Option Child :=
  if w.msgcnt = 0 then some { w with first_client := w.pcli_addr }
  else if w.first_client.sin_port ≠ w.pcli_addr.sin_port then none
  else some w

/-! ## One turn of the loop -/

/-- `recvfrom` gets a datagram, and `sendto` succeeds or not; or `recvfrom` fails. -/
inductive Act
  | datagram (d : Datagram) (sent : Bool)
  | fails
  deriving DecidableEq, Repr

def Child.receive (w : Child) (d : Datagram) : Child :=
  { w with mesg := store w.mesg 0 d.got, pcli_addr := d.src }

/-- A turn, and what is sent in it. -/
def Child.turn (s : Service) (w : Child) : Act → Child × List Reply
  | .datagram d sent =>
    match (w.receive d).tested with
    | none => (w.receive d, [])
    | some w => s.serve w d.got.length sent
  | .fails =>
    match w.tested with
    | none => (w, [])
    | some w => ({ w with pc := .failure }, [])

/-- At first; what is in the buffer is not known. -/
def start (mesg : Mem Char) : Child := ⟨mesg, ⟨0, 0⟩, ⟨0, 0⟩, 0, .recvfrom⟩

def service (s : Service) (mesg : Mem Char) : Machine Child Act where
  init := fun w => w = start mesg
  step := fun w a => if w.pc = .recvfrom then some (w.turn s a).1 else none

theorem service_step {s : Service} {mesg : Mem Char} {w : Child} (a : Act)
    (hpc : w.pc = .recvfrom) : (service s mesg).step w a = some (w.turn s a).1 := if_pos hpc

/-! ## What a turn does -/

section Turns

variable {s : Service} {w : Child} {n : ℕ} {sent : Bool} {d : Datagram}

/-- The buffer begins with the command. -/
def Service.Commanded (s : Service) (mesg : Mem Char) : Prop := Holds mesg 0 s.command

theorem strncmp_command (s : Service) (mesg : Mem Char) :
    strncmp '\x00' mesg s.command s.command.length = true ↔ s.Commanded mesg := by
  have hnul : '\x00' ∉ s.command := by cases s <;> decide
  rw [strncmp_iff hnul, List.take_left' rfl]
  rfl

instance (s : Service) (mesg : Mem Char) : Decidable (s.Commanded mesg) :=
  decidable_of_iff _ (strncmp_command s mesg)

theorem command_ne_nil (s : Service) : s.command ≠ [] := by
  cases s <;> decide

/-- What is sent for a datagram of `n` bytes. -/
def Service.replies (s : Service) (w : Child) (n : ℕ) (quits : Bool) : List Reply :=
  match s with
  | .echo => if quits then [] else [⟨w.pcli_addr, w.front n⟩]
  | .dis => (if n = 0 then [⟨w.pcli_addr, closing⟩] else []) ++
      [⟨w.pcli_addr, if quits then closing else []⟩]

/-- How the service ends at a command. -/
def Service.ended (s : Service) (sent : Bool) : At :=
  match s with
  | .echo => .quit
  | .dis => if sent then .quit else .failure

theorem serve_commanded (h : s.Commanded w.mesg) :
    s.serve w n sent = ({ w with pc := s.ended sent }, s.replies w n true) := by
  have hcmp := (strncmp_command s w.mesg).2 h
  cases s with
  | echo => exact if_pos hcmp
  | dis => exact if_pos hcmp

/-- Anything else is answered. -/
theorem serve_not_commanded (h : ¬ s.Commanded w.mesg) :
    s.serve w n sent = (w.answered sent, s.replies w n false) := by
  have hcmp := mt (strncmp_command s w.mesg).1 h
  cases s with
  | echo => exact if_neg hcmp
  | dis => exact if_neg hcmp

@[simp] theorem receive_mesg (w : Child) (d : Datagram) :
    (w.receive d).mesg = store w.mesg 0 d.got := rfl

@[simp] theorem receive_pcli_addr (w : Child) (d : Datagram) : (w.receive d).pcli_addr = d.src :=
    rfl

@[simp] theorem receive_first_client (w : Child) (d : Datagram) :
    (w.receive d).first_client = w.first_client := rfl

@[simp] theorem receive_msgcnt (w : Child) (d : Datagram) : (w.receive d).msgcnt = w.msgcnt := rfl

@[simp] theorem receive_pc (w : Child) (d : Datagram) : (w.receive d).pc = w.pc := rfl

/-- The state in which a datagram is served. -/
def Child.accept (w : Child) (d : Datagram) : Child :=
  { w.receive d with first_client := if w.msgcnt = 0 then d.src else w.first_client }

@[simp] theorem accept_mesg (w : Child) (d : Datagram) :
    (w.accept d).mesg = store w.mesg 0 d.got := rfl

@[simp] theorem accept_pcli_addr (w : Child) (d : Datagram) : (w.accept d).pcli_addr = d.src := rfl

@[simp] theorem accept_msgcnt (w : Child) (d : Datagram) : (w.accept d).msgcnt = w.msgcnt := rfl

@[simp] theorem accept_pc (w : Child) (d : Datagram) : (w.accept d).pc = w.pc := rfl

/-- The first datagram is served, and every one from the port it came from. -/
theorem turn_accept (h : w.msgcnt = 0 ∨ w.first_client.sin_port = d.src.sin_port) :
    w.turn s (.datagram d sent) = s.serve (w.accept d) d.got.length sent := by
  have htest : (w.receive d).tested = some (w.accept d) := by
    rw [Child.tested, receive_msgcnt, receive_first_client, receive_pcli_addr, Child.accept]
    by_cases hzero : w.msgcnt = 0
    · rw [if_pos hzero, if_pos hzero]
      rfl
    · rw [if_neg hzero, if_neg hzero, if_neg (not_not.2 (h.resolve_left hzero))]
      rfl
  simp only [Child.turn, htest]

/-- From another port it is left in the buffer. -/
theorem turn_ignore (hcnt : w.msgcnt ≠ 0) (hport : w.first_client.sin_port ≠ d.src.sin_port) :
    w.turn s (.datagram d sent) = (w.receive d, []) := by
  have htest : (w.receive d).tested = none := by
    rw [Child.tested, receive_msgcnt, receive_first_client, receive_pcli_addr, if_neg hcnt,
      if_pos hport]
  simp only [Child.turn, htest]

/-- The command is in the buffer after a datagram if the datagram begins with it, or if it is
a beginning of it that what was there before goes on from. -/
theorem commanded_store_iff {mesg : Mem Char} {got : List Char} :
    s.Commanded (store mesg 0 got) ↔ s.command <+: got ∨
      got <+: s.command ∧ Holds mesg got.length (s.command.drop got.length) := by
  rw [Service.Commanded, holds_store_iff, Nat.zero_add]

/-- So behind a beginning of it what was there before decides, and elsewhere the datagram. -/
theorem commanded_store_congr {mesg mesg' : Mem Char} {got : List Char} :
    (s.Commanded (store mesg 0 got) ↔ s.Commanded (store mesg' 0 got)) ↔
      (got <+: s.command → got ≠ s.command →
        (Holds mesg got.length (s.command.drop got.length) ↔
          Holds mesg' got.length (s.command.drop got.length))) := by
  rw [commanded_store_iff, commanded_store_iff]
  by_cases hcmd : s.command <+: got
  · -- the datagram is a command, and no proper beginning of one
    refine iff_of_true (iff_of_true (.inl hcmd) (.inl hcmd)) fun hbegins hne => ?_
    exact absurd (hbegins.eq_of_length (Nat.le_antisymm hbegins.length_le hcmd.length_le)) hne
  · have hne : got ≠ s.command := fun heq => hcmd (heq ▸ List.prefix_rfl)
    by_cases hbegins : got <+: s.command
    · simp only [hcmd, hbegins, hne, false_or, true_and, ne_eq, not_false_eq_true, true_implies]
    · simp only [hcmd, hbegins, false_or, false_and, false_implies]

/-- A datagram that is served ends the service if the buffer then begins with the command. -/
theorem turn_quit_iff (hpc : w.pc = .recvfrom)
    (h : w.msgcnt = 0 ∨ w.first_client.sin_port = d.src.sin_port) :
    (w.turn s (.datagram d true)).1.pc = .quit ↔ s.Commanded (store w.mesg 0 d.got) := by
  rw [turn_accept h]
  by_cases hcmd : s.Commanded (store w.mesg 0 d.got)
  · rw [serve_commanded hcmd]
    refine iff_of_true ?_ hcmd
    cases s <;> rfl
  · rw [serve_not_commanded hcmd]
    refine iff_of_false ?_ hcmd
    rw [Child.answered, if_pos rfl]
    simp [hpc]

/-- Whatever becomes of a datagram, it stays in the buffer. -/
theorem turn_mesg (s : Service) (w : Child) (d : Datagram) (sent : Bool) :
    (w.turn s (.datagram d sent)).1.mesg = store w.mesg 0 d.got := by
  by_cases h : w.msgcnt = 0 ∨ w.first_client.sin_port = d.src.sin_port
  · rw [turn_accept h]
    by_cases hcmd : s.Commanded (w.accept d).mesg
    · rw [serve_commanded hcmd]
      rfl
    · rw [serve_not_commanded hcmd]
      cases sent <;> rfl
  · obtain ⟨hcnt, hport⟩ := not_or.1 h
    rw [turn_ignore hcnt hport]
    rfl

theorem turn_fails_mesg (s : Service) (w : Child) : (w.turn s .fails).1.mesg = w.mesg := by
  simp only [Child.turn, Child.tested]
  split_ifs <;> rfl

/-- What is received of a datagram is enough to tell. -/
theorem prefix_got_iff : s.command <+: d.got ↔ s.command <+: d.data := by
  have hlen : s.command.length ≤ MAXMESG := by cases s <;> decide
  constructor
  · exact fun h => h.trans (List.take_prefix _ _)
  · intro h
    exact List.prefix_take_iff.2 ⟨h, hlen⟩

end Turns

end UnixNetProg.DgService

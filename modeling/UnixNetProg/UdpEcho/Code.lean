/-
`2.udp`: `dg_cli` in any number of clients, and one `dg_echo`.

A client reads its input with `fgets`, sends what it has read as one datagram, and
puts out the datagram it gets back before it reads on. The server sends every
datagram back to where it came from; it has one buffer, `mesg`, and one place for
the address, `pcli_addr`, for all of them.

Every system call may also fail; then the process ends with its message.
-/
import UnixNetProg.Lib.Datagrams
import UnixNetProg.Lib.Runs
import UnixNetProg.Lib.Stdio
import Mathlib.Logic.Function.Basic

set_option autoImplicit false

namespace UnixNetProg.UdpEcho

open UnixNetProg.Datagrams UnixNetProg.Runs UnixNetProg.Stdio

/-- Of the client. -/
def MAXLINE : ℕ := 512

/-- Of the server. -/
def MAXMESG : ℕ := 2048

/-- The address of the server, or of one of the clients. -/
inductive Addr (κ : Type)
  | serv
  | cli (a : κ)
  deriving DecidableEq, Repr

/-! ## `dg_cli` -/

/-- The call a client is about to make, or how it has ended. -/
inductive CliAt
  | fgets
  | sendto
  | recvfrom
  | fputs
  | done
  | ended (msg : String)
  deriving DecidableEq, Repr

/-- A client: what is left of its input, the strings it has put out, and its two
buffers, each with the string it holds. -/
structure Client where
  stdin : List Char
  stdout : List (List Char)
  sendline : List Char
  recvline : List Char
  pc : CliAt

/-- Before the first `fgets`. -/
def Client.start (input : List Char) : Client := ⟨input, [], [], [], .fgets⟩

def Client.fgets (c : Client) : Client :=
  match Stdio.fgets MAXLINE c.stdin with
  | some chunk => { c with stdin := c.stdin.drop chunk.length, sendline := chunk, pc := .sendto }
  | none => { c with pc := .done }

/-- `recvline` after a datagram was received, and ended with a null byte. -/
def Client.recvfrom (c : Client) (data : List Char) : Client :=
  { c with recvline := data.take MAXLINE, pc := .fputs }

def Client.fputs (c : Client) : Client :=
  { c with stdout := c.stdout ++ [cstr c.recvline], pc := .fgets }

/-- The message a client ends with when the call it makes fails. -/
def CliAt.error : CliAt → Option String
  | .fgets => some "dg_cli: error reading file."
  | .sendto => some "dg_cli: sendto error on socket"
  | .recvfrom => some "dg_cli: recvfrom error."
  | .fputs | .done | .ended _ => none

/-! ## `dg_echo` -/

inductive ServAt
  | recvfrom
  | sendto
  | ended (msg : String)
  deriving DecidableEq, Repr

/-- The server: its buffer, how much of it was received, and from where. -/
structure Server (κ : Type) where
  mesg : List Char
  n : ℕ
  pcli_addr : Addr κ
  pc : ServAt

def Server.recvfrom {κ : Type} (s : Server κ) (d : Datagram (Addr κ) Char) : Server κ :=
  let data := d.data.take MAXMESG
  { mesg := data ++ s.mesg.drop data.length, n := data.length, pcli_addr := d.src, pc := .sendto }

/-- The message the server ends with when the call it makes fails. -/
def ServAt.error : ServAt → Option String
  | .recvfrom => some "dg_echo: recvfrom error."
  | .sendto => some "dg_echo: sendto error."
  | .ended _ => none

/-! ## Together -/

structure World (κ : Type) where
  net : Net (Addr κ) Char
  serv : Server κ
  cli : κ → Client

/-- A step: of a client, of the server, a datagram arrives, or a call fails. -/
inductive Act (κ : Type)
  | cli (a : κ)
  | serv
  | arrive (d : Datagram (Addr κ) Char)
  | cliFails (a : κ)
  | servFails

section Steps

variable {κ : Type} [DecidableEq κ]

def World.setCli (w : World κ) (a : κ) (c : Client) : World κ :=
  { w with cli := Function.update w.cli a c }

/-- A client makes its next call of `dg_cli` (`2.udp/dg_cli.c:9-36`). -/
def World.cliStep (w : World κ) (a : κ) : Option (World κ) :=
  let c := w.cli a
  match c.pc with
  | .fgets => some (w.setCli a c.fgets)
  | .sendto =>
    some ({ w with
      net := w.net.sendto ⟨.cli a, .serv, c.sendline.take (strlen c.sendline)⟩ }.setCli a
      { c with pc := .recvfrom })
  | .recvfrom =>
    (w.net.recvfrom (.cli a)).map fun r => { w with net := r.2 }.setCli a (c.recvfrom r.1.data)
  | .fputs => some (w.setCli a c.fputs)
  | .done | .ended _ => none

/-- The server makes its next call of `dg_echo` (`2.udp/dg_echo.c:8-25`). -/
def World.servStep (w : World κ) : Option (World κ) :=
  match w.serv.pc with
  | .recvfrom => (w.net.recvfrom .serv).map fun r =>
      { w with net := r.2, serv := w.serv.recvfrom r.1 }
  | .sendto =>
    some { w with
      net := w.net.sendto ⟨.serv, w.serv.pcli_addr, w.serv.mesg.take w.serv.n⟩
      serv := { w.serv with pc := .recvfrom } }
  | .ended _ => none

def World.step (w : World κ) : Act κ → Option (World κ)
  | .cli a => w.cliStep a
  | .serv => w.servStep
  | .arrive d => (w.net.arrive d).map fun net => { w with net := net }
  | .cliFails a => (w.cli a).pc.error.map fun msg => w.setCli a { w.cli a with pc := .ended msg }
  | .servFails => w.serv.pc.error.map fun msg => { w with serv := { w.serv with pc := .ended msg } }

/-- Clients with their inputs, and a server; whatever its buffer and the place for
the address hold. -/
def machine (input : κ → List Char) : Machine (World κ) (Act κ) where
  init := fun w => ∃ mesg n addr,
    w = ⟨.empty, ⟨mesg, n, addr, .recvfrom⟩, fun a => Client.start (input a)⟩
  step := World.step

end Steps

end UnixNetProg.UdpEcho

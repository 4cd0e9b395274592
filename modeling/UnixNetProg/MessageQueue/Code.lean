/-
`7_system_v_ipc` and `8_multiplexing_messages`: a client asks for a file over
System V message queues, and a server sends it.

The two programs differ in four places, which `Prog` names: the first has a queue
for each direction and leaves the type of its messages as it is, the second has one
queue and types 1 and 2; only the first asks whether it has opened a directory; and
a comma. The client sends the name it has read; the server sends the file in
messages of what each `read` gets, or says why it cannot open it, and then a message
without data, which ends the client.

A C string is the list of its characters. What the file system answers is the
parameter `fs`. `msgsnd` waits and does not fail, and the queues are there until the
client removes them, which is after the end of this model.
-/
import Mathlib.Logic.Function.Basic
import UnixNetProg.Exchange.Errmesg
import UnixNetProg.Lib.MsgQueue
import UnixNetProg.Lib.Runs

set_option autoImplicit false

namespace UnixNetProg.MessageQueue

open UnixNetProg.MsgQueue UnixNetProg.Runs UnixNetProg.Stdio

def MAXMESGDATA : ℕ := 4096 - 16

/-- The size of `errmesg`. -/
def ERRMESG : ℕ := 256

/-! ## The two programs -/

inductive Prog
  | system_v_ipc
  | multiplexing_messages
  deriving DecidableEq, Repr

/-- The queues of `MKEY1` and `MKEY2`. -/
inductive QueueId
  | first
  | second
  deriving DecidableEq, Repr

namespace Prog

/-- The queue for the replies; the requests are in the first one. -/
def reply_id : Prog → QueueId
  | system_v_ipc => .second
  | multiplexing_messages => .first

/-- `mesg_type`, once the request is sent or received. -/
def retype : Prog → ℕ → ℕ
  | system_v_ipc, t => t
  | multiplexing_messages, _ => 2

/-- Whether the server looks for a directory. -/
def checks : Prog → Bool
  | system_v_ipc => true
  | multiplexing_messages => false

/-- What `errmesg` begins with. -/
def cant_open : Prog → List Char
  | system_v_ipc => ": can't open, ".toList
  | multiplexing_messages => ": can't open ".toList

/-- `errmesg`, for what `sys_err_str` returns. -/
def errmesg (prog : Prog) (err : List Char) : List Char := Exchange.errmesg prog.cant_open err

end Prog

/-! ## Files -/

/-- What `sys_err_str` returns: a string in an array of 200. -/
abbrev ErrStr := Exchange.ErrStr Char

/-- What a `read` gets that is not the last. -/
abbrev Chunk := Exchange.Chunk Char MAXMESGDATA

/-- What `fstat` finds. -/
inductive Stat
  | fails
  | directory
  | other
  deriving DecidableEq, Repr

/-- What the file system has under a name: nothing that opens, or a file that is
read in these chunks, and then `read` returns 0, or -1 if it `fails`. -/
inductive File
  | cannot (err : ErrStr)
  | opens (stat : Stat) (chunks : List Chunk) (fails : Bool)

/-! ## The client -/

/-- The name in the line that was read: the string, without the newline at its end.
In front of `mesg_data` is a byte of `mesg_type`, which is still 0. -/
def filename (buff : List Char) : List Char :=
  let n := strlen buff
  if 0 < n ∧ buff[n - 1]? = some '\n' then buff.take (n - 1) else buff.take n

inductive CliAt
  | fgets
  | send (name : List Char)
  | recv
  | write (data : List Char)
  | done
  | ended (msg : String)
  deriving DecidableEq, Repr

structure Client where
  stdin : List Char
  stdout : List Char
  mesg_type : ℕ
  pc : CliAt

def Client.fgets (c : Client) : Client :=
  match Stdio.fgets MAXMESGDATA c.stdin with
  | some line =>
    { c with stdin := c.stdin.drop line.length, mesg_type := 1, pc := .send (filename line) }
  | none => { c with pc := .ended "filename read error" }

/-- The request is sent. -/
def Client.sent (prog : Prog) (c : Client) : Client :=
  { c with mesg_type := prog.retype c.mesg_type, pc := .recv }

/-- `mesg_recv` has got a message. -/
def Client.recv (c : Client) (m : Msg Char) : Client :=
  { c with mesg_type := m.type, pc := if 0 < m.data.length then .write m.data else .done }

/-- All of `data` is written. -/
def Client.write (c : Client) (data : List Char) : Client :=
  { c with stdout := c.stdout ++ data, pc := .recv }

/-! ## The server -/

/-- Where the server is. `overrun` is a write past the end of an array. -/
inductive ServAt
  | recv
  | open (name : List Char)
  | fstat (stat : Stat) (chunks : List Chunk) (fails : Bool)
  | read (chunks : List Chunk) (fails : Bool)
  | senddata (data : Chunk) (chunks : List Chunk) (fails : Bool)
  | senderr (data : List Char)
  | sendend
  | done
  | ended (msg : String)
  | overrun
  deriving DecidableEq, Repr

structure Server where
  mesg_type : ℕ
  pc : ServAt

/-- `mesg_recv` has got a message: the name, which is ended with a null byte. -/
def Server.recv (prog : Prog) (m : Msg Char) : Server :=
  if m.data.length = 0 then ⟨m.type, .ended "server: filename read error"⟩
  else if m.data.length < MAXMESGDATA then ⟨prog.retype m.type, .open (cstr m.data)⟩
  else ⟨m.type, .overrun⟩

/-- The name with the error message behind it, where both arrays are long enough. -/
def Server.errmesg (prog : Prog) (s : Server) (name : List Char) (err : ErrStr) : Server :=
  let errmesg := prog.errmesg err
  if errmesg.length < ERRMESG ∧ (name ++ errmesg).length < MAXMESGDATA then
    { s with pc := .senderr (name ++ errmesg) }
  else { s with pc := .overrun }

def Server.open (prog : Prog) (s : Server) (name : List Char) : File → Server
  | .cannot err => s.errmesg prog name err
  | .opens stat chunks fails =>
    { s with pc := if prog.checks then .fstat stat chunks fails else .read chunks fails }

def Server.fstat (s : Server) (stat : Stat) (chunks : List Chunk) (fails : Bool) : Server :=
  match stat with
  | .fails => { s with pc := .ended "[ERROR] cannot check the opened file" }
  | .directory => { s with pc := .ended "server: cannot open directory" }
  | .other => { s with pc := .read chunks fails }

def Server.read (s : Server) (chunks : List Chunk) (fails : Bool) : Server :=
  match chunks with
  | c :: cs => { s with pc := .senddata c cs fails }
  | [] => { s with pc := if fails then .ended "server: read error" else .sendend }

/-- What the server sends next, and where it is then. -/
def ServAt.sends : ServAt → Option (List Char × ServAt)
  | .senddata data chunks fails => some (data, .read chunks fails)
  | .senderr data => some (data, .sendend)
  | .sendend => some ([], .done)
  | _ => none

/-- The server has ended, in whatever way. -/
def ServAt.gone : ServAt → Prop
  | .done | .ended _ | .overrun => True
  | _ => False

/-! ## Together -/

abbrev Queues := QueueId → Queue Char

/-- `mesg_send` (`7_system_v_ipc/mesg.c:9-43`). -/
def mesg_send (queues : Queues) (id : QueueId) (m : Msg Char) : Option Queues :=
  ((queues id).msgsnd m).map (Function.update queues id)

/-- `mesg_recv` (`7_system_v_ipc/mesg.c:51-94`): the message got, if there is no error. -/
def mesg_recv (queues : Queues) (id : QueueId) (t : ℕ) : Option (Option (Msg Char × Queues)) :=
  ((queues id).msgrcv MAXMESGDATA t).map fun
    | .got m q => some (m, Function.update queues id q)
    | .tooBig => none

/-- Client, server and queues; and the messages that the server has received, that
it has sent, and that the client has received. -/
structure World where
  cli : Client
  serv : Server
  queues : Queues
  served : List (Msg Char)
  sent : List (Msg Char)
  got : List (Msg Char)

/-- A step of one of the two, or a failing `write` of the client. -/
inductive Act
  | cli
  | serv
  | cliFails
  deriving DecidableEq, Repr

/-- `client` (`7_system_v_ipc/ipc_client.c:11-46`, `8_multiplexing_messages/client.c:57-102`). -/
def World.cliStep (prog : Prog) (w : World) : Option World :=
  match w.cli.pc with
  | .fgets => some { w with cli := w.cli.fgets }
  | .send name =>
    (mesg_send w.queues .first ⟨w.cli.mesg_type, name⟩).map fun queues =>
      { w with cli := w.cli.sent prog, queues := queues }
  | .recv =>
    (mesg_recv w.queues prog.reply_id w.cli.mesg_type).map fun
      | some (m, queues) => { w with cli := w.cli.recv m, queues := queues, got := w.got ++ [m] }
      | none => { w with cli := { w.cli with pc := .ended "msgrcv error" } }
  | .write data => some { w with cli := w.cli.write data }
  | .done | .ended _ => none

/-- `server` (`7_system_v_ipc/ipc_server.c:13-68`, `8_multiplexing_messages/server.c:54-99`). -/
def World.servStep (prog : Prog) (fs : List Char → File) (w : World) : Option World :=
  match w.serv.pc with
  | .recv =>
    (mesg_recv w.queues .first w.serv.mesg_type).map fun
      | some (m, queues) =>
        { w with serv := .recv prog m, queues := queues, served := w.served ++ [m] }
      | none => { w with serv := { w.serv with pc := .ended "msgrcv error" } }
  | .open name => some { w with serv := w.serv.open prog name (fs name) }
  | .fstat stat chunks fails => some { w with serv := w.serv.fstat stat chunks fails }
  | .read chunks fails => some { w with serv := w.serv.read chunks fails }
  | .senddata .. | .senderr _ | .sendend =>
    w.serv.pc.sends.bind fun p =>
      let m : Msg Char := ⟨w.serv.mesg_type, p.1⟩
      (mesg_send w.queues prog.reply_id m).map fun queues =>
        { w with serv := { w.serv with pc := p.2 }, queues := queues, sent := w.sent ++ [m] }
  | .done | .ended _ | .overrun => none

def World.step (prog : Prog) (fs : List Char → File) (w : World) : Act → Option World
  | .cli => w.cliStep prog
  | .serv => w.servStep prog fs
  | .cliFails =>
    match w.cli.pc with
    | .write _ => some { w with cli := { w.cli with pc := .ended "data write error" } }
    | _ => none

/-- Both have their queues, which are empty and have room for `qbytes` bytes. -/
def start (stdin : List Char) (qbytes : QueueId → ℕ) : World where
  cli := ⟨stdin, [], 0, .fgets⟩
  serv := ⟨1, .recv⟩
  queues := fun id => ⟨[], qbytes id⟩
  served := []
  sent := []
  got := []

def machine (prog : Prog) (fs : List Char → File) (stdin : List Char) (qbytes : QueueId → ℕ) :
    Machine World Act where
  init := fun w => w = start stdin qbytes
  step := World.step prog fs

/-- No `write` of the client fails. -/
def writes (_ : World) (a : Act) : Prop := a ≠ .cliFails

instance (w : World) (a : Act) : Decidable (writes w a) := inferInstanceAs (Decidable (_ ≠ _))

/-! ## Waiting -/

/-- The client waits in `mesg_recv`. -/
def World.CliReceives (prog : Prog) (w : World) : Prop :=
  w.cli.pc = .recv ∧ w.cliStep prog = none

/-- The client waits in a call. -/
def World.CliWaits (prog : Prog) (w : World) : Prop :=
  (∃ name, w.cli.pc = .send name) ∧ w.cliStep prog = none ∨ w.CliReceives prog

/-- The server waits in a call. -/
def World.ServWaits (prog : Prog) (fs : List Char → File) (w : World) : Prop :=
  (w.serv.pc = .recv ∨ w.serv.pc.sends.isSome) ∧ w.servStep prog fs = none

end UnixNetProg.MessageQueue

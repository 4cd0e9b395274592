/-
`5_fifo`: a client asks for a file over one named pipe, and a server, which is its
child, sends it over another one.

The parent opens `FIFO1` for writing, then `FIFO2` for reading, and is the client;
the child opens them in the same order, each for the other end, and is the server.
The client reads until the server has closed its end, and then waits for it.

A C string is the list of its characters. `Env` is what a run depends on besides: the
byte in front of the client's buffer, which the client looks at for a line without a
character, what the file system answers, and how many bytes the pipes hold. The pipes
are there when the processes start, every call on them succeeds once it does not
wait, and what is printed besides is left out.
-/
import UnixNetProg.Exchange.Errmesg
import UnixNetProg.Lib.NamedPipe
import UnixNetProg.Lib.Runs

set_option autoImplicit false

namespace UnixNetProg.TwoFifos

open UnixNetProg.NamedPipe UnixNetProg.Runs UnixNetProg.Stdio

def MAXBUFF : ℕ := 1024

/-- The size of `errmesg`. -/
def ERRMESG : ℕ := 256

/-! ## Files -/

/-- What `sys_err_str` returns: a string in an array of 200. -/
abbrev ErrStr := Exchange.ErrStr Char

/-- What a `read` gets that is not the last. -/
abbrev Chunk := Exchange.Chunk Char MAXBUFF

/-- A string in the buffer, with its null byte. -/
abbrev Str := {s : List Char // s.length < MAXBUFF}

/-- What the file system has under a name: nothing that opens, or a file that is
read in these chunks, and then `read` returns 0, or -1 if it `fails`. -/
inductive File
  | cannot (err : ErrStr)
  | opens (chunks : List Chunk) (fails : Bool)

/-- What the two processes find. -/
structure Env where
  before : Char
  fs : List Char → File
  capacity1 : ℕ
  capacity2 : ℕ
  room1 : PIPE_BUF ≤ capacity1
  room2 : PIPE_BUF ≤ capacity2

/-- What `errmesg` begins with. -/
def cant_open : List Char := ": can't open, ".toList

/-- `errmesg`, for what `sys_err_str` returns. -/
def errmesg (err : List Char) : List Char := Exchange.errmesg cant_open err

/-! ## The client -/

/-- How many bytes of the line are written: not the newline at its end. -/
def count (before : Char) (buff : List Char) : ℤ :=
  let n := strlen buff
  if (if n = 0 then some before else buff[n - 1]?) = some '\n' then n - 1 else n

/-- What is written. With a count of -1 `write` fails, and returns what the client
compares it with. -/
def request (before : Char) (buff : List Char) : List Char := buff.take (count before buff).toNat

/-- Where the parent is. In `opening`, it waits until the other end has been opened
more often than that. -/
inductive CliAt
  | open1
  | opening1 (r_counter : ℕ)
  | open2
  | opening2 (w_counter : ℕ)
  | fgets
  | writename (name : List Char)
  | read
  | write (data : List Char)
  | wait
  | done
  | ended (msg : String)
  | killed
  deriving DecidableEq, Repr

structure Client where
  stdin : List Char
  stdout : List Char
  pc : CliAt

/-- The parent has ended. -/
def CliAt.gone : CliAt → Prop
  | .done | .ended _ | .killed => True
  | _ => False

/-! ## The server -/

/-- Where the child is. `overrun` is a write past the end of an array. -/
inductive ServAt
  | open1
  | opening1 (w_counter : ℕ)
  | open2
  | opening2 (r_counter : ℕ)
  | readname
  | openfile (name : List Char)
  | readfile (chunks : List Chunk) (fails : Bool)
  | writedata (data : Chunk) (chunks : List Chunk) (fails : Bool)
  | writeerr (data : Str)
  | closeread
  | closewrite
  | exit
  | done
  | ended (msg : String)
  | killed
  | overrun
  deriving DecidableEq, Repr

/-- The child has ended. -/
def ServAt.gone : ServAt → Prop
  | .done | .ended _ | .killed => True
  | _ => False

instance (pc : ServAt) : Decidable pc.gone := by
  cases pc <;> unfold ServAt.gone <;> infer_instance

/-- The name is ended with a null byte, and opened. -/
def ServAt.named (bs : List Char) : ServAt :=
  if bs.length < MAXBUFF then .openfile (cstr bs) else .overrun

/-- `open`: where it fails, the error message is put behind the name. -/
def ServAt.opened (name : List Char) : File → ServAt
  | .cannot err =>
    if h : (errmesg err).length < ERRMESG ∧ (name ++ errmesg err).length < MAXBUFF then
      .writeerr ⟨name ++ errmesg err, h.2⟩
    else .overrun
  | .opens chunks fails => .readfile chunks fails

/-- What the server writes, and where it is then. -/
def ServAt.writes : ServAt → Option (List Char × ServAt)
  | .writedata data chunks fails => some (data.1, .readfile chunks fails)
  | .writeerr data => some (data.1, .closeread)
  | _ => none

/-! ## Together -/

structure World where
  cli : Client
  serv : ServAt
  fifo1 : Fifo Char
  fifo2 : Fifo Char

/-- A step of the parent or of the child, or a failing `write` of the parent to its
standard output. -/
inductive Act
  | cli
  | serv
  | cliFails
  deriving DecidableEq, Repr

/-- The parent is at `pc`. -/
def World.cliAt (w : World) (pc : CliAt) : World := { w with cli := { w.cli with pc := pc } }

/-- The parent ends, and its descriptors are closed. -/
def World.cliExit (w : World) (pc : CliAt) : World :=
  { w.cliAt pc with fifo1 := w.fifo1.closeWrite, fifo2 := w.fifo2.closeRead }

/-- The child ends, and its descriptors are closed. -/
def World.servExit (w : World) (pc : ServAt) : World :=
  { w with serv := pc, fifo1 := w.fifo1.closeRead, fifo2 := w.fifo2.closeWrite }

/-- `client` (`5_fifo/fifo.c:9-49`). -/
def World.cliStep (e : Env) (w : World) : Option World :=
  match w.cli.pc with
  | .open1 =>
    let pc := if 0 < w.fifo1.readers then .open2 else .opening1 w.fifo1.r_counter
    some { w.cliAt pc with fifo1 := w.fifo1.openWrite }
  | .opening1 r_counter => if r_counter < w.fifo1.r_counter then some (w.cliAt .open2) else none
  | .open2 =>
    let pc := if 0 < w.fifo2.writers then .fgets else .opening2 w.fifo2.w_counter
    some { w.cliAt pc with fifo2 := w.fifo2.openRead }
  | .opening2 w_counter => if w_counter < w.fifo2.w_counter then some (w.cliAt .fgets) else none
  | .fgets =>
    match Stdio.fgets MAXBUFF w.cli.stdin with
    | some line =>
      some { w with cli :=
        { w.cli with
          stdin := w.cli.stdin.drop line.length, pc := .writename (request e.before line) } }
    | none => some (w.cliExit (.ended "client: filename read error"))
  | .writename name =>
    (w.fifo1.write e.capacity1 name).map fun
      | .all f => { w.cliAt .read with fifo1 := f }
      | .refused => w.cliExit .killed
  | .read =>
    (w.fifo2.read MAXBUFF).map fun p =>
      { w.cliAt (if p.1 = [] then .wait else .write p.1) with fifo2 := p.2 }
  | .write data => some { w with cli := { w.cli with stdout := w.cli.stdout ++ data, pc := .read } }
  | .wait => if w.serv.gone then some (w.cliExit .done) else none
  | .done | .ended _ | .killed => none

/-- `server` (`5_fifo/fifo.c:51-93`). -/
def World.servStep (e : Env) (w : World) : Option World :=
  match w.serv with
  | .open1 =>
    let pc := if 0 < w.fifo1.writers then .open2 else .opening1 w.fifo1.w_counter
    some { w with serv := pc, fifo1 := w.fifo1.openRead }
  | .opening1 w_counter =>
    if w_counter < w.fifo1.w_counter then some { w with serv := .open2 } else none
  | .open2 =>
    let pc := if 0 < w.fifo2.readers then .readname else .opening2 w.fifo2.r_counter
    some { w with serv := pc, fifo2 := w.fifo2.openWrite }
  | .opening2 r_counter =>
    if r_counter < w.fifo2.r_counter then some { w with serv := .readname } else none
  | .readname =>
    (w.fifo1.read MAXBUFF).map fun p =>
      if p.1 = [] then { w with fifo1 := p.2 }.servExit (.ended "server: filename read error")
      else { w with serv := .named p.1, fifo1 := p.2 }
  | .openfile name => some { w with serv := .opened name (e.fs name) }
  | .readfile (c :: cs) fails => some { w with serv := .writedata c cs fails }
  | .readfile [] fails =>
    some (if fails then w.servExit (.ended "server: read error") else { w with serv := .closeread })
  | .writedata .. | .writeerr _ =>
    w.serv.writes.bind fun p =>
      (w.fifo2.write e.capacity2 p.1).map fun
        | .all f => { w with serv := p.2, fifo2 := f }
        | .refused => w.servExit .killed
  | .closeread => some { w with serv := .closewrite, fifo1 := w.fifo1.closeRead }
  | .closewrite => some { w with serv := .exit, fifo2 := w.fifo2.closeWrite }
  | .exit => some { w with serv := .done }
  | .done | .ended _ | .killed | .overrun => none

/-- The two processes of `main` (`5_fifo/main.c:26-87`). -/
def World.step (e : Env) (w : World) : Act → Option World
  | .cli => w.cliStep e
  | .serv => w.servStep e
  | .cliFails =>
    match w.cli.pc with
    | .write _ => some (w.cliExit (.ended "client: data write error"))
    | _ => none

/-- The two processes after the `fork`. -/
def start (stdin : List Char) : World where
  cli := ⟨stdin, [], .open1⟩
  serv := .open1
  fifo1 := .empty
  fifo2 := .empty

def machine (e : Env) (stdin : List Char) : Machine World Act where
  init := fun w => w = start stdin
  step := World.step e

/-- No `write` of the client to its standard output fails. -/
def writes (_ : World) (a : Act) : Prop := a ≠ .cliFails

instance (w : World) (a : Act) : Decidable (writes w a) := inferInstanceAs (Decidable (_ ≠ _))

/-- The parent has not ended and cannot go on. -/
def World.CliWaits (e : Env) (w : World) : Prop := ¬ w.cli.pc.gone ∧ w.cliStep e = none

/-- The child has not ended and cannot go on; after an `overrun` nothing is known
of it. -/
def World.ServWaits (e : Env) (w : World) : Prop := ¬ w.serv.gone ∧ w.servStep e = none

end UnixNetProg.TwoFifos

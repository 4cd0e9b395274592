/-
`1.tcp`: `str_cli` and `str_echo`, over the two byte streams of a connection.

The client reads its input with `fgets`, writes what it has read, and reads a line
back before it reads on; the server reads a line and writes it back. `readline`
reads one byte at a time, `writen` writes until all has been written.

`readline` counts from 1. At a newline the count is that of the bytes read; at the
end of the file and when the buffer is full it is one more, which is that of the
bytes and the null byte behind them.

A call may fail, and then the process ends with its message; a process that ends
closes its side of the connection.
-/
import UnixNetProg.Lib.Channel
import UnixNetProg.Lib.Runs
import UnixNetProg.Lib.Stdio

set_option autoImplicit false

namespace UnixNetProg.TcpEcho

open UnixNetProg.Channel UnixNetProg.Runs UnixNetProg.Stdio

def MAXLINE : ℕ := 512

/-! ## `readline` -/

/-- Inside `readline`: the count, and the bytes stored so far. -/
structure Readline where
  n : ℕ
  stored : List Char
  deriving DecidableEq, Repr

def Readline.start : Readline := ⟨1, []⟩

/-- How `readline` goes on: it reads another byte, or returns `n`, with the bytes
it has stored and a null byte, or with nothing stored at the end of the file. -/
inductive Next
  | more (r : Readline)
  | ret (n : ℕ) (stored : List Char)
  | eof
  deriving DecidableEq, Repr

/-- A byte was read (`1.tcp/readline.c:3-26`). -/
def Readline.got (maxlen : ℕ) (r : Readline) (c : Char) : Next :=
  let stored := r.stored ++ [c]
  if c = '\n' then .ret r.n stored
  else if r.n + 1 < maxlen then .more ⟨r.n + 1, stored⟩
  else .ret (r.n + 1) stored

/-- The end of the file. -/
def Readline.atEof (r : Readline) : Next := if r.n = 1 then .eof else .ret r.n r.stored

/-- After a `read` of one byte. -/
def Readline.next (maxlen : ℕ) (r : Readline) (bs : List Char) : Next :=
  match bs with
  | [] => r.atEof
  | c :: _ => r.got maxlen c

/-- The buffer after `readline` has stored a string in it. -/
def store (buffer stored : List Char) : List Char :=
  stored ++ '\x00' :: buffer.drop (stored.length + 1)

/-! ## `str_cli` -/

/-- Where the client is; in `writen`, with what is left to write. -/
inductive CliAt
  | fgets
  | writen (left : List Char)
  | readline (r : Readline)
  | fputs (n : ℕ)
  | done
  | ended (msg : String)
  deriving DecidableEq, Repr

/-- The client: what is left of its input, its output, its buffers, and where it is. -/
structure Client where
  stdin : List Char
  stdout : List Char
  sendline : List Char
  recvline : List Char
  pc : CliAt

/-- `writen` with `left` to write. -/
def Client.writen (c : Client) (left : List Char) : Client :=
  { c with pc := if left = [] then .readline .start else .writen left }

def Client.fgets (c : Client) : Client :=
  match Stdio.fgets MAXLINE c.stdin with
  | some chunk =>
    { c with stdin := c.stdin.drop chunk.length, sendline := chunk }.writen
      (chunk.take (strlen chunk))
  | none => { c with pc := .done }

/-- A byte, or the end of the file, was read. -/
def Client.read (c : Client) (r : Readline) (bs : List Char) : Client :=
  match r.next MAXLINE bs with
  | .more r => { c with pc := .readline r }
  | .ret n stored => { c with recvline := store c.recvline stored, pc := .fputs n }
  | .eof => { c with pc := .fputs 0 }

/-- The line is ended behind `n` bytes, and put out. -/
def Client.fputs (c : Client) (n : ℕ) : Client :=
  let recvline := c.recvline.set n '\x00'
  { c with recvline := recvline, stdout := c.stdout ++ cstr recvline, pc := .fgets }

/-- The message the client ends with when the call it makes fails. -/
def CliAt.error : CliAt → Option String
  | .fgets => some "str_cli: error reading file."
  | .writen _ => some "str_cli: writen error on socket."
  | .readline _ => some "str_cli: readline error"
  | .fputs _ | .done | .ended _ => none

/-! ## `str_echo` -/

/-- Where the server is. -/
inductive ServAt
  | readline (r : Readline)
  | writen (left : List Char)
  | done
  | ended (msg : String)
  deriving DecidableEq, Repr

structure Server where
  line : List Char
  pc : ServAt

/-- `writen` with `left` to write. -/
def Server.writen (s : Server) (left : List Char) : Server :=
  { s with pc := if left = [] then .readline .start else .writen left }

/-- A byte, or the end of the file, was read. -/
def Server.read (s : Server) (r : Readline) (bs : List Char) : Server :=
  match r.next MAXLINE bs with
  | .more r => { s with pc := .readline r }
  | .ret n stored =>
    let line := store s.line stored
    { s with line := line }.writen (line.take n)
  | .eof => { s with pc := .done }

/-- The message the server ends with when the call it makes fails. -/
def ServAt.error : ServAt → Option String
  | .readline _ => some "str_echo: readline error."
  | .writen _ => some "str_echo: writen error."
  | .done | .ended _ => none

/-! ## Together -/

/-- Client and server, with the streams from the one to the other. -/
structure World where
  cli : Client
  serv : Server
  toServ : Chan Char
  toCli : Chan Char

/-- A step of one side, or a failing call of it; a `write` takes `k` bytes. -/
inductive Act
  | cli (k : ℕ)
  | serv (k : ℕ)
  | cliFails
  | servFails

/-- `str_cli` (`1.tcp/str_cli.c:8-35`). -/
def World.cliStep (w : World) (k : ℕ) : Option World :=
  match w.cli.pc with
  | .fgets =>
    let cli := w.cli.fgets
    -- at the end of its input the client returns, and closes the connection
    some { w with cli := cli, toServ := if cli.pc = .done then w.toServ.close else w.toServ }
  | .writen left =>
    if 0 < k ∧ k ≤ left.length then
      some { w with cli := w.cli.writen (left.drop k), toServ := w.toServ.write (left.take k) }
    else none
  | .readline r => (w.toCli.read 1 1).map fun q => { w with cli := w.cli.read r q.1, toCli := q.2 }
  | .fputs n => some { w with cli := w.cli.fputs n }
  | .done | .ended _ => none

/-- `str_echo` (`1.tcp/str_echo.c:6-25`). -/
def World.servStep (w : World) (k : ℕ) : Option World :=
  match w.serv.pc with
  | .readline r => (w.toServ.read 1 1).map fun q =>
    let serv := w.serv.read r q.1
    { w with
      serv := serv, toServ := q.2,
      toCli := if serv.pc = .done then w.toCli.close else w.toCli }
  | .writen left =>
    if 0 < k ∧ k ≤ left.length then
      some { w with serv := w.serv.writen (left.drop k), toCli := w.toCli.write (left.take k) }
    else none
  | .done | .ended _ => none

def World.step (w : World) : Act → Option World
  | .cli k => w.cliStep k
  | .serv k => w.servStep k
  | .cliFails => w.cli.pc.error.map fun msg =>
    { w with cli := { w.cli with pc := .ended msg }, toServ := w.toServ.close }
  | .servFails => w.serv.pc.error.map fun msg =>
    { w with serv := { w.serv with pc := .ended msg }, toCli := w.toCli.close }

/-- A session on `text`, whatever the buffers hold. -/
def start (text sendline recvline line : List Char) : World where
  cli := ⟨text, [], sendline, recvline, .fgets⟩
  serv := ⟨line, .readline .start⟩
  toServ := .empty
  toCli := .empty

def machine (text : List Char) : Machine World Act where
  init := fun w => ∃ sendline recvline line, w = start text sendline recvline line
  step := World.step

/-- The streams are reliable: no call fails, but for one of the server when the
client has returned. -/
def reliable (w : World) (a : Act) : Prop :=
  match a with
  | .cliFails => False
  | .servFails => w.cli.pc = .done
  | _ => True

instance (w : World) (a : Act) : Decidable (reliable w a) := by
  unfold reliable
  split <;> infer_instance

/-- Both sides wait for the other one. -/
def World.Stuck (w : World) : Prop :=
  (∃ r, w.cli.pc = .readline r) ∧ w.toCli.read 1 1 = none ∧
    (∃ r, w.serv.pc = .readline r) ∧ w.toServ.read 1 1 = none

/-! ## What a step can do -/

/-- One constructor for each call that is made, and for each that fails. -/
inductive World.Moves (w : World) : Act → World → Prop
  | fgets (k : ℕ) (pc : w.cli.pc = .fgets) :
    w.Moves (.cli k) { w with
      cli := w.cli.fgets, toServ := if w.cli.fgets.pc = .done then w.toServ.close else w.toServ }
  | sends (k : ℕ) (left : List Char) (pc : w.cli.pc = .writen left)
      (part : 0 < k ∧ k ≤ left.length) :
    w.Moves (.cli k)
      { w with cli := w.cli.writen (left.drop k), toServ := w.toServ.write (left.take k) }
  | cliReads (k : ℕ) (r : Readline) (bs : List Char) (c : Chan Char) (pc : w.cli.pc = .readline r)
      (read : w.toCli.read 1 1 = some (bs, c)) :
    w.Moves (.cli k) { w with cli := w.cli.read r bs, toCli := c }
  | fputs (k n : ℕ) (pc : w.cli.pc = .fputs n) : w.Moves (.cli k) { w with cli := w.cli.fputs n }
  | servReads (k : ℕ) (r : Readline) (bs : List Char) (c : Chan Char)
      (pc : w.serv.pc = .readline r) (read : w.toServ.read 1 1 = some (bs, c)) :
    w.Moves (.serv k) { w with
      serv := w.serv.read r bs, toServ := c,
      toCli := if (w.serv.read r bs).pc = .done then w.toCli.close else w.toCli }
  | replies (k : ℕ) (left : List Char) (pc : w.serv.pc = .writen left)
      (part : 0 < k ∧ k ≤ left.length) :
    w.Moves (.serv k)
      { w with serv := w.serv.writen (left.drop k), toCli := w.toCli.write (left.take k) }
  | cliFails (msg : String) (error : w.cli.pc.error = some msg) :
    w.Moves .cliFails { w with cli := { w.cli with pc := .ended msg }, toServ := w.toServ.close }
  | servFails (msg : String) (error : w.serv.pc.error = some msg) :
    w.Moves .servFails { w with serv := { w.serv with pc := .ended msg }, toCli := w.toCli.close }

theorem World.moves_of_step {w w' : World} {a : Act} (hs : w.step a = some w') : w.Moves a w' := by
  cases a with
  | cli k =>
    simp only [World.step, World.cliStep] at hs
    split at hs
    · rename_i hpc
      cases hs
      exact .fgets k hpc
    · rename_i left hpc
      split_ifs at hs with hk
      cases hs
      exact .sends k left hpc hk
    · rename_i r hpc
      obtain ⟨⟨bs, c⟩, hread, rfl⟩ := Option.map_eq_some_iff.1 hs
      exact .cliReads k r bs c hpc hread
    · rename_i n hpc
      cases hs
      exact .fputs k n hpc
    · cases hs
    · cases hs
  | serv k =>
    simp only [World.step, World.servStep] at hs
    split at hs
    · rename_i r hpc
      obtain ⟨⟨bs, c⟩, hread, rfl⟩ := Option.map_eq_some_iff.1 hs
      exact .servReads k r bs c hpc hread
    · rename_i left hpc
      split_ifs at hs with hk
      cases hs
      exact .replies k left hpc hk
    · cases hs
    · cases hs
  | cliFails =>
    obtain ⟨msg, hmsg, rfl⟩ := Option.map_eq_some_iff.1 hs
    exact .cliFails msg hmsg
  | servFails =>
    obtain ⟨msg, hmsg, rfl⟩ := Option.map_eq_some_iff.1 hs
    exact .servFails msg hmsg

end UnixNetProg.TcpEcho

/-
`10_shared_memory` and `11_multi_buffer`: a client and a server that pass a file
through shared memory, one buffer or several, with two semaphores.

The client writes the name of a file into buffer 0, the server opens it and
fills the buffers with what `read` returns, the client writes them out; a length
of 0 says that this was all. `clisem` counts the buffers filled, `servsem` those
that are free; before the file is open the two pass buffer 0 to and fro.

Each program is given statement by statement, as the semaphore programs are,
with a `Version` for what differs: `server` is written out for both, the rest of
the two `main`s and the whole client are the same but for the number of buffers
(the `while` of the one is the two `for` loops of the other for one buffer), and
only the second server waits, before it closes the semaphores, for `clisem` to
become 0. A statement that calls a routine is one stage: the process is at that
stage until the routine has returned.
-/
import UnixNetProg.Lib.Files
import UnixNetProg.Lib.Stdio
import UnixNetProg.Semaphore.World

set_option autoImplicit false

namespace UnixNetProg.SharedMemory

open UnixNetProg.SysV UnixNetProg.Semaphore UnixNetProg.Stdio
open UnixNetProg.Files (fwrite)

/-! ## Shared memory -/

def MAXMESGDATA : ℕ := 4096 - 16

/-- `NBUFF` of `shm.h`. -/
def NBUFF : ℕ := 4

def SEMKEY1 : ℤ := 7891

def SEMKEY2 : ℤ := 7892

/-- A message (`10_shared_memory/mesg.h:8-12`). Of the `MAXMESGDATA` bytes of `mesg_data` the
list has those up to the last one written so far; the rest are null, as the kernel hands a
segment out. `mesg_type` is never used. -/
structure Mesg where
  mesg_len : ℤ
  mesg_data : List Char
  deriving DecidableEq, Repr

/-- The first `n` bytes of the data. -/
def Mesg.bytes (m : Mesg) (n : ℕ) : List Char :=
  m.mesg_data.take n ++ List.replicate (n - m.mesg_data.length) '\x00'

/-- What the two processes share besides the semaphores: which of the keys from
`SHMKEY` on name a segment, the segments, and what the client has written to its
standard output, one entry for each `write`. -/
structure Shared where
  named : ℕ → Bool
  mesg : ℕ → Mesg
  out : List (List Char)

/-- Before the programs run there are no segments. -/
def Shared.start : Shared := ⟨fun _ => false, fun _ => ⟨0, []⟩, []⟩

/-- Buffer `i` becomes `m`. -/
def Shared.put (s : Shared) (i : ℕ) (m : Mesg) : Shared :=
  { s with mesg := Function.update s.mesg i m }

/-- What is outside the programs: the client's standard input, the files that
can be opened, and the text `sys_err_str` gives for one that cannot. -/
structure Env where
  stdin : List Char
  files : List Char → Option (List Char)
  sys_err_str : List Char

/-- The two directories; `nbuff` stands for `NBUFF`. -/
inductive Version
  | single
  | multi (nbuff : ℕ)
  deriving DecidableEq, Repr

/-- The number of buffers. -/
def Version.nbuff : Version → ℕ
  | .single => 1
  | .multi nbuff => nbuff

/-- `semctl (id, 0, GETVAL)`. -/
def semctl_getval (sl : Slot 3) (id : ℤ) : ℤ :=
  match sl.find id.toNat with
  | some s => s.val 0
  | none => -1

/-! ## The server -/

/-- Where the server is: before the statement named. `start` is the first
`sem_wait` of `server`, `err…` its error branch, `last` and `lastsend` the final
message of length 0, `send` the `sem_signal` for a buffer just filled. -/
inductive ServerStage
  | shmget
  | create1
  | check1
  | create2
  | check2
  | start
  | null
  | open
  | errmesg
  | errlen
  | errsend
  | errwait
  | last
  | lastsend
  | post
  | wait
  | read
  | len
  | send
  | next
  | detach
  | poll
  | close1
  | close2
  | exit
  deriving DecidableEq, Repr

/-- The variables of the server; `file` and `off` are its descriptor `filefd`. -/
structure Server where
  stage : ServerStage
  i : ℕ
  n : ℕ
  file : Option (List Char)
  off : ℕ
  clisem : ℤ
  servsem : ℤ
  deriving DecidableEq, Repr

/-- What `read` may return at an offset: at the end of the file 0, elsewhere a
number of bytes that are there. -/
def canRead (data : List Char) (off n : ℕ) : Prop :=
  n ≤ MAXMESGDATA - 1 ∧ off + n ≤ data.length ∧ (n = 0 ↔ off = data.length)

instance (data : List Char) (off n : ℕ) : Decidable (canRead data off n) :=
  inferInstanceAs (Decidable (_ ∧ _))

/-- The message of buffer `i` with the bytes `read` returned. -/
def Shared.fill (s : Shared) (i : ℕ) (bytes : List Char) : Shared :=
  s.put i { s.mesg i with mesg_data := fwrite (s.mesg i).mesg_data 0 bytes }

/-- The message of buffer `i` with its length set. -/
def Shared.setLen (s : Shared) (i : ℕ) (n : ℤ) : Shared :=
  s.put i { s.mesg i with mesg_len := n }

/-- `mesg_data[mesg_len] = '\0'`. -/
def Shared.terminate (s : Shared) : Shared :=
  s.put 0 { s.mesg 0 with
    mesg_data := fwrite (s.mesg 0).mesg_data (s.mesg 0).mesg_len.toNat ['\x00'] }

/-- `strcat` of the error message. -/
def Shared.complain (s : Shared) (e : Env) : Shared :=
  s.put 0 { s.mesg 0 with
    mesg_data := fwrite (s.mesg 0).mesg_data (strlen (s.mesg 0).mesg_data)
      (": can't open, ".toList ++ e.sys_err_str ++ ['\x00']) }

/-- `server` (`10_shared_memory/server.c:76-120`). -/
def single_server (e : Env) (s : Shared) (u : Server) (c : Option ℕ) :
    Option (Shared × Does Server) :=
  match u.stage with
  | .start => some (s, .call (.sem_wait SEMKEY2 u.servsem.toNat) u)
  | .null => some (s.terminate, .go { u with stage := .open })
  | .open =>
    match e.files (cstr (s.mesg 0).mesg_data) with
    | none => some (s, .go { u with stage := .errmesg })
    | some data => some (s, .go { u with stage := .read, file := some data, off := 0 })
  | .errmesg => some (s.complain e, .go { u with stage := .errlen })
  | .errlen => some (s.setLen 0 (strlen (s.mesg 0).mesg_data), .go { u with stage := .errsend })
  | .errsend => some (s, .call (.sem_signal SEMKEY1 u.clisem.toNat) u)
  | .errwait => some (s, .call (.sem_wait SEMKEY2 u.servsem.toNat) u)
  | .read =>
    match u.file, c with
    | some data, some n =>
      if canRead data u.off n then
        some (s.fill 0 ((data.drop u.off).take n),
          .go { u with stage := if 0 < n then .len else .last, n := n, off := u.off + n })
      else none
    | some _, none => some (s, .err_sys "server: read error")
    | none, _ => none
  | .len => some (s.setLen 0 u.n, .go { u with stage := .send })
  | .send => some (s, .call (.sem_signal SEMKEY1 u.clisem.toNat) u)
  | .wait => some (s, .call (.sem_wait SEMKEY2 u.servsem.toNat) u)
  | .last => some (s.setLen 0 0, .go { u with stage := .lastsend })
  | .lastsend => some (s, .call (.sem_signal SEMKEY1 u.clisem.toNat) u)
  | _ => none

/-- Where `server` of `10_shared_memory` goes on when a routine returns. -/
def single_return (u : Server) : Server :=
  match u.stage with
  | .start => { u with stage := .null }
  | .errsend => { u with stage := .errwait }
  | .errwait => { u with stage := .last }
  | .send => { u with stage := .wait }
  | .wait => { u with stage := .read }
  | .lastsend => { u with stage := .detach }
  | _ => u

/-- `server` (`11_multi_buffer/server.c:106-173`). -/
def multi_server (nbuff : ℕ) (e : Env) (s : Shared) (u : Server) (c : Option ℕ) :
    Option (Shared × Does Server) :=
  match u.stage with
  | .start => some (s, .call (.sem_wait SEMKEY2 u.servsem.toNat) u)
  | .null => some (s.terminate, .go { u with stage := .open })
  | .open =>
    match e.files (cstr (s.mesg 0).mesg_data) with
    | none => some (s, .go { u with stage := .errmesg })
    | some data => some (s, .go { u with stage := .post, file := some data, off := 0, i := 0 })
  | .errmesg => some (s.complain e, .go { u with stage := .errlen })
  | .errlen => some (s.setLen 0 (strlen (s.mesg 0).mesg_data), .go { u with stage := .errsend })
  | .errsend => some (s, .call (.sem_signal SEMKEY1 u.clisem.toNat) u)
  | .errwait => some (s, .call (.sem_wait SEMKEY2 u.servsem.toNat) u)
  | .last => some (s.setLen 1 0, .go { u with stage := .lastsend })
  | .lastsend => some (s, .call (.sem_signal SEMKEY1 u.clisem.toNat) u)
  | .post =>
    if u.i < nbuff then some (s, .call (.sem_signal SEMKEY2 u.servsem.toNat) u)
    else some (s, .go { u with stage := .wait, i := 0 })
  | .wait => some (s, .call (.sem_wait SEMKEY2 u.servsem.toNat) u)
  | .read =>
    match u.file, c with
    | some data, some n =>
      if canRead data u.off n then
        some (s.fill u.i ((data.drop u.off).take n),
          .go { u with stage := .len, n := n, off := u.off + n })
      else none
    | some _, none => some (s, .err_sys "server: read error")
    | none, _ => none
  | .len => some (s.setLen u.i u.n, .go { u with stage := .send })
  | .send => some (s, .call (.sem_signal SEMKEY1 u.clisem.toNat) u)
  | .next =>
    if u.n = 0 then some (s, .go { u with stage := .detach, i := 0 })   -- `goto alldone`
    else some (s, .go { u with stage := .wait, i := if u.i + 1 < nbuff then u.i + 1 else 0 })
  | _ => none

/-- Where `server` of `11_multi_buffer` goes on when a routine returns. -/
def multi_return (u : Server) : Server :=
  match u.stage with
  | .start => { u with stage := .null }
  | .errsend => { u with stage := .errwait }
  | .errwait => { u with stage := .last }
  | .lastsend => { u with stage := .detach }
  | .post => { u with i := u.i + 1 }
  | .wait => { u with stage := .read }
  | .send => { u with stage := .next }
  | _ => u

def server (v : Version) (e : Env) : Shared → Server → Option ℕ → Option (Shared × Does Server) :=
  match v with
  | .single => single_server e
  | .multi nbuff => multi_server nbuff e

/-- `main` of the server (`10_shared_memory/server.c:18-74`, `11_multi_buffer/server.c:32-85`);
`getval` is what `semctl (clisem, 0, GETVAL)` returns. -/
def server_main (v : Version) (e : Env) (getval : ℤ) (s : Shared) (u : Server) (c : Option ℕ) :
    Option (Shared × Does Server) :=
  match u.stage with
  | .shmget =>
    if u.i < v.nbuff then
      -- with `IPC_CREAT`: the segment is there, or is made
      let m := if s.named u.i then s.mesg u.i else ⟨0, []⟩
      some ({ s.put u.i m with named := Function.update s.named u.i true },
        .go { u with i := u.i + 1 })
    else some (s, .go { u with stage := .create1, i := 0 })
  | .create1 => some (s, .call (.sem_create SEMKEY1 1) u)
  | .check1 =>
    if u.clisem < 0 then some (s, .err_sys "server: can't create client semaphore")
    else some (s, .go { u with stage := .create2 })
  | .create2 => some (s, .call (.sem_create SEMKEY2 0) u)
  | .check2 =>
    if u.servsem < 0 then some (s, .err_sys "server: can't create server semaphore")
    else some (s, .go { u with stage := .start })
  | .detach =>
    match v with
    | .single => some (s, .go { u with stage := .close1 })
    | .multi _ => some (s, .go { u with stage := .poll })
  | .poll => if getval ≠ 0 then some (s, .go u) else some (s, .go { u with stage := .close1 })
  | .close1 => some (s, .call (.sem_close SEMKEY1 u.clisem.toNat) u)
  | .close2 => some (s, .call (.sem_close SEMKEY2 u.servsem.toNat) u)
  | .exit => some (s, .exit)
  | _ => server v e s u c

/-- Where the server goes on when a routine returns `x`. -/
def server_return (v : Version) (u : Server) (x : ℤ) : Server :=
  match u.stage with
  | .create1 => { u with stage := .check1, clisem := x }
  | .create2 => { u with stage := .check2, servsem := x }
  | .close1 => { u with stage := .close2 }
  | .close2 => { u with stage := .exit }
  | _ =>
    match v with
    | .single => single_return u
    | .multi _ => multi_return u

/-! ## The client -/

/-- Where the client is: before the statement named. `start` is the first
`sem_wait` of `client`, `send` the `sem_signal` for the name of the file. -/
inductive ClientStage
  | shmget
  | open1
  | check1
  | open2
  | check2
  | start
  | fgets
  | strlen
  | setlen
  | send
  | wait
  | len
  | write
  | signal
  | next
  | alldone
  | detach
  | close1
  | close2
  | exit
  deriving DecidableEq, Repr

/-- The variables of the client. -/
structure Client where
  stage : ClientStage
  i : ℕ
  n : ℤ
  clisem : ℤ
  servsem : ℤ
  deriving DecidableEq, Repr

/-- The message of buffer 0 with the line `fgets` read. -/
def Shared.type (s : Shared) (line : List Char) : Shared := s.fill 0 (line ++ ['\x00'])

/-- `strlen`, less one for a newline at the end. The byte in front of an empty
string is the last one of `mesg_type`, which is null. -/
def namelen (buff : List Char) : ℕ :=
  let n := Stdio.strlen buff
  if 0 < n ∧ buff[n - 1]? = some '\n' then n - 1 else n

/-- The message for a segment that cannot be removed. -/
def Version.rm_error (v : Version) (i : ℕ) : String :=
  match v with
  | .single => "client: can't remove shared memory"
  | .multi _ => "client: can't remove shared memory " ++ toString i

/-- `main` of the client, with `client` (`10_shared_memory/client.c:17-100`,
`11_multi_buffer/client.c:50-168`). -/
def client_main (v : Version) (e : Env) (s : Shared) (u : Client) (c : Option ℕ) :
    Option (Shared × Does Client) :=
  match u.stage with
  | .shmget =>
    if u.i < v.nbuff then
      if s.named u.i then some (s, .go { u with i := u.i + 1 })
      else some (s, .err_sys "client: can't get shared memory segment")
    else some (s, .go { u with stage := .open1, i := 0 })
  | .open1 => some (s, .call (.sem_open SEMKEY1) u)
  | .check1 =>
    if u.clisem < 0 then some (s, .err_sys "client: can't open client semaphore")
    else some (s, .go { u with stage := .open2 })
  | .open2 => some (s, .call (.sem_open SEMKEY2) u)
  | .check2 =>
    if u.servsem < 0 then some (s, .err_sys "client: can't open server semaphore")
    else some (s, .go { u with stage := .start })
  | .start => some (s, .call (.sem_wait SEMKEY1 u.clisem.toNat) u)
  | .fgets =>
    match Stdio.fgets MAXMESGDATA e.stdin with
    | none => some (s, .err_sys "filename read error")
    | some line => some (s.type line, .go { u with stage := .strlen })
  | .strlen => some (s, .go { u with stage := .setlen, n := namelen (s.mesg 0).mesg_data })
  | .setlen => some (s.setLen 0 u.n, .go { u with stage := .send })
  | .send => some (s, .call (.sem_signal SEMKEY2 u.servsem.toNat) u)
  | .wait => some (s, .call (.sem_wait SEMKEY1 u.clisem.toNat) u)
  | .len =>
    let n := (s.mesg u.i).mesg_len
    some (s, .go { u with stage := if n ≤ 0 then .alldone else .write, n := n })
  | .write =>
    match c with
    | none => some (s, .err_sys "data write error")
    | some _ => some ({ s with out := s.out ++ [(s.mesg u.i).bytes u.n.toNat] },
        .go { u with stage := .signal })
  | .signal => some (s, .call (.sem_signal SEMKEY2 u.servsem.toNat) u)
  | .next =>
    some (s, .go { u with stage := .wait, i := if u.i + 1 < v.nbuff then u.i + 1 else 0 })
  | .alldone =>
    if u.n < 0 then some (s, .err_sys "data read error")
    else some (s, .go { u with stage := .detach, i := 0 })
  | .detach =>
    if u.i < v.nbuff then
      if s.named u.i then
        some ({ s with named := Function.update s.named u.i false }, .go { u with i := u.i + 1 })
      else some (s, .err_sys (v.rm_error u.i))
    else some (s, .go { u with stage := .close1 })
  | .close1 => some (s, .call (.sem_close SEMKEY1 u.clisem.toNat) u)
  | .close2 => some (s, .call (.sem_close SEMKEY2 u.servsem.toNat) u)
  | .exit => some (s, .exit)

/-- Where the client goes on when a routine returns `x`. -/
def client_return (u : Client) (x : ℤ) : Client :=
  match u.stage with
  | .open1 => { u with stage := .check1, clisem := x }
  | .open2 => { u with stage := .check2, servsem := x }
  | .start => { u with stage := .fgets }
  | .send => { u with stage := .wait, i := 0 }
  | .wait => { u with stage := .len }
  | .signal => { u with stage := .next }
  | .close1 => { u with stage := .close2 }
  | .close2 => { u with stage := .exit }
  | _ => u

/-! ## Both -/

/-- One of the two processes. -/
inductive User
  | server (u : Server)
  | client (u : Client)
  deriving DecidableEq, Repr

/-- The two programs. No further process starts. The choice is what `read`
returns; `none` says that a `read` or `write` fails. -/
def program (v : Version) (e : Env) : Program Shared User (Option ℕ) where
  entry := fun _ => false
  step := fun sem s u c =>
    match u with
    | .server u =>
      (server_main v e (semctl_getval (sem SEMKEY1) u.clisem) s u c).map
        fun r => (r.1, r.2.map .server)
    | .client u => (client_main v e s u c).map fun r => (r.1, r.2.map .client)
  ret := fun u x =>
    match u with
    | .server u => .server (server_return v u x)
    | .client u => .client (client_return u x)

/-- The server, about to start. -/
def Server.start : Server := ⟨.shmget, 0, 0, none, 0, 0, 0⟩

/-- The client, about to start. -/
def Client.start : Client := ⟨.shmget, 0, 0, 0, 0⟩

/-- One server and one client; process 0 is the server. -/
def both (v : Version) (e : Env) : Runs.Machine (World Shared User) (Act User (Option ℕ)) :=
  machine (program v e) Shared.start [.server .start, .client .start]

end UnixNetProg.SharedMemory

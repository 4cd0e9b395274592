/-
`7.passing_file_descriptor`: `mycat`, which has every file opened by another program and
gets the descriptor passed over a socket pair.

The descriptor tables of the parent and of the child are modelled, with the limit that
both have. `openfile` inherits the table as it is when `my_open` forks; a descriptor that
is passed takes the lowest free number of the process that receives it. `socketpair`,
`open` and `recvmsg` fail when there is no number left. `fork`, `execl` and `wait`
succeed, and the child is not killed.

A file is what `read` gets of it, one piece after the other.
-/
import Mathlib.Data.Int.Notation
import UnixNetProg.Lib.FdTable

set_option autoImplicit false

namespace UnixNetProg.MyCat

open UnixNetProg.FdTable

def BUFFSIZE : ℕ := 4096

/-! ## Files -/

/-- What a `read` gets that is not the last. -/
abbrev Chunk := {bs : List UInt8 // 0 < bs.length ∧ bs.length ≤ BUFFSIZE}

/-- An error number: it fits in an exit status. -/
abbrev Errno := {e : ℕ // 0 < e ∧ e < 256}

def EMFILE : Errno := ⟨24, by decide⟩

/-- What the file system has under a name: nothing that opens, or a file that is read in
these chunks, and then `read` returns 0, or -1 if it `fails`. -/
inductive File
  | cannot (errno : Errno)
  | opens (chunks : List Chunk) (fails : Bool)

/-- What a descriptor stands for; of a file, what has not been read. -/
inductive Desc
  | other
  | socket
  | file (chunks : List Chunk) (fails : Bool)

/-- What `mycat` finds: the files, the limit, its descriptors but for standard input, what
standard input is, and how much standard output takes, if that is bounded. -/
structure Env where
  fs : String → File
  limit : ℕ
  inherited : Table Desc
  stdin : List Chunk
  stdinFails : Bool
  capacity : Option ℕ

/-- The descriptors at first. -/
def Env.table (env : Env) : Table Desc :=
  Function.update env.inherited 0 (some (.file env.stdin env.stdinFails))

/-! ## `my_open` -/

/-- `s_pipe` (`7.passing_file_descriptor/s_pipe.c:3-5`): two descriptors, or none. -/
def s_pipe (limit : ℕ) (t : Table Desc) : Option (ℕ × ℕ × Table Desc) :=
  (t.alloc limit .socket).bind fun q => (q.2.alloc limit .socket).map fun r => (q.1, r.1, r.2)

/-- How `openfile` ends: it has passed a descriptor and exits with 0, or it exits with an
error number. -/
inductive Child
  | sent (d : Desc)
  | exits (code : ℕ)

/-- `openfile` (`7.passing_file_descriptor/openfile.c:12-34`), run with the descriptors `t`. -/
def openfile (limit : ℕ) (t : Table Desc) : File → Child
  | .cannot errno => .exits errno
  | .opens chunks fails =>
    match t.alloc limit (.file chunks fails) with
    | some _ => .sent (.file chunks fails)
    | none => .exits EMFILE

/-- What `wait` stores for a child that has exited. -/
def Child.status : Child → ℕ
  | .sent _ => 0
  | .exits code => code % 256 * 256

/-- `my_recvfile` (`send_recv_file.c:267-299`): the descriptor, or, where it cannot be received,
the error number. -/
def my_recvfile (limit : ℕ) (t : Table Desc) : Child → Except String (Table Desc × ℤ)
  | .sent d =>
    match t.alloc limit d with
    | some q => .ok (q.2, q.1)
    | none => .ok (t, EMFILE.val)
  | .exits _ => .error "Invalid control messsage"

/-- `my_open` (`my_open.c:6-138`), with the descriptors after it, or the message with which it
ends the process. -/
def my_open (env : Env) (t : Table Desc) (filename : String) : Except String (Table Desc × ℤ) :=
  match s_pipe env.limit t with
  | none => .ok (t, -1)
  | some (sfd0, sfd1, t) =>
    let child := openfile env.limit (t.close sfd0) (env.fs filename)
    let t := t.close sfd1
    let status := child.status
    if status % 256 ≠ 0 then .error "child did not exist"
    else
      let status := status / 256 % 256
      if status = 0 then (my_recvfile env.limit t child).map fun q => (q.1.close sfd0, q.2)
      else .ok (t.close sfd0, -1)

/-! ## `main` -/

/-- The descriptors, and what has been written. -/
structure World where
  table : Table Desc
  stdout : List UInt8

/-- A `write` is not cut short. -/
def Env.takes (env : Env) (stdout : List UInt8) (n : ℕ) : Bool :=
  match env.capacity with
  | none => true
  | some room => stdout.length + n ≤ room

/-- What a `write` of `bs` puts out. -/
def Env.put (env : Env) (stdout bs : List UInt8) : List UInt8 :=
  match env.capacity with
  | none => stdout ++ bs
  | some room => stdout ++ bs.take (room - stdout.length)

/-- The inner loop: what is written, and the message if it ends the program. -/
def copy (env : Env) (fails : Bool) : List Chunk → List UInt8 → List UInt8 × Option String
  | [], stdout => (stdout, if fails then some "read error\n" else none)
  | c :: chunks, stdout =>
    if env.takes stdout c.val.length then copy env fails chunks (env.put stdout c)
    else (env.put stdout c, some "write error\n")

/-- The inner loop on a descriptor: the file is read to its end. -/
def World.copy (env : Env) (w : World) (fd : ℕ) : World × Option String :=
  match w.table fd with
  | some (.file chunks fails) =>
    let r := MyCat.copy env fails chunks w.stdout
    (⟨Function.update w.table fd (some (.file [] fails)), r.1⟩, r.2)
  | _ => (w, some "read error\n")

/-- The loop over the arguments. -/
def World.files (env : Env) : List String → World → World × Option String
  | [], w => (w, none)
  | name :: names, w =>
    match my_open env w.table name with
    | .error msg => (w, some msg)
    | .ok (t, fd) =>
      -- `continue` goes on to the next argument
      if fd < 0 then World.files env names { w with table := t }
      else
        match World.copy env { w with table := t } fd.toNat with
        | (w, none) => World.files env names w
        | (w, some msg) => (w, some msg)

/-- `main` (`mycat.c:11-44`): without arguments, standard input. -/
def mycat (env : Env) (names : List String) : World × Option String :=
  let w : World := ⟨env.table, []⟩
  if names = [] then w.copy env 0 else w.files env names

end UnixNetProg.MyCat

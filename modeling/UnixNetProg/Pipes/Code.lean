/-
`3_pipes_client_server`: the client and the server of `5_fifo`, over two pipes.

`pipe` opens a pipe at both ends, and after the `fork` each process has all four
descriptors. The parent closes the end of `pipe1` that is read and the end of `pipe2` that
is written, and is the client; the child closes the other two, and is the server. Their
functions are the ones of `5_fifo`, with the same messages, so `TwoFifos` is used for them.

A process counts as a reader or writer of a pipe as long as it has the descriptor, whether
it uses it or not.
-/
import UnixNetProg.TwoFifos.Code

set_option autoImplicit false

namespace UnixNetProg.Pipes

open UnixNetProg.NamedPipe UnixNetProg.Runs UnixNetProg.TwoFifos

/-- A pipe after the `fork`: opened once at both ends, and both of them in two processes. -/
def forked : Fifo Char := ⟨⟨2, 2, 1, 1⟩, []⟩

/-- Which of the ends that it does not use a process still has: both, the one of `pipe2`,
or none. -/
inductive Spare
  | both
  | one
  | none
  deriving DecidableEq, Repr

/-- How often that is an end of `pipe1`. -/
def Spare.pipe1 : Spare → ℕ
  | .both => 1
  | .one | .none => 0

/-- And of `pipe2`. -/
def Spare.pipe2 : Spare → ℕ
  | .both | .one => 1
  | .none => 0

/-- The client and the server with the two pipes, and what the parent and the child have
besides. -/
structure World where
  main : TwoFifos.World
  parent : Spare
  child : Spare

/-- The parent closes `pipe1[0]` and `pipe2[1]`, and then is the client
(`3_pipes_client_server/main.c:23-55`, `client.c:19-59`). -/
def World.cliStep (e : Env) (w : World) : Option World :=
  match w.parent with
  | .both =>
    some { w with main := { w.main with fifo1 := w.main.fifo1.closeRead }, parent := .one }
  | .one =>
    some { w with main := { w.main with fifo2 := w.main.fifo2.closeWrite }, parent := .none }
  | .none => (w.main.cliStep e).map fun v => { w with main := v }

/-- The child closes `pipe1[1]` and `pipe2[0]`, and then is the server
(`3_pipes_client_server/main.c:23-55`, `server.c:26-68`). -/
def World.servStep (e : Env) (w : World) : Option World :=
  match w.child with
  | .both =>
    some { w with main := { w.main with fifo1 := w.main.fifo1.closeWrite }, child := .one }
  | .one =>
    some { w with main := { w.main with fifo2 := w.main.fifo2.closeRead }, child := .none }
  | .none => (w.main.servStep e).map fun v => { w with main := v }

def World.step (e : Env) (w : World) : Act → Option World
  | .cli => w.cliStep e
  | .serv => w.servStep e
  | .cliFails => (w.main.step e .cliFails).map fun v => { w with main := v }

/-- The two processes after the `fork`. -/
def start (stdin : List Char) : World where
  main := ⟨⟨stdin, [], .fgets⟩, .readname, forked, forked⟩
  parent := .both
  child := .both

def machine (e : Env) (stdin : List Char) : Machine World Act where
  init := fun w => w = start stdin
  step := World.step e

/-- No `write` of the client to its standard output fails. -/
def writes (_ : World) (a : Act) : Prop := a ≠ .cliFails

instance (w : World) (a : Act) : Decidable (writes w a) := inferInstanceAs (Decidable (_ ≠ _))

/-- The parent has not ended and cannot go on. -/
def World.CliWaits (e : Env) (w : World) : Prop := ¬ w.main.cli.pc.gone ∧ w.cliStep e = none

/-- The child has not ended and cannot go on; after an `overrun` nothing is known of it. -/
def World.ServWaits (e : Env) (w : World) : Prop := ¬ w.main.serv.gone ∧ w.servStep e = none

end UnixNetProg.Pipes

/-
`6_stream_messages/msg.c`: messages over a stream descriptor.

A `Mesg` is a C structure: its length, a hole of four bytes, its type, and the
data. `mesg_send` writes the structure as it is in memory, header and used part
of the data; `mesg_recv` reads the header, which says how much follows, and then
that much. Each of the two reads is made once, and one that gets fewer bytes
than it asked for ends the program.

A `World` is a writer that sends some messages one after another and closes the
stream, and a reader that calls `mesg_recv` again and again.
-/
import UnixNetProg.Lib.Bytes
import UnixNetProg.Lib.Channel
import UnixNetProg.Lib.Runs

set_option autoImplicit false

namespace UnixNetProg.StreamMessages

open UnixNetProg.Bytes UnixNetProg.Channel UnixNetProg.Runs

/-! ## Messages -/

def MAXMESGDATA : ℕ := 4096 - 16

/-- `sizeof (Mesg) - MAXMESGDATA`. -/
def MESGHDRSIZE : ℕ := 16

/-- A message in memory (`Mesg`, `6_stream_messages/msg.h:22-26`). `hole` is the padding in
front of `mesg_type`. -/
structure Mesg where
  mesg_len : BitVec 32
  hole : BitVec 32
  mesg_type : BitVec 64
  mesg_data : List UInt8
  size : mesg_data.length = MAXMESGDATA

/-- The first `MESGHDRSIZE` bytes of the structure. -/
def Mesg.header (m : Mesg) : List UInt8 :=
  ofWord 4 m.mesg_len ++ ofWord 4 m.hole ++ ofWord 8 m.mesg_type

/-- The bytes of the structure. -/
def Mesg.bytes (m : Mesg) : List UInt8 := m.header ++ m.mesg_data

/-- The structure after `bs` was read to its start. -/
def Mesg.readHeader (m : Mesg) (bs : List UInt8) : Mesg :=
  { m with
    mesg_len := toWord 4 (bs.take 4)
    hole := toWord 4 ((bs.drop 4).take 4)
    mesg_type := toWord 8 ((bs.drop 8).take 8) }

/-- The structure after `bs` was read to `mesg_data`. -/
def Mesg.readData (m : Mesg) (bs : List UInt8) (h : bs.length ≤ MAXMESGDATA) : Mesg :=
  { m with
    mesg_data := bs ++ m.mesg_data.drop bs.length
    size := by
      have hsize := m.size
      rw [List.length_append, List.length_drop]
      omega }

/-- The bytes that `mesg_send` writes (`6_stream_messages/msg.c:19-33`). -/
def mesg_send (m : Mesg) : List UInt8 := m.bytes.take (MESGHDRSIZE + m.mesg_len.toInt).toNat

/-! ## The reader -/

/-- Where the reader is: about to call `mesg_recv`, before the second `read` in
it, or ended. `overrun` is a read past the end of `mesg_data`. -/
inductive At
  | idle
  | body
  | ended (msg : String)
  | overrun
  deriving DecidableEq, Repr

/-- The writer's messages not yet sent, the stream, and the reader: its
structure, where it is, and what the calls of `mesg_recv` have returned, the
value and the structure after it. -/
structure World where
  todo : List Mesg
  chan : Chan UInt8
  mesg : Mesg
  pc : At
  got : List (ℤ × Mesg)

/-- `mesg_recv` returns `n`. -/
def World.ret (w : World) (n : ℤ) : World := { w with pc := .idle, got := w.got ++ [(n, w.mesg)] }

/-- `mesg_recv` once it has the header: it reads the actual data, if there is any. -/
def World.afterLen (w : World) : World :=
  if 0 < w.mesg.mesg_len.toInt then { w with pc := .body } else w.ret w.mesg.mesg_len.toInt

/-- `mesg_recv` after its first `read`, which got `bs`. -/
def World.afterHeader (w : World) (bs : List UInt8) : World :=
  if bs.length = 0 then w.ret 0   -- end of file
  else if bs.length ≠ MESGHDRSIZE then { w with pc := .ended "message header read error" }
  else { w with mesg := w.mesg.readHeader bs }.afterLen

/-- `mesg_recv` after its second `read`, which got `bs`. -/
def World.afterData (w : World) (bs : List UInt8) : World :=
  if h : bs.length ≤ MAXMESGDATA then
    if (bs.length : ℤ) ≠ w.mesg.mesg_len.toInt then { w with pc := .ended "data read error" }
    else { w with mesg := w.mesg.readData bs h }.ret w.mesg.mesg_len.toInt
  else { w with pc := .overrun }

/-- How many bytes the reader's next `read` asks for. -/
def World.asked (w : World) : ℕ :=
  match w.pc with
  | .idle => MESGHDRSIZE
  | .body => w.mesg.mesg_len.toInt.toNat
  | .ended _ | .overrun => 0

/-- A step: the writer sends a message or closes the stream, or the reader makes
a `read` that gets `k` bytes. -/
inductive Act
  | send
  | close
  | read (k : ℕ)

/-- `mesg_send` and `mesg_recv` (`6_stream_messages/msg.c:19-73`). -/
def World.step (w : World) : Act → Option World
  | .send =>
    match w.todo with
    | m :: ms => some { w with todo := ms, chan := w.chan.write (mesg_send m) }
    | [] => none
  | .close =>
    if w.todo = [] ∧ w.chan.closed = false then some { w with chan := w.chan.close } else none
  | .read k =>
    match w.pc with
    | .idle => (w.chan.read w.asked k).map fun r => { w with chan := r.2 }.afterHeader r.1
    | .body => (w.chan.read w.asked k).map fun r => { w with chan := r.2 }.afterData r.1
    | .ended _ | .overrun => none

section Step

variable {w w' : World} {k : ℕ}

theorem World.of_step_send (h : w.step .send = some w') :
    ∃ m ms, w.todo = m :: ms ∧ w' = { w with todo := ms, chan := w.chan.write (mesg_send m) } := by
  simp only [World.step] at h
  split at h
  · rename_i m ms htodo
    cases h
    exact ⟨m, ms, htodo, rfl⟩
  · cases h

theorem World.of_step_close (h : w.step .close = some w') :
    w.todo = [] ∧ w' = { w with chan := w.chan.close } := by
  simp only [World.step] at h
  split_ifs at h with htodo
  cases h
  exact ⟨htodo.1, rfl⟩

/-- It is the first `read` of a call, or the second one. -/
theorem World.of_step_read (h : w.step (.read k) = some w') :
    ∃ bs c, w.chan.read w.asked k = some (bs, c) ∧
      (w.pc = .idle ∧ w' = { w with chan := c }.afterHeader bs ∨
        w.pc = .body ∧ w' = { w with chan := c }.afterData bs) := by
  simp only [World.step] at h
  split at h
  · rename_i hpc
    obtain ⟨⟨bs, c⟩, hr, rfl⟩ := Option.map_eq_some_iff.1 h
    exact ⟨bs, c, hr, .inl ⟨hpc, rfl⟩⟩
  · rename_i hpc
    obtain ⟨⟨bs, c⟩, hr, rfl⟩ := Option.map_eq_some_iff.1 h
    exact ⟨bs, c, hr, .inr ⟨hpc, rfl⟩⟩
  · cases h
  · cases h

end Step

/-- Before anything is sent; whatever the reader's structure holds. -/
def start (ms : List Mesg) (m : Mesg) : World := ⟨ms, .empty, m, .idle, []⟩

/-- A writer that sends `ms`, and a reader. -/
def machine (ms : List Mesg) : Machine World Act where
  init := fun w => ∃ m, w = start ms m
  step := World.step

end UnixNetProg.StreamMessages

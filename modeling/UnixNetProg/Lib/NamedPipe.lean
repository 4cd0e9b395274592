/-
Named pipes.

A named pipe is opened for reading or for writing, and either call waits until the
other end is opened: if nobody has it open, until somebody opens it (`r_counter` and
`w_counter` count how often that has happened). What is written is read in the order
in which it was written. A write waits until there is room for all of it, as one of
at most `PIPE_BUF` bytes does, and is refused when nobody has the pipe open for
reading; a read waits while there is nothing to read, and gets nothing once nobody
has the pipe open for writing; else it gets what there is, up to what it asks for.
-/
import Mathlib.Tactic.Common

set_option autoImplicit false

namespace UnixNetProg.NamedPipe

/-- A write of at most as many bytes is not divided. -/
def PIPE_BUF : ℕ := 4096

/-- How often the pipe is open now, and how often it has been opened. -/
structure Ends where
  readers : ℕ
  writers : ℕ
  r_counter : ℕ
  w_counter : ℕ
  deriving DecidableEq, Repr

namespace Ends

def openRead (e : Ends) : Ends := { e with readers := e.readers + 1, r_counter := e.r_counter + 1 }

def openWrite (e : Ends) : Ends := { e with writers := e.writers + 1, w_counter := e.w_counter + 1 }

def closeRead (e : Ends) : Ends := { e with readers := e.readers - 1 }

def closeWrite (e : Ends) : Ends := { e with writers := e.writers - 1 }

end Ends

structure Fifo (α : Type) extends Ends where
  bytes : List α
  deriving DecidableEq, Repr

/-- What a write that does not wait does. -/
inductive Written (α : Type)
  | all (f : Fifo α)
  | refused
  deriving DecidableEq, Repr

namespace Fifo

variable {α : Type}

/-- Nobody has opened the pipe. -/
def empty : Fifo α := ⟨⟨0, 0, 0, 0⟩, []⟩

def openRead (f : Fifo α) : Fifo α := { f with toEnds := f.toEnds.openRead }

def openWrite (f : Fifo α) : Fifo α := { f with toEnds := f.toEnds.openWrite }

def closeRead (f : Fifo α) : Fifo α := { f with toEnds := f.toEnds.closeRead }

def closeWrite (f : Fifo α) : Fifo α := { f with toEnds := f.toEnds.closeWrite }

/-- A write into a pipe that can hold `capacity` bytes. `none` says that the writer
has to wait. -/
def write (f : Fifo α) (capacity : ℕ) (bs : List α) : Option (Written α) :=
  if bs = [] then some (.all f)
  else if f.readers = 0 then some .refused
  else if f.bytes.length + bs.length ≤ capacity then some (.all { f with bytes := f.bytes ++ bs })
  else none

/-- `none` says that the reader has to wait. -/
def read (f : Fifo α) (n : ℕ) : Option (List α × Fifo α) :=
  if f.bytes = [] then
    if f.writers = 0 then some ([], f) else none
  else some (f.bytes.take n, { f with bytes := f.bytes.drop n })

variable {f f' : Fifo α} {bs : List α} {capacity n : ℕ}

/-- What is written is behind what was there. -/
theorem write_eq_all (h : f.write capacity bs = some (.all f')) :
    f' = { f with bytes := f.bytes ++ bs } := by
  unfold write at h
  split_ifs at h with hnil hreaders hroom
  · cases h
    rw [hnil, List.append_nil]
  · cases h
  · cases h
    rfl

/-- **An empty pipe with a reader takes** whatever it can hold. -/
theorem write_of_empty (hf : f.bytes = []) (hreaders : 0 < f.readers) (hbs : bs.length ≤ capacity) :
    f.write capacity bs = some (.all { f with bytes := bs }) := by
  unfold write
  by_cases hnil : bs = []
  · rw [if_pos hnil, hnil, ← hf]
  · rw [if_neg hnil, if_neg (by omega), if_pos (by rw [hf]; simpa using hbs), hf]
    rfl

/-- A write is refused only where there is no reader. -/
theorem write_eq_refused (h : f.write capacity bs = some .refused) : f.readers = 0 := by
  unfold write at h
  split_ifs at h with hnil hreaders hroom
  · cases h
  · exact hreaders
  · cases h

/-- What is read is the front of what is there, and it is something. -/
theorem read_of_bytes (hf : f.bytes ≠ []) :
    f.read n = some (f.bytes.take n, { f with bytes := f.bytes.drop n }) := by
  unfold read
  rw [if_neg hf]

/-- A read leaves the ends alone. -/
theorem toEnds_of_read {r : List α × Fifo α} (h : f.read n = some r) : r.2.toEnds = f.toEnds := by
  unfold read at h
  split_ifs at h
  · cases h
    rfl
  · cases h
    rfl

/-- The end of the file. -/
theorem read_of_closed (hf : f.bytes = []) (hwriters : f.writers = 0) :
    f.read n = some ([], f) := by
  unfold read
  rw [if_pos hf, if_pos hwriters]

theorem read_eq_none (hf : f.bytes = []) (hwriters : 0 < f.writers) : f.read n = none := by
  unfold read
  rw [if_pos hf, if_neg (by omega)]

end Fifo

end UnixNetProg.NamedPipe

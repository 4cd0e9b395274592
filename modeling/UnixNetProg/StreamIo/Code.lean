/-
`readline`, `writen` and `readn` of `1.tcp`, as they work on a descriptor and a buffer.

The descriptor is a stream of the bytes that are still to be read, and at the end of it
`read` returns 0, or -1 if the stream `fails`. How many bytes a `read` or a `write` moves
is up to the kernel: it answers every call, and its answers are an argument.

The buffer is memory, so that a store outside of it would show.
-/
import Mathlib.Data.Int.Notation
import UnixNetProg.Lib.Memory

set_option autoImplicit false

namespace UnixNetProg.StreamIo

open UnixNetProg.Memory

/-! ## `readline` -/

/-- What a call has returned, the memory after it, and what is left in the stream. -/
structure Result where
  ret : ℤ
  mem : Mem Char
  left : List Char

/-- The end of `readline`: the null character. -/
def finish (n ptr : ℕ) (mem : Mem Char) (left : List Char) : Result :=
  ⟨n, store mem ptr ['\x00'], left⟩

/-- The loop of `readline`, on what is left in the stream. -/
def readline.loop (fails : Bool) (maxlen n ptr : ℕ) (mem : Mem Char) : List Char → Result
  | [] =>
    if n < maxlen then
      if fails then ⟨-1, mem, []⟩
      else if n = 1 then ⟨0, mem, []⟩
      else finish n ptr mem []
    else finish n ptr mem []
  | c :: left =>
    if n < maxlen then
      let mem := store mem ptr [c]
      let ptr := ptr + 1
      if c = '\n' then finish n ptr mem left else readline.loop fails maxlen (n + 1) ptr mem left
    else finish n ptr mem (c :: left)

/-- `readline` (`1.tcp/readline.c:3-26`). -/
def readline (fails : Bool) (maxlen : ℕ) (mem : Mem Char) (stream : List Char) : Result :=
  readline.loop fails maxlen 1 0 mem stream

/-! ## `writen` and `readn` -/

/-- The answer to a `write`: it takes `k + 1` bytes, or as many as there are if that is
fewer, or it returns 0 or -1. -/
inductive Wrote
  | bytes (k : ℕ)
  | zero
  | fails
  deriving DecidableEq, Repr

/-- The answer to a `read`: it gets `k + 1` bytes, or as many as there are and were asked
for, or it fails. -/
inductive Got
  | bytes (k : ℕ)
  | fails
  deriving DecidableEq, Repr

/-- What has been written is no longer left. -/
theorem left_lt {nleft : ℕ} (h : 0 < nleft) (k : ℕ) : nleft - min (k + 1) nleft < nleft := by omega

/-- The loop of `writen`: what is returned, and what has been sent. -/
def writen.loop (answers : ℕ → Wrote) (nbytes : ℕ) (buffer : List Char) (call nleft ptr : ℕ)
    (sent : List Char) : ℤ × List Char :=
  if h : 0 < nleft then
    match answers call with
    | .zero => (0, sent)
    | .fails => (-1, sent)
    | .bytes k =>
      let nwritten := min (k + 1) nleft
      have : nleft - nwritten < nleft := left_lt h k
      writen.loop answers nbytes buffer (call + 1) (nleft - nwritten) (ptr + nwritten)
        (sent ++ (buffer.drop ptr).take nwritten)
  else (nbytes - nleft, sent)
termination_by nleft
decreasing_by exact this

/-- `writen` (`1.tcp/writen.c:3-20`). -/
def writen (answers : ℕ → Wrote) (buffer : List Char) (nbytes : ℕ) : ℤ × List Char :=
  writen.loop answers nbytes buffer 0 nbytes 0 []

/-- The loop of `readn`. -/
def readn.loop (answers : ℕ → Got) (nbytes call nleft ptr : ℕ) (mem : Mem Char)
    (stream : List Char) : Result :=
  if h : 0 < nleft then
    match answers call with
    | .fails => ⟨-1, mem, stream⟩
    | .bytes k =>
      let nread := min (min (k + 1) nleft) stream.length
      if hend : nread = 0 then ⟨nbytes - nleft, mem, stream⟩
      else
        have : nleft - nread < nleft := by omega
        readn.loop answers nbytes (call + 1) (nleft - nread) (ptr + nread)
          (store mem ptr (stream.take nread)) (stream.drop nread)
  else ⟨nbytes - nleft, mem, stream⟩
termination_by nleft

/-- `readn` (`1.tcp/readn.c:3-22`). -/
def readn (answers : ℕ → Got) (nbytes : ℕ) (mem : Mem Char) (stream : List Char) : Result :=
  readn.loop answers nbytes 0 nbytes 0 mem stream

end UnixNetProg.StreamIo

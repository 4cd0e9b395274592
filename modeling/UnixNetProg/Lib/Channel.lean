/-
A byte stream between a writer and a reader: a pipe, a FIFO, or one direction of
a connection.

The stream keeps the order of the bytes and nothing else: what is written in one
piece may be read in several, and the other way round. A read that asks for at
most `n` bytes gets any nonempty number of those that are there; it waits while
there are none, and gets none once the writer has closed its end. How many it
gets is a choice, so that a fact about every choice holds however the kernel
splits the stream.
-/
import Mathlib.Tactic.Common

set_option autoImplicit false

namespace UnixNetProg.Channel

/-- The bytes written and not yet read, and whether the writer has closed. -/
structure Chan (α : Type) where
  bytes : List α
  closed : Bool
  deriving DecidableEq, Repr

namespace Chan

variable {α : Type}

/-- Nothing has been written yet. -/
def empty : Chan α := ⟨[], false⟩

def write (c : Chan α) (bs : List α) : Chan α := { c with bytes := c.bytes ++ bs }

def close (c : Chan α) : Chan α := { c with closed := true }

/-- A read of at most `n` bytes that gets `k` of those that are there. `none`
says that the reader has to wait, or that `k` is not possible. -/
def read (c : Chan α) (n k : ℕ) : Option (List α × Chan α) :=
  if c.bytes = [] then
    if c.closed then some ([], c) else none
  else if 0 < k ∧ k ≤ n ∧ k ≤ c.bytes.length then
    some (c.bytes.take k, { c with bytes := c.bytes.drop k })
  else none

@[simp] theorem write_bytes (c : Chan α) (bs : List α) : (c.write bs).bytes = c.bytes ++ bs := rfl

@[simp] theorem write_closed (c : Chan α) (bs : List α) : (c.write bs).closed = c.closed := rfl

@[simp] theorem close_bytes (c : Chan α) : c.close.bytes = c.bytes := rfl

@[simp] theorem close_closed (c : Chan α) : c.close.closed = true := rfl

variable {c c' : Chan α} {n k : ℕ} {bs : List α}

/-- What a read gets is the front of the stream, and at most what was asked for. -/
theorem read_eq_some (h : c.read n k = some (bs, c')) :
    c.bytes = bs ++ c'.bytes ∧ c'.closed = c.closed ∧ bs.length ≤ n := by
  unfold read at h
  split_ifs at h with hnil hclosed hk
  · cases h
    exact ⟨rfl, rfl, Nat.zero_le n⟩
  · cases h
    refine ⟨(List.take_append_drop k c.bytes).symm, rfl, ?_⟩
    rw [List.length_take]
    omega

/-- A read gets nothing only at the end of the stream. -/
theorem read_nil (h : c.read n k = some ([], c')) : c.bytes = [] ∧ c.closed = true ∧ c' = c := by
  unfold read at h
  split_ifs at h with hnil hclosed hk
  · cases h
    exact ⟨hnil, hclosed, rfl⟩
  · -- `k` bytes are there, and `0 < k`
    have hlen := congrArg List.length (Prod.mk.inj (Option.some.inj h)).1
    rw [List.length_take, List.length_nil] at hlen
    omega

/-- Elsewhere it gets the number of bytes chosen. -/
theorem length_of_read (h : c.read n k = some (bs, c')) (hbs : bs ≠ []) :
    bs.length = k ∧ 0 < k ∧ k ≤ n := by
  unfold read at h
  split_ifs at h with hnil hclosed hk
  · cases h
    exact absurd rfl hbs
  · cases h
    rw [List.length_take]
    omega

/-- Any number that is there and was asked for may be got. -/
theorem read_of_le (hk : 0 < k) (hn : k ≤ n) (hlen : k ≤ c.bytes.length) :
    c.read n k = some (c.bytes.take k, { c with bytes := c.bytes.drop k }) := by
  have hne : c.bytes ≠ [] := by
    intro hnil
    rw [hnil, List.length_nil] at hlen
    omega
  unfold read
  rw [if_neg hne, if_pos ⟨hk, hn, hlen⟩]

end Chan

end UnixNetProg.Channel

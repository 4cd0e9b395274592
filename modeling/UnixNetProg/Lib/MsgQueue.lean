/-
System V message queues.

A message has a type, which is positive, and data, which may be empty. A queue
keeps its messages in the order in which they were sent. `msgsnd` waits until the
queue has room, for the data and for the message itself; `msgrcv` takes the first
message of the type it asks for, and of any type when it asks for type 0, leaves
the others where they are, and waits while there is none. Data that are longer
than the receiver allows are an error, and the message stays in the queue.
-/
import Mathlib.Data.List.Flatten
import Mathlib.Tactic.Common

set_option autoImplicit false

namespace UnixNetProg.MsgQueue

structure Msg (α : Type) where
  type : ℕ
  data : List α
  deriving DecidableEq, Repr

/-- The messages, the oldest first, and how many bytes of data there may be. -/
structure Queue (α : Type) where
  messages : List (Msg α)
  qbytes : ℕ
  deriving DecidableEq, Repr

/-- What a call of `msgrcv` that does not wait does: it gets a message, or finds
one that is too long. -/
inductive Received (α : Type)
  | got (m : Msg α) (q : Queue α)
  | tooBig
  deriving DecidableEq, Repr

namespace Queue

variable {α : Type}

/-- The bytes of data in the queue. -/
def cbytes (q : Queue α) : ℕ := (q.messages.flatMap Msg.data).length

/-- `none` says that the sender has to wait. -/
def msgsnd (q : Queue α) (m : Msg α) : Option (Queue α) :=
  if q.cbytes + m.data.length ≤ q.qbytes ∧ q.messages.length + 1 ≤ q.qbytes then
    some { q with messages := q.messages ++ [m] }
  else none

/-- A message that `msgrcv` for type `t` may take. -/
def wanted (t : ℕ) (m : Msg α) : Bool := t == 0 || m.type == t

/-- `none` says that the receiver has to wait. -/
def msgrcv (q : Queue α) (size t : ℕ) : Option (Received α) :=
  (q.messages.find? (wanted t)).map fun m =>
    if m.data.length ≤ size then .got m { q with messages := q.messages.eraseP (wanted t) }
    else .tooBig

variable {q q' : Queue α} {m : Msg α} {ms : List (Msg α)} {size t : ℕ}

/-- Where there is room the message is put at the end. -/
theorem msgsnd_eq_some (h : q.msgsnd m = some q') :
    q' = { q with messages := q.messages ++ [m] } := by
  unfold msgsnd at h
  split_ifs at h with hroom
  exact (Option.some.inj h).symm

/-- **An empty queue has room** for any message that it can hold at all. -/
theorem msgsnd_of_empty (hq : q.messages = []) (hpos : 0 < q.qbytes)
    (hm : m.data.length ≤ q.qbytes) :
    q.msgsnd m = some { q with messages := [m] } := by
  unfold msgsnd cbytes
  rw [hq, if_pos]
  · rfl
  · simp only [List.flatMap_nil, List.length_nil]
    omega

/-- The first message is taken, if it is wanted and not too long. -/
theorem msgrcv_of_head (hq : q.messages = m :: ms) (hwanted : wanted t m = true)
    (hsize : m.data.length ≤ size) : q.msgrcv size t = some (.got m { q with messages := ms }) := by
  unfold msgrcv
  rw [hq, List.find?_cons_of_pos hwanted, Option.map_some, if_pos hsize,
    List.eraseP_cons_of_pos hwanted]

/-- The receiver waits while no message is wanted. -/
theorem msgrcv_eq_none (h : ∀ m ∈ q.messages, wanted t m = false) : q.msgrcv size t = none := by
  unfold msgrcv
  rw [List.find?_eq_none.2 (by simpa using h), Option.map_none]

/-- **To send and to receive can change places**: what is received was there before, and
without it there is more room. -/
theorem msgsnd_msgrcv {m' : Msg α} {q₁ q₂ : Queue α} (hsnd : q.msgsnd m = some q₁)
    (hrcv : q.msgrcv size t = some (.got m' q₂)) :
    ∃ q₃, q₂.msgsnd m = some q₃ ∧ q₁.msgrcv size t = some (.got m' q₃) := by
  obtain ⟨m₀, hfind, hgot⟩ := Option.map_eq_some_iff.1 hrcv
  split_ifs at hgot with hsize
  cases hgot
  have hmem : m' ∈ q.messages := List.mem_of_find?_eq_some hfind
  have hwanted : wanted t m' = true := List.find?_some hfind
  refine ⟨{ q with messages := q.messages.eraseP (wanted t) ++ [m] }, ?_, ?_⟩
  · have hsub : (q.messages.eraseP (wanted t)).Sublist q.messages := List.eraseP_sublist
    have hbytes := (hsub.flatMap Msg.data).length_le
    have hlen := hsub.length_le
    unfold msgsnd cbytes at hsnd ⊢
    split_ifs at hsnd with hroom
    rw [if_pos]
    dsimp only
    omega
  · obtain rfl := msgsnd_eq_some hsnd
    have hfront : (q.messages ++ [m]).find? (wanted t) = some m' := by
      rw [List.find?_append, hfind, Option.some_or]
    unfold msgrcv
    rw [hfront, Option.map_some, if_pos hsize, List.eraseP_append_left hwanted _ hmem]

end Queue

end UnixNetProg.MsgQueue

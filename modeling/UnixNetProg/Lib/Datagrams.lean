/-
A network of datagrams: it may delay and reorder them, and it neither loses nor
duplicates any, but by `lose` and `double`.

A datagram is under way until it arrives, and then waits at its destination,
where datagrams are received in the order in which they arrived. A receiver gets
as much of one as its buffer takes; what is left is gone. Everything that has been
sent and not yet received is in `all`, and what the operations do to it is all
there is to know about them (`all_sendto`, `all_arrive`, `all_recvfrom`).
-/
import Mathlib.Data.List.Perm.Basic
import Mathlib.Tactic.Common

set_option autoImplicit false

namespace UnixNetProg.Datagrams

structure Datagram (α β : Type) where
  src : α
  dst : α
  data : List β
  deriving DecidableEq, Repr

/-- The datagrams under way, and those that have arrived. -/
structure Net (α β : Type) where
  flying : List (Datagram α β)
  arrived : List (Datagram α β)

namespace Net

variable {α β : Type}

def empty : Net α β := ⟨[], []⟩

/-- Sent and not yet received. -/
def all (net : Net α β) : List (Datagram α β) := net.flying ++ net.arrived

def sendto (net : Net α β) (d : Datagram α β) : Net α β := { net with flying := d :: net.flying }

variable [DecidableEq α] [DecidableEq β]

/-- Any datagram under way may be the next to arrive. -/
def arrive (net : Net α β) (d : Datagram α β) : Option (Net α β) :=
  if d ∈ net.flying then some ⟨net.flying.erase d, net.arrived ++ [d]⟩ else none

/-- The first datagram that has arrived at `a`. `none` says that there is none,
and the receiver waits. -/
def recvfrom (net : Net α β) (a : α) : Option (Datagram α β × Net α β) :=
  (net.arrived.find? fun d => decide (d.dst = a)).map fun d =>
    (d, { net with arrived := net.arrived.erase d })

/-- A network that is not reliable loses one that is under way. -/
def lose (net : Net α β) (d : Datagram α β) : Option (Net α β) :=
  if d ∈ net.flying then some { net with flying := net.flying.erase d } else none

/-- Or it makes a second one of it. -/
def double (net : Net α β) (d : Datagram α β) : Option (Net α β) :=
  if d ∈ net.flying then some { net with flying := d :: net.flying } else none

variable {net net' : Net α β} {d : Datagram α β} {a : α}

omit [DecidableEq α] [DecidableEq β] in
@[simp] theorem all_sendto : (net.sendto d).all = d :: net.all := rfl

theorem all_arrive (h : net.arrive d = some net') : net'.all.Perm net.all := by
  unfold arrive at h
  split_ifs at h with hd
  cases h
  have hperm := List.perm_cons_erase hd
  calc net.flying.erase d ++ (net.arrived ++ [d])
      _ = (net.flying.erase d ++ net.arrived) ++ [d] := (List.append_assoc _ _ _).symm
      _ |>.Perm (d :: (net.flying.erase d ++ net.arrived)) := List.perm_append_singleton _ _
      _ |>.Perm (net.flying ++ net.arrived) := (hperm.append_right net.arrived).symm

theorem all_lose (h : net.lose d = some net') : net.all.Perm (d :: net'.all) := by
  unfold lose at h
  split_ifs at h with hd
  cases h
  exact (List.perm_cons_erase hd).append_right net.arrived

theorem all_double (h : net.double d = some net') : d ∈ net.all ∧ net'.all = d :: net.all := by
  unfold double at h
  split_ifs at h with hd
  cases h
  exact ⟨List.mem_append_left _ hd, rfl⟩

theorem all_recvfrom (h : net.recvfrom a = some (d, net')) :
    d.dst = a ∧ net.all.Perm (d :: net'.all) := by
  obtain ⟨e, hfind, heq⟩ := Option.map_eq_some_iff.1 h
  cases heq
  refine ⟨by simpa using List.find?_some hfind, ?_⟩
  have hperm := List.perm_cons_erase (List.mem_of_find?_eq_some hfind)
  exact (hperm.append_left net.flying).trans List.perm_middle

end Net

end UnixNetProg.Datagrams

/-
A stream that is taken apart from its front.

A `Cut` takes a piece off what is left, and never an empty one as long as anything is left. So
it takes the stream apart, and the pieces one behind the other are the stream.
-/
import Mathlib.Data.List.Basic
import Mathlib.Tactic.Common

set_option autoImplicit false

namespace UnixNetProg.Pieces

/-- What takes the next piece off. -/
structure Cut (α : Type*) where
  next : List α → List α
  front : ∀ s, next s <+: s
  ne_nil : ∀ {s}, s ≠ [] → next s ≠ []

namespace Cut

variable {α : Type*} (c : Cut α) {s : List α}

/-- What is left behind the piece. -/
def behind (s : List α) : List α := s.drop (c.next s).length

theorem next_append_behind (s : List α) : c.next s ++ c.behind s = s :=
  List.prefix_iff_eq_append.1 (c.front s)

theorem length_behind_lt (h : s ≠ []) : (c.behind s).length < s.length := by
  have hpos := List.length_pos_iff.2 (c.ne_nil h)
  have hlen := congrArg List.length (c.next_append_behind s)
  rw [List.length_append] at hlen
  omega

/-- All the pieces. -/
def pieces (s : List α) : List (List α) :=
  if h : s = [] then []
  else
    have : (c.behind s).length < s.length := c.length_behind_lt h
    c.next s :: pieces (c.behind s)
termination_by s.length

/-- **Induction over a stream**, by the pieces that are taken off. -/
theorem induct {P : List α → Prop} (nil : P []) (piece : ∀ s, s ≠ [] → P (c.behind s) → P s)
    (s : List α) : P s := by
  by_cases h : s = []
  · exact h ▸ nil
  · have hlt := c.length_behind_lt h
    exact piece s h (induct nil piece (c.behind s))
termination_by s.length

@[simp]
theorem pieces_nil : c.pieces [] = [] := by
  rw [pieces, dif_pos rfl]

theorem pieces_of_ne_nil (h : s ≠ []) : c.pieces s = c.next s :: c.pieces (c.behind s) := by
  rw [pieces]
  exact dif_neg h

theorem flatten_pieces (s : List α) : (c.pieces s).flatten = s := by
  induction s using c.induct with
  | nil => rw [pieces_nil, List.flatten_nil]
  | piece s h ih => rw [c.pieces_of_ne_nil h, List.flatten_cons, ih, c.next_append_behind]

/-- What holds of every piece that can be taken off holds of all of them. -/
theorem forall_mem_pieces {P : List α → Prop} (h : ∀ s, s ≠ [] → P (c.next s)) (s : List α) :
    ∀ p ∈ c.pieces s, P p := by
  induction s using c.induct with
  | nil => simp
  | piece s hs ih =>
    rw [c.pieces_of_ne_nil hs, List.forall_mem_cons]
    exact ⟨h s hs, ih⟩

end Cut

end UnixNetProg.Pieces

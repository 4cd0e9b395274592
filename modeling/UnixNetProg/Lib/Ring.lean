/-
A ring of slots, filled and emptied in order.

Message `j` goes to slot `j % n`. `Holds` says that the slots of the messages
from `lo` to `hi`, the ones filled and not yet emptied, hold them. There is room
for one more as long as there are fewer than `n` of them: its slot is none of
theirs.
-/
import Mathlib.Data.Nat.ModEq
import Mathlib.Logic.Function.Basic
import Mathlib.Tactic.Common

set_option autoImplicit false

namespace UnixNetProg.Ring

variable {α β : Type} {has : α → β → Prop} {n lo hi : ℕ} {slots : ℕ → α} {msg : ℕ → β}

/-- Fewer than `n` apart, two messages do not share a slot. -/
theorem mod_ne {j k : ℕ} (hlo : lo ≤ j) (hj : j < k) (hk : k < lo + n) : j % n ≠ k % n := by
  intro heq
  have hdvd : n ∣ k - j := (Nat.modEq_iff_dvd' hj.le).1 heq
  have hle := Nat.le_of_dvd (by omega) hdvd
  omega

/-- An index that goes around the ring. -/
theorem next_mod {i j : ℕ} (hn : 0 < n) (hi : i = j % n) :
    (if i + 1 < n then i + 1 else 0) = (j + 1) % n := by
  have hlt := Nat.mod_lt j hn
  rw [Nat.add_mod, ← hi]
  rw [← hi] at hlt
  by_cases hone : n = 1
  · subst hone
    rw [Nat.mod_one, if_neg (by omega)]
  · rw [Nat.mod_eq_of_lt (by omega : 1 < n)]
    split_ifs with hnext
    · rw [Nat.mod_eq_of_lt hnext]
    · have hlast : i + 1 = n := by omega
      rw [hlast, Nat.mod_self]

/-- The slots of the messages from `lo` to `hi` hold them. -/
def Holds (has : α → β → Prop) (n : ℕ) (slots : ℕ → α) (msg : ℕ → β) (lo hi : ℕ) : Prop :=
  ∀ j, lo ≤ j → j < hi → has (slots (j % n)) (msg j)

/-- While there is room, the next slot may be written. -/
theorem Holds.update (h : Holds has n slots msg lo hi) (hroom : hi < lo + n) (a : α) :
    Holds has n (Function.update slots (hi % n) a) msg lo hi := by
  intro j hlo hj
  rw [Function.update_of_ne (mod_ne hlo hj hroom)]
  exact h j hlo hj

/-- One more message is there. -/
theorem Holds.snoc (h : Holds has n slots msg lo hi) (hnew : has (slots (hi % n)) (msg hi)) :
    Holds has n slots msg lo (hi + 1) := by
  intro j hlo hj
  rcases Nat.lt_succ_iff_lt_or_eq.1 hj with hj | rfl
  · exact h j hlo hj
  · exact hnew

/-- One message has been taken. -/
theorem Holds.tail (h : Holds has n slots msg lo hi) : Holds has n slots msg (lo + 1) hi :=
  fun j hlo hj => h j (by omega) hj

/-- The messages after them do not matter. -/
theorem Holds.congr {msg' : ℕ → β} (h : Holds has n slots msg lo hi)
    (hsame : ∀ j, j < hi → msg' j = msg j) : Holds has n slots msg' lo hi := by
  intro j hlo hj
  rw [hsame j hj]
  exact h j hlo hj

end UnixNetProg.Ring

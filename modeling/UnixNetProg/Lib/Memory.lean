/-
Memory behind a pointer.

A memory says what is at every offset from where the pointer was at first. `store` puts a
string of cells at an offset, `Holds` says that one is there, and everything outside of
what was stored is as it was. A `Span` is some cells that are used, in an object or not.
A `Heap` is memory in front of the pointer too; behind any offset it is such a memory.
-/
import Mathlib.Data.Int.Notation
import Mathlib.Tactic.Common

set_option autoImplicit false

namespace UnixNetProg.Memory

/-- What is at each offset. -/
abbrev Mem (α : Type*) := ℕ → α

variable {α : Type*}

/-- The cells `bs` are stored at `ptr`. -/
def store (mem : Mem α) (ptr : ℕ) (bs : List α) : Mem α := fun i =>
  if ptr ≤ i then (bs[i - ptr]?).getD (mem i) else mem i

/-- The cells `bs` are at `ptr`. -/
def Holds (mem : Mem α) (ptr : ℕ) (bs : List α) : Prop := ∀ i b, bs[i]? = some b → mem (ptr + i) = b

/-- The two agree outside of `n` cells from `ptr` on. -/
def SameBut (ptr n : ℕ) (mem mem' : Mem α) : Prop := ∀ i, i < ptr ∨ ptr + n ≤ i → mem' i = mem i

/-- Some cells are used, by their distance from the start of an object. -/
structure Span where
  off : ℤ
  len : ℕ
  deriving DecidableEq, Repr

/-- All of them are in the object. -/
def Span.Inside (a : Span) (size : ℕ) : Prop := 0 ≤ a.off ∧ a.off + a.len ≤ size

instance (a : Span) (size : ℕ) : Decidable (a.Inside size) := inferInstanceAs (Decidable (_ ∧ _))

variable {mem mem' mem'' : Mem α} {ptr n k : ℕ} {bs cs : List α}

theorem store_nil : store mem ptr [] = mem := by
  funext i
  simp [store]

theorem holds_store (mem : Mem α) (ptr : ℕ) (bs : List α) : Holds (store mem ptr bs) ptr bs := by
  intro i b hb
  rw [store, if_pos (Nat.le_add_right ptr i), Nat.add_sub_cancel_left, hb, Option.getD_some]

theorem sameBut_store (mem : Mem α) (ptr : ℕ) (bs : List α) :
    SameBut ptr bs.length mem (store mem ptr bs) := by
  intro i hi
  rw [store]
  by_cases hle : ptr ≤ i
  · rw [if_pos hle, List.getElem?_eq_none (by omega), Option.getD_none]
  · rw [if_neg hle]

/-- Storing one string behind another one is storing both. -/
theorem store_store (mem : Mem α) (ptr : ℕ) (bs cs : List α) :
    store (store mem ptr bs) (ptr + bs.length) cs = store mem ptr (bs ++ cs) := by
  funext i
  simp only [store]
  by_cases hfar : ptr + bs.length ≤ i
  · rw [if_pos hfar, if_pos (by omega), List.getElem?_append_right (by omega),
      List.getElem?_eq_none (l := bs) (by omega), Nat.sub_sub, Option.getD_none,
      if_pos (by omega)]
  · rw [if_neg hfar]
    by_cases hnear : ptr ≤ i
    · rw [if_pos hnear, if_pos hnear, List.getElem?_append_left (by omega)]
    · rw [if_neg hnear, if_neg hnear]

/-- A string is there if its two parts are, one behind the other. -/
theorem holds_append :
    Holds mem ptr (bs ++ cs) ↔ Holds mem ptr bs ∧ Holds mem (ptr + bs.length) cs := by
  constructor
  · intro h
    refine ⟨fun i b hb => ?_, fun i b hb => ?_⟩
    · obtain ⟨hlt, -⟩ := List.getElem?_eq_some_iff.1 hb
      exact h i b (by rw [List.getElem?_append_left hlt, hb])
    · rw [Nat.add_assoc]
      apply h _ b
      rw [List.getElem?_append_right (Nat.le_add_right _ _), Nat.add_sub_cancel_left, hb]
  · rintro ⟨hbs, hcs⟩ i b hb
    by_cases hlt : i < bs.length
    · rw [List.getElem?_append_left hlt] at hb
      exact hbs i b hb
    · rw [List.getElem?_append_right (Nat.not_lt.1 hlt)] at hb
      have hat := hcs _ b hb
      rwa [Nat.add_assoc, Nat.add_sub_cancel' (Nat.not_lt.1 hlt)] at hat

theorem holds_nil : Holds mem ptr [] := by
  intro i b hb
  cases hb

theorem holds_cons {b : α} : Holds mem ptr (b :: bs) ↔ mem ptr = b ∧ Holds mem (ptr + 1) bs := by
  have happend : Holds mem ptr ([b] ++ bs) ↔
      Holds mem ptr [b] ∧ Holds mem (ptr + [b].length) bs := holds_append
  rw [List.singleton_append, List.length_singleton] at happend
  rw [happend]
  refine and_congr_left fun _ => ⟨fun h => h 0 b rfl, fun h i c hc => ?_⟩
  obtain ⟨hi, rfl⟩ := List.getElem?_eq_some_iff.1 hc
  obtain rfl : i = 0 := by simpa using hi
  exact h

/-- Of two strings at one place, one begins with the other. -/
theorem Holds.prefix_or (hb : Holds mem ptr bs) (hc : Holds mem ptr cs) :
    bs <+: cs ∨ cs <+: bs := by
  induction bs generalizing ptr cs with
  | nil => exact .inl List.nil_prefix
  | cons b bs ih =>
    cases cs with
    | nil => exact .inr List.nil_prefix
    | cons c cs =>
      obtain ⟨hb, hbs⟩ := holds_cons.1 hb
      obtain ⟨hc, hcs⟩ := holds_cons.1 hc
      rw [← hb, ← hc]
      exact (ih hbs hcs).imp (List.cons_prefix_cons.2 ⟨rfl, ·⟩) (List.cons_prefix_cons.2 ⟨rfl, ·⟩)

/-- What is at `ptr` after a store there: the front of what was stored, or all of it and
then what was there before. -/
theorem holds_store_iff : Holds (store mem ptr bs) ptr cs ↔
    cs <+: bs ∨ bs <+: cs ∧ Holds mem (ptr + bs.length) (cs.drop bs.length) := by
  have hbs := holds_store mem ptr bs
  have hbehind : ∀ r, Holds (store mem ptr bs) (ptr + bs.length) r ↔
      Holds mem (ptr + bs.length) r := by
    intro r
    have hsame : ∀ i, store mem ptr bs (ptr + bs.length + i) = mem (ptr + bs.length + i) :=
      fun i => sameBut_store mem ptr bs _ (.inr (Nat.le_add_right _ _))
    exact ⟨fun h i b hb => (hsame i).symm.trans (h i b hb), fun h i b hb =>
      (hsame i).trans (h i b hb)⟩
  constructor
  · intro hcs
    rcases hbs.prefix_or hcs with hpre | hpre
    · right
      obtain ⟨r, rfl⟩ := hpre
      rw [List.drop_left]
      exact ⟨List.prefix_append _ _, (hbehind r).1 (holds_append.1 hcs).2⟩
    · exact .inl hpre
  · rintro (⟨r, rfl⟩ | ⟨⟨r, rfl⟩, hrest⟩)
    · exact (holds_append.1 hbs).1
    · rw [List.drop_left] at hrest
      exact holds_append.2 ⟨hbs, (hbehind r).2 hrest⟩

/-- The `n` cells at `ptr`. -/
def load (mem : Mem α) (ptr n : ℕ) : List α := (List.range n).map fun i => mem (ptr + i)

/-- A piece of what was stored. -/
theorem load_store_drop (mem : Mem α) (ptr : ℕ) (hn : k + n ≤ bs.length) :
    load (store mem ptr bs) (ptr + k) n = (bs.drop k).take n := by
  apply List.ext_getElem
  · rw [load, List.length_map, List.length_range, List.length_take, List.length_drop]
    omega
  · intro i hi hi'
    rw [List.length_take, List.length_drop] at hi'
    simp only [load, List.getElem_map, List.getElem_range, List.getElem_take, List.getElem_drop,
      Nat.add_assoc]
    exact holds_store mem ptr bs _ _ (List.getElem?_eq_getElem (by omega))

/-- They are the string that is there. -/
theorem holds_iff_load : Holds mem ptr bs ↔ load mem ptr bs.length = bs := by
  constructor
  · intro h
    apply List.ext_getElem
    · rw [load, List.length_map, List.length_range]
    · intro i hi hi'
      simp only [load, List.getElem_map, List.getElem_range]
      exact h i _ (List.getElem?_eq_getElem hi')
  · intro h i b hb
    obtain ⟨hi, -⟩ := List.getElem?_eq_some_iff.1 hb
    rw [← h, load, List.getElem?_map, List.getElem?_range hi] at hb
    exact Option.some.inj hb

instance [DecidableEq α] (mem : Mem α) (ptr : ℕ) (bs : List α) : Decidable (Holds mem ptr bs) :=
  decidable_of_iff _ holds_iff_load.symm

theorem load_store (mem : Mem α) (ptr : ℕ) (hn : n ≤ bs.length) :
    load (store mem ptr bs) ptr n = bs.take n := by
  rw [← List.drop_zero (l := bs), ← load_store_drop mem ptr (by omega), List.drop_zero,
    Nat.add_zero]

/-! ## Strings -/

/-- `strncmp` returns 0 for what is at the start of the memory and the string `s`, which
`nul` ends: the first `n` cells do not differ, or those up to the end of both. -/
def strncmp [DecidableEq α] (nul : α) (mem : Mem α) : List α → ℕ → Bool
  | _, 0 => true
  | [], _ + 1 => decide (mem 0 = nul)
  | c :: s, n + 1 => decide (mem 0 = c) &&
      (decide (c = nul) || strncmp nul (fun i => mem (i + 1)) s n)

/-- What is compared with a string that has no null in it. -/
theorem strncmp_iff [DecidableEq α] {nul : α} {s : List α} (hs : nul ∉ s) (n : ℕ) :
    strncmp nul mem s n = true ↔ Holds mem 0 ((s ++ [nul]).take n) := by
  induction n generalizing mem s with
  | zero => simp [strncmp, holds_nil]
  | succ n ih =>
    cases s with
    | nil => simp [strncmp, holds_cons, holds_nil]
    | cons c s =>
      have hc : c ≠ nul := fun h => hs (h ▸ List.mem_cons_self)
      have hshift : Holds (fun i => mem (i + 1)) 0 ((s ++ [nul]).take n) ↔
          Holds mem (0 + 1) ((s ++ [nul]).take n) := by
        unfold Holds
        simp only [Nat.zero_add, Nat.add_comm]
      rw [List.cons_append, List.take_succ_cons, holds_cons, ← hshift,
        ← ih fun h => hs (List.mem_cons_of_mem c h)]
      simp [strncmp, hc]

/-- There is one string without a null in it at a place. -/
theorem eq_of_holds {nul : α} {s q : List α} (hs : nul ∉ s) (hq : nul ∉ q)
    (h : Holds mem ptr (s ++ [nul])) (h' : Holds mem ptr (q ++ [nul])) : s = q := by
  induction s generalizing ptr q with
  | nil =>
    cases q with
    | nil => rfl
    | cons c q =>
      have hnul := (holds_cons.1 h).1
      rw [(holds_cons.1 h').1] at hnul
      exact absurd (hnul ▸ List.mem_cons_self) hq
  | cons b s ih =>
    obtain ⟨hb, hrest⟩ := holds_cons.1 h
    cases q with
    | nil =>
      rw [(holds_cons.1 h').1] at hb
      exact absurd (hb ▸ List.mem_cons_self) hs
    | cons c q =>
      obtain ⟨hc, hrest'⟩ := holds_cons.1 h'
      rw [ih (fun hmem => hs (List.mem_cons_of_mem b hmem))
        (fun hmem => hq (List.mem_cons_of_mem c hmem)) hrest hrest', ← hb, hc]

/-! ## Memory on both sides of a pointer -/

/-- What is at each offset, in front of the pointer or behind it. -/
abbrev Heap (α : Type*) := ℤ → α

namespace Heap

/-- The memory behind `off`. -/
def behind (heap : Heap α) (off : ℤ) : Mem α := fun i => heap (off + i)

/-- The cells `bs` are stored at `off`. -/
def store (heap : Heap α) (off : ℤ) (bs : List α) : Heap α := fun i =>
  if off ≤ i then Memory.store (heap.behind off) 0 bs (i - off).toNat else heap i

/-- The `n` cells at `off`. -/
def load (heap : Heap α) (off : ℤ) (n : ℕ) : List α := Memory.load (heap.behind off) 0 n

variable {heap heap' : Heap α} {off : ℤ}

/-- The two sides of an offset are all there is. -/
theorem ext_behind (off : ℤ) (h : heap.behind off = heap'.behind off)
    (hlt : ∀ i < off, heap i = heap' i) : heap = heap' := by
  funext i
  by_cases hi : i < off
  · exact hlt i hi
  · have hget := congrFun h (i - off).toNat
    have hidx : off + (i - off).toNat = i := by omega
    simpa only [behind, hidx] using hget

theorem store_of_lt {i : ℤ} (hi : i < off) : heap.store off bs i = heap i := if_neg (by omega)

/-- What is stored behind an offset is stored in the memory behind it. -/
theorem store_behind (heap : Heap α) (off : ℤ) (k : ℕ) (bs : List α) :
    (heap.store (off + k) bs).behind off = Memory.store (heap.behind off) k bs := by
  funext i
  simp only [behind, store, Memory.store]
  by_cases hi : k ≤ i
  · have hidx : (off + i - (off + k)).toNat = i - k := by omega
    have hat : off + k + (i - k : ℕ) = off + i := by omega
    rw [if_pos (by omega), if_pos hi, if_pos (Nat.zero_le _), hidx, Nat.sub_zero, hat]
  · rw [if_neg (by omega), if_neg hi]

theorem store_behind_self (heap : Heap α) (off : ℤ) (bs : List α) :
    (heap.store off bs).behind off = Memory.store (heap.behind off) 0 bs := by
  have h := store_behind heap off 0 bs
  rwa [Int.natCast_zero, Int.add_zero] at h

/-- Storing one string behind another one is storing both. -/
theorem store_store (heap : Heap α) (off : ℤ) (bs cs : List α) :
    (heap.store off bs).store (off + bs.length) cs = heap.store off (bs ++ cs) := by
  apply ext_behind off
  · have hboth := Memory.store_store (heap.behind off) 0 bs cs
    rw [Nat.zero_add] at hboth
    rw [store_behind, store_behind_self, hboth, store_behind_self]
  · intro i hi
    rw [store_of_lt (by omega), store_of_lt hi, store_of_lt hi]

/-- A piece of what was stored. -/
theorem load_store (heap : Heap α) (off : ℤ) (hn : k + n ≤ bs.length) :
    (heap.store off bs).load (off + k) n = (bs.drop k).take n := by
  have hpiece := load_store_drop (heap.behind off) 0 hn
  rw [← store_behind_self, Nat.zero_add] at hpiece
  rw [← hpiece]
  simp only [load, Memory.load, behind, Nat.zero_add, Int.natCast_add, Int.add_assoc]

theorem store_nil : heap.store off [] = heap := by
  apply ext_behind off
  · rw [store_behind_self, Memory.store_nil]
  · intro i hi
    exact store_of_lt hi

end Heap

end UnixNetProg.Memory

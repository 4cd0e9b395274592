/-
Strings that a null ends, and the first place where two of them differ.

A `CString` has no null among its characters, so the object that holds it, the
characters with one null behind them, is read to its end and no further by whoever stops
at the null. `mismatch` compares two such objects. Both are at their ends where all
is equal; elsewhere the two characters found decide how the strings are ordered, and a
string that ends earlier is the smaller one, because the null is the least character.

Nothing is assumed of the characters but that they can be told apart, and for the order,
what `Least` says of the null.
-/
import Mathlib.Data.List.Basic

set_option autoImplicit false

namespace UnixNetProg.Strings

/-- A string: characters none of which is the null. -/
structure CString {α : Type*} (nul : α) where
  chars : List α
  nul_notMem : nul ∉ chars

section Strings

variable {α : Type*} {nul : α}

/-- The string with the null that ends it. -/
def CString.object (s : CString nul) : List α := s.chars ++ [nul]

def CString.strlen (s : CString nul) : ℕ := s.chars.length

theorem CString.eq_of_chars {s t : CString nul} (h : s.chars = t.chars) : s = t := by
  cases s
  cases t
  cases h
  rfl

/-- The first character and the rest of a string. -/
theorem ne_of_cons {a : α} {s : List α} (h : nul ∉ a :: s) : a ≠ nul ∧ nul ∉ s :=
  ⟨fun ha => h (ha ▸ List.mem_cons_self), fun hs => h (List.mem_cons_of_mem a hs)⟩

end Strings

/-! ## The first difference -/

section Mismatch

variable {α : Type*} [DecidableEq α] {nul a b : α} {s t : List α}

/-- The first two characters that differ in two lists. -/
def firstDiff (s t : List α) : Option (α × α) := (s.zip t).find? fun p => p.1 ≠ p.2

/-- The first two characters that differ in two strings, their nulls included. -/
def mismatch (s t : CString nul) : Option (α × α) := firstDiff s.object t.object

theorem firstDiff_cons_of_ne (hne : a ≠ b) : firstDiff (a :: s) (b :: t) = some (a, b) :=
  List.find?_cons_of_pos (by simpa using hne)

theorem firstDiff_cons_self : firstDiff (a :: s) (a :: t) = firstDiff s t :=
  List.find?_cons_of_neg (by simp)

/-- Where nothing differs the strings are equal. -/
theorem eq_of_firstDiff (hs : nul ∉ s) (ht : nul ∉ t)
    (h : firstDiff (s ++ [nul]) (t ++ [nul]) = none) : s = t := by
  induction s generalizing t with
  | nil =>
    cases t with
    | nil => rfl
    | cons b t =>
      rw [List.nil_append, List.cons_append, firstDiff_cons_of_ne (ne_of_cons ht).1.symm] at h
      cases h
  | cons a s ih =>
    cases t with
    | nil =>
      rw [List.nil_append, List.cons_append, firstDiff_cons_of_ne (ne_of_cons hs).1] at h
      cases h
    | cons b t =>
      rw [List.cons_append, List.cons_append] at h
      by_cases hab : a = b
      · subst hab
        rw [firstDiff_cons_self] at h
        rw [ih (ne_of_cons hs).2 (ne_of_cons ht).2 h]
      · rw [firstDiff_cons_of_ne hab] at h
        cases h

theorem firstDiff_self (s : List α) : firstDiff s s = none := by
  induction s with
  | nil => rfl
  | cons a s ih => rw [firstDiff_cons_self, ih]

theorem mismatch_eq_none {s t : CString nul} : mismatch s t = none ↔ s = t := by
  constructor
  · intro h
    exact CString.eq_of_chars (eq_of_firstDiff s.nul_notMem t.nul_notMem h)
  · rintro rfl
    exact firstDiff_self _

/-- The other way round. -/
theorem firstDiff_swap (s t : List α) : firstDiff t s = (firstDiff s t).map Prod.swap := by
  induction s generalizing t with
  | nil => simp [firstDiff]
  | cons a s ih =>
    cases t with
    | nil => simp [firstDiff]
    | cons b t =>
      by_cases hab : a = b
      · subst hab
        rw [firstDiff_cons_self, firstDiff_cons_self, ih]
      · rw [firstDiff_cons_of_ne hab, firstDiff_cons_of_ne (Ne.symm hab)]
        rfl

theorem ne_of_firstDiff (h : firstDiff s t = some (a, b)) : a ≠ b := by
  have hfound := List.find?_some h
  simpa using hfound

end Mismatch

/-! ## The order -/

section Order

variable {α : Type*} [LT α]

/-- The null is the least character. -/
structure Least (nul : α) : Prop where
  not_lt : ∀ a : α, ¬ a < nul
  lt_of_ne : ∀ a : α, a ≠ nul → nul < a

variable [DecidableEq α] {nul a b : α} {s t : List α}

/-- **The first difference decides the order.** -/
theorem lt_iff_of_firstDiff (hnul : Least nul) (hirrefl : ∀ a : α, ¬ a < a) (hs : nul ∉ s)
    (ht : nul ∉ t) (h : firstDiff (s ++ [nul]) (t ++ [nul]) = some (a, b)) : s < t ↔ a < b := by
  induction s generalizing t with
  | nil =>
    cases t with
    | nil =>
      rw [List.nil_append, firstDiff_cons_self] at h
      cases h
    | cons c t =>
      -- the first string is at its end
      have hc := (ne_of_cons ht).1
      rw [List.nil_append, List.cons_append, firstDiff_cons_of_ne hc.symm] at h
      obtain ⟨rfl, rfl⟩ := Prod.mk.inj (Option.some.inj h)
      exact iff_of_true (List.nil_lt_cons c t) (hnul.lt_of_ne c hc)
  | cons c s ih =>
    cases t with
    | nil =>
      have hc := (ne_of_cons hs).1
      rw [List.nil_append, List.cons_append, firstDiff_cons_of_ne hc] at h
      obtain ⟨rfl, rfl⟩ := Prod.mk.inj (Option.some.inj h)
      exact iff_of_false (List.not_lt_nil _) (hnul.not_lt c)
    | cons d t =>
      rw [List.cons_append, List.cons_append] at h
      rw [List.cons_lt_cons_iff]
      -- equal characters are passed over, and different ones decide
      by_cases hcd : c = d
      · subst hcd
        rw [firstDiff_cons_self] at h
        rw [← ih (ne_of_cons hs).2 (ne_of_cons ht).2 h]
        simp [hirrefl c]
      · rw [firstDiff_cons_of_ne hcd] at h
        obtain ⟨rfl, rfl⟩ := Prod.mk.inj (Option.some.inj h)
        simp [hcd]

end Order

end UnixNetProg.Strings

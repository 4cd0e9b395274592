/-
`strcmp.c`: `my_strcmp`.

The result is the difference of two `char`s, the first ones that differ. A plain `char`
has a sign here, so that a byte from 128 on is less than the null, while `strcmp` compares
bytes without a sign: the two agree where both bytes are on the same side of 128.

The strings are the objects they are in, up to and with the null; a character behind the
null is not there to be read.
-/
import Mathlib.Data.Int.Notation
import Mathlib.Tactic.Common
import UnixNetProg.Lib.Strings

set_option autoImplicit false

namespace UnixNetProg.Strcmp

open UnixNetProg.Strings

/-! ## The program -/

/-- A plain `char`. -/
def char (b : UInt8) : ℤ := b.toBitVec.toInt

/-- `my_strcmp` (`strcmp/strcmp.c:10-17`) on what is left of two objects; `none` where it reads
behind the end of one of them. -/
def my_strcmp : List UInt8 → List UInt8 → Option ℤ
  | a :: str_1, b :: str_2 =>
    if char a = char b then if char a = 0 then some 0 else my_strcmp str_1 str_2
    else some (char a - char b)
  | _, _ => none

/-- What `strcmp` promises of its result: it is 0 for equal strings, and its sign is that
of the comparison of the bytes without a sign. -/
def Orders (s t : CString (0 : UInt8)) : Prop :=
  ∃ r, my_strcmp s.object t.object = some r ∧ (r = 0 ↔ s = t) ∧
    (r < 0 ↔ s.chars < t.chars) ∧ (0 < r ↔ t.chars < s.chars)

/-! ## Characters -/

section Characters

variable {a b : UInt8}

theorem char_eq (b : UInt8) :
    char b = if b.toNat < 128 then (b.toNat : ℤ) else b.toNat - 256 := by
  have hlt := b.toNat_lt
  rw [char, BitVec.toInt_eq_toNat_cond, UInt8.toNat_toBitVec]
  split_ifs <;> omega

theorem char_inj : char a = char b ↔ a = b := by
  rw [char, char, BitVec.toInt_inj, UInt8.toBitVec_inj]

/-- The sign of the difference is right for two characters on the same side of 128, and
wrong for two others. -/
theorem char_lt_iff (hne : a ≠ b) : (char a < char b ↔ a < b) ↔ (a < 128 ↔ b < 128) := by
  have ha := a.toNat_lt
  have hb := b.toNat_lt
  have hdiff : a.toNat ≠ b.toNat := fun h => hne (UInt8.toNat_inj.1 h)
  have hhalf : (128 : UInt8).toNat = 128 := rfl
  rw [char_eq, char_eq]
  simp only [UInt8.lt_iff_toNat_lt, hhalf]
  split_ifs <;> omega

theorem least_zero : Least (0 : UInt8) where
  not_lt _ := UInt8.not_lt_zero
  lt_of_ne _ hne := UInt8.pos_iff_ne_zero.2 hne

end Characters

/-! ## The loop -/

section Loop

variable {s t : List UInt8}

/-- **It stops at the first difference, or at the nulls.** -/
theorem my_strcmp_eq (hs : 0 ∉ s) (ht : 0 ∉ t) : my_strcmp (s ++ [0]) (t ++ [0]) =
    some (match firstDiff (s ++ [0]) (t ++ [0]) with
      | some (a, b) => char a - char b
      | none => 0) := by
  induction s generalizing t with
  | nil =>
    cases t with
    | nil => rfl
    | cons b t =>
      -- the first string ends here, the second one does not
      have hne : (0 : UInt8) ≠ b := (ne_of_cons ht).1.symm
      rw [List.nil_append, List.cons_append, firstDiff_cons_of_ne hne, my_strcmp,
        if_neg (char_inj.not.2 hne)]
  | cons a s ih =>
    obtain ⟨ha, hs⟩ := ne_of_cons hs
    have hend : char a ≠ 0 := fun h => ha (char_inj.1 h)
    cases t with
    | nil =>
      rw [List.nil_append, List.cons_append, firstDiff_cons_of_ne ha, my_strcmp,
        if_neg (char_inj.not.2 ha)]
    | cons b t =>
      rw [List.cons_append, List.cons_append, my_strcmp]
      by_cases hab : a = b
      · -- one character further
        subst hab
        rw [if_pos rfl, if_neg hend, firstDiff_cons_self, ih hs (ne_of_cons ht).2]
      · rw [if_neg (char_inj.not.2 hab), firstDiff_cons_of_ne hab]

end Loop

/-! ## The result -/

theorem my_strcmp_of_equal (s : CString (0 : UInt8)) : my_strcmp s.object s.object = some 0 := by
  have hret := my_strcmp_eq s.nul_notMem s.nul_notMem
  rw [firstDiff_self] at hret
  exact hret

theorem my_strcmp_of_mismatch {s t : CString (0 : UInt8)} {a b : UInt8}
    (h : mismatch s t = some (a, b)) : my_strcmp s.object t.object = some (char a - char b) := by
  have hret := my_strcmp_eq s.nul_notMem t.nul_notMem
  have hdiff : firstDiff (s.chars ++ [0]) (t.chars ++ [0]) = some (a, b) := h
  rw [hdiff] at hret
  exact hret

/-- Two strings are ordered by the bytes in which they differ first. -/
theorem chars_lt_iff {s t : CString (0 : UInt8)} {a b : UInt8} (h : mismatch s t = some (a, b)) :
    s.chars < t.chars ↔ a < b :=
  lt_iff_of_firstDiff least_zero (fun _ => UInt8.lt_irrefl _) s.nul_notMem t.nul_notMem h

/-- **`my_strcmp` orders two strings as `strcmp` does if and only if the first two bytes
that differ, if any, are both below 128 or both from there on.** The null at the end of
the shorter one counts. -/
theorem my_strcmp_orders_iff (s t : CString (0 : UInt8)) :
    Orders s t ↔ ∀ a b, mismatch s t = some (a, b) → (a < 128 ↔ b < 128) := by
  cases hdiff : mismatch s t with
  | none =>
    -- the strings are equal, and the result is 0
    obtain rfl : s = t := mismatch_eq_none.1 hdiff
    have hself : ¬ s.chars < s.chars := List.lt_irrefl _
    apply iff_of_true
    · exact ⟨0, my_strcmp_of_equal s, by simp, by simp [hself], by simp [hself]⟩
    · intro a b h
      cases h
  | some p =>
    obtain ⟨a, b⟩ := p
    have hne : a ≠ b := ne_of_firstDiff hdiff
    have hst : s ≠ t := by
      intro h
      rw [mismatch_eq_none.2 h] at hdiff
      cases hdiff
    -- `strcmp` goes by the same two bytes
    have hlt := chars_lt_iff hdiff
    have hswap : mismatch t s = some (b, a) :=
      (firstDiff_swap _ _).trans (congrArg (Option.map Prod.swap) hdiff)
    have hgt := chars_lt_iff hswap
    have hret := my_strcmp_of_mismatch hdiff
    constructor
    · rintro ⟨r, hr, -, hneg, -⟩ c d h
      cases h
      obtain rfl := Option.some.inj (hret.symm.trans hr)
      apply (char_lt_iff hne).1
      rw [← hlt, ← hneg]
      omega
    · intro hside
      have hsign := (char_lt_iff hne).2 (hside a b rfl)
      have hback := (char_lt_iff hne.symm).2 (hside a b rfl).symm
      have hdiffer : char a ≠ char b := char_inj.not.2 hne
      refine ⟨_, hret, iff_of_false (by omega) hst, ?_, ?_⟩
      · rw [hlt, ← hsign]
        omega
      · rw [hgt, ← hback]
        omega

/-- "a" and a string of one byte from above 128. -/
theorem my_strcmp_signed : ¬ Orders ⟨[97], by decide⟩ ⟨[233], by decide⟩ := by
  rintro ⟨r, hr, -, hlt, -⟩
  cases hr
  revert hlt
  decide

end UnixNetProg.Strcmp

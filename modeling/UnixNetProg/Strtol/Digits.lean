/-
The digits of a base, and the value of a string of them.

`IsDigit` says what `strtol` takes for a digit: a decimal digit or a letter of either case,
of value below the base. The tests and the arithmetic of `my_strtol` are right about such
characters (`valid_of_isDigit`, `digit_of_isDigit`).

`convert` on digits is a watched sum of wrapped terms, so it comes out as `addUp_eq` says.
-/
import Mathlib.Data.Nat.Digits.Defs
import UnixNetProg.Strtol.Code

set_option autoImplicit false

namespace UnixNetProg.Strtol

open UnixNetProg.Wrapping

/-! ## ASCII -/

theorem isAlpha_iff (c : Char) : c.isAlpha = true ↔
    (65 ≤ c.toNat ∧ c.toNat ≤ 90) ∨ (97 ≤ c.toNat ∧ c.toNat ≤ 122) := by
  show (decide (c.val ≥ 'A'.val ∧ c.val ≤ 'Z'.val) ||
    decide (c.val ≥ 'a'.val) && decide (c.val ≤ 'z'.val)) = true ↔ _
  simp only [Bool.or_eq_true, decide_eq_true_eq, ge_iff_le, UInt32.le_iff_toNat_le,
    Bool.and_eq_true]
  rfl

theorem isDigit_iff (c : Char) : c.isDigit = true ↔ 48 ≤ c.toNat ∧ c.toNat ≤ 57 := by
  simp only [Char.isDigit, Bool.and_eq_true, decide_eq_true_eq, ge_iff_le, UInt32.le_iff_toNat_le]
  rfl

theorem toNat_toLower (c : Char) :
    c.toLower.toNat = if 65 ≤ c.toNat ∧ c.toNat ≤ 90 then c.toNat + 32 else c.toNat := by
  unfold Char.toLower
  split
  · rename_i h
    have hup : 65 ≤ c.toNat ∧ c.toNat ≤ 90 := by
      simp only [ge_iff_le, UInt32.le_iff_toNat_le] at h
      exact h
    have hsum : (c.val + ('a'.val - 'A'.val)).toNat = (c.toNat + 32) % 2 ^ 32 := by
      rw [UInt32.toNat_add]
      rfl
    rw [if_pos hup]
    exact hsum.trans (Nat.mod_eq_of_lt (by omega))
  · rename_i h
    have hup : ¬ (65 ≤ c.toNat ∧ c.toNat ≤ 90) := by
      simp only [ge_iff_le, UInt32.le_iff_toNat_le] at h
      exact h
    rw [if_neg hup]

/-! ## Digits -/

/-- What a digit stands for. -/
def digitVal (c : Char) : ℕ :=
  if c.isAlpha then c.toLower.toNat - 'a'.toNat + 10 else c.toNat - '0'.toNat

/-- A digit of the base. -/
def IsDigit (base : ℕ) (c : Char) : Prop :=
  (c.isDigit = true ∨ c.isAlpha = true) ∧ digitVal c < base

instance (base : ℕ) (c : Char) : Decidable (IsDigit base c) := by
  unfold IsDigit
  infer_instance

section Digit

variable {base : ℕ} {c : Char}

theorem toNat_zero : '0'.toNat = 48 := rfl

theorem toNat_a : 'a'.toNat = 97 := rfl

/-- The value of a letter, as `my_strtol` computes it. -/
theorem alphabet_eq (h : c.isAlpha = true) : alphabet c + 10 = digitVal c := by
  have hc := (isAlpha_iff c).1 h
  rw [alphabet, digitVal, if_pos h, toNat_toLower, toNat_a]
  split <;> omega

theorem digitVal_of_isDigit (h : c.isDigit = true) :
    c.isAlpha = false ∧ digitVal c + 48 = c.toNat := by
  have hc := (isDigit_iff c).1 h
  have halpha : c.isAlpha = false := by
    rw [Bool.eq_false_iff, ne_eq, isAlpha_iff]
    omega
  refine ⟨halpha, ?_⟩
  rw [digitVal, if_neg (by simp [halpha]), toNat_zero]
  omega

/-- In a base up to ten the letters are no digits. -/
theorem IsDigit.decimal (h : IsDigit base c) (hbase : base ≤ 10) : c.isDigit = true := by
  rcases h with ⟨hdigit | halpha, hlt⟩
  · exact hdigit
  · rw [digitVal, if_pos halpha] at hlt
    omega

/-- The loop that looks for the end goes over digits. -/
theorem valid_of_isDigit (h : IsDigit base c) : valid base c = true := by
  rw [valid]
  by_cases hbase : base ≤ 10
  · have hdec := digitVal_of_isDigit (h.decimal hbase)
    have hlt := h.2
    rw [if_neg (by omega), if_neg (by simp [hdec.1]), Bool.not_eq_true', decide_eq_false_iff_not,
      toNat_zero]
    omega
  · rw [if_pos (by omega), Bool.not_eq_true', Bool.and_eq_false_iff, decide_eq_false_iff_not]
    by_cases halpha : c.isAlpha = true
    · have halphabet := alphabet_eq halpha
      have hlt := h.2
      right
      omega
    · left
      simpa using halpha

/-- The value of a digit, as `my_strtol` computes it. -/
theorem digit_of_isDigit (h : IsDigit base c) : digit base c = digitVal c := by
  rw [digit]
  rcases h with ⟨hdigit | halpha, hlt⟩
  · have hdec := digitVal_of_isDigit hdigit
    rw [if_neg (by simp [hdec.1]), toNat_zero]
    omega
  · have hbase : 10 < base := by
      rw [digitVal, if_pos halpha] at hlt
      omega
    rw [if_pos ⟨by omega, halpha⟩, alphabet_eq halpha]

end Digit

/-! ## The value -/

theorem one_lt_LONG : 1 < LONG := by decide

/-- `power` is the power, wrapped. -/
theorem power_eq (base exponent : ℕ) :
    power base exponent = wrap LONG ((base ^ exponent : ℕ) : ℤ) := by
  induction exponent with
  | zero =>
    have hlong := one_lt_LONG
    rw [power, pow_zero, Nat.cast_one, wrap_eq_self (by omega) (by omega)]
  | succ exponent ih =>
    rw [power, ih, wrap_mul_wrap, pow_succ]
    push_cast
    rfl

/-- What each digit contributes, the last one first. -/
def terms (base : ℕ) : ℕ → List Char → List ℕ
  | _, [] => []
  | exponent, c :: s => digitVal c * base ^ exponent :: terms base (exponent + 1) s

theorem terms_append (base exponent : ℕ) (s s' : List Char) :
    terms base exponent (s ++ s') =
      terms base exponent s ++ terms base (exponent + s.length) s' := by
  induction s generalizing exponent with
  | nil => rfl
  | cons c s ih =>
    rw [List.cons_append, terms, ih, terms, List.cons_append, List.length_cons, Nat.add_right_comm,
      Nat.add_assoc]

/-- The contributions add up to the value of the numeral. -/
theorem total_terms (base exponent : ℕ) (s : List Char) :
    total (terms base exponent s) = base ^ exponent * Nat.ofDigits base (s.map digitVal) := by
  induction s generalizing exponent with
  | nil => simp [terms, total]
  | cons c s ih =>
    rw [terms, total, ih, List.map_cons, Nat.ofDigits_cons, pow_succ]
    ring

/-- The conversion loop, on digits: a sum that is watched. -/
theorem convert_eq_addUp {base : ℕ} (sign : Bool) (exponent : ℕ) (prev_res : ℤ) {s : List Char}
    (hs : ∀ c ∈ s, IsDigit base c) :
    convert base sign exponent prev_res s =
      addUp LONG sign prev_res ((terms base exponent s).map fun n : ℕ => wrap LONG n) := by
  induction s generalizing exponent prev_res with
  | nil => rfl
  | cons c s ih =>
    have hterm : wrap LONG (power base exponent * digit base c) =
        wrap LONG ((digitVal c * base ^ exponent : ℕ) : ℤ) := by
      rw [digit_of_isDigit (hs c List.mem_cons_self), power_eq, wrap_mul_wrap, mul_comm]
      push_cast
      rfl
    have hrest : ∀ exponent prev_res, convert base sign exponent prev_res s =
        addUp LONG sign prev_res ((terms base exponent s).map fun n : ℕ => wrap LONG n) :=
      fun exponent prev_res => ih exponent prev_res fun c' hc' => hs c' (List.mem_cons_of_mem _ hc')
    rw [convert, terms, List.map_cons, addUp]
    cases sign with
    | false => simp only [Bool.false_eq_true, if_false, hterm, hrest, gt_iff_lt]
    | true => simp only [if_true, hterm, hrest, gt_iff_lt]

/-- **What is computed from digits**: the sum of their contributions, each of them modulo
`2 ^ 64`, as long as that is in range. -/
theorem convert_eq {base : ℕ} (sign : Bool) {s : List Char} (hs : ∀ c ∈ s, IsDigit base c) :
    convert base sign 0 0 s =
      if reduced LONG (terms base 0 s) ≤ limit LONG sign then
        some (signed sign (reduced LONG (terms base 0 s)))
      else none := by
  have hstart : (0 : ℤ) = signed sign ((0 : ℕ) : ℤ) := by cases sign <;> rfl
  rw [convert_eq_addUp sign 0 0 hs, hstart, addUp_eq (by decide) sign (Nat.zero_le _), Nat.zero_add]

end UnixNetProg.Strtol

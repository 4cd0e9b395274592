/-
`my_strtol` and the end of the number.

The documentation says: stop at the first character that is not a digit, and leave its
address in `*endptr`. `StopsAtDigits` says so of a call. Both halves of it can fail.

The loop that looks for the end has no lower bound. It stops at a letter that is no digit,
and up to base 10 also at what is above the digits. What is below them, a space, a comma,
a dot or a minus, it goes over, and above base 10 all punctuation. A `Stopper` is a
character that it does stop at.

At the end of the string the address is not stored. A null character is, where `*endptr`
pointed before.

`stopsAtDigits_iff` says when neither happens.
-/
import UnixNetProg.Strtol.Numerals

set_option autoImplicit false

namespace UnixNetProg.Strtol

/-! ## The documented behaviour -/

/-- How many digits a string begins with. -/
def leading (base : ℕ) (s : List Char) : ℕ := (s.takeWhile fun c => decide (IsDigit base c)).length

/-- The call converts the digits that follow the sign and the prefix, and leaves behind
where they end; without any it reports `EINVAL`. -/
def StopsAtDigits (base : ℕ) (str own : List Char) : Prop :=
  let q := (Cursor.mk 0 str).spaces.sign
  let c := q.2.baseSign base
  let n := leading base c.rest
  if n = 0 then ∃ endptr, my_strtol str (some own) base = .returns 0 (some .EINVAL) endptr
  else my_strtol str (some own) base = result base q.1 (c.rest.take n) (.str (c.off + n))

/-- The string behind the spaces, the sign and the prefix. -/
def unsigned (base : ℕ) (str : List Char) : List Char :=
  ((Cursor.mk 0 str).spaces.sign.2.baseSign base).rest

/-- A character, not a digit, at which the loop stops. -/
def Stopper (base : ℕ) (c : Char) : Prop :=
  c.isAlpha = true ∨ base ≤ 10 ∧ '0'.toNat + base ≤ c.toNat

/-- What follows the digits is there, and is such a character. -/
def Stopped (base : ℕ) (s : List Char) : Prop :=
  ∃ c, (s.drop (leading base s)).head? = some c ∧ Stopper base c

/-! ## Where the loop ends -/

section Loop

variable {base : ℕ} {c : Char} {s : List Char}

theorem valid_of_not_isDigit (h : ¬ IsDigit base c) : valid base c = false ↔ Stopper base c := by
  have hletter : c.isAlpha = true → (base : ℤ) ≤ alphabet c + 10 := by
    intro halpha
    have hval : ¬ digitVal c < base := fun hlt => h ⟨Or.inr halpha, hlt⟩
    have halphabet := alphabet_eq halpha
    omega
  rw [Stopper, valid]
  by_cases hbase : base ≤ 10
  · -- a base without letters
    rw [if_neg (by omega)]
    by_cases halpha : c.isAlpha = true
    · rw [if_pos halpha]
      exact ⟨fun _ => Or.inl halpha, fun _ => rfl⟩
    · rw [if_neg halpha, Bool.not_eq_false', decide_eq_true_iff, toNat_zero]
      constructor
      · intro hgt
        right
        omega
      · rintro (halpha' | habove)
        · exact absurd halpha' halpha
        · omega
  · -- a letter has to be one of the base
    rw [if_pos (by omega), Bool.not_eq_false', Bool.and_eq_true, decide_eq_true_iff]
    constructor
    · intro hboth
      exact Or.inl hboth.1
    · rintro (halpha | habove)
      · have hlarge := hletter halpha
        exact ⟨halpha, by omega⟩
      · omega

theorem leading_cons_pos (h : IsDigit base c) : leading base (c :: s) = leading base s + 1 := by
  rw [leading, List.takeWhile_cons_of_pos (by simpa using h), List.length_cons, leading]

theorem leading_cons_neg (h : ¬ IsDigit base c) : leading base (c :: s) = 0 := by
  rw [leading, List.takeWhile_cons_of_neg (by simpa using h), List.length_nil]

theorem scan_cons_pos (h : valid base c = true) : scan base (c :: s) = scan base s + 1 := by
  rw [scan, List.takeWhile_cons_of_pos h, List.length_cons, scan]

theorem scan_cons_neg (h : valid base c = false) : scan base (c :: s) = 0 := by
  rw [scan, List.takeWhile_cons_of_neg (by simp [h]), List.length_nil]

/-- The loop ends with the digits, and before the end of the string, when it is stopped. -/
theorem scan_stopped_iff (base : ℕ) (s : List Char) :
    (scan base s = leading base s ∧ s.drop (scan base s) ≠ []) ↔ Stopped base s := by
  induction s with
  | nil =>
    constructor
    · intro h
      exact absurd List.drop_nil h.2
    · rintro ⟨c, hc, -⟩
      rw [List.drop_nil] at hc
      exact absurd hc (by simp)
  | cons c s ih =>
    rw [Stopped]
    by_cases hdigit : IsDigit base c
    · -- both go past a digit
      rw [leading_cons_pos hdigit, scan_cons_pos (valid_of_isDigit hdigit), List.drop_succ_cons,
        List.drop_succ_cons, Nat.add_right_cancel_iff]
      exact ih
    · rw [leading_cons_neg hdigit, List.drop_zero, List.head?_cons]
      cases hvalid : valid base c with
      | false =>
        -- the scan stops where the digits end
        rw [scan_cons_neg hvalid]
        have hstop := (valid_of_not_isDigit hdigit).1 hvalid
        exact ⟨fun _ => ⟨c, rfl, hstop⟩, fun _ => ⟨rfl, List.cons_ne_nil c s⟩⟩
      | true =>
        -- the scan goes on past the digits
        rw [scan_cons_pos hvalid]
        constructor
        · intro h
          exact absurd h.1 (Nat.succ_ne_zero _)
        · rintro ⟨d, hd, hstop⟩
          rw [Option.some.injEq] at hd
          rw [← hd, ← valid_of_not_isDigit hdigit, hvalid] at hstop
          exact absurd hstop (by decide)

/-- No digit is missed. -/
theorem leading_le_scan (base : ℕ) (s : List Char) : leading base s ≤ scan base s := by
  induction s with
  | nil => exact Nat.le_refl _
  | cons c s ih =>
    by_cases hdigit : IsDigit base c
    · rw [leading_cons_pos hdigit, scan_cons_pos (valid_of_isDigit hdigit)]
      exact Nat.succ_le_succ ih
    · rw [leading_cons_neg hdigit]
      exact Nat.zero_le _

end Loop

/-! ## From `checkstr` on -/

/-- A conversion leaves `*endptr` as it was set, and is not reported as `EINVAL`. -/
theorem result_returns (base : ℤ) (sign : Bool) (s : List Char) :
    ∃ ret errno, errno ≠ some .EINVAL ∧
    ∀ endptr, result base sign s endptr = .returns ret errno (some endptr) := by
  cases hconvert : convert base sign 0 0 s.reverse with
  | some ret => exact ⟨ret, none, by decide, fun endptr => by rw [result, hconvert]⟩
  | none => exact ⟨0, some .ERANGE, by decide, fun endptr => by rw [result, hconvert]⟩

theorem endptr_eq_iff (c : Cursor) (i n : ℕ) :
    c.endptr i = .str (c.off + n) ↔ i = n ∧ c.rest.drop i ≠ [] := by
  rw [Cursor.endptr]
  by_cases hend : c.rest.drop i = []
  · rw [if_pos hend]
    constructor
    · intro heq
      exact absurd heq (by simp)
    · intro h
      exact absurd hend h.2
  · rw [if_neg hend, Ptr.str.injEq]
    constructor
    · intro heq
      exact ⟨by omega, hend⟩
    · intro h
      rw [h.1]

/-- There is no digit: `EINVAL` is reported if the loop does not get anywhere. -/
theorem checkstr_einval_iff (base : ℕ) (sign : Bool) (c : Cursor) (own : List Char)
    (hzero : leading base c.rest = 0) :
    (∃ endptr, checkstr base sign c (some own) = .returns 0 (some .EINVAL) endptr) ↔
      Stopped base c.rest ∨ c.rest = [] := by
  rw [← scan_stopped_iff, hzero]
  by_cases hscan : scan base c.rest = 0
  · -- no character is taken
    have hreturns : checkstr base sign c (some own) = einval c (some own) := by
      simp only [checkstr, hscan, if_true]
    rw [hreturns, hscan, List.drop_zero]
    constructor
    · intro _
      by_cases hnil : c.rest = []
      · exact Or.inr hnil
      · exact Or.inl ⟨rfl, hnil⟩
    · intro _
      exact ⟨_, rfl⟩
  · constructor
    · -- something is converted, with another `errno`
      rintro ⟨endptr, heq⟩
      obtain ⟨ret, errno, herrno, hresult⟩ :=
        result_returns base sign (c.rest.take (scan base c.rest))
      simp only [checkstr, if_neg hscan, hresult, Outcome.returns.injEq] at heq
      exact absurd heq.2.1 herrno
    · rintro (h | hnil)
      · exact absurd h.1 hscan
      · rw [hnil] at hscan
        exact absurd rfl hscan

/-- There are digits: exactly they are converted if the loop is stopped behind them. -/
theorem checkstr_result_iff (base : ℕ) (sign : Bool) (c : Cursor) (own : List Char)
    (hpos : leading base c.rest ≠ 0) :
    checkstr base sign c (some own) =
        result base sign (c.rest.take (leading base c.rest)) (.str (c.off + leading base c.rest)) ↔
      Stopped base c.rest := by
  have hle := leading_le_scan base c.rest
  have hscan : scan base c.rest ≠ 0 := by omega
  have hreturns : checkstr base sign c (some own) =
      result base sign (c.rest.take (scan base c.rest)) (c.endptr (scan base c.rest)) := by
    simp only [checkstr, if_neg hscan]
  rw [hreturns, ← scan_stopped_iff, ← endptr_eq_iff]
  constructor
  · intro heq
    obtain ⟨ret, errno, -, hresult⟩ := result_returns base sign (c.rest.take (scan base c.rest))
    obtain ⟨ret', errno', -, hresult'⟩ :=
      result_returns base sign (c.rest.take (leading base c.rest))
    rw [hresult, hresult', Outcome.returns.injEq, Option.some.injEq] at heq
    exact heq.2.2
  · intro hendptr
    rw [hendptr, ((endptr_eq_iff c _ _).1 hendptr).1]

/-! ## The call -/

/-- Base 2 looks at the first character beforehand. -/
theorem leading_two (c : Cursor) : c.at 0 = '1' ∨ c.at 0 = '0' ↔ leading 2 c.rest ≠ 0 := by
  obtain ⟨off, s⟩ := c
  cases s with
  | nil =>
    constructor
    · rintro (h | h)
      · exact absurd (show '\x00' = '1' from h) (by decide)
      · exact absurd (show '\x00' = '0' from h) (by decide)
    · intro h
      exact absurd rfl h
  | cons d s =>
    constructor
    · rintro (h | h)
      · have hd : d = '1' := h
        subst hd
        rw [leading_cons_pos (by decide)]
        exact Nat.succ_ne_zero _
      · have hd : d = '0' := h
        subst hd
        rw [leading_cons_pos (by decide)]
        exact Nat.succ_ne_zero _
    · intro h
      -- a first character that is no digit leaves nothing to convert
      by_cases hdigit : IsDigit 2 d
      · exact binary_of_isDigit hdigit
      · exact absurd (leading_cons_neg hdigit) h

end UnixNetProg.Strtol

/-
`my_strtol` on numerals: what it returns, and which overflows it finds.

A `Numeral` is a string of the documented form together with the base it is given in: the
spaces, the sign, the prefix, and digits, at least one. Its value is the number it denotes.

Both results come from `my_strtol_numeral`. The function adds up what the digits contribute,
each contribution modulo `2 ^ 64`, and reports exactly that this sum is out of range. A
number that can be represented has no contribution that is reduced, so it comes out
(`my_strtol_exact`). One that can not may have contributions that are, and then its overflow
is found or not, depending on what is left of them (`my_strtol_detects_iff`).
-/
import Mathlib.Algebra.Order.Ring.Int
import Mathlib.Data.List.GetD
import Mathlib.Data.List.TakeWhile
import UnixNetProg.Strtol.Digits

set_option autoImplicit false

namespace UnixNetProg.Strtol

open UnixNetProg.Wrapping

/-! ## Numerals -/

/-- What stands before the digits in a base, and the base that they are read in. -/
inductive Form : ℤ → List Char → ℕ → List Char → Prop
  | plain {radix : ℕ} {digits : List Char} (lo : 2 ≤ radix) (hi : radix ≤ 36) :
      Form radix [] radix digits
  | hex {x : Char} {digits : List Char} (hx : x = 'x' ∨ x = 'X') : Form 16 ['0', x] 16 digits
  | octal {digits : List Char} : Form 0 [] 8 ('0' :: digits)
  | hexadecimal {x : Char} {digits : List Char} (hx : x = 'x' ∨ x = 'X') :
      Form 0 ['0', x] 16 digits
  | decimal {c : Char} {digits : List Char} (hc : c ≠ '0') : Form 0 [] 10 (c :: digits)

/-- A sign, or none; `true` is a minus. -/
def signText : Option Bool → List Char
  | none => []
  | some false => ['+']
  | some true => ['-']

/-- A numeral in a base. -/
structure Numeral where
  base : ℤ
  spaces : ℕ
  sign : Option Bool
  lead : List Char
  radix : ℕ
  digits : List Char
  form : Form base lead radix digits
  nonempty : digits ≠ []
  isDigit : ∀ c ∈ digits, IsDigit radix c

namespace Numeral

/-- The string. -/
def text (n : Numeral) : List Char :=
  List.replicate n.spaces ' ' ++ (signText n.sign ++ (n.lead ++ n.digits))

def neg (n : Numeral) : Bool := n.sign == some true

/-- The number that the digits denote. -/
def magnitude (n : Numeral) : ℕ := Nat.ofDigits n.radix (n.digits.reverse.map digitVal)

/-- The number that the string denotes. -/
def value (n : Numeral) : ℤ := signed n.neg n.magnitude

/-- The sum of what the digits contribute, each modulo `2 ^ 64`. -/
def seen (n : Numeral) : ℕ := reduced LONG (terms n.radix 0 n.digits.reverse)

theorem magnitude_eq_total (n : Numeral) :
    n.magnitude = total (terms n.radix 0 n.digits.reverse) := by
  rw [total_terms, pow_zero, Nat.one_mul, magnitude]

end Numeral

/-! ## Up to the digits -/

theorem le_of_isDigit {base : ℕ} {c : Char} (h : IsDigit base c) : 48 ≤ c.toNat := by
  rcases h.1 with hdigit | halpha
  · exact ((isDigit_iff c).1 hdigit).1
  · have hc := (isAlpha_iff c).1 halpha
    omega

/-- A prefix begins with a 0. -/
theorem Form.lead_cases {base : ℤ} {lead digits : List Char} {radix : ℕ}
    (form : Form base lead radix digits) : lead = [] ∨ ∃ x, lead = ['0', x] := by
  cases form with
  | plain lo hi => exact Or.inl rfl
  | hex hx => exact Or.inr ⟨_, rfl⟩
  | octal => exact Or.inl rfl
  | hexadecimal hx => exact Or.inr ⟨_, rfl⟩
  | decimal hc => exact Or.inl rfl

/-- What follows the sign begins with neither a space nor a sign. -/
theorem Numeral.begins (n : Numeral) : ∃ c s, n.lead ++ n.digits = c :: s ∧ 48 ≤ c.toNat := by
  rcases n.form.lead_cases with hlead | ⟨x, hlead⟩
  · cases hdigits : n.digits with
    | nil => exact absurd hdigits n.nonempty
    | cons c s =>
      rw [hlead]
      exact ⟨c, s, rfl, le_of_isDigit (n.isDigit c (hdigits ▸ List.mem_cons_self))⟩
  · rw [hlead]
    exact ⟨'0', x :: n.digits, rfl, Nat.le_refl 48⟩

/-- The spaces are skipped, and no more. -/
theorem spaces_replicate (k : ℕ) {c : Char} (hc : c ≠ ' ') (s : List Char) :
    (Cursor.mk 0 (List.replicate k ' ' ++ c :: s)).spaces = ⟨k, c :: s⟩ := by
  have htake : ((List.replicate k ' ' ++ c :: s).takeWhile (· == ' ')).length = k := by
    rw [List.takeWhile_append_of_pos (by simp), List.takeWhile_cons_of_neg (by simpa using hc),
      List.append_nil, List.length_replicate]
  rw [Cursor.spaces, htake, Cursor.next, Nat.zero_add, List.drop_left' List.length_replicate]

/-- The sign is read. -/
theorem sign_signText (k : ℕ) (sign : Option Bool) {c : Char} (hc : 48 ≤ c.toNat) (s : List Char) :
    ((Cursor.mk 0 (List.replicate k ' ' ++ (signText sign ++ c :: s))).spaces).sign =
      (sign == some true, ⟨k + (signText sign).length, c :: s⟩) := by
  have hne : ∀ d : Char, d.toNat < 48 → c ≠ d := by
    rintro d hd rfl
    omega
  cases sign with
  | none =>
    rw [signText, List.nil_append, spaces_replicate k (hne ' ' (by decide))]
    simp only [Cursor.sign, Cursor.at, List.getD_cons_zero, if_neg (hne '+' (by decide)),
      if_neg (hne '-' (by decide))]
    rfl
  | some neg =>
    cases neg with
    | false => exact congrArg Cursor.sign (spaces_replicate k (by decide) (c :: s))
    | true => exact congrArg Cursor.sign (spaces_replicate k (by decide) (c :: s))

/-- The numeral after its sign. -/
theorem Numeral.start (n : Numeral) : ((Cursor.mk 0 n.text).spaces).sign =
    (n.neg, ⟨n.spaces + (signText n.sign).length, n.lead ++ n.digits⟩) := by
  obtain ⟨c, s, hbegins, hc⟩ := n.begins
  rw [Numeral.text, hbegins]
  exact sign_signText n.spaces n.sign hc s

/-! ## The digits -/

/-- All digits are gone over. -/
theorem scan_digits {base : ℕ} {s : List Char} (hs : ∀ c ∈ s, IsDigit base c) :
    scan base s = s.length := by
  rw [scan, List.takeWhile_eq_self_iff.2 fun c hc => valid_of_isDigit (hs c hc)]

theorem checkstr_nil (base : ℤ) (sign : Bool) (off : ℕ) (own : List Char) :
    checkstr base sign ⟨off, []⟩ (some own) = .returns 0 (some .EINVAL) (some (.str off)) := rfl

theorem checkstr_digits {base : ℕ} (sign : Bool) (off : ℕ) {s : List Char} (own : List Char)
    (hne : s ≠ []) (hs : ∀ c ∈ s, IsDigit base c) :
    checkstr base sign ⟨off, s⟩ (some own) = result base sign s (.own []) := by
  have hlen : s.length ≠ 0 := by simpa using hne
  simp only [checkstr, scan_digits hs, if_neg hlen, List.take_length, Cursor.endptr,
    List.drop_length,
    if_true]

/-! ## The prefix -/

section Prefix

variable {str digits own : List Char} {neg : Bool} {off : ℕ}

theorem baseSign_other {base : ℤ} (h8 : base ≠ 8) (h16 : base ≠ 16) (c : Cursor) :
    c.baseSign base = c := by
  simp only [Cursor.baseSign, if_neg h8, if_neg h16]

theorem baseSign_eight (c : Cursor) :
    c.baseSign 8 = if c.at 0 = '0' then c.next 1 else c := by
  simp only [Cursor.baseSign, if_true, if_neg (show (8 : ℤ) ≠ 16 by decide)]

theorem baseSign_sixteen (c : Cursor) : c.baseSign 16 =
    if c.at 0 = '0' ∧ (c.at 1 = 'x' ∨ c.at 1 = 'X') then c.next 2 else c := by
  simp only [Cursor.baseSign, if_true, if_neg (show (16 : ℤ) ≠ 8 by decide)]

/-- A base that is given explicitly. -/
theorem my_strtol_plain {base : ℤ} (lo : 2 < base) (hi : base ≤ 36)
    (hstart : ((Cursor.mk 0 str).spaces).sign = (neg, ⟨off, digits⟩)) :
    my_strtol str (some own) base =
      checkstr base neg ((Cursor.mk off digits).baseSign base) (some own) := by
  simp only [my_strtol, hstart]
  rw [if_neg (by omega), if_neg (by omega), if_neg (by omega)]

theorem my_strtol_two {c : Cursor} (hstart : ((Cursor.mk 0 str).spaces).sign = (neg, c)) :
    my_strtol str (some own) 2 =
      if c.at 0 = '1' ∨ c.at 0 = '0' then checkstr 2 neg c (some own) else einval c (some own) := by
  simp only [my_strtol, hstart]
  rw [baseSign_other (by decide) (by decide), if_neg (by decide)]
  exact if_pos trivial

/-- A base that the string tells. -/
theorem my_strtol_zero {c : Cursor} (hstart : ((Cursor.mk 0 str).spaces).sign = (neg, c)) :
    my_strtol str (some own) 0 =
      if c.at 0 = '0' then
        if (c.next 1).at 0 = 'x' ∨ (c.next 1).at 0 = 'X' then
          checkstr 16 neg ((c.next 1).next 1) (some own)
        else checkstr 8 neg (c.next 1) (some own)
      else if '1' ≤ c.at 0 ∧ c.at 0 ≤ '9' then checkstr 10 neg c (some own)
      else einval c (some own) := by
  simp only [my_strtol, hstart]
  rw [baseSign_other (by decide) (by decide)]
  exact if_pos trivial

/-- No digit is an x. -/
theorem getD_ne {base : ℕ} (hbase : base ≤ 33) {x : Char} (hx : x = 'x' ∨ x = 'X')
    (hs : ∀ c ∈ digits, IsDigit base c) (i : ℕ) : digits.getD i '\x00' ≠ x := by
  have hval : digitVal x = 33 := by
    rcases hx with rfl | rfl
    · decide
    · decide
  by_cases hi : i < digits.length
  · rw [List.getD_eq_getElem _ _ hi]
    intro heq
    have hdigit := (hs _ (List.getElem_mem hi)).2
    rw [heq] at hdigit
    omega
  · rw [List.getD_eq_default _ _ (by omega)]
    rcases hx with rfl | rfl
    · decide
    · decide

/-- The digits that base 2 looks for. -/
theorem binary_of_isDigit {c : Char} (h : IsDigit 2 c) : c = '1' ∨ c = '0' := by
  have hval := (digitVal_of_isDigit (h.decimal (by decide))).2
  have hlt := h.2
  have hone : '1'.toNat = 49 := rfl
  have hcases : digitVal c = 1 ∨ digitVal c = 0 := by omega
  rcases hcases with hd | hd
  · left
    apply Char.toNat_inj.1
    omega
  · right
    apply Char.toNat_inj.1
    rw [toNat_zero]
    omega

/-- The digits that base 0 takes to begin a decimal number. -/
theorem decimal_of_isDigit {c : Char} (h : IsDigit 10 c) (hc : c ≠ '0') : '1' ≤ c ∧ c ≤ '9' := by
  have hdigit := (isDigit_iff c).1 (h.decimal (Nat.le_refl 10))
  have hne : c.toNat ≠ 48 := fun heq => hc (Char.toNat_inj.1 heq)
  constructor
  · rw [Char.le_def, UInt32.le_iff_toNat_le]
    show 49 ≤ c.toNat
    omega
  · rw [Char.le_def, UInt32.le_iff_toNat_le]
    show c.toNat ≤ 57
    omega

/-- A leading 0 goes, in base 8. -/
theorem baseSign_eight_rest (off : ℕ) (digits : List Char) :
    ((Cursor.mk off digits).baseSign 8).rest = digits ∨
      digits = '0' :: ((Cursor.mk off digits).baseSign 8).rest := by
  rw [baseSign_eight]
  by_cases hat : (Cursor.mk off digits).at 0 = '0'
  · right
    rw [if_pos hat]
    cases digits with
    | nil => exact absurd (show '\x00' = '0' from hat) (by decide)
    | cons c s => exact congrArg (· :: s) hat
  · left
    rw [if_neg hat]

/-- **What is converted**: the digits of the numeral, in its base, perhaps without a 0 that
they begin with. -/
theorem Form.converts (own : List Char) {base : ℤ} {lead : List Char} {radix : ℕ}
    (form : Form base lead radix digits) (hne : digits ≠ []) (hs : ∀ c ∈ digits, IsDigit radix c)
    (hstart : ((Cursor.mk 0 str).spaces).sign = (neg, ⟨off, lead ++ digits⟩)) :
    ∃ c, my_strtol str (some own) base = checkstr radix neg c (some own) ∧
      (c.rest = digits ∨ digits = '0' :: c.rest) := by
  cases form with
  | plain lo hi =>
    rw [List.nil_append] at hstart
    by_cases h2 : radix = 2
    · -- base 2 looks at the first digit
      subst h2
      refine ⟨⟨off, digits⟩, ?_, Or.inl rfl⟩
      cases digits with
      | nil => exact absurd rfl hne
      | cons c s =>
        have hat : (Cursor.mk off (c :: s)).at 0 = '1' ∨ (Cursor.mk off (c :: s)).at 0 = '0' :=
          binary_of_isDigit (hs c List.mem_cons_self)
        exact (my_strtol_two hstart).trans (if_pos hat)
    · rw [my_strtol_plain (by omega) (by omega) hstart]
      refine ⟨_, rfl, ?_⟩
      by_cases h8 : radix = 8
      · subst h8
        exact baseSign_eight_rest off digits
      · left
        by_cases h16 : radix = 16
        · -- the second digit is not an x
          subst h16
          have hat : ¬ ((Cursor.mk off digits).at 1 = 'x' ∨ (Cursor.mk off digits).at 1 = 'X') := by
            rintro (hx | hx)
            · exact getD_ne (by decide) (Or.inl rfl) hs 1 hx
            · exact getD_ne (by decide) (Or.inr rfl) hs 1 hx
          rw [Nat.cast_ofNat, baseSign_sixteen, if_neg fun h => hat h.2]
        · rw [baseSign_other (by omega) (by omega)]
  | hex hx =>
    -- the 0x is the sign of base 16
    rw [my_strtol_plain (by decide) (by decide) hstart, baseSign_sixteen, if_pos ⟨rfl, hx⟩]
    exact ⟨_, rfl, Or.inl rfl⟩
  | octal =>
    rename_i s
    refine ⟨⟨off + 1, s⟩, ?_, Or.inr rfl⟩
    -- with base 0, a 0 that no x follows
    have hat : ∀ x, x = 'x' ∨ x = 'X' → (Cursor.mk (off + 1) s).at 0 ≠ x := fun x hx =>
      getD_ne (by decide) hx (fun c hc => hs c (List.mem_cons_of_mem _ hc)) 0
    have hno : ¬ ((Cursor.mk (off + 1) s).at 0 = 'x' ∨ (Cursor.mk (off + 1) s).at 0 = 'X') := by
      rintro (hx | hx)
      · exact hat 'x' (Or.inl rfl) hx
      · exact hat 'X' (Or.inr rfl) hx
    exact (my_strtol_zero hstart).trans ((if_pos rfl).trans (if_neg hno))
  | hexadecimal hx =>
    refine ⟨⟨off + 1 + 1, digits⟩, ?_, Or.inl rfl⟩
    exact (my_strtol_zero hstart).trans ((if_pos rfl).trans (if_pos hx))
  | decimal hc =>
    rename_i c s
    refine ⟨⟨off, c :: s⟩, ?_, Or.inl rfl⟩
    have hat : '1' ≤ (Cursor.mk off (c :: s)).at 0 ∧ (Cursor.mk off (c :: s)).at 0 ≤ '9' :=
      decimal_of_isDigit (hs c List.mem_cons_self) hc
    exact (my_strtol_zero hstart).trans ((if_neg hc).trans (if_pos hat))

end Prefix

/-! ## What is returned -/

namespace Numeral

/-- A number that a `long` can hold. -/
def Representable (n : Numeral) : Prop := -(LONG : ℤ) ≤ n.value ∧ n.value < LONG

instance (n : Numeral) : Decidable n.Representable := by
  unfold Representable
  infer_instance

theorem representable_iff (n : Numeral) : n.Representable ↔ n.magnitude ≤ limit LONG n.neg := by
  have hpos := one_lt_LONG
  unfold Representable value signed limit
  by_cases hneg : n.neg = true
  · rw [if_pos hneg, if_pos hneg]
    omega
  · rw [if_neg hneg, if_neg hneg]
    omega

/-- A 0 in front contributes nothing. -/
theorem seen_eq (n : Numeral) {s : List Char} (hs : s = n.digits ∨ n.digits = '0' :: s) :
    reduced LONG (terms n.radix 0 s.reverse) = n.seen := by
  rcases hs with rfl | hdigits
  · rfl
  · have hzero : terms n.radix (0 + s.reverse.length) ['0'] = [0] := by
      have hval : digitVal '0' = 0 := by decide
      rw [terms, terms, hval, Nat.zero_mul]
    rw [seen, hdigits, List.reverse_cons, terms_append, reduced_append, hzero]
    rfl

/-- Without reduction the sum is the number. -/
theorem seen_eq_magnitude (n : Numeral) (hlt : n.magnitude < 2 * LONG) : n.seen = n.magnitude := by
  rw [magnitude_eq_total] at hlt ⊢
  exact reduced_eq_total hlt

/-- The digits of a numeral are converted, unless there is only a 0, which base 8 drops. -/
theorem my_strtol_eq (n : Numeral) (own : List Char) :
    (∃ off, n.seen = 0 ∧
      my_strtol n.text (some own) n.base = .returns 0 (some .EINVAL) (some (.str off))) ∨
    (∃ s : List Char, (∀ c ∈ s, IsDigit n.radix c) ∧
      reduced LONG (terms n.radix 0 s.reverse) = n.seen ∧
      my_strtol n.text (some own) n.base = result n.radix n.neg s (.own [])) := by
  obtain ⟨⟨off, s⟩, heq, hs⟩ := n.form.converts own n.nonempty n.isDigit n.start
  by_cases hnil : s = []
  · left
    subst hnil
    -- only the 0 of base 8 was there
    refine ⟨off, ?_, heq.trans (checkstr_nil _ _ off own)⟩
    rw [← n.seen_eq hs]
    rfl
  · right
    -- what is left are digits of the numeral
    have hdigit : ∀ c ∈ s, IsDigit n.radix c := by
      intro c hc
      apply n.isDigit c
      rcases hs with hs | hs
      · rwa [← hs]
      · rw [hs]
        exact List.mem_cons_of_mem _ hc
    exact ⟨s, hdigit, n.seen_eq hs, heq.trans (checkstr_digits n.neg off own hnil hdigit)⟩

/-- The sum is in range: it is returned. -/
theorem my_strtol_in (n : Numeral) (own : List Char) (hin : n.seen ≤ limit LONG n.neg) :
    ∃ errno endptr, errno ≠ some .ERANGE ∧
      my_strtol n.text (some own) n.base = .returns (signed n.neg n.seen) errno endptr := by
  rcases n.my_strtol_eq own with ⟨off, hzero, heq⟩ | ⟨s, hdigit, hseen, heq⟩
  · have hval : signed n.neg (n.seen : ℤ) = 0 := by
      rw [hzero]
      cases n.neg <;> rfl
    refine ⟨some .EINVAL, some (.str off), by decide, ?_⟩
    rw [heq, hval]
  · refine ⟨none, some (.own []), by decide, ?_⟩
    have hconvert := convert_eq n.neg fun c hc => hdigit c (List.mem_reverse.1 hc)
    rw [hseen, if_pos hin] at hconvert
    rw [heq, result, hconvert]

/-- The sum is out of range: that is reported. -/
theorem my_strtol_out (n : Numeral) (own : List Char) (hout : limit LONG n.neg < n.seen) :
    my_strtol n.text (some own) n.base = .returns 0 (some .ERANGE) (some (.own [])) := by
  rcases n.my_strtol_eq own with ⟨off, hzero, heq⟩ | ⟨s, hdigit, hseen, heq⟩
  · omega
  · have hconvert := convert_eq n.neg fun c hc => hdigit c (List.mem_reverse.1 hc)
    rw [hseen, if_neg (by omega)] at hconvert
    rw [heq, result, hconvert]

end Numeral

/-! ## The results -/

/-- A digit and zeros are digits. -/
theorem isDigit_replicate {base : ℕ} (hbase : 0 < base) {c : Char} (hc : IsDigit base c) (k : ℕ) :
    ∀ d ∈ c :: List.replicate k '0', IsDigit base d := by
  intro d hd
  rcases List.mem_cons.1 hd with rfl | hd
  · exact hc
  · rw [List.eq_of_mem_replicate hd]
    exact ⟨Or.inl rfl, hbase⟩

/-- `LONG_MIN`, after a space, in the base that the prefix tells. -/
def longMin : Numeral where
  base := 0
  spaces := 1
  sign := some true
  lead := ['0', 'x']
  radix := 16
  digits := '8' :: List.replicate 15 '0'
  form := .hexadecimal (Or.inl rfl)
  nonempty := List.cons_ne_nil _ _
  isDigit := isDigit_replicate (by decide) (by decide) 15

/-- Without an `endptr` there is no number: `*endptr` is printed before it is computed. -/
theorem my_strtol_null (str : List Char) (base : ℤ) (p : Option Ptr) :
    my_strtol str none base ≠ .returns 0 (some .ERANGE) p := by
  have hcheck : ∀ (base : ℤ) (sign : Bool) (c : Cursor),
      checkstr base sign c none ≠ .returns 0 (some .ERANGE) p := by
    intro base sign c
    simp only [checkstr, einval]
    split_ifs <;> simp
  simp only [my_strtol, einval]
  split_ifs <;> first
    | exact hcheck _ _ _
    | simp

/-- A number below `2 ^ 64` is one of them, if it is out of range. -/
theorem my_strtol_detects_of_lt (n : Numeral) (own : List Char) (hrep : ¬ n.Representable)
    (hlt : n.magnitude < 2 * LONG) :
    my_strtol n.text (some own) n.base = .returns 0 (some .ERANGE) (some (.own [])) := by
  rw [n.representable_iff] at hrep
  apply n.my_strtol_out
  rw [n.seen_eq_magnitude hlt]
  omega

/-- Twice `10 ^ 19`. -/
def twoTen19 : Numeral where
  base := 10
  spaces := 0
  sign := none
  lead := []
  radix := 10
  digits := '2' :: List.replicate 19 '0'
  form := .plain (by decide) (by decide)
  nonempty := List.cons_ne_nil _ _
  isDigit := isDigit_replicate (by decide) (by decide) 19

end UnixNetProg.Strtol

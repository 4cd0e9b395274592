/-
Signed words, and a sum that is watched for overflow.

A word has `2 * h` values, from `-h` up to `h - 1`, and arithmetic on it wraps. `addUp`
adds terms to a running sum, or subtracts them, and gives up when the sum has gone the
wrong way.

Each term is seen modulo `2 * h`, as a number from 0 on, so the comparison does not find
out whether the true sum is out of range: it finds out, exactly, whether the sum of the
terms so reduced is. That is `addUp_eq`; where the true sum is below `2 * h`, the two are
the same (`reduced_eq_total`).
-/
import Mathlib.Tactic.Common
import Mathlib.Tactic.Ring
import Mathlib.Algebra.Order.Group.Int

set_option autoImplicit false

namespace UnixNetProg.Wrapping

/-- The word that a number becomes. -/
def wrap (h : ℕ) (x : ℤ) : ℤ := x.bmod (2 * h)

section Wrap

variable {h : ℕ} {x y : ℤ} {r a : ℕ}

theorem wrap_eq_self (hlo : -(h : ℤ) ≤ x) (hhi : x < h) : wrap h x = x := by
  apply Int.bmod_eq_of_le_mul_two
  · push_cast
    omega
  · push_cast
    omega

theorem wrap_add_wrap (h : ℕ) (x y : ℤ) : wrap h (x + wrap h y) = wrap h (x + y) :=
  Int.add_bmod_bmod

theorem wrap_sub_wrap (h : ℕ) (x y : ℤ) : wrap h (x - wrap h y) = wrap h (x - y) :=
  Int.sub_bmod_bmod

theorem wrap_mul_wrap (h : ℕ) (x y : ℤ) : wrap h (wrap h x * y) = wrap h (x * y) :=
  Int.bmod_mul_bmod

/-- A natural number may be reduced first. -/
theorem wrap_mod (h : ℕ) (x : ℤ) (n : ℕ) :
    wrap h (x + ((n % (2 * h) : ℕ) : ℤ)) = wrap h (x + n) := by
  rw [wrap, wrap, Int.natCast_mod, Int.add_emod_bmod]

theorem wrap_sub_mod (h : ℕ) (x : ℤ) (n : ℕ) :
    wrap h (x - ((n % (2 * h) : ℕ) : ℤ)) = wrap h (x - n) := by
  rw [wrap, wrap, Int.natCast_mod, Int.sub_emod_bmod]

/-- One period off. -/
theorem wrap_sub_period (h : ℕ) (x : ℤ) : wrap h (x - 2 * h) = wrap h x := by
  have hper := Int.sub_bmod_right x (2 * h)
  rwa [Nat.cast_mul, Nat.cast_ofNat] at hper

theorem wrap_add_period (h : ℕ) (x : ℤ) : wrap h (x + 2 * h) = wrap h x := by
  have hper := Int.add_bmod_right x (2 * h)
  rwa [Nat.cast_mul, Nat.cast_ofNat] at hper

/-- A sum that leaves the range upwards comes out below what it was. -/
theorem wrap_add_lt (hr : r < h) (ha : a < 2 * h) (hout : h ≤ r + a) :
    wrap h ((r : ℤ) + a) < r := by
  rw [← wrap_sub_period, wrap_eq_self (by omega) (by omega)]
  omega

/-- And one that leaves it downwards comes out above. -/
theorem lt_wrap_sub (hr : r ≤ h) (ha : a < 2 * h) (hout : h < r + a) :
    -(r : ℤ) < wrap h (-(r : ℤ) - a) := by
  rw [← wrap_add_period, wrap_eq_self (by omega) (by omega)]
  omega

/-- A number is in a word of `w` bits as it is if and only if the sign bit is not needed. -/
theorem toInt_ofNat_iff {w : ℕ} (hw : 0 < w) (n : ℕ) :
    (BitVec.ofNat w n).toInt = n ↔ n < 2 ^ (w - 1) := by
  have hpow : 2 ^ w = 2 * 2 ^ (w - 1) := by
    rw [← Nat.pow_succ', Nat.succ_eq_add_one, Nat.sub_one_add_one hw.ne']
  constructor
  · intro heq
    have hlt := (BitVec.ofNat w n).toInt_lt
    rw [heq] at hlt
    exact_mod_cast hlt
  · intro hlt
    -- all of the number is in the word, and read without a sign
    have hword : (BitVec.ofNat w n).toNat = n := by
      rw [BitVec.toNat_ofNat, Nat.mod_eq_of_lt (by omega)]
    rw [BitVec.toInt_eq_toNat_of_lt (by omega), hword]

end Wrap

/-! ## The running sum -/

/-- A sum up or down. -/
def signed (neg : Bool) (x : ℤ) : ℤ := if neg then -x else x

/-- How far from 0 a sum can go. -/
def limit (h : ℕ) (neg : Bool) : ℕ := if neg then h else h - 1

/-- `prev`, and then the terms, one after the other; `none` when the sum has gone the
wrong way. -/
def addUp (h : ℕ) (neg : Bool) : ℤ → List ℤ → Option ℤ
  | prev, [] => some prev
  | prev, t :: ts =>
    let result := wrap h (if neg then prev - t else prev + t)
    if (if neg then prev < result else result < prev) then none else addUp h neg result ts

/-- The sum of the terms, each of them reduced. -/
def reduced (h : ℕ) : List ℕ → ℕ
  | [] => 0
  | n :: ns => n % (2 * h) + reduced h ns

/-- The true sum. -/
def total : List ℕ → ℕ
  | [] => 0
  | n :: ns => n + total ns

/-- Terms that fit are not changed by reducing them. -/
theorem reduced_eq_total {h : ℕ} {ns : List ℕ} (hlt : total ns < 2 * h) :
    reduced h ns = total ns := by
  induction ns with
  | nil => rfl
  | cons n ns ih =>
    rw [total] at hlt
    rw [reduced, total, ih (by omega), Nat.mod_eq_of_lt (by omega)]

theorem reduced_append (h : ℕ) (ns ns' : List ℕ) :
    reduced h (ns ++ ns') = reduced h ns + reduced h ns' := by
  induction ns with
  | nil => simp [reduced]
  | cons n ns ih => rw [List.cons_append, reduced, reduced, ih, Nat.add_assoc]

/-- One term: the sum goes on, or it goes the wrong way. -/
theorem addUp_cons {h : ℕ} (hpos : 0 < h) (neg : Bool) {r : ℕ} (hr : r ≤ limit h neg) (n : ℕ)
    (ts : List ℤ) :
    addUp h neg (signed neg r) (wrap h n :: ts) =
      if r + n % (2 * h) ≤ limit h neg then addUp h neg (signed neg ((r + n % (2 * h) : ℕ) : ℤ)) ts
      else none := by
  have ha : n % (2 * h) < 2 * h := Nat.mod_lt _ (by omega)
  cases neg with
  | false =>
    simp only [limit, signed, Bool.false_eq_true, if_false] at hr ⊢
    have hsum : wrap h ((r : ℤ) + wrap h n) = wrap h ((r : ℤ) + ((n % (2 * h) : ℕ) : ℤ)) := by
      rw [wrap_add_wrap, wrap_mod]
    simp only [addUp, Bool.false_eq_true, if_false, hsum]
    -- inside of the range nothing wraps; outside the sum goes the wrong way
    by_cases hin : r + n % (2 * h) ≤ h - 1
    · rw [if_pos hin, wrap_eq_self (by omega) (by omega), if_neg (by omega), Nat.cast_add]
    · rw [if_neg hin, if_pos (wrap_add_lt (by omega) ha (by omega))]
  | true =>
    simp only [limit, signed, if_true] at hr ⊢
    have hsum : wrap h (-(r : ℤ) - wrap h n) = wrap h (-(r : ℤ) - ((n % (2 * h) : ℕ) : ℤ)) := by
      rw [wrap_sub_wrap, wrap_sub_mod]
    simp only [addUp, if_true, hsum]
    by_cases hin : r + n % (2 * h) ≤ h
    · have hneg : -(r : ℤ) - ((n % (2 * h) : ℕ) : ℤ) = -((r + n % (2 * h) : ℕ) : ℤ) := by
        push_cast
        ring
      rw [if_pos hin, wrap_eq_self (by omega) (by omega), if_neg (by omega), hneg]
    · rw [if_neg hin, if_pos (lt_wrap_sub hr ha (by omega))]

/-- **What comparing successive sums detects**: that the sum of the reduced terms is out of
range. Otherwise that sum is the result. -/
theorem addUp_eq {h : ℕ} (hpos : 0 < h) (neg : Bool) {r : ℕ} (hr : r ≤ limit h neg) (ns : List ℕ) :
    addUp h neg (signed neg r) (ns.map fun n : ℕ => wrap h n) =
      if r + reduced h ns ≤ limit h neg then some (signed neg ((r + reduced h ns : ℕ) : ℤ))
      else none := by
  induction ns generalizing r with
  | nil =>
    rw [reduced, Nat.add_zero, if_pos hr]
    rfl
  | cons n ns ih =>
    rw [List.map_cons, addUp_cons hpos neg hr, reduced]
    by_cases hin : r + n % (2 * h) ≤ limit h neg
    · rw [if_pos hin, ih hin, Nat.add_assoc]
    · rw [if_neg hin, if_neg (by omega)]

end UnixNetProg.Wrapping

/-
Numbers as the bytes they have in memory.

`toBytes k x` is the number `x` in `k` bytes, the lowest one first, and
`ofBytes` is the number some bytes stand for. What is written and read back on
one machine is what it was, whatever the order of the bytes, so the order chosen
here does not matter to the programs.

`overwrite` is a buffer after bytes were read to its start, and `strncmp` compares
the strings at the start of two buffers.
-/
import Mathlib.Tactic.Common
import Mathlib.Tactic.Ring

set_option autoImplicit false

namespace UnixNetProg.Bytes

/-- A number in `k` bytes. -/
def toBytes : ℕ → ℕ → List UInt8
  | 0, _ => []
  | k + 1, x => UInt8.ofNat x :: toBytes k (x / 256)

/-- The number that the bytes stand for. -/
def ofBytes : List UInt8 → ℕ
  | [] => 0
  | b :: bs => b.toNat + 256 * ofBytes bs

@[simp] theorem length_toBytes (k x : ℕ) : (toBytes k x).length = k := by
  induction k generalizing x with
  | zero => rfl
  | succ k ih => rw [toBytes, List.length_cons, ih]

/-- What does not fit in the bytes is cut off. -/
theorem ofBytes_toBytes (k x : ℕ) : ofBytes (toBytes k x) = x % 256 ^ k := by
  induction k generalizing x with
  | zero => rw [toBytes, ofBytes, pow_zero, Nat.mod_one]
  | succ k ih =>
    have hlow : (UInt8.ofNat x).toNat = x % 256 := by simp
    rw [toBytes, ofBytes, ih, hlow, pow_succ, Nat.mul_comm (256 ^ k) 256, Nat.mod_mul]

/-- A word of `8 * k` bits in memory. -/
def ofWord (k : ℕ) (x : BitVec (8 * k)) : List UInt8 := toBytes k x.toNat

/-- The word that `k` bytes hold. -/
def toWord (k : ℕ) (bs : List UInt8) : BitVec (8 * k) := BitVec.ofNat (8 * k) (ofBytes bs)

@[simp] theorem length_ofWord (k : ℕ) (x : BitVec (8 * k)) : (ofWord k x).length = k :=
  length_toBytes k _

/-- **A word that is written and read back is the same word.** -/
@[simp] theorem toWord_ofWord (k : ℕ) (x : BitVec (8 * k)) : toWord k (ofWord k x) = x := by
  have hpow : 256 ^ k = 2 ^ (8 * k) := (pow_mul 2 8 k).symm
  rw [toWord, ofWord, ofBytes_toBytes, hpow, Nat.mod_eq_of_lt x.isLt, BitVec.ofNat_toNat,
    BitVec.setWidth_eq]

/-! ## Buffers and strings -/

/-- A buffer after `bs` was read to its start. -/
def overwrite (buffer bs : List UInt8) : List UInt8 := bs ++ buffer.drop bs.length

/-- The bytes of a text. -/
def ascii (s : String) : List UInt8 := s.toList.map fun c => c.toNat.toUInt8

/-- The array of `n` bytes that a text initializes: null bytes behind it. -/
def charArray (n : ℕ) (s : String) : List UInt8 :=
  ascii s ++ List.replicate (n - (ascii s).length) 0

theorem length_charArray {n : ℕ} {s : String} (h : (ascii s).length ≤ n) :
    (charArray n s).length = n := by
  rw [charArray, List.length_append, List.length_replicate]
  omega

/-- The array holds the string. -/
theorem prefix_charArray {n : ℕ} {s : String} (h : (ascii s).length < n) :
    ascii s ++ [0] <+: charArray n s := by
  obtain ⟨k, hk⟩ : ∃ k, n - (ascii s).length = k + 1 := ⟨n - (ascii s).length - 1, by omega⟩
  refine ⟨List.replicate k 0, ?_⟩
  rw [charArray, hk, List.replicate_succ, List.append_assoc]
  rfl

/-- `strncmp`: the difference of the first bytes that differ, up to a null byte in
both, and up to `n` bytes. The bytes past the end of a buffer are null. -/
def strncmp : ℕ → List UInt8 → List UInt8 → ℤ
  | 0, _, _ => 0
  | n + 1, a, b =>
    let x := a.headD 0
    let y := b.headD 0
    if x ≠ y then x.toNat - y.toNat
    else if x = 0 then 0
    else strncmp n a.tail b.tail

/-- **A string is found at the start of a buffer** if and only if its bytes are
there, the null byte included. -/
theorem strncmp_eq_zero_iff {t a : List UInt8} (ht : 0 ∉ t) (hlen : t.length < a.length) :
    strncmp (t.length + 1) a (t ++ [0]) = 0 ↔ t ++ [0] <+: a := by
  induction t generalizing a with
  | nil =>
    obtain ⟨x, a, rfl⟩ := List.exists_cons_of_length_pos hlen
    by_cases hx : x = 0
    · simp [strncmp, hx]
    · have hne : x.toNat ≠ 0 := fun h0 => hx (UInt8.toNat_inj.1 h0)
      simp [strncmp, hx, hne, Ne.symm hx]
  | cons y t ih =>
    obtain ⟨x, a, rfl⟩ := List.exists_cons_of_length_pos (Nat.zero_lt_of_lt hlen)
    rw [List.mem_cons, not_or] at ht
    have hrest := ih (a := a) ht.2 (by simpa using hlen)
    by_cases hxy : x = y
    · subst hxy
      have hx : x ≠ 0 := Ne.symm ht.1
      simpa [strncmp, hx, List.cons_prefix_cons] using hrest
    · have hne : (x.toNat : ℤ) - y.toNat ≠ 0 := by
        intro h0
        exact hxy (UInt8.toNat_inj.1 (by omega))
      simp [strncmp, hxy, hne, List.cons_prefix_cons, Ne.symm hxy]

end UnixNetProg.Bytes

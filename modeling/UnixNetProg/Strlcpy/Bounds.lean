/-
`strlcpy.c`: `my_strlcpy`.

The loop stores a character as long as `d_i` is less than `d_len`, and goes on to the end
of the source when there is no more room; the null goes to where `d_i` has come. A source
that fills the destination takes all `d_len` characters of it, and the null is stored
behind them.

The source is the object it is in, up to and with its null; nothing behind that is there
to be read. The destination is memory, so that a store outside of it would show, and the
indices that are stored to are recorded.
-/
import Mathlib.Data.Int.Notation
import UnixNetProg.Lib.Memory
import UnixNetProg.Lib.Strings

set_option autoImplicit false

namespace UnixNetProg.Strlcpy

open UnixNetProg.Memory UnixNetProg.Strings

/-! ## The program -/

/-- The destination, and the indices that were stored to. -/
structure Dest where
  mem : Mem UInt8
  stores : List ℕ

/-- `*(d + i) = c`. -/
def Dest.put (d : Dest) (i : ℕ) (c : UInt8) : Dest := ⟨store d.mem i [c], d.stores ++ [i]⟩

/-- What a call has returned, and the destination after it. -/
structure Result where
  ret : ℕ
  dest : Dest

/-- The loop of `my_strlcpy`, on what is left of the source; `none` where it reads behind
the end. -/
def my_strlcpy.loop (d_len : ℤ) (d_i : ℕ) (d : Dest) : List UInt8 → Option Result
  | [] => none
  | c :: s =>
    if c ≠ 0 then
      if d_i < d_len then my_strlcpy.loop d_len (d_i + 1) (d.put d_i c) s
      else my_strlcpy.loop d_len d_i d s
    else some ⟨d_i, d.put d_i 0⟩

/-- `my_strlcpy` (`strlcpy/strlcpy.c:10-22`). -/
def my_strlcpy (mem : Mem UInt8) (s : List UInt8) (d_len : ℤ) : Option Result :=
  my_strlcpy.loop d_len 0 ⟨mem, []⟩ s

/-- What `strlcpy` promises: nothing is stored outside of the `d_len` bytes, and they hold
as much of the source as fits with a null behind it, whose length is returned. -/
def Respects (mem : Mem UInt8) (s : CString (0 : UInt8)) (d_len : ℤ) : Prop :=
  ∃ r, my_strlcpy mem s.object d_len = some r ∧ (∀ i ∈ r.dest.stores, (i : ℤ) < d_len) ∧
    (r.ret : ℤ) = min (s.strlen : ℤ) (d_len - 1) ∧
    Holds r.dest.mem 0 (s.chars.take r.ret ++ [0])

/-! ## The loop -/

section Loop

variable {d_len : ℤ} {d_i : ℕ} {d : Dest} {s : List UInt8}

/-- Characters stored one behind the other. -/
def Dest.puts (d : Dest) (i : ℕ) (cs : List UInt8) : Dest :=
  ⟨store d.mem i cs, d.stores ++ List.range' i cs.length⟩

theorem put_eq_puts (d : Dest) (i : ℕ) (c : UInt8) : d.put i c = d.puts i [c] := rfl

theorem puts_puts (d : Dest) (i : ℕ) (c : UInt8) (cs : List UInt8) :
    (d.put i c).puts (i + 1) cs = d.puts i (c :: cs) := by
  have hmem : store (store d.mem i [c]) (i + 1) cs = store d.mem i (c :: cs) :=
    store_store d.mem i [c] cs
  rw [Dest.put, Dest.puts, Dest.puts, hmem, List.append_assoc, List.length_cons,
    List.range'_succ, List.singleton_append]

/-- How many of the characters that are left go into the destination. -/
def fits (d_len : ℤ) (d_i n : ℕ) : ℕ := min n (d_len.toNat - d_i)

/-- **What the loop does**: the characters that fit are stored, and a null behind them. -/
theorem loop_eq (hs : 0 ∉ s) : my_strlcpy.loop d_len d_i d (s ++ [0]) =
    some ⟨d_i + fits d_len d_i s.length,
      d.puts d_i (s.take (fits d_len d_i s.length) ++ [0])⟩ := by
  induction s generalizing d_i d with
  | nil =>
    rw [List.nil_append, my_strlcpy.loop, if_neg (by simp)]
    simp [fits, put_eq_puts]
  | cons c s ih =>
    obtain ⟨hc, hs⟩ := ne_of_cons hs
    rw [List.cons_append, my_strlcpy.loop, if_pos hc, List.length_cons]
    by_cases hroom : (d_i : ℤ) < d_len
    · -- the character is stored, and one fits less
      have hfits : fits d_len d_i (s.length + 1) = fits d_len (d_i + 1) s.length + 1 := by
        unfold fits
        omega
      rw [if_pos hroom, ih hs, hfits, List.take_succ_cons, List.cons_append, puts_puts]
      congr 2
      omega
    · -- nothing fits any more
      have hfull : ∀ n, fits d_len d_i n = 0 := by
        intro n
        unfold fits
        omega
      rw [if_neg hroom, ih hs, hfull, hfull, List.take_zero, List.take_zero]

theorem my_strlcpy_eq (mem : Mem UInt8) (s : CString (0 : UInt8)) (d_len : ℤ) :
    my_strlcpy mem s.object d_len = some ⟨min s.strlen d_len.toNat,
      store mem 0 (s.chars.take (min s.strlen d_len.toNat) ++ [0]),
      List.range (min s.strlen d_len.toNat + 1)⟩ := by
  have hloop := @loop_eq d_len 0 ⟨mem, []⟩ s.chars s.nul_notMem
  have hfits : fits d_len 0 s.chars.length = min s.strlen d_len.toNat := rfl
  have hlen : (s.chars.take (min s.strlen d_len.toNat)).length = min s.strlen d_len.toNat := by
    rw [List.length_take, CString.strlen]
    omega
  rw [hfits] at hloop
  rw [my_strlcpy, CString.object, hloop, Nat.zero_add, Dest.puts, List.length_append, hlen,
    List.nil_append, List.range_eq_range']
  rfl

end Loop

/-! ## The result -/

/-- **`my_strlcpy` respects the size of the destination if and only if the source is
shorter than that**: the null is stored behind a destination that the source fills. -/
theorem my_strlcpy_respects_iff (mem : Mem UInt8) (s : CString (0 : UInt8)) (d_len : ℤ) :
    Respects mem s d_len ↔ (s.strlen : ℤ) < d_len := by
  rw [Respects, my_strlcpy_eq]
  constructor
  · rintro ⟨r, hr, hstores, -⟩
    obtain rfl := Option.some.inj hr
    -- the null is the last thing that is stored
    have hlast := hstores (min s.strlen d_len.toNat) (List.mem_range.2 (Nat.lt_succ_self _))
    omega
  · intro hlt
    -- all of the source fits, and the null as well
    have hmin : min s.strlen d_len.toNat = s.strlen := by omega
    rw [hmin]
    refine ⟨_, rfl, ?_, ?_, ?_⟩
    · intro i hi
      rw [List.mem_range] at hi
      omega
    · simp only
      omega
    · exact holds_store mem 0 _

/-- A source as long as the destination. -/
theorem my_strlcpy_behind : ¬ Respects (fun _ => 7) ⟨[97, 98], by decide⟩ 2 := by
  rintro ⟨r, hr, hstores, -⟩
  obtain rfl := Option.some.inj hr
  have hlast := hstores 2 (by decide)
  omega

end UnixNetProg.Strlcpy

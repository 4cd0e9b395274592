/-
`my_writev`: the buffers are copied into one block, which is written in one piece.

The block is as long as the total of the lengths, which is a word of 32 bits without a
sign; the offset behind what has been copied is a word of 32 bits with one. Neither is the
sum of the lengths where that is too large, but every copy is as long as its buffer. Memory
goes on outside of the block, as in `Readv.Scatter`, and every range that is copied to is
recorded, with every value of the offset.

`malloc` and `write` answer as they like. The line that `my_writev` logs is left out.
-/
import UnixNetProg.Lib.Wrapping
import UnixNetProg.Readv.Scatter

set_option autoImplicit false

namespace UnixNetProg.Writev

open UnixNetProg.Memory.Heap UnixNetProg.Readv UnixNetProg.Wrapping

/-! ## The program -/

/-- An element of the array (`struct my_iovec`, `writev_readv/writev.c:8-11`): what is at
`address`, and how much of it there is. -/
structure My_iovec where
  address : ℕ → UInt8
  buff_length : Size

/-- The buffer. -/
def My_iovec.bytes (v : My_iovec) : List UInt8 := (List.range v.buff_length.toNat).map v.address

def memcpy (heap : Heap) (off : ℤ) (bs : List UInt8) : Heap := store heap off bs

/-- After the second loop: memory, the ranges that were copied to, and `seek`, each time the
loop is tested. -/
structure Copied where
  heap : Heap
  copies : List Access
  seeks : List ℤ

/-- The second loop. -/
def gather (heap : Heap) : Size → List My_iovec → Copied
  | seek, [] => ⟨heap, [], [seek.toInt]⟩
  | seek, v :: iov =>
    let r := gather (memcpy heap seek.toInt v.bytes) (seek + v.buff_length) iov
    ⟨r.heap, ⟨seek.toInt, v.buff_length.toNat⟩ :: r.copies, seek.toInt :: r.seeks⟩

inductive Outcome
  | returned (ret : Size)
  | exited (msg : String)
  deriving DecidableEq, Repr

/-- A call: the length of the block, the second loop, what `write` is given, if it is
called, and the end. -/
structure Run where
  block : ℕ
  copied : Copied
  written : Option (List UInt8)
  outcome : Outcome

/-- `malloc` gets a block of some sizes, and `write` returns some number. -/
structure Kernel where
  malloc : ℕ → Bool
  write : List UInt8 → ℤ

/-- `my_writev` (`writev_readv/writev.c:41-84`). -/
def my_writev (k : Kernel) (heap : Heap) (iov : List My_iovec) : Run :=
  let total_buffer_size := Readv.total_buffer_size (iov.map My_iovec.buff_length)
  let block := total_buffer_size.toNat
  if k.malloc block = false then
    ⟨0, ⟨heap, [], []⟩, none, .exited
      "[malloc error] Failed to initialize the buffer to store all iovec's data.\n"⟩
  else
    let copied := gather heap 0 iov
    let bs := load copied.heap 0 block
    let write_ret := BitVec.ofInt 32 (k.write bs)
    ⟨block, copied, some bs,
      if write_ret ≠ total_buffer_size then
        .exited "[write error] Failed to write everything to the given descriptor.\n"
      else .returned write_ret⟩

/-! ## What it should do -/

/-- The sum of the lengths. -/
def length (iov : List My_iovec) : ℕ := size (iov.map My_iovec.buff_length)

/-- Every copy is inside of the block, the offset is always the length of what has been
copied, and `write` is given the buffers one after the other. -/
structure Gathers (iov : List My_iovec) (r : Run) : Prop where
  inside : ∀ a ∈ r.copied.copies, a.len = 0 ∨ 0 ≤ a.off ∧ a.off + a.len ≤ r.block
  seeks : ∀ (i : ℕ) (seek : ℤ), r.copied.seeks[i]? = some seek → seek = length (iov.take i)
  written : ∀ bs, r.written = some bs → bs = iov.flatMap My_iovec.bytes ∧ bs.length = length iov

section Lengths

variable {v : My_iovec} {iov : List My_iovec}

@[simp] theorem length_bytes (v : My_iovec) : v.bytes.length = v.buff_length.toNat := by
  simp [My_iovec.bytes]

@[simp] theorem length_nil : length [] = 0 := rfl

@[simp] theorem length_cons (v : My_iovec) (iov : List My_iovec) :
    length (v :: iov) = v.buff_length.toNat + length iov := rfl

theorem length_flatMap_bytes (iov : List My_iovec) :
    (iov.flatMap My_iovec.bytes).length = length iov := by
  induction iov with
  | nil => rfl
  | cons v iov ih => rw [List.flatMap_cons, List.length_append, length_bytes, ih, length_cons]

/-- Behind some bytes, what is copied to their offset comes next. -/
theorem memcpy_store (heap : Heap) (pre bs : List UInt8) :
    memcpy (store heap 0 pre) (pre.length : ℕ) bs = store heap 0 (pre ++ bs) := by
  have hbehind := store_store heap 0 pre bs
  rw [Int.zero_add] at hbehind
  exact hbehind

/-- A number that fits in an `int` is in the word as it is. -/
theorem toInt_ofNat {n : ℕ} (h : n < 2 ^ 31) : (BitVec.ofNat 32 n).toInt = n :=
  (toInt_ofNat_iff (by decide) n).2 h

end Lengths

/-! ## The second loop -/

section Loop

variable {heap : Heap} {pre : List UInt8} {iov : List My_iovec}

/-- **While the sum fits in an `int`** the buffers get behind one another, every copy ends
before the sum, and the offset is a sum. -/
theorem gather_eq (heap : Heap) (pre : List UInt8) (iov : List My_iovec)
    (hsum : pre.length + length iov < 2 ^ 31) :
    (gather (store heap 0 pre) (BitVec.ofNat 32 pre.length) iov).heap =
        store heap 0 (pre ++ iov.flatMap My_iovec.bytes) ∧
    (∀ a ∈ (gather (store heap 0 pre) (BitVec.ofNat 32 pre.length) iov).copies,
      0 ≤ a.off ∧ a.off + a.len ≤ (pre.length + length iov : ℕ)) ∧
    ∀ (i : ℕ) (seek : ℤ),
      (gather (store heap 0 pre) (BitVec.ofNat 32 pre.length) iov).seeks[i]? = some seek →
        seek = (pre.length + length (iov.take i) : ℕ) := by
  induction iov generalizing pre with
  | nil =>
    refine ⟨by simp [gather], by simp [gather], fun i seek hseek => ?_⟩
    rw [gather, toInt_ofNat (by simpa using hsum)] at hseek
    cases i with
    | zero =>
      cases hseek
      simp
    | succ i => simp at hseek
  | cons v iov ih =>
    rw [length_cons] at hsum
    have hint := toInt_ofNat (show pre.length < 2 ^ 31 by omega)
    -- the rest of the loop, behind this buffer
    have hlen : (pre ++ v.bytes).length = pre.length + v.buff_length.toNat := by
      rw [List.length_append, length_bytes]
    have hword : BitVec.ofNat 32 pre.length + v.buff_length =
        BitVec.ofNat 32 (pre ++ v.bytes).length := by
      rw [hlen, BitVec.ofNat_add, BitVec.ofNat_toNat, BitVec.setWidth_eq]
    obtain ⟨hheap, hcopies, hseeks⟩ := @ih (pre ++ v.bytes) (by rw [hlen]; omega)
    rw [gather, hint, memcpy_store, hword]
    refine ⟨?_, ?_, ?_⟩
    · rw [hheap, List.flatMap_cons, List.append_assoc]
    · rw [List.forall_mem_cons]
      constructor
      · -- this buffer
        simp only [length_cons]
        omega
      · -- the ones behind it
        intro a ha
        have hin := hcopies a ha
        rw [hlen] at hin
        rw [length_cons]
        omega
    · intro i seek hseek
      cases i with
      | zero =>
        cases hseek
        simp
      | succ i =>
        have hat := hseeks i seek hseek
        rw [hlen] at hat
        rw [hat, List.take_succ_cons, length_cons, Nat.add_assoc]

/-- The same from the start of the block. -/
theorem gather_zero (heap : Heap) (iov : List My_iovec) (hsum : length iov < 2 ^ 31) :
    (gather heap 0 iov).heap = store heap 0 (iov.flatMap My_iovec.bytes) ∧
    (∀ a ∈ (gather heap 0 iov).copies, 0 ≤ a.off ∧ a.off + a.len ≤ (length iov : ℕ)) ∧
    ∀ (i : ℕ) (seek : ℤ), (gather heap 0 iov).seeks[i]? = some seek →
      seek = (length (iov.take i) : ℕ) := by
  have hloop := gather_eq heap [] iov (by simpa using hsum)
  simp only [List.length_nil, Nat.zero_add, List.nil_append, store_nil] at hloop
  exact hloop

/-- At its end the offset is the word that the sum is. -/
theorem seeks_last (heap : Heap) (seek : Size) (iov : List My_iovec) :
    ∃ last : Size, (gather heap seek iov).seeks[iov.length]? = some last.toInt ∧
      last.toNat = (seek.toNat + length iov) % 2 ^ 32 := by
  induction iov generalizing heap seek with
  | nil =>
    refine ⟨seek, rfl, ?_⟩
    rw [length_nil, Nat.add_zero, Nat.mod_eq_of_lt seek.isLt]
  | cons v iov ih =>
    obtain ⟨last, hlast, hsum⟩ := ih (memcpy heap seek.toInt v.bytes) (seek + v.buff_length)
    refine ⟨last, hlast, ?_⟩
    rw [hsum, BitVec.toNat_add, length_cons, Nat.mod_add_mod, Nat.add_assoc]

/-- **A block that is shorter than the sum is overrun.** -/
theorem gather_overruns (heap : Heap) (seek : Size) (iov : List My_iovec) {block : ℕ}
    (hblock : block < 2 ^ 32) (hseek : seek.toNat ≤ block)
    (hsum : block < seek.toNat + length iov) :
    ∃ a ∈ (gather heap seek iov).copies, ¬ (a.len = 0 ∨ 0 ≤ a.off ∧ a.off + a.len ≤ block) := by
  induction iov generalizing heap seek with
  | nil =>
    rw [length_nil] at hsum
    omega
  | cons v iov ih =>
    rw [length_cons] at hsum
    by_cases hfits : seek.toNat + v.buff_length.toNat ≤ block
    · have hnext : (seek + v.buff_length).toNat = seek.toNat + v.buff_length.toNat := by
        rw [BitVec.toNat_add, Nat.mod_eq_of_lt (by omega)]
      obtain ⟨a, ha, hout⟩ := ih (memcpy heap seek.toInt v.bytes) (seek + v.buff_length)
        (by omega) (by omega)
      exact ⟨a, List.mem_cons_of_mem _ ha, hout⟩
    · -- this is the copy that leaves the block, at its end or in front of it
      refine ⟨_, List.mem_cons_self, ?_⟩
      simp only [BitVec.toInt_eq_toNat_cond]
      split_ifs <;> omega

end Loop

/-! ## The whole function -/

section Results

variable {k : Kernel} {heap : Heap} {iov : List My_iovec}

/-- The block is as long as the sum, up to multiples of `2 ^ 32`. -/
theorem block_eq (iov : List My_iovec) :
    (Readv.total_buffer_size (iov.map My_iovec.buff_length)).toNat = length iov % 2 ^ 32 :=
  toNat_total _

/-- Without a block nothing is copied. -/
theorem gathers_of_malloc (h : k.malloc (length iov % 2 ^ 32) = false) :
    Gathers iov (my_writev k heap iov) := by
  have heq : my_writev k heap iov = ⟨0, ⟨heap, [], []⟩, none, .exited
      "[malloc error] Failed to initialize the buffer to store all iovec's data.\n"⟩ := by
    rw [my_writev, block_eq]
    exact if_pos h
  rw [heq]
  exact ⟨by simp, by simp, by simp⟩

/-- With one, the second loop runs, and all of the block is written. -/
theorem my_writev_eq (h : k.malloc (length iov % 2 ^ 32) ≠ false) :
    ∃ outcome, my_writev k heap iov =
      ⟨length iov % 2 ^ 32, gather heap 0 iov,
        some (load (gather heap 0 iov).heap 0 (length iov % 2 ^ 32)), outcome⟩ := by
  rw [my_writev, block_eq]
  exact ⟨_, if_neg h⟩

/-- **`my_writev` gathers correctly and in bounds if and only if the lengths come to less
than `2 ^ 31`**, or there is no block. -/
theorem my_writev_gathers_iff (k : Kernel) (heap : Heap) (iov : List My_iovec) :
    Gathers iov (my_writev k heap iov) ↔
      length iov < 2 ^ 31 ∨ k.malloc (length iov % 2 ^ 32) = false := by
  by_cases hmalloc : k.malloc (length iov % 2 ^ 32) = false
  · exact ⟨fun _ => .inr hmalloc, fun _ => gathers_of_malloc hmalloc⟩
  · obtain ⟨outcome, heq⟩ := @my_writev_eq k heap iov hmalloc
    rw [heq]
    constructor
    · -- the last value of the offset is an `int`
      intro h
      obtain ⟨last, hlast, -⟩ := seeks_last heap 0 iov
      have hsum := h.seeks _ _ hlast
      rw [List.take_length] at hsum
      have hint := last.toInt_lt
      left
      omega
    · rintro (hlt | h)
      · -- nothing wraps around, and what is written is what has been copied
        obtain ⟨hheap, hcopies, hseeks⟩ := gather_zero heap iov hlt
        have hmod : length iov % 2 ^ 32 = length iov := Nat.mod_eq_of_lt (by omega)
        have hlen := length_flatMap_bytes iov
        refine ⟨fun a ha => .inr ?_, hseeks, fun bs hbs => ?_⟩
        · rw [hmod]
          exact hcopies a ha
        · obtain rfl := Option.some.inj hbs
          have hall : load (store heap 0 (iov.flatMap My_iovec.bytes)) 0 (length iov) =
              iov.flatMap My_iovec.bytes := by
            have hle : 0 + length iov ≤ (iov.flatMap My_iovec.bytes).length := by omega
            have hload := load_store heap 0 hle
            rw [List.drop_zero, List.take_of_length_le (by omega)] at hload
            exact hload
          rw [hmod, hheap, hall]
          exact ⟨rfl, hlen⟩
      · exact absurd h hmalloc

end Results

/-- Two buffers of `2 ^ 31` bytes: the block has no byte at all, and the second buffer is
copied to an offset in front of it. -/
theorem my_writev_overruns : ¬ Gathers [⟨fun _ => 7, 0x80000000⟩, ⟨fun _ => 7, 0x80000000⟩]
    (my_writev ⟨fun _ => true, fun _ => 0⟩ (fun _ => 0)
      [⟨fun _ => 7, 0x80000000⟩, ⟨fun _ => 7, 0x80000000⟩]) := by
  intro h
  have hseek := h.seeks 1 (-2147483648) rfl
  revert hseek
  decide

end UnixNetProg.Writev

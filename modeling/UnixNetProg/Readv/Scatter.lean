/-
`my_readv`: the buffers are filled from one block, which is read first.

The block is allocated with `sizeof` of the total, which is the size of a `my_size_t`: four
bytes, whatever the total. Every load and store of the block is recorded, and memory goes
on outside of it, so that what is read and written there can be said.

`read` gets some of what was asked for and there, one byte at least, and it does not fail;
`malloc` succeeds. Lengths and sums of lengths are words of 32 bits, and the offset from
which a buffer is copied is such a word read as an `int`.
-/
import Mathlib.Algebra.Ring.Nat
import UnixNetProg.Lib.Memory

set_option autoImplicit false

namespace UnixNetProg.Readv

open UnixNetProg.Memory.Heap

/-! ## The program -/

/-- `my_size_t`. -/
abbrev Size := BitVec 32

/-- `sizeof(total_buffer_size)`. -/
def SIZEOF : ℕ := 4

/-- Some bytes of the block are loaded or stored. -/
structure Access where
  off : ℤ
  len : ℕ
  deriving DecidableEq, Repr

/-- All of them are in the block. -/
def Access.Inside (a : Access) : Prop := a.len = 0 ∨ 0 ≤ a.off ∧ a.off + a.len ≤ SIZEOF

/-- Memory, by the offset from the block. -/
abbrev Heap := Memory.Heap UInt8

/-- The total of the `buff_length` fields, as it is computed. -/
def total_buffer_size (iov : List Size) : Size := iov.foldl (fun total len => total + len) 0

/-- After the first loop: memory, what is left in the stream, `read_seek`, and what was
stored; `none` is a loop that ended the process. -/
structure Filled where
  heap : Heap
  stream : List UInt8
  read_seek : ℕ

/-- The first loop. `reads` says how many bytes more than one each `read` is ready to get. -/
def fill (reads : ℕ → ℕ) (call read_seek read_left : ℕ) (heap : Heap) (stream : List UInt8) :
    Option Filled × List Access :=
  let read_ret := min (min (reads call + 1) read_left) stream.length
  let access : Access := ⟨read_seek, read_ret⟩
  if hend : read_ret = 0 ∧ 0 < read_left then (none, [access])
  else
    let heap := store heap read_seek (stream.take read_ret)
    let stream := stream.drop read_ret
    if hleft : read_left - read_ret = 0 then (some ⟨heap, stream, read_seek + read_ret⟩, [access])
    else
      have : read_left - read_ret < read_left := by omega
      let r := fill reads (call + 1) (read_seek + read_ret) (read_left - read_ret) heap stream
      (r.1, access :: r.2)
termination_by read_left

/-- `getchar` up to a newline; it goes on for ever where there is none. -/
def flush (stream : List UInt8) : Option (List UInt8) :=
  if 10 ∈ stream then some (stream.dropWhile (· != 10)).tail else none

/-- The last loop: what each buffer gets, and what was loaded. -/
def scatter (heap : Heap) : Size → List Size → List (List UInt8) × List Access
  | _, [] => ([], [])
  | seek, len :: iov =>
    let r := scatter heap (seek + len) iov
    (load heap seek.toInt len.toNat :: r.1, ⟨seek.toInt, len.toNat⟩ :: r.2)

/-- What `my_readv` returns, with the buffers and what is left in the stream. -/
structure Returned where
  ret : ℕ
  buffers : List (List UInt8)
  stream : List UInt8

/-- `my_readv` (`writev_readv/readv.c:20-92`) on descriptor `fd`; where it does not return there
is no value, but there may have been accesses. -/
def my_readv (reads : ℕ → ℕ) (fd : ℕ) (iov : List Size) (heap : Heap) (stream : List UInt8) :
    Option Returned × List Access :=
  let r := fill reads 0 0 (total_buffer_size iov).toNat heap stream
  match r.1 with
  | none => (none, r.2)
  | some filled =>
    match if fd = 0 then flush filled.stream else some filled.stream with
    | none => (none, r.2)
    | some stream =>
      let s := scatter filled.heap 0 iov
      (some ⟨filled.read_seek, s.1, stream⟩, r.2 ++ s.2)

/-! ## What it should do -/

/-- How many bytes the buffers hold together. -/
def size : List Size → ℕ
  | [] => 0
  | len :: iov => len.toNat + size iov

/-- Every access is inside of the block, and what is returned is the total, with the
buffers holding the stream one after the other. -/
structure Right (iov : List Size) (stream : List UInt8) (r : Option Returned × List Access) :
    Prop where
  inside : ∀ a ∈ r.2, a.Inside
  ret : ∀ v, r.1 = some v → v.ret = size iov
  buffers : ∀ v, r.1 = some v → v.buffers.length = iov.length ∧
    ∀ (i : ℕ) (len : Size), iov[i]? = some len →
      v.buffers[i]? = some ((stream.drop (size (iov.take i))).take len.toNat)

theorem size_append (iov iov' : List Size) : size (iov ++ iov') = size iov + size iov' := by
  induction iov with
  | nil => simp [size]
  | cons len iov ih => simp only [List.cons_append, size, ih, Nat.add_assoc]

/-- The total is the sum, up to multiples of `2 ^ 32`. -/
theorem toNat_total (iov : List Size) : (total_buffer_size iov).toNat = size iov % 2 ^ 32 := by
  have hfold : ∀ (iov : List Size) (t : Size),
      (iov.foldl (fun total len => total + len) t).toNat = (t.toNat + size iov) % 2 ^ 32 := by
    intro iov
    induction iov with
    | nil =>
      intro t
      rw [List.foldl_nil, size, Nat.add_zero, Nat.mod_eq_of_lt t.isLt]
    | cons len iov ih =>
      intro t
      rw [List.foldl_cons, ih, BitVec.toNat_add, size, Nat.mod_add_mod, Nat.add_assoc]
  rw [total_buffer_size, hfold]
  simp

/-! ## The first loop -/

theorem inside_iff {off len : ℕ} (h : 0 < len) :
    Access.Inside ⟨(off : ℤ), len⟩ ↔ off + len ≤ SIZEOF := by
  simp only [Access.Inside]
  omega

/-- **The first loop reads all that was asked for**, however it is split; and its stores are
inside of the block if and only if the last byte is. -/
theorem fill_eq (reads : ℕ → ℕ) (call seek left : ℕ) (heap : Heap) (stream : List UInt8)
    (hlen : left ≤ stream.length) :
    ∃ accesses, fill reads call seek left heap stream =
        (some ⟨store heap seek (stream.take left), stream.drop left, seek + left⟩, accesses) ∧
      ((∀ a ∈ accesses, a.Inside) ↔ left = 0 ∨ seek + left ≤ SIZEOF) := by
  -- by induction on what is left to read: every call gets a byte at least
  induction left using Nat.strongRecOn generalizing call seek heap stream with
  | _ left ih =>
    obtain ⟨n, hn⟩ : ∃ n, n = min (min (reads call + 1) left) stream.length := ⟨_, rfl⟩
    have htake : (stream.take n).length = n := by
      rw [List.length_take]
      omega
    have hend : ¬ (n = 0 ∧ 0 < left) := by omega
    rw [fill]
    simp only [← hn]
    rw [dif_neg hend]
    by_cases hleft : left - n = 0
    · obtain rfl : n = left := by omega
      rw [dif_pos hleft]
      refine ⟨_, rfl, ?_⟩
      rw [List.forall_mem_singleton]
      by_cases hzero : n = 0
      · simp [hzero, Access.Inside]
      · rw [inside_iff (by omega)]
        omega
    · -- the stores are side by side, so that they are one of all the bytes
      obtain ⟨accesses, heq, hin⟩ := ih (left - n) (by omega) (call + 1) (seek + n)
        (store heap seek (stream.take n)) (stream.drop n) (by rw [List.length_drop]; omega)
      have hstore := store_store heap seek (stream.take n) ((stream.drop n).take (left - n))
      rw [htake, ← List.take_add, Nat.add_sub_cancel' (by omega), ← Int.natCast_add] at hstore
      rw [dif_neg hleft, heq]
      refine ⟨⟨(seek : ℤ), n⟩ :: accesses, ?_, ?_⟩
      · rw [hstore, List.drop_drop, Nat.add_sub_cancel' (by omega), Nat.add_assoc,
          Nat.add_sub_cancel' (by omega)]
      · rw [List.forall_mem_cons, hin, inside_iff (by omega)]
        omega

/-! ## The last loop -/

/-- The buffers get the bytes one after the other, as long as all of them are in the block. -/
theorem scatter_eq (heap : Heap) (bs : List UInt8) (iov : List Size) (seek : Size)
    (hlen : seek.toNat + size iov ≤ bs.length) (hsize : seek.toNat + size iov ≤ SIZEOF) :
    (scatter (store heap 0 bs) seek iov).1.length = iov.length ∧
    ∀ (i : ℕ) (len : Size), iov[i]? = some len →
      (scatter (store heap 0 bs) seek iov).1[i]? =
        some ((bs.drop (seek.toNat + size (iov.take i))).take len.toNat) := by
  induction iov generalizing seek with
  | nil => exact ⟨rfl, fun i len hi => by simp at hi⟩
  | cons len iov ih =>
    rw [size] at hlen hsize
    -- inside of the block, the running offset does not wrap
    have hseek : (seek + len).toNat = seek.toNat + len.toNat := by
      rw [BitVec.toNat_add, Nat.mod_eq_of_lt]
      simp only [SIZEOF] at hsize
      omega
    have hint : seek.toInt = (seek.toNat : ℤ) := by
      rw [BitVec.toInt_eq_toNat_of_lt]
      simp only [SIZEOF] at hsize
      omega
    obtain ⟨hlen', hrest⟩ := ih (seek + len) (by omega) (by omega)
    rw [scatter]
    refine ⟨by rw [List.length_cons, hlen', List.length_cons], fun i len' hi => ?_⟩
    cases i with
    | zero =>
      obtain rfl : len = len' := by simpa using hi
      have hpiece : load (store heap 0 bs) (0 + seek.toNat) len.toNat =
          (bs.drop seek.toNat).take len.toNat := load_store heap 0 (by omega)
      rw [Int.zero_add] at hpiece
      rw [hint, hpiece]
      rfl
    | succ i =>
      rw [List.getElem?_cons_succ] at hi ⊢
      rw [hrest i len' hi, hseek, List.take_succ_cons, size, Nat.add_assoc]

/-- **Its loads are inside of the block if and only if the last byte is.** -/
theorem scatter_inside (heap : Heap) (iov : List Size) (seek : Size) (hseek : seek.toNat ≤ SIZEOF) :
    (∀ a ∈ (scatter heap seek iov).2, a.Inside) ↔ seek.toNat + size iov ≤ SIZEOF := by
  induction iov generalizing seek with
  | nil => simp [scatter, size, hseek]
  | cons len iov ih =>
    have hint : seek.toInt = (seek.toNat : ℤ) := by
      rw [BitVec.toInt_eq_toNat_of_lt]
      simp only [SIZEOF] at hseek
      omega
    have hfirst : Access.Inside ⟨(seek.toNat : ℤ), len.toNat⟩ ↔
      seek.toNat + len.toNat ≤ SIZEOF := by
      by_cases hzero : len.toNat = 0
      · simp [hzero, Access.Inside, hseek]
      · exact inside_iff (by omega)
    rw [scatter, List.forall_mem_cons, hint, hfirst, size]
    by_cases hin : seek.toNat + len.toNat ≤ SIZEOF
    · have hnext : (seek + len).toNat = seek.toNat + len.toNat := by
        rw [BitVec.toNat_add, Nat.mod_eq_of_lt]
        simp only [SIZEOF] at hin
        omega
      rw [ih (seek + len) (by omega), hnext]
      omega
    · -- the running offset has left the block for good
      constructor
      · rintro ⟨h, -⟩
        exact absurd h hin
      · intro h
        omega

/-! ## The whole function -/

section Results

variable {reads : ℕ → ℕ} {fd : ℕ} {iov : List Size} {heap : Heap} {stream : List UInt8}

/-- `my_readv` on standard input goes on for ever: nothing that follows ends a line. -/
def Hangs (fd : ℕ) (iov : List Size) (stream : List UInt8) : Prop :=
  fd = 0 ∧ 10 ∉ stream.drop (size iov % 2 ^ 32)

/-- How `my_readv` comes out, after a first loop that stores inside of the block or not. -/
theorem my_readv_eq (hlen : size iov ≤ stream.length) :
    ∃ accesses, ((∀ a ∈ accesses, a.Inside) ↔ size iov % 2 ^ 32 ≤ SIZEOF) ∧
      (Hangs fd iov stream → my_readv reads fd iov heap stream = (none, accesses)) ∧
      (¬ Hangs fd iov stream → ∃ left, my_readv reads fd iov heap stream =
        (some ⟨size iov % 2 ^ 32,
          (scatter (store heap 0 (stream.take (size iov % 2 ^ 32))) 0 iov).1, left⟩,
          accesses ++ (scatter (store heap 0 (stream.take (size iov % 2 ^ 32))) 0 iov).2)) := by
  have hle : size iov % 2 ^ 32 ≤ stream.length := Nat.le_trans (Nat.mod_le _ _) hlen
  obtain ⟨accesses, heq, hin⟩ := fill_eq reads 0 0 (size iov % 2 ^ 32) heap stream hle
  rw [Nat.zero_add] at heq hin
  refine ⟨accesses, ?_, ?_, ?_⟩
  · rw [hin]
    omega
  · rintro ⟨hfd, hnone⟩
    simp only [my_readv, toNat_total, heq, hfd, if_true, flush, if_neg hnone]
  · intro hnot
    simp only [my_readv, toNat_total, heq]
    by_cases hfd : fd = 0
    · have hmem : 10 ∈ stream.drop (size iov % 2 ^ 32) := by
        by_contra hnone
        exact hnot ⟨hfd, hnone⟩
      rw [if_pos hfd, flush, if_pos hmem]
      exact ⟨_, rfl⟩
    · rw [if_neg hfd]
      exact ⟨_, rfl⟩

/-- With all that was asked for in the block, the buffers hold the stream. -/
theorem scatter_buffers (hlen : size iov ≤ stream.length) (hsize : size iov ≤ SIZEOF) :
    (scatter (store heap 0 (stream.take (size iov))) 0 iov).1.length = iov.length ∧
    ∀ (i : ℕ) (len : Size), iov[i]? = some len →
      (scatter (store heap 0 (stream.take (size iov))) 0 iov).1[i]? =
        some ((stream.drop (size (iov.take i))).take len.toNat) := by
  have htake : (stream.take (size iov)).length = size iov := by
    rw [List.length_take, Nat.min_eq_left hlen]
  have hbuffers := scatter_eq heap (stream.take (size iov)) iov 0
    (by rw [htake]; simp) (by simpa using hsize)
  refine ⟨hbuffers.1, fun i len hi => ?_⟩
  -- the buffer ends before the total does, so the `take` makes no difference to it
  have hpart := size_append (iov.take i) (iov.drop i)
  rw [List.take_append_drop] at hpart
  have hrest : len.toNat ≤ size (iov.drop i) := by
    obtain ⟨hlt, rfl⟩ := List.getElem?_eq_some_iff.1 hi
    rw [List.drop_eq_getElem_cons hlt, size]
    exact Nat.le_add_right _ _
  have hzero : BitVec.toNat (0 : Size) = 0 := rfl
  rw [hbuffers.2 i len hi, hzero, Nat.zero_add, List.drop_take, List.take_take,
    Nat.min_eq_left (by omega)]

/-- **`my_readv` scatters correctly and in bounds if and only if the buffers hold no more
than `sizeof(my_size_t)` bytes together**, or it does not get to the last loop, and the
first one has stored no more than that. -/
theorem my_readv_right_iff (hlen : size iov ≤ stream.length) :
    Right iov stream (my_readv reads fd iov heap stream) ↔
      size iov ≤ SIZEOF ∨ Hangs fd iov stream ∧ size iov % 2 ^ 32 ≤ SIZEOF := by
  obtain ⟨accesses, hin, hhangs, hreturns⟩ := @my_readv_eq reads fd iov heap stream hlen
  by_cases hh : Hangs fd iov stream
  · -- nothing is returned, so what counts is what the first loop has stored
    rw [hhangs hh]
    constructor
    · intro h
      exact .inr ⟨hh, hin.1 h.inside⟩
    · intro h
      have hmod : size iov % 2 ^ 32 ≤ SIZEOF := by
        rcases h with h | ⟨-, h⟩
        · exact Nat.le_trans (Nat.mod_le _ _) h
        · exact h
      refine ⟨hin.2 hmod, ?_, ?_⟩
      · intro v hv
        cases hv
      · intro v hv
        cases hv
  · obtain ⟨left, heq⟩ := hreturns hh
    have hscatter := scatter_inside (store heap 0 (stream.take (size iov % 2 ^ 32))) iov 0
      (by simp [SIZEOF])
    have hzero : BitVec.toNat (0 : Size) = 0 := rfl
    rw [hzero, Nat.zero_add] at hscatter
    rw [heq]
    constructor
    · -- the last loop goes to the end of the buffers, whatever the first one has read
      intro h
      refine .inl (hscatter.1 fun a ha => h.inside a ?_)
      exact List.mem_append_right _ ha
    · rintro (h | ⟨h, -⟩)
      · have hmod : size iov % 2 ^ 32 = size iov := by
          apply Nat.mod_eq_of_lt
          simp only [SIZEOF] at h
          omega
        refine ⟨?_, ?_, ?_⟩
        · intro a ha
          rcases List.mem_append.1 ha with ha | ha
          · exact hin.2 (by rw [hmod]; exact h) a ha
          · exact hscatter.2 h a ha
        · intro v hv
          cases hv
          exact hmod
        · intro v hv
          cases hv
          rw [hmod]
          exact scatter_buffers hlen h
      · exact absurd h hh

end Results

/-- Two buffers of two bytes, from a file. -/
theorem my_readv_right_iff_fits :
    Right [2, 2] [1, 2, 3, 4, 5] (my_readv (fun _ => 0) 3 [2, 2] (fun _ => 0) [1, 2, 3, 4, 5]) ↔
      size [2, 2] ≤ SIZEOF ∨ Hangs 3 [2, 2] [1, 2, 3, 4, 5] ∧ size [2, 2] % 2 ^ 32 ≤ SIZEOF :=
  my_readv_right_iff (by decide)

/-- Two buffers of ten bytes, as in `main`: the bytes behind the fourth are stored behind the
block. -/
theorem my_readv_overruns : ¬ Right [10, 10] (List.replicate 20 7)
    (my_readv (fun _ => 99) 3 [10, 10] (fun _ => 0) (List.replicate 20 7)) := by
  intro h
  obtain ⟨accesses, hin, -, hreturns⟩ := @my_readv_eq (fun _ => 99) 3 [10, 10] (fun _ => 0)
    (List.replicate 20 7) (by decide)
  obtain ⟨left, heq⟩ := hreturns fun hh => absurd hh.1 (by decide)
  rw [heq] at h
  have hsize := hin.1 fun a ha => h.inside a (List.mem_append_left _ ha)
  revert hsize
  decide

end UnixNetProg.Readv

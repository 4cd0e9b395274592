/-
`my_readv` when a `read` fails.

What `read` returns is stored in a `my_size_t`, which has no sign: -1 becomes the largest
one, the test for a negative value is never true, and the two counters go one step back.
`Readv.Scatter` is about reads that do not fail, and has the counters as numbers; here they
are the words that they are in the program, and every `read` is a step, so that one may
fail at any point. Where none fails the two agree (`reach_of_fill`).

`malloc` succeeds. The bytes that `getchar` gets after the loop are arbitrary.
-/
import UnixNetProg.Lib.Runs
import UnixNetProg.Readv.Scatter

set_option autoImplicit false

namespace UnixNetProg.Readv

open UnixNetProg.Memory.Heap UnixNetProg.Runs

/-! ## The program -/

/-- The answer to a `read`: some bytes, or -1. -/
inductive Answer
  | gets (bs : List UInt8)
  | fails
  deriving DecidableEq, Repr

/-- What the answer is in `read_ret`. -/
def Answer.ret : Answer → Size
  | .gets bs => BitVec.ofNat 32 bs.length
  | .fails => BitVec.ofInt 32 (-1)

/-- The block after it. -/
def Answer.stored (heap : Heap) (seek : Size) : Answer → Heap
  | .gets bs => store heap seek.toNat bs
  | .fails => heap

/-- No `read` gets more than it asked for. -/
def Answer.Fits (left : Size) : Answer → Prop
  | .gets bs => bs.length ≤ left.toNat
  | .fails => True

instance (left : Size) (r : Answer) : Decidable (r.Fits left) := by
  unfold Answer.Fits
  split <;> infer_instance

/-- Where `my_readv` is: before a `read`, before a `getchar`, or before the last loop. -/
inductive At
  | read
  | getchar
  | copy
  | returned (ret : Size)
  | exited (msg : String)
  deriving DecidableEq, Repr

/-- `buffers` is what the caller's buffers have got, if they have got anything. -/
structure World where
  heap : Heap
  read_seek : Size
  read_left : Size
  pc : At
  buffers : Option (List (List UInt8))

def READ_FAILED : String := "[read error] Failed to read from the given descriptor.\n"

def READ_EOF : String := "[read error] reached the end of file but buffer is not full.\n"

/-- Before the first `read`. -/
def start (iov : List Size) (heap : Heap) : World where
  heap := heap
  read_seek := 0
  read_left := total_buffer_size iov
  pc := .read
  buffers := none

/-- Behind the first loop. -/
def behind (fd : ℕ) : At := if fd = 0 then .getchar else .copy

/-- A turn of the first loop (`writev_readv/readv.c:39-60`). -/
def World.turn (w : World) (fd : ℕ) (r : Answer) : World :=
  let read_ret := r.ret
  if read_ret < 0 then { w with pc := .exited READ_FAILED }
  else if read_ret = 0 ∧ 0 < w.read_left then { w with pc := .exited READ_EOF }
  else
    { w with
      heap := r.stored w.heap w.read_seek
      read_seek := w.read_seek + read_ret
      read_left := w.read_left - read_ret
      pc := if w.read_left - read_ret = 0 then behind fd else .read }

/-- What a run does: a `read` with its answer, a `getchar` with the character it gets, and
the last loop. -/
inductive Act
  | read (r : Answer)
  | getchar (c : UInt8)
  | copy

def World.step (fd : ℕ) (iov : List Size) (w : World) : Act → Option World
  | .read r => if w.pc = .read ∧ r.Fits w.read_left then some (w.turn fd r) else none
  | .getchar c =>
    if w.pc = .getchar then some { w with pc := if c ≠ 10 then .getchar else .copy } else none
  | .copy =>
    if w.pc = .copy then
      some { w with buffers := some (scatter w.heap 0 iov).1, pc := .returned w.read_seek }
    else none

/-- `my_readv` on descriptor `fd`. -/
def machine (fd : ℕ) (iov : List Size) : Machine World Act where
  init := fun w => ∃ heap, w = start iov heap
  step := World.step fd iov

/-- The `read`s get something, if they ask for something. -/
def successful (w : World) (a : Act) : Prop :=
  match a with
  | .read (.gets bs) => bs = [] → w.read_left = 0
  | .read .fails => False
  | .getchar _ | .copy => True

instance (w : World) (a : Act) : Decidable (successful w a) := by
  unfold successful
  split <;> infer_instance

/-! ## A turn of the loop -/

section Turn

variable {fd : ℕ} {iov : List Size} {w w' : World} {a : Act}

/-- A word is never less than 0. -/
theorem turn_eq (w : World) (fd : ℕ) (r : Answer) : w.turn fd r =
    if r.ret = 0 ∧ 0 < w.read_left then { w with pc := .exited READ_EOF }
    else
      { w with
        heap := r.stored w.heap w.read_seek
        read_seek := w.read_seek + r.ret
        read_left := w.read_left - r.ret
        pc := if w.read_left - r.ret = 0 then behind fd else .read } := by
  have hneg : ¬ r.ret < 0 := BitVec.not_lt_zero
  simp only [World.turn, if_neg hneg]

/-- The largest word is what takes 1 away. -/
theorem ret_fails : Answer.fails.ret = -1 := rfl

/-- **A `read` that fails takes the counters one step back**, and the loop goes on. -/
theorem turn_fails (w : World) (fd : ℕ) : w.turn fd .fails =
    { w with
      read_seek := w.read_seek - 1
      read_left := w.read_left + 1
      pc := if w.read_left + 1 = 0 then behind fd else .read } := by
  have hseek : w.read_seek + -1 = w.read_seek - 1 := (BitVec.sub_eq_add_neg _ _).symm
  have hleft : w.read_left - -1 = w.read_left + 1 := by
    rw [BitVec.sub_eq_add_neg, BitVec.neg_neg]
  have hne : ¬ ((-1 : Size) = 0 ∧ 0 < w.read_left) := by
    rintro ⟨h, -⟩
    exact absurd h (by decide)
  rw [turn_eq, ret_fails, if_neg hne, hseek, hleft]
  rfl

/-- The two counters come to the total, up to multiples of `2 ^ 32`. -/
def Balanced (iov : List Size) (w : World) : Prop :=
  w.read_seek + w.read_left = total_buffer_size iov

theorem Balanced.turn (h : Balanced iov w) (fd : ℕ) (r : Answer) : Balanced iov (w.turn fd r) := by
  rw [turn_eq]
  split
  · exact h
  · -- what one of them gets the other one loses
    have hsum : w.read_seek + r.ret + (w.read_left - r.ret) = w.read_seek + w.read_left := by
      rw [BitVec.sub_eq_add_neg, BitVec.add_assoc, BitVec.add_comm r.ret, BitVec.add_assoc,
        BitVec.add_comm _ r.ret, BitVec.add_neg_eq_sub, BitVec.sub_self, BitVec.add_zero]
    exact hsum.trans h

theorem turn_pc_ne (w : World) (fd : ℕ) (r : Answer) : (w.turn fd r).pc ≠ .exited READ_FAILED := by
  rw [turn_eq]
  split
  · simp [READ_EOF, READ_FAILED]
  · simp only [behind]
    split_ifs <;> simp

end Turn

/-! ## Every run -/

section Runs

variable {fd : ℕ} {iov : List Size} {w : World}

/-- **However the `read`s come out, a failure is never reported.** -/
theorem never_reported (h : (machine fd iov).Reach (fun _ _ => True) w) :
    Balanced iov w ∧ w.pc ≠ .exited READ_FAILED := by
  apply h.invariant (I := fun w => Balanced iov w ∧ w.pc ≠ .exited READ_FAILED)
  · rintro _ ⟨heap, rfl⟩
    refine ⟨?_, by simp [start]⟩
    exact BitVec.zero_add _
  · intro w a w' _ hw _ hs
    cases a with
    | read r =>
      simp only [machine, World.step] at hs
      split_ifs at hs
      obtain rfl := Option.some.inj hs
      exact ⟨hw.1.turn fd r, turn_pc_ne w fd r⟩
    | getchar c =>
      simp only [machine, World.step] at hs
      split_ifs at hs
      all_goals
        obtain rfl := Option.some.inj hs
        exact ⟨hw.1, by simp⟩
    | copy =>
      simp only [machine, World.step] at hs
      split_ifs at hs
      obtain rfl := Option.some.inj hs
      exact ⟨hw.1, by simp⟩

/-- In the first loop, with the counters as numbers. -/
def reading (heap : Heap) (seek left : ℕ) : World where
  heap := heap
  read_seek := BitVec.ofNat 32 seek
  read_left := BitVec.ofNat 32 left
  pc := .read
  buffers := none

/-- A `read` that gets some bytes. -/
theorem step_gets (fd : ℕ) (iov : List Size) {heap : Heap} {seek left : ℕ} {bs : List UInt8}
    (hle : bs.length ≤ left) (hsum : seek + left < 2 ^ 32) (hsome : ¬ (bs.length = 0 ∧ 0 < left)) :
    successful (reading heap seek left) (.read (.gets bs)) ∧
    (reading heap seek left).step fd iov (.read (.gets bs)) =
      some { reading (store heap seek bs) (seek + bs.length) (left - bs.length) with
        pc := if left - bs.length = 0 then behind fd else .read } := by
  -- nothing wraps below the total
  have hword : ∀ {k : ℕ}, k ≤ seek + left → (BitVec.ofNat 32 k).toNat = k := by
    intro k hk
    rw [BitVec.toNat_ofNat, Nat.mod_eq_of_lt (by omega)]
  have hzero : ∀ {k : ℕ}, k ≤ seek + left → (BitVec.ofNat 32 k = 0 ↔ k = 0) := by
    intro k hk
    rw [← BitVec.toNat_inj, hword hk]
    rfl
  have hpos : 0 < BitVec.ofNat 32 left ↔ 0 < left := by
    rw [BitVec.lt_def, hword (by omega)]
    rfl
  have hfits : (Answer.gets bs).Fits (BitVec.ofNat 32 left) := by
    rw [Answer.Fits, hword (by omega)]
    exact hle
  have hsub : BitVec.ofNat 32 left - BitVec.ofNat 32 bs.length =
      BitVec.ofNat 32 (left - bs.length) :=
    BitVec.ofNat_sub_ofNat_of_le left _ (by omega) hle
  have hgoes : ¬ ((Answer.gets bs).ret = 0 ∧ 0 < (reading heap seek left).read_left) := by
    rw [Answer.ret, reading, hzero (by omega), hpos]
    exact hsome
  constructor
  · intro hnil
    rw [reading, hzero (by omega)]
    subst hnil
    by_contra hleft
    exact hsome ⟨rfl, Nat.pos_of_ne_zero hleft⟩
  · rw [World.step, if_pos ⟨rfl, hfits⟩, turn_eq, if_neg hgoes]
    simp only [reading, Answer.ret, Answer.stored, hsub, hzero (show left - bs.length ≤ _ by omega),
      hword (show seek ≤ _ by omega), BitVec.ofNat_add]

/-- **Where no `read` fails, the run is the one of `fill`.** -/
theorem reach_of_fill (fd : ℕ) (iov : List Size) {reads : ℕ → ℕ} {call seek left : ℕ} {heap : Heap}
    {stream : List UInt8} {filled : Filled} (hsum : seek + left < 2 ^ 32)
    (h : (fill reads call seek left heap stream).1 = some filled) :
    ((machine fd iov).startedAt (reading heap seek left)).Reach successful
      { reading filled.heap filled.read_seek 0 with pc := behind fd } := by
  induction left using Nat.strongRecOn generalizing call seek heap stream with
  | _ left ih =>
    obtain ⟨n, hn⟩ : ∃ n, n = min (min (reads call + 1) left) stream.length := ⟨_, rfl⟩
    have hlen : (stream.take n).length = n := by
      rw [List.length_take]
      omega
    rw [fill] at h
    simp only [← hn] at h
    split_ifs at h with hend hleft
    all_goals
      obtain ⟨hok, hstep⟩ := @step_gets fd iov heap seek left (stream.take n)
        (by omega) hsum (by rwa [hlen])
      rw [hlen] at hstep
    · -- the last turn
      rw [if_pos hleft, hleft] at hstep
      obtain rfl := Option.some.inj h
      exact .step (.init rfl) hok hstep
    · rw [if_neg hleft] at hstep
      have hfirst := Machine.Reach.step (M := (machine fd iov).startedAt _) (.init rfl) hok hstep
      exact hfirst.append (ih (left - n) (by omega) (by omega) h)

/-- Behind the first loop `my_readv` can go on to the last one, and return. -/
theorem reach_returned (fd : ℕ) (iov : List Size) {w : World} (hpc : w.pc = behind fd) :
    ((machine fd iov).startedAt w).Reach successful
      { w with buffers := some (scatter w.heap 0 iov).1, pc := .returned w.read_seek } := by
  have hcopy : ((machine fd iov).startedAt w).Reach successful { w with pc := .copy } := by
    by_cases hfd : fd = 0
    · -- the line ends at once
      have hat : w.pc = .getchar := by rw [hpc, behind, if_pos hfd]
      have hs : w.step fd iov (.getchar 10) = some { w with pc := .copy } := by
        rw [World.step, if_pos hat, if_neg (by decide)]
      exact .step (.init rfl) (a := .getchar 10) trivial hs
    · have hat : w.pc = .copy := by rw [hpc, behind, if_neg hfd]
      rw [← hat]
      exact .init rfl
  exact hcopy.step (a := .copy) trivial rfl

/-- What `my_readv` returns where no `read` fails can be returned here. -/
theorem reach_of_my_readv {reads : ℕ → ℕ} {fd : ℕ} {iov : List Size} {heap : Heap}
    {stream : List UInt8} {v : Returned} (h : (my_readv reads fd iov heap stream).1 = some v) :
    ∃ w, (machine fd iov).Reach successful w ∧ w.pc = .returned (BitVec.ofNat 32 v.ret) ∧
      w.buffers = some v.buffers := by
  have hstart : start iov heap = reading heap 0 (total_buffer_size iov).toNat := by
    simp [start, reading]
  have hsum : 0 + (total_buffer_size iov).toNat < 2 ^ 32 := by
    rw [Nat.zero_add]
    exact (total_buffer_size iov).isLt
  have hinit : (machine fd iov).Reach successful (start iov heap) := .init ⟨heap, rfl⟩
  simp only [my_readv] at h
  cases hfill : (fill reads 0 0 (total_buffer_size iov).toNat heap stream).1 with
  | none =>
    rw [hfill] at h
    cases h
  | some filled =>
    rw [hfill] at h
    simp only at h
    -- where standard input is not drained there is no result
    split at h
    · cases h
    · cases h
      have hloop := reach_of_fill fd iov hsum hfill
      rw [← hstart] at hloop
      exact ⟨_, (hinit.append hloop).append (reach_returned fd iov rfl), rfl, rfl⟩

/-- What it should do when the next `read` fails: it says so and exits, so that nothing is
read or copied any more, and the counters are between 0 and the total. -/
def Notices (fd : ℕ) (iov : List Size) (w : World) : Prop :=
  ∃ w', w.step fd iov (.read .fails) = some w' ∧ w'.pc = .exited READ_FAILED ∧
    (∀ a, w'.step fd iov a = none) ∧ w'.buffers = none ∧
    w'.read_seek ≤ total_buffer_size iov ∧ w'.read_left ≤ total_buffer_size iov

/-- **A `read` that fails is not noticed**, whatever has been read before it: the counters
go one step back, and `my_readv` reads on, or, where that makes `read_left` 0, goes on to
the caller's buffers. -/
theorem read_error_unnoticed (h : (machine fd iov).Reach successful w) (hpc : w.pc = .read) :
    ¬ Notices fd iov w ∧ ∃ w', w.step fd iov (.read .fails) = some w' ∧
      w'.read_seek = w.read_seek - 1 ∧ w'.read_left = w.read_left + 1 ∧
      (w'.pc = .read ∨ w.read_left + 1 = 0 ∧ w'.pc = behind fd) := by
  have hstep : w.step fd iov (.read .fails) = some (w.turn fd .fails) := if_pos ⟨hpc, trivial⟩
  constructor
  · rintro ⟨w', hs, hexit, -⟩
    have hreach : (machine fd iov).Reach (fun _ _ => True) w' :=
      .step (h.mono fun _ _ _ => trivial) (a := .read .fails) trivial hs
    exact (never_reported hreach).2 hexit
  · refine ⟨_, hstep, ?_⟩
    rw [turn_fails]
    refine ⟨rfl, rfl, ?_⟩
    split
    · exact .inr ⟨‹_›, rfl⟩
    · exact .inl rfl

end Runs

/-- Two buffers of two bytes from a file; one byte has been read. -/
def oneByte : World := (start [2, 2] fun _ => 0).turn 3 (.gets [7])

theorem reach_oneByte : (machine 3 [2, 2]).Reach successful oneByte := by
  have hstep : (start [2, 2] fun _ => 0).step 3 [2, 2] (.read (.gets [7])) = some oneByte := by
    rw [World.step, if_pos ⟨rfl, by decide⟩, oneByte]
  exact .step (.init ⟨_, rfl⟩) (a := .read (.gets [7])) (fun h => by cases h) hstep

theorem read_error_unnoticed_oneByte :
    ∃ w', oneByte.step 3 [2, 2] (.read .fails) = some w' ∧ w'.read_seek = 0 ∧ w'.read_left = 4 := by
  obtain ⟨w', hs, hseek, hleft, -⟩ := (read_error_unnoticed reach_oneByte (by decide)).2
  refine ⟨w', hs, ?_, ?_⟩
  · rw [hseek]
    decide
  · rw [hleft]
    decide

/-- The first byte is read over again. -/
theorem read_error_missed : (machine 3 [2, 2]).Reach successful oneByte ∧ oneByte.pc = .read ∧
    ¬ Notices 3 [2, 2] oneByte := by
  refine ⟨reach_oneByte, by decide, ?_⟩
  rintro ⟨w', hs, hexit, -⟩
  have hpc : w'.pc = .read := by
    obtain rfl := Option.some.inj hs
    decide
  rw [hpc] at hexit
  cases hexit

end UnixNetProg.Readv

/-
`12_open_file/open_file.c`: the loop that copies the file.

The loop goes on until `read` returns 0. The -1 of an error is not 0, and it is at most
128, so it is taken for data: `write` is called with it, it is added to the total, and
the loop goes on. Where `read` fails from some call on, that is for ever.

A call of `read` gets the next chunk of the file, or it is at the end of it, or it fails from
there on. `write` may take a part of what it is given, which the loop does not notice; a count
of -1 is larger than any object, and the kernel refuses it. `total_bytes_stored` is an
`int`, a word of 32 bits. The clone has just been created; the log lines are left out.
-/
import Mathlib.Logic.Function.Iterate
import UnixNetProg.Lib.Wrapping

set_option autoImplicit false

namespace UnixNetProg.OpenFile

open UnixNetProg.Wrapping

/-! ## The program -/

/-- `sizeof (read_buf)`. -/
def SIZEOF : ℕ := 128

/-- The answer to a `write`. -/
inductive Wrote
  | takes (k : ℕ)
  | fails
  deriving DecidableEq, Repr

/-- The source, in the chunks that the calls of `read` get; what is left where it `fails`
behind them; and the answers to the calls of `write`. -/
structure Env where
  chunks : List (List UInt8)
  fails : Bool
  rest : List UInt8
  writes : ℕ → Wrote
  chunk_pos : ∀ c ∈ chunks, 0 < c.length
  chunk_le : ∀ c ∈ chunks, c.length ≤ SIZEOF
  all_read : fails = false → rest = []

/-- The content of the source. -/
def Env.content (e : Env) : List UInt8 := e.chunks.flatten ++ e.rest

inductive Call
  | read (ret : ℤ)
  | write (nbytes : ℤ) (ret : ℤ)
  deriving DecidableEq, Repr

/-- `turn` is the number of turns so far. -/
structure State where
  turn : ℕ
  read_buf : List UInt8
  clone : List UInt8
  total_bytes_stored : BitVec 32
  calls : List Call
  ended : Bool

def start (read_buf : List UInt8) : State := ⟨0, read_buf, [], 0, [], false⟩

/-- `read(src_file_descriptor, read_buf, 128)`. -/
def State.read (e : Env) (s : State) : ℤ × State :=
  match e.chunks[s.turn]? with
  | some c =>
    (c.length, { s with
      read_buf := c ++ s.read_buf.drop c.length
      calls := s.calls ++ [.read c.length] })
  | none =>
    if e.fails then (-1, { s with calls := s.calls ++ [.read (-1)] })
    else (0, { s with calls := s.calls ++ [.read 0] })

/-- `write(clone_file_descriptor, read_buf, nbytes)`. -/
def State.write (e : Env) (nbytes : ℤ) (s : State) : State :=
  if nbytes < 0 then { s with calls := s.calls ++ [.write nbytes (-1)] }
  else
    match e.writes s.turn with
    | .takes k =>
      let ret : ℕ := min k nbytes.toNat
      { s with
        clone := s.clone ++ s.read_buf.take ret
        calls := s.calls ++ [.write nbytes ret] }
    | .fails => { s with calls := s.calls ++ [.write nbytes (-1)] }

/-- A turn of the loop of `main` (`12_open_file/open_file.c:59-67`). -/
def turn (e : Env) (s : State) : State :=
  if s.ended then s
  else
    let (check_read_flags, s) := s.read e
    let s := if check_read_flags ≤ 128 then s.write e check_read_flags else s
    { s with
      turn := s.turn + 1
      total_bytes_stored := s.total_bytes_stored + BitVec.ofInt 32 check_read_flags
      ended := check_read_flags = 0 }

/-- After `n` turns. -/
def turns (e : Env) (read_buf : List UInt8) (n : ℕ) : State := (turn e)^[n] (start read_buf)

/-! ## What should hold -/

/-- A call has failed. -/
def State.ReadFailed (s : State) : Prop := .read (-1) ∈ s.calls

def State.WriteFailed (s : State) : Prop := ∃ nbytes, .write nbytes (-1) ∈ s.calls

/-- The loop ends; the clone and the total are right if no call has failed; and nothing is
written behind a failed `read`. -/
structure Copies (e : Env) (read_buf : List UInt8) : Prop where
  ends : ∃ n, (turns e read_buf n).ended = true
  copied : ∀ n, (turns e read_buf n).ended = true → ¬ (turns e read_buf n).ReadFailed →
    ¬ (turns e read_buf n).WriteFailed → (turns e read_buf n).clone = e.content ∧
      (turns e read_buf n).total_bytes_stored.toInt = e.content.length
  quiet : ∀ n before behind, (turns e read_buf n).calls = before ++ .read (-1) :: behind →
    ∀ nbytes ret, .write nbytes ret ∉ behind

/-- Call `i` of `write` takes everything. -/
def Env.Whole (e : Env) (i : ℕ) : Prop :=
  ∀ c, e.chunks[i]? = some c → ∃ k, e.writes i = .takes k ∧ c.length ≤ k

/-! ## A turn of the loop -/

section Turns

variable {e : Env} {s : State} {n : ℕ} {c : List UInt8}

/-- What `write` does with a chunk. -/
def Env.taken (e : Env) (i : ℕ) (c : List UInt8) : List UInt8 :=
  match e.writes i with
  | .takes k => c.take k
  | .fails => []

/-- What `write` returns for `n` bytes. -/
def Env.ret (e : Env) (i n : ℕ) : ℤ :=
  match e.writes i with
  | .takes k => (min k n : ℕ)
  | .fails => -1

/-- `write` with a count that is not negative, and at least as many bytes in the buffer. -/
theorem write_eq (hc : c <+: s.read_buf) : s.write e c.length =
    { s with
      clone := s.clone ++ e.taken s.turn c
      calls := s.calls ++ [.write c.length (e.ret s.turn c.length)] } := by
  obtain ⟨rest, hbuf⟩ := hc
  have htake : ∀ k, s.read_buf.take (min k c.length) = c.take k := by
    intro k
    rw [← hbuf, List.take_append_of_le_length (Nat.min_le_right _ _)]
    exact List.take_eq_take_min.symm
  unfold State.write Env.taken Env.ret
  rw [if_neg (Int.not_lt.2 (Int.natCast_nonneg _)), Int.toNat_natCast]
  cases e.writes s.turn with
  | takes k => simp only [htake]
  | fails => simp only [List.append_nil]

/-- A turn with a chunk. -/
theorem turn_chunk (hgoing : s.ended = false) (hc : e.chunks[s.turn]? = some c) :
    turn e s = ⟨s.turn + 1, c ++ s.read_buf.drop c.length, s.clone ++ e.taken s.turn c,
      s.total_bytes_stored + BitVec.ofNat 32 c.length,
      s.calls ++ [.read c.length, .write c.length (e.ret s.turn c.length)], false⟩ := by
  have hmem := List.mem_of_getElem? hc
  have hpos := e.chunk_pos c hmem
  have hle : (c.length : ℤ) ≤ 128 := Int.ofNat_le.2 (e.chunk_le c hmem)
  have hne : (c.length : ℤ) ≠ 0 := by omega
  have hgo : ¬ s.ended = true := by simp [hgoing]
  -- the chunk is at the start of the buffer when it is written
  have hwrite := @write_eq e { s with
    read_buf := c ++ s.read_buf.drop c.length
    calls := s.calls ++ [.read c.length] } c (List.prefix_append c _)
  rw [turn, if_neg hgo]
  simp only [State.read, hc, if_pos hle, decide_eq_false hne, hwrite, List.append_assoc,
    List.cons_append, List.nil_append, BitVec.ofInt_natCast]

/-- The turn at the end of the file. -/
theorem turn_eof (hgoing : s.ended = false) (hc : e.chunks[s.turn]? = none)
    (hfails : e.fails = false) :
    turn e s = ⟨s.turn + 1, s.read_buf, s.clone, s.total_bytes_stored,
      s.calls ++ [.read 0, .write 0 (e.ret s.turn 0)], true⟩ := by
  have hgo : ¬ s.ended = true := by simp [hgoing]
  have htaken : e.taken s.turn [] = [] := by
    unfold Env.taken
    split <;> simp
  have hwrite : State.write e 0 { s with calls := s.calls ++ [.read 0] } = _ :=
    write_eq (c := []) List.nil_prefix
  rw [turn, if_neg hgo]
  simp only [State.read, hc, hfails, Bool.false_eq_true, if_false]
  rw [if_pos (by decide), hwrite]
  simp [htaken]

/-- A turn in which `read` fails: the loop goes on. -/
theorem turn_fails (hgoing : s.ended = false) (hc : e.chunks[s.turn]? = none)
    (hfails : e.fails = true) : (turn e s).ended = false ∧ (turn e s).turn = s.turn + 1 := by
  have hgo : ¬ s.ended = true := by simp [hgoing]
  rw [turn, if_neg hgo]
  simp only [State.read, hc, hfails, if_true]
  rw [if_pos (by decide), State.write, if_pos (by decide)]
  exact ⟨rfl, rfl⟩

theorem length_taken_le (e : Env) (i : ℕ) (c : List UInt8) : (e.taken i c).length ≤ c.length := by
  unfold Env.taken
  split
  · exact List.length_take_le' _ _
  · exact Nat.zero_le _

/-- Everything is taken if and only if `write` could take as much. -/
theorem taken_eq_iff (hc : e.chunks[n]? = some c) : e.taken n c = c ↔ e.Whole n := by
  have hpos := e.chunk_pos c (List.mem_of_getElem? hc)
  unfold Env.taken Env.Whole
  simp only [hc, Option.some.injEq, forall_eq']
  cases e.writes n with
  | takes k =>
    show c.take k = c ↔ _
    constructor
    · intro htake
      have hlen := congrArg List.length htake
      rw [List.length_take] at hlen
      exact ⟨k, rfl, by omega⟩
    · rintro ⟨k', heq, hle⟩
      cases heq
      exact List.take_of_length_le hle
  | fails =>
    show [] = c ↔ _
    apply iff_of_false
    · rintro rfl
      exact absurd hpos (Nat.lt_irrefl 0)
    · rintro ⟨k, heq, -⟩
      cases heq

theorem ret_eq_iff (e : Env) (i n : ℕ) : e.ret i n = -1 ↔ e.writes i = .fails := by
  unfold Env.ret
  cases e.writes i with
  | takes k =>
    show ((min k n : ℕ) : ℤ) = -1 ↔ _
    apply iff_of_false
    · omega
    · intro heq
      cases heq
  | fails => exact iff_of_true rfl rfl

end Turns

/-! ## Runs -/

section Runs

variable {e : Env} {s : State} {n : ℕ} {c : List UInt8}

/-- What `n` calls of `read` have got. -/
def Env.got (e : Env) (n : ℕ) : List UInt8 := (e.chunks.take n).flatten

theorem got_succ (hc : e.chunks[n]? = some c) : e.got (n + 1) = e.got n ++ c := by
  rw [Env.got, Env.got, List.take_add_one, hc, Option.toList_some, List.flatten_append,
    List.flatten_singleton]

/-- After `n` turns, each with a chunk. -/
structure After (e : Env) (n : ℕ) (s : State) : Prop where
  turn : s.turn = n
  going : s.ended = false
  total : s.total_bytes_stored = BitVec.ofNat 32 (e.got n).length
  short : s.clone.length ≤ (e.got n).length
  whole : s.clone = e.got n ↔ ∀ i < n, e.Whole i
  read : ¬ s.ReadFailed
  failed : s.WriteFailed ↔ ∃ i < n, e.writes i = .fails

theorem After.start (e : Env) (read_buf : List UInt8) : After e 0 (start read_buf) where
  turn := rfl
  going := rfl
  total := rfl
  short := Nat.le_refl 0
  whole := by simp [OpenFile.start, Env.got]
  read := by simp [OpenFile.start, State.ReadFailed]
  failed := by simp [OpenFile.start, State.WriteFailed]

/-- The calls of one more turn. -/
theorem failed_append {s' : State} {nbytes nread ret : ℤ} (hread : nread ≠ -1)
    (hcalls : s'.calls = s.calls ++ [.read nread, .write nbytes ret]) :
    (s'.ReadFailed ↔ s.ReadFailed) ∧ (s'.WriteFailed ↔ s.WriteFailed ∨ ret = -1) := by
  unfold State.ReadFailed State.WriteFailed
  simp only [hcalls, List.mem_append, List.mem_cons, List.not_mem_nil, or_false, reduceCtorEq,
    false_or, Call.read.injEq, Call.write.injEq, exists_or, hread.symm]
  refine ⟨trivial, or_congr_right ?_⟩
  constructor
  · rintro ⟨_, -, hret⟩
    exact hret.symm
  · intro hret
    exact ⟨nbytes, rfl, hret.symm⟩

/-- One more chunk. -/
theorem After.chunk (h : After e n s) (hc : e.chunks[n]? = some c) :
    After e (n + 1) (OpenFile.turn e s) := by
  have hgot := got_succ hc
  have hlen := length_taken_le e n c
  have hshort := h.short
  have hturn := turn_chunk h.going (by rw [h.turn, hc])
  rw [h.turn] at hturn
  obtain ⟨hread, hfailed⟩ := @failed_append s (OpenFile.turn e s) _ _ _ (by omega)
    (congrArg State.calls hturn)
  refine ⟨?_, ?_, ?_, ?_, ?_, ?_, ?_⟩
  · rw [hturn]
  · rw [hturn]
  · rw [hturn, h.total, hgot, List.length_append, BitVec.ofNat_add]
  · rw [hturn, hgot, List.length_append, List.length_append]
    omega
  · rw [hturn, hgot, Nat.forall_lt_succ_right, ← h.whole, ← taken_eq_iff hc]
    constructor
    · intro heq
      -- neither part is longer than it should be, so neither is shorter
      have hsum := congrArg List.length heq
      rw [List.length_append, List.length_append] at hsum
      exact List.append_inj heq (by omega)
    · rintro ⟨hclone, htaken⟩
      rw [hclone, htaken]
  · rw [hread]
    exact h.read
  · rw [hfailed, h.failed, ret_eq_iff, Nat.exists_lt_succ_right]

theorem turns_succ (e : Env) (read_buf : List UInt8) (n : ℕ) :
    turns e read_buf (n + 1) = turn e (turns e read_buf n) :=
  Function.iterate_succ_apply' _ _ _

/-- **As long as there are chunks** every turn gets one. -/
theorem After.run (e : Env) (read_buf : List UInt8) (hn : n ≤ e.chunks.length) :
    After e n (turns e read_buf n) := by
  induction n with
  | zero => exact After.start e read_buf
  | succ n ih =>
    rw [turns_succ]
    exact (ih (by omega)).chunk (List.getElem?_eq_getElem hn)

/-- Behind them `read` fails again and again, and the loop never ends. -/
theorem turns_of_fails (hfails : e.fails = true) (read_buf : List UInt8) (k : ℕ) :
    (turns e read_buf (e.chunks.length + k)).ended = false ∧
      (turns e read_buf (e.chunks.length + k)).turn = e.chunks.length + k := by
  induction k with
  | zero =>
    have hafter := After.run e read_buf (Nat.le_refl e.chunks.length)
    exact ⟨hafter.going, hafter.turn⟩
  | succ k ih =>
    have hnone : e.chunks[e.chunks.length + k]? = none := List.getElem?_eq_none (by omega)
    have hturn := turn_fails ih.1 (by rw [ih.2, hnone]) hfails
    rw [← Nat.add_assoc, turns_succ]
    exact ⟨hturn.1, by rw [hturn.2, ih.2]⟩

theorem turns_of_ended {read_buf : List UInt8} (hended : (turns e read_buf n).ended = true)
    (k : ℕ) : turns e read_buf (n + k) = turns e read_buf n := by
  induction k with
  | zero => rfl
  | succ k ih => rw [← Nat.add_assoc, turns_succ, ih, turn, if_pos hended]

/-- After the turn in which `read` returns 0. -/
structure Done (e : Env) (s : State) : Prop where
  ended : s.ended = true
  total : s.total_bytes_stored = BitVec.ofNat 32 e.content.length
  whole : s.clone = e.content ↔ ∀ i < e.chunks.length, e.Whole i
  read : ¬ s.ReadFailed
  failed : s.WriteFailed ↔ ∃ i ≤ e.chunks.length, e.writes i = .fails

theorem Done.turn (hfails : e.fails = false) (h : After e e.chunks.length s) :
    Done e (OpenFile.turn e s) := by
  have hnone : e.chunks[e.chunks.length]? = none := List.getElem?_eq_none (Nat.le_refl _)
  have hturn := turn_eof h.going (by rw [h.turn, hnone]) hfails
  have hcontent : e.got e.chunks.length = e.content := by
    rw [Env.got, Env.content, List.take_length, e.all_read hfails, List.append_nil]
  rw [h.turn] at hturn
  obtain ⟨hread, hfailed⟩ := @failed_append s (OpenFile.turn e s) _ _ _ (by decide)
    (congrArg State.calls hturn)
  refine ⟨?_, ?_, ?_, ?_, ?_⟩
  · rw [hturn]
  · rw [hturn, h.total, hcontent]
  · rw [hturn, ← hcontent]
    exact h.whole
  · rw [hread]
    exact h.read
  · rw [hfailed, h.failed, ret_eq_iff, ← Nat.exists_lt_succ_right]
    simp only [Nat.lt_succ_iff]

/-- Where no `read` fails the loop ends behind the last chunk, and stays so. -/
theorem Done.run (hfails : e.fails = false) (read_buf : List UInt8) (k : ℕ) :
    Done e (turns e read_buf (e.chunks.length + 1 + k)) := by
  have hdone : Done e (turns e read_buf (e.chunks.length + 1)) := by
    rw [turns_succ]
    exact Done.turn hfails (After.run e read_buf (Nat.le_refl _))
  rw [turns_of_ended hdone.ended]
  exact hdone

/-- The loop has ended only behind the last chunk. -/
theorem turns_cases (hfails : e.fails = false) (read_buf : List UInt8) (n : ℕ) :
    ((turns e read_buf n).ended = false ∧ ¬ (turns e read_buf n).ReadFailed) ∨
      Done e (turns e read_buf n) := by
  by_cases hn : n ≤ e.chunks.length
  · have hafter := After.run e read_buf hn
    exact .inl ⟨hafter.going, hafter.read⟩
  · obtain ⟨k, rfl⟩ := Nat.exists_eq_add_of_lt (Nat.not_le.1 hn)
    have hdone := Done.run hfails read_buf k
    rw [Nat.add_right_comm] at hdone
    exact .inr hdone

theorem total_eq_iff (n : ℕ) : (BitVec.ofNat 32 n).toInt = n ↔ n < 2 ^ 31 :=
  toInt_ofNat_iff (by decide) n

/-- **The loop ends and copies the file if and only if no `read` fails**, and either some
`write` fails, or the total fits in an `int` and every `write` takes all it is given. -/
theorem copies_iff (e : Env) (read_buf : List UInt8) :
    Copies e read_buf ↔ e.fails = false ∧ ((∃ i ≤ e.chunks.length, e.writes i = .fails) ∨
      e.content.length < 2 ^ 31 ∧ ∀ i < e.chunks.length, e.Whole i) := by
  constructor
  · intro h
    have hfails : e.fails = false := by
      by_contra hne
      have htrue : e.fails = true := by simpa using hne
      obtain ⟨n, hended⟩ := h.ends
      -- the loop would have to end at one of the chunks, or behind them
      by_cases hn : n ≤ e.chunks.length
      · rw [(After.run e read_buf hn).going] at hended
        cases hended
      · obtain ⟨k, rfl⟩ := Nat.exists_eq_add_of_le (Nat.le_of_not_le hn)
        rw [(turns_of_fails htrue read_buf k).1] at hended
        cases hended
    have hdone := Done.run hfails read_buf 0
    refine ⟨hfails, ?_⟩
    by_cases hwrite : ∃ i ≤ e.chunks.length, e.writes i = .fails
    · exact .inl hwrite
    · right
      obtain ⟨hclone, htotal⟩ := h.copied _ hdone.ended hdone.read (hdone.failed.not.2 hwrite)
      rw [hdone.total, total_eq_iff] at htotal
      exact ⟨htotal, hdone.whole.1 hclone⟩
  · rintro ⟨hfails, hcond⟩
    refine ⟨⟨_, (Done.run hfails read_buf 0).ended⟩, ?_, ?_⟩
    · intro n hended hread hwrite
      rcases turns_cases hfails read_buf n with ⟨hgoing, -⟩ | hdone
      · rw [hgoing] at hended
        cases hended
      · rcases hcond with hfailed | ⟨hlt, hwhole⟩
        · exact absurd (hdone.failed.2 hfailed) hwrite
        · rw [hdone.total, total_eq_iff]
          exact ⟨hdone.whole.2 hwhole, hlt⟩
    · intro n before behind hcalls
      -- no `read` fails in any of these states
      have hfailed : (turns e read_buf n).ReadFailed := by
        rw [State.ReadFailed, hcalls]
        exact List.mem_append_right _ List.mem_cons_self
      rcases turns_cases hfails read_buf n with ⟨-, hread⟩ | hdone
      · exact absurd hfailed hread
      · exact absurd hfailed hdone.read

end Runs

/-- The first `read` gets a byte, and every other one fails. -/
def broken : Env where
  chunks := [[104]]
  fails := true
  rest := [105]
  writes _ := .takes 128
  chunk_pos := by decide
  chunk_le := by decide
  all_read := nofun

theorem copy_endless : ¬ Copies broken [] := by
  intro h
  -- in the second turn -1 is written
  exact h.quiet 2 [.read 1, .write 1 1] [.write (-1) (-1)] rfl (-1) (-1) List.mem_cons_self

end UnixNetProg.OpenFile

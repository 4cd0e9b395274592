/-
`stdin_stdout_select.c`: standard input is copied to standard output by one loop around
`select`.

The two sets are value-result arguments: what `select` returns in them is what is passed
to it the next time, but for the one descriptor that the end of the loop takes out of its
set and the one it puts into the other. `select` may return any part of what it was
passed that is not empty, and `read` may get any part of the input that fits.

`calls` records what every `read` and `write` has moved. The invariant is `Turn`: the flag
`stop_reading` says whether a chunk is in the buffer that has not been written.
-/
import Mathlib.Data.Finset.Basic
import UnixNetProg.Lib.Bytes
import UnixNetProg.Lib.Runs

set_option autoImplicit false

namespace UnixNetProg.Select

open UnixNetProg.Bytes UnixNetProg.Runs

def BUFFSIZE : ℕ := 4096

/-- The descriptors whose bits are set. -/
abbrev FdSet := Finset ℕ

/-! ## The program -/

/-- The call that is made next, or the value `main` has returned. -/
inductive At
  | select
  | read
  | write
  | returned (status : ℤ)
  deriving DecidableEq, Repr

/-- A call, with what it has moved. -/
inductive Call
  | read (data : List UInt8)
  | write (data : List UInt8)
  deriving DecidableEq, Repr

/-- The variables of `main`, with the files it works on. -/
structure World where
  read_set : FdSet
  write_set : FdSet
  buffer : List UInt8
  read_bytes : ℕ
  stop_reading : Bool
  pc : At
  stdin : List UInt8
  stdout : List UInt8
  calls : List Call

/-- Before the loop. -/
def start (input : List UInt8) : World where
  read_set := {0}
  write_set := {1}
  buffer := List.replicate BUFFSIZE 0
  read_bytes := 0
  stop_reading := false
  pc := .select
  stdin := input
  stdout := []
  calls := []

/-- The end of the loop. -/
def World.toggle (w : World) : World :=
  if w.stop_reading then
    { w with read_set := w.read_set.erase 0, write_set := insert 1 w.write_set, pc := .select }
  else { w with write_set := w.write_set.erase 1, read_set := insert 0 w.read_set, pc := .select }

/-- The second test of the loop. -/
def World.testWrite (w : World) : World :=
  if 1 ∈ w.write_set then { w with pc := .write } else w.toggle

/-- The first test of the loop. -/
def World.testRead (w : World) : World :=
  if 0 ∈ w.read_set then { w with pc := .read } else w.testWrite

/-- `read` has got some bytes, or none at the end of the file. -/
def World.got (w : World) (data : List UInt8) : World :=
  let w := { w with
    buffer := overwrite w.buffer data
    read_bytes := data.length
    stdin := w.stdin.drop data.length
    calls := w.calls ++ [Call.read data] }
  if data = [] then { w with pc := .returned 0 } else { w with stop_reading := true }.testWrite

/-- `write` has put out `k` bytes of those it was asked for. -/
def World.put (w : World) (k : ℕ) : World :=
  let data := (w.buffer.take w.read_bytes).take k
  let w := { w with stdout := w.stdout ++ data, calls := w.calls ++ [Call.write data] }
  if k ≠ w.read_bytes then { w with pc := .returned (-1) }
  else { w with stop_reading := false }.toggle

/-- What a call does: `select` returns with these sets, `read` or `write` moves `k`
bytes, or the call fails. -/
inductive Act
  | select (r s : FdSet)
  | read (k : ℕ)
  | write (k : ℕ)
  | fails

/-- The loop of `main` (`10.select/stdin_stdout_select.c:39-106`). -/
def World.step (w : World) : Act → Option World
  | .select r s =>
    if w.pc = .select ∧ r ⊆ w.read_set ∧ s ⊆ w.write_set ∧ (r.Nonempty ∨ s.Nonempty) then
      some { w with read_set := r, write_set := s }.testRead
    else none
  | .read k =>
    if w.pc = .read ∧ k ≤ BUFFSIZE ∧ k ≤ w.stdin.length ∧ (k = 0 → w.stdin = []) then
      some (w.got (w.stdin.take k))
    else none
  | .write k => if w.pc = .write ∧ k ≤ w.read_bytes then some (w.put k) else none
  | .fails =>
    match w.pc with
    | .select | .read | .write => some { w with pc := .returned (-1) }
    | .returned _ => none

def machine (input : List UInt8) : Machine World Act where
  init := fun w => w = start input
  step := World.step

/-- Each `write` writes all it is asked to. -/
def whole (w : World) (a : Act) : Prop :=
  match a with
  | .write k => k = w.read_bytes
  | .select _ _ | .read _ | .fails => True

instance (w : World) (a : Act) : Decidable (whole w a) := by
  unfold whole
  split <;> infer_instance

/-! ## The invariant -/

/-- The call has moved something. -/
def Call.moves : Call → Bool
  | .read data | .write data => !data.isEmpty

/-- Every chunk is read, and then written. -/
def turns (chunks : List (List UInt8)) : List Call := chunks.flatMap fun c => [.read c, .write c]

theorem turns_concat (chunks : List (List UInt8)) (c : List UInt8) :
    turns (chunks ++ [c]) = turns chunks ++ [.read c] ++ [.write c] := by
  simp [turns]

/-- What is in the buffer and has not been written. -/
def World.pending (w : World) : List UInt8 :=
  if w.stop_reading then w.buffer.take w.read_bytes else []

/-- Where the loop is, by what the flag says. The buffer is not written while there is
nothing in it, but for the one `write` of no bytes that the first `select` may bring. -/
def World.Flagged (w : World) : Prop :=
  match w.pc with
  | .select =>
    if w.stop_reading then 0 ∉ w.read_set ∧ 1 ∈ w.write_set
    else 0 ∈ w.read_set ∧ (1 ∈ w.write_set → w.read_bytes = 0)
  | .read => w.stop_reading = false
  | .write => w.stop_reading = false → w.read_bytes = 0
  | .returned status => status = 0 → w.stop_reading = false ∧ w.stdin = []

/-- After the chunks have been copied: at most one more has been read. -/
structure Turn (input : List UInt8) (w : World) (chunks : List (List UInt8)) : Prop where
  calls : w.calls.filter Call.moves =
    turns chunks ++ if w.stop_reading then [.read w.pending] else []
  rest : chunks.flatten ++ w.pending ++ w.stdin = input
  stdout : w.stdout = chunks.flatten
  full : w.stop_reading = true → w.pending ≠ []

theorem Turn.start (input : List UInt8) : Turn input (start input) [] where
  calls := by simp [Select.start, turns]
  rest := by simp [Select.start, World.pending]
  stdout := by simp [Select.start]
  full := by simp [Select.start]

theorem flagged_start (input : List UInt8) : (start input).Flagged := by
  simp [start, World.Flagged]

section Steps

variable {input : List UInt8} {w : World} {chunks : List (List UInt8)}

/-- The sets do not matter, nor does what is called next. -/
theorem Turn.moved (h : Turn input w chunks) (r s : FdSet) (pc : At) :
    Turn input { w with read_set := r, write_set := s, pc := pc } chunks :=
  ⟨h.calls, h.rest, h.stdout, h.full⟩

theorem Turn.toggle (h : Turn input w chunks) : Turn input w.toggle chunks := by
  unfold World.toggle
  split
  · exact h.moved _ _ _
  · exact h.moved _ _ _

theorem Turn.testWrite (h : Turn input w chunks) : Turn input w.testWrite chunks := by
  unfold World.testWrite
  split
  · exact h.moved _ _ _
  · exact h.toggle

theorem Turn.testRead (h : Turn input w chunks) : Turn input w.testRead chunks := by
  unfold World.testRead
  split
  · exact h.moved _ _ _
  · exact h.testWrite

/-- Whatever came before, the end of the loop makes the sets fit the flag. -/
theorem flagged_toggle (w : World) : w.toggle.Flagged := by
  by_cases hstop : w.stop_reading <;> simp [World.toggle, World.Flagged, hstop]

/-- Without a chunk in the buffer, `write` is called only with a count of 0. -/
theorem flagged_testWrite
    (hzero : 1 ∈ w.write_set → w.stop_reading = false → w.read_bytes = 0) :
    w.testWrite.Flagged := by
  by_cases hset : 1 ∈ w.write_set
  · rw [World.testWrite, if_pos hset]
    exact hzero hset
  · rw [World.testWrite, if_neg hset]
    exact flagged_toggle w

theorem flagged_select (hflag : w.Flagged) (hpc : w.pc = .select) {r s : FdSet}
    (hr : r ⊆ w.read_set) (hs : s ⊆ w.write_set) :
    { w with read_set := r, write_set := s }.testRead.Flagged := by
  rw [World.Flagged, hpc] at hflag
  by_cases hset : 0 ∈ r
  · rw [World.testRead, if_pos hset]
    -- the descriptor was passed, so the flag is not set
    by_contra hstop
    have hstop : w.stop_reading = true := by simpa [World.Flagged] using hstop
    simp only [hstop, if_true] at hflag
    exact hflag.1 (hr hset)
  · rw [World.testRead, if_neg hset]
    apply flagged_testWrite
    intro hset' hstop
    have hstop : w.stop_reading = false := hstop
    simp only [hstop, Bool.false_eq_true, if_false] at hflag
    exact hflag.2 (hs hset')

/-- A chunk is read while there is none in the buffer. -/
theorem Turn.got (h : Turn input w chunks) (hstop : w.stop_reading = false)
    {data rest : List UInt8} (hin : w.stdin = data ++ rest) : Turn input (w.got data) chunks := by
  have hcalls := h.calls
  have hrest := h.rest
  simp only [World.pending, hstop, Bool.false_eq_true, if_false, List.append_nil, hin]
    at hcalls hrest
  have hdrop : w.stdin.drop data.length = rest := by rw [hin, List.drop_left]
  unfold World.got
  by_cases hnil : data = []
  · rw [if_pos hnil]
    refine ⟨?_, ?_, h.stdout, ?_⟩
    · simp [hcalls, hstop, hnil, Call.moves]
    · simpa [World.pending, hstop, hnil, hin] using hrest
    · simp [hstop]
  · rw [if_neg hnil]
    apply Turn.testWrite
    have hpending : (overwrite w.buffer data).take data.length = data := by
      rw [overwrite, List.take_left]
    refine ⟨?_, ?_, h.stdout, ?_⟩
    · simp only [World.pending, if_true, hpending, List.filter_append, hcalls]
      simp [Call.moves, hnil]
    · simp only [World.pending, if_true, hpending, hdrop]
      rw [List.append_assoc, hrest]
    · intro _
      simpa only [World.pending, if_true, hpending] using hnil

/-- What is in the buffer is written, and the next chunk may be read. -/
theorem Turn.put (h : Turn input w chunks) (hzero : w.stop_reading = false → w.read_bytes = 0) :
    ∃ chunks', Turn input (w.put w.read_bytes) chunks' := by
  have hcalls := h.calls
  have hrest := h.rest
  have htake : (w.buffer.take w.read_bytes).take w.read_bytes = w.buffer.take w.read_bytes := by
    rw [List.take_take, Nat.min_self]
  unfold World.put
  rw [if_neg (by simp), htake]
  by_cases hstop : w.stop_reading
  · refine ⟨chunks ++ [w.pending], Turn.toggle ⟨?_, ?_, ?_, by simp⟩⟩
    · have hne := h.full hstop
      simp only [World.pending, hstop, if_true] at hcalls hne ⊢
      rw [turns_concat]
      simp [hcalls, Call.moves, hne]
    · simpa [World.pending, hstop] using hrest
    · simp [World.pending, hstop, h.stdout]
  · rw [Bool.not_eq_true] at hstop
    refine ⟨chunks, Turn.toggle ⟨?_, ?_, ?_, by simp⟩⟩
    · simpa [hstop, hzero hstop, Call.moves] using hcalls
    · simpa [World.pending, hstop] using hrest
    · simp [hzero hstop, h.stdout]

theorem flagged_got (hstop : w.stop_reading = false) {k : ℕ} (hk : k = 0 → w.stdin = []) :
    (w.got (w.stdin.take k)).Flagged := by
  unfold World.got
  split
  · rename_i hnil
    -- nothing is got only at the end of the file
    have hin : w.stdin = [] := by
      rcases List.take_eq_nil_iff.1 hnil with h | h
      · exact hk h
      · exact h
    simp [World.Flagged, hstop, hin]
  · apply flagged_testWrite
    simp

theorem flagged_put (w : World) : (w.put w.read_bytes).Flagged := by
  unfold World.put
  rw [if_neg (by simp)]
  exact flagged_toggle _

/-- What one call preserves. -/
theorem Turn.step (h : Turn input w chunks) (hflag : w.Flagged) {a : Act} {w' : World}
    (hwhole : whole w a) (hs : w.step a = some w') :
    w'.Flagged ∧ ∃ chunks', Turn input w' chunks' := by
  cases a with
  | select r s =>
    simp only [World.step] at hs
    split_ifs at hs with hsel
    obtain ⟨hpc, hr, hws, -⟩ := hsel
    obtain rfl := Option.some.inj hs
    exact ⟨flagged_select hflag hpc hr hws, chunks, (h.moved r s w.pc).testRead⟩
  | read k =>
    simp only [World.step] at hs
    split_ifs at hs with hread
    obtain ⟨hpc, -, -, hk⟩ := hread
    obtain rfl := Option.some.inj hs
    rw [World.Flagged, hpc] at hflag
    exact ⟨flagged_got hflag hk, chunks, h.got hflag (List.take_append_drop k w.stdin).symm⟩
  | write k =>
    obtain rfl : k = w.read_bytes := hwhole
    simp only [World.step] at hs
    split_ifs at hs with hwrite
    obtain rfl := Option.some.inj hs
    rw [World.Flagged, hwrite.1] at hflag
    exact ⟨flagged_put w, h.put hflag⟩
  | fails =>
    simp only [World.step] at hs
    split at hs
    all_goals cases hs
    all_goals exact ⟨by simp [World.Flagged], chunks, h.moved _ _ _⟩

end Steps

/-- The invariant holds in every state of a run. -/
theorem turn_of_reach {input : List UInt8} {w : World} (h : (machine input).Reach whole w) :
    w.Flagged ∧ ∃ chunks, Turn input w chunks := by
  apply h.invariant (I := fun w => w.Flagged ∧ ∃ chunks, Turn input w chunks)
  · intro s hs
    obtain rfl : s = start input := hs
    exact ⟨flagged_start input, [], .start input⟩
  · intro s a t _ hs hwhole hstep
    obtain ⟨hflag, chunks, hturn⟩ := hs
    exact hturn.step hflag hwhole hstep

/-! ## What is copied -/

/-- What a call has read. -/
def Call.input : Call → List UInt8
  | .read data => data
  | .write _ => []

/-- What a call has written. -/
def Call.output : Call → List UInt8
  | .read _ => []
  | .write data => data

/-- The calls that have moved nothing have read and written nothing. -/
theorem flatMap_filter_moves (f : Call → List UInt8) (hf : ∀ c, c.moves = false → f c = [])
    (calls : List Call) : (calls.filter Call.moves).flatMap f = calls.flatMap f := by
  induction calls with
  | nil => rfl
  | cons c calls ih =>
    rw [List.filter_cons]
    by_cases hc : c.moves
    · rw [if_pos hc, List.flatMap_cons, List.flatMap_cons, ih]
    · rw [if_neg hc, List.flatMap_cons, hf c (by simpa using hc), ih, List.nil_append]

theorem input_eq_nil {c : Call} (h : c.moves = false) : c.input = [] := by
  cases c <;> simp_all [Call.moves, Call.input]

theorem output_eq_nil {c : Call} (h : c.moves = false) : c.output = [] := by
  cases c <;> simp_all [Call.moves, Call.output]

theorem flatMap_input_turns (chunks : List (List UInt8)) :
    (turns chunks).flatMap Call.input = chunks.flatten := by
  induction chunks with
  | nil => rfl
  | cons c chunks ih =>
    have hcons : turns (c :: chunks) = .read c :: .write c :: turns chunks := rfl
    simp [hcons, ih, Call.input]

theorem flatMap_output_turns (chunks : List (List UInt8)) :
    (turns chunks).flatMap Call.output = chunks.flatten := by
  induction chunks with
  | nil => rfl
  | cons c chunks ih =>
    have hcons : turns (c :: chunks) = .read c :: .write c :: turns chunks := rfl
    simp [hcons, ih, Call.output]

/-- **The copier neither loses nor repeats data.** In every state of a run, what has been
written is a prefix of what has been read, the calls that moved something are a `read` of
each chunk and then a `write` of it, and one more `read` at most; `select` is passed a
descriptor whenever it is called; and when the program returns 0, its output is its
input. -/
theorem copier_is_faithful {input : List UInt8} {w : World} (h : (machine input).Reach whole w) :
    w.calls.flatMap Call.input ++ w.stdin = input ∧
    w.calls.flatMap Call.output = w.stdout ∧
    w.stdout <+: w.calls.flatMap Call.input ∧
    (∃ chunks, w.calls.filter Call.moves = turns chunks ∨
      ∃ c, w.calls.filter Call.moves = turns chunks ++ [.read c]) ∧
    (w.pc = .select → 0 ∈ w.read_set ∨ 1 ∈ w.write_set) ∧
    (w.pc = .returned 0 → w.stdout = input) := by
  obtain ⟨hflag, chunks, hturn⟩ := turn_of_reach h
  have hin : w.calls.flatMap Call.input = chunks.flatten ++ w.pending := by
    rw [← flatMap_filter_moves _ (fun _ => input_eq_nil), hturn.calls, List.flatMap_append,
      flatMap_input_turns]
    by_cases hstop : w.stop_reading
    · simp [hstop, Call.input]
    · simp [hstop, World.pending]
  have hout : w.calls.flatMap Call.output = w.stdout := by
    rw [← flatMap_filter_moves _ (fun _ => output_eq_nil), hturn.calls, List.flatMap_append,
      flatMap_output_turns, hturn.stdout]
    by_cases hstop : w.stop_reading <;> simp [hstop, Call.output]
  -- what has been read is what has been written and what is pending
  refine ⟨?_, hout, ?_, ⟨chunks, ?_⟩, ?_, ?_⟩
  · rw [hin, hturn.rest]
  · rw [hin, hturn.stdout]
    exact List.prefix_append _ _
  · by_cases hstop : w.stop_reading
    · exact .inr ⟨w.pending, by rw [hturn.calls, if_pos hstop]⟩
    · exact .inl (by rw [hturn.calls, if_neg hstop, List.append_nil])
  · intro hpc
    rw [World.Flagged, hpc] at hflag
    by_cases hstop : w.stop_reading
    · rw [if_pos hstop] at hflag
      exact .inr hflag.2
    · rw [if_neg hstop] at hflag
      exact .inl hflag.1
  · intro hpc
    rw [World.Flagged, hpc] at hflag
    obtain ⟨hstop, hnil⟩ := hflag rfl
    have hrest := hturn.rest
    rw [World.pending, hstop, hnil] at hrest
    simpa [hturn.stdout] using hrest

/-- Standard output is ready first, and the input comes in two pieces. -/
def twoPieces : List Act :=
  [.select ∅ {1}, .write 0, .select {0} ∅, .read 2, .select ∅ {1}, .write 2, .select {0} ∅,
    .read 1, .select ∅ {1}, .write 1, .select {0} ∅, .read 0]

/-- A run that ends. -/
theorem copier_is_faithful_twoPieces : ∃ w : World,
    (machine [104, 105, 10]).Reach whole w ∧ w.pc = .returned 0 ∧ w.stdout = [104, 105, 10] := by
  have hrun := Machine.Reach.run (machine [104, 105, 10]) whole rfl twoPieces (by decide)
  exact ⟨_, hrun, by decide, (copier_is_faithful hrun).2.2.2.2.2 (by decide)⟩

end UnixNetProg.Select

/-
The `readline` of `utility_routines/utils`, the one with the comments, against that of
`1.tcp`.

Here `read` puts the byte where the line goes, at `ptr`, and what is stored over it and
compared with the newline is `c`, which nobody has assigned. In `1.tcp` it is `c` that `read`
fills, so what that one held before does not matter, and `StreamIo.readline` has no such
variable; `n` and `rc` are assigned before they are used in both. A `maxlen` that is not
positive is as one of 0: there is no turn of the loop.
-/
import UnixNetProg.StreamIo.Contracts

set_option autoImplicit false

namespace UnixNetProg.StreamIo

open UnixNetProg.Memory

/-! ## The program -/

/-- The loop of the `readline` of `utils`, on what is left in the stream; `c` is what the
variable happens to hold. -/
def Annotated.readline.loop (c : Char) (fails : Bool) (maxlen n ptr : ℕ) (mem : Mem Char) :
    List Char → Result
  | [] =>
    if n < maxlen then
      if fails then ⟨-1, mem, []⟩
      else if n = 1 then ⟨0, mem, []⟩
      else finish n ptr mem []
    else finish n ptr mem []
  | b :: left =>
    if n < maxlen then
      let mem := store mem ptr [b]   -- `read(fd, ptr, 1)`
      let mem := store mem ptr [c]   -- `*ptr++ = c`
      let ptr := ptr + 1
      if c = '\n' then finish n ptr mem left
      else Annotated.readline.loop c fails maxlen (n + 1) ptr mem left
    else finish n ptr mem (b :: left)

/-- `readline` (`utility_routines/utils/readline.c:20-50`). -/
def Annotated.readline (c : Char) (fails : Bool) (maxlen : ℕ) (mem : Mem Char)
    (stream : List Char) : Result :=
  Annotated.readline.loop c fails maxlen 1 0 mem stream

/-! ## What is behind `ptr` -/

section Behind

variable {c : Char} {fails : Bool} {maxlen n ptr i : ℕ} {mem : Mem Char}

theorem store_of_lt (mem : Mem Char) (bs : List Char) (hi : i < ptr) : store mem ptr bs i = mem i :=
  sameBut_store mem ptr bs i (.inl hi)

/-- What is stored over a byte replaces it. -/
theorem store_over (mem : Mem Char) (ptr : ℕ) (b c : Char) :
    store (store mem ptr [b]) ptr [c] = store mem ptr [c] := by
  funext i
  by_cases hi : i = ptr
  · subst hi
    simp [store]
  · have hout : i < ptr ∨ ptr + 1 ≤ i := by omega
    rw [sameBut_store _ ptr [c] i hout, sameBut_store _ ptr [b] i hout,
      sameBut_store _ ptr [c] i hout]

/-- The loop of `1.tcp` goes on from `ptr`, and leaves what is below. -/
theorem readline.loop_of_lt (fails : Bool) (maxlen n : ℕ) (mem : Mem Char) (s : List Char)
    (hi : i < ptr) : (readline.loop fails maxlen n ptr mem s).mem i = mem i := by
  induction s generalizing n ptr mem with
  | nil =>
    unfold readline.loop finish
    split_ifs
    · rfl
    · rfl
    · exact store_of_lt mem _ hi
    · exact store_of_lt mem _ hi
  | cons b s ih =>
    rw [readline.loop]
    split_ifs
    · exact (store_of_lt _ _ (Nat.lt_succ_of_lt hi)).trans (store_of_lt _ _ hi)
    · exact (ih (n + 1) (store mem ptr [b]) (Nat.lt_succ_of_lt hi)).trans (store_of_lt _ _ hi)
    · exact store_of_lt mem _ hi

end Behind

/-! ## Agreement -/

section Agreement

variable {c : Char} {fails : Bool} {maxlen n ptr : ℕ} {mem : Mem Char} {stream : List Char}

/-- What the loop leaves at `ptr`, where there is a byte to read. -/
theorem readline.loop_at (hn : n < maxlen) (b : Char) (s : List Char) :
    (readline.loop fails maxlen n ptr mem (b :: s)).mem ptr = b := by
  have hat : store mem ptr [b] ptr = b := holds_store mem ptr [b] 0 b rfl
  rw [readline.loop, if_pos hn]
  split_ifs
  · exact (store_of_lt _ _ (Nat.lt_succ_self _)).trans hat
  · exact (readline.loop_of_lt fails maxlen (n + 1) _ s (Nat.lt_succ_self _)).trans hat

/-- A turn of the loop of `utils`. -/
theorem annotated_loop_cons (hn : n < maxlen) (b : Char) (s : List Char) :
    Annotated.readline.loop c fails maxlen n ptr mem (b :: s) =
      if c = '\n' then finish n (ptr + 1) (store mem ptr [c]) s
      else Annotated.readline.loop c fails maxlen (n + 1) (ptr + 1) (store mem ptr [c]) s := by
  rw [← store_over mem ptr b c]
  exact if_pos hn

/-- It stores what the other one stores where every byte of the stream is `c`. -/
theorem annotated_loop_mem (s : List Char) :
    (Annotated.readline.loop c fails maxlen n ptr mem s).mem =
      (readline.loop fails maxlen n ptr mem (List.replicate s.length c)).mem := by
  induction s generalizing n ptr mem with
  | nil => rfl
  | cons b s ih =>
    rw [List.length_cons, List.replicate_succ]
    by_cases hn : n < maxlen
    · rw [annotated_loop_cons hn, readline.loop, if_pos hn]
      -- both stop here, or neither does
      by_cases hnl : c = '\n'
      · rw [if_pos hnl, if_pos hnl]
        rfl
      · rw [if_neg hnl, if_neg hnl]
        exact ih
    · rw [Annotated.readline.loop, readline.loop, if_neg hn, if_neg hn]
      rfl

/-- **The two loops do the same if and only if `c` is every byte of the line.** -/
theorem loops_agree_iff (s : List Char) :
    Annotated.readline.loop c fails maxlen n ptr mem s = readline.loop fails maxlen n ptr mem s ↔
      ∀ b ∈ line (maxlen - n) s, b = c := by
  induction s generalizing n ptr mem with
  | nil =>
    have hline : line (maxlen - n) [] = [] := by cases maxlen - n <;> rfl
    rw [hline]
    exact iff_of_true rfl fun b hb => by cases hb
  | cons b s ih =>
    by_cases hn : n < maxlen
    · obtain ⟨room, hroom⟩ : ∃ room, maxlen - n = room + 1 := ⟨maxlen - n - 1, by omega⟩
      have hrest : maxlen - (n + 1) = room := by omega
      by_cases hb : b = c
      · -- the byte is the same, and the rest of the line decides
        subst hb
        rw [annotated_loop_cons hn, readline.loop, if_pos hn, hroom, line]
        by_cases hnl : b = '\n'
        · simp only [if_pos hnl]
          exact iff_of_true trivial fun d hd => List.mem_singleton.1 hd
        · simp only [if_neg hnl, List.forall_mem_cons, true_and]
          rw [ih, hrest]
      · -- it is another one, and what is at `ptr` tells the two apart
        apply iff_of_false
        · intro heq
          have hmem := @annotated_loop_mem c fails maxlen n ptr mem (b :: s)
          rw [heq, List.length_cons, List.replicate_succ] at hmem
          have hat := congrFun hmem ptr
          rw [readline.loop_at hn, readline.loop_at hn] at hat
          exact hb hat
        · intro hall
          apply hb
          apply hall b
          rw [hroom, line]
          split_ifs <;> simp
    · have hzero : maxlen - n = 0 := by omega
      rw [Annotated.readline.loop, readline.loop, if_neg hn, if_neg hn, hzero, line]
      exact iff_of_true rfl fun b hb => by cases hb

/-- **The annotated `readline` is that of `1.tcp` if and only if `c` happens to hold every
byte of the line that is read.** -/
theorem readline_agree_iff (c : Char) (fails : Bool) (maxlen : ℕ) (mem : Mem Char)
    (stream : List Char) :
    Annotated.readline c fails maxlen mem stream = readline fails maxlen mem stream ↔
      ∀ b ∈ line (maxlen - 1) stream, b = c :=
  loops_agree_iff stream

end Agreement

/-- The line "hi", and a `c` that is null. -/
theorem readline_stale : Annotated.readline '\x00' false 10 (fun _ => 'x') ['h', 'i', '\n'] ≠
    readline false 10 (fun _ => 'x') ['h', 'i', '\n'] := by
  intro heq
  have hat := congrArg (fun r => r.mem 0) heq
  revert hat
  decide

end UnixNetProg.StreamIo

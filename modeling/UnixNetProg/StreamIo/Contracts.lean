/-
What `readline`, `writen` and `readn` keep of what `common.h` says of them.

`readline` stores the right bytes, but it counts from 1, and only at a newline is the
count that of the bytes stored. `line` is what it should store, which is what `fgets`
stores.

`writen` and `readn` move all they are asked to, however the kernel splits it.
-/
import UnixNetProg.Lib.Stdio
import UnixNetProg.StreamIo.Code

set_option autoImplicit false

namespace UnixNetProg.StreamIo

open UnixNetProg.Memory UnixNetProg.Stdio

/-! ## `readline` -/

/-- A line, with its newline, or as much of it as fits in `room`. -/
def line : ℕ → List Char → List Char
  | 0, _ => []
  | _ + 1, [] => []
  | room + 1, c :: s => if c = '\n' then [c] else c :: line room s

/-- It is what `fgets` stores. -/
theorem line_eq_fgets (room : ℕ) (s : List Char) : line room s = (fgets (room + 1) s).getD [] := by
  induction s generalizing room with
  | nil => cases room <;> rfl
  | cons c s ih =>
    cases room with
    | zero => simp [line, fgets]
    | succ room =>
      have hrest := ih room
      rw [line]
      by_cases hc : c = '\n'
      · simp [hc, fgets]
      · rw [if_neg hc, hrest]
        by_cases hs : s = []
        · subst hs
          simp [fgets, hc]
        · simp only [fgets, newline_char, if_neg hs, if_neg (List.cons_ne_nil c s),
            Option.getD_some, hc, List.takeWhile_cons, bne_iff_ne, ne_eq, not_false_eq_true,
            if_true, List.length_cons, Nat.add_lt_add_iff_right, Nat.add_sub_cancel]
          split
          · rw [List.cons_append, List.take_succ_cons]
          · rw [List.take_succ_cons]

theorem isPrefix_line (room : ℕ) (s : List Char) : line room s <+: s := by
  induction s generalizing room with
  | nil => cases room <;> exact List.prefix_refl []
  | cons c s ih =>
    cases room with
    | zero => exact List.nil_prefix
    | succ room =>
      rw [line]
      split
      · exact ⟨s, rfl⟩
      · exact List.cons_prefix_cons.2 ⟨rfl, ih room⟩

theorem length_line_le (room : ℕ) (s : List Char) : (line room s).length ≤ room := by
  induction s generalizing room with
  | nil => cases room <;> simp [line]
  | cons c s ih =>
    cases room with
    | zero => simp [line]
    | succ room =>
      rw [line]
      split
      · simp
      · simpa using ih room

/-- The line is complete if there is a newline in the bytes that fit. -/
theorem newline_mem_line (room : ℕ) (s : List Char) : '\n' ∈ line room s ↔ '\n' ∈ s.take room := by
  induction s generalizing room with
  | nil => cases room <;> simp [line]
  | cons c s ih =>
    cases room with
    | zero => simp [line]
    | succ room =>
      rw [line, List.take_succ_cons]
      split
      · rename_i hc
        simp [hc]
      · rename_i hc
        rw [List.mem_cons, List.mem_cons, ih room]

/-- **What the loop does**, from any count on: it stores the line and a null character, and
the count ends at the last byte of a line that is complete, and behind it otherwise. -/
theorem readline.loop_eq {maxlen n : ℕ} (hpos : 1 ≤ n) (hn : n ≤ maxlen) (ptr : ℕ) (mem : Mem Char)
    (s : List Char) (hfirst : n = 1 → n < maxlen → s ≠ []) :
    readline.loop false maxlen n ptr mem s =
      ⟨if '\n' ∈ line (maxlen - n) s then ((n - 1 + (line (maxlen - n) s).length : ℕ) : ℤ)
        else ((n + (line (maxlen - n) s).length : ℕ) : ℤ),
        store mem ptr (line (maxlen - n) s ++ ['\x00']), s.drop (line (maxlen - n) s).length⟩ := by
  induction s generalizing n ptr mem with
  | nil =>
    have hline : line (maxlen - n) [] = [] := by cases maxlen - n <;> rfl
    rw [hline]
    by_cases hlt : n < maxlen
    · have hne : n ≠ 1 := fun h1 => hfirst h1 hlt rfl
      simp [readline.loop, hlt, hne, finish]
    · simp [readline.loop, hlt, finish]
  | cons c s ih =>
    by_cases hlt : n < maxlen
    · obtain ⟨room, hroom⟩ : ∃ room, maxlen - n = room + 1 := ⟨maxlen - n - 1, by omega⟩
      have hroom' : maxlen - (n + 1) = room := by omega
      have hbehind : ∀ bs, store (store mem ptr [c]) (ptr + 1) bs = store mem ptr (c :: bs) :=
        store_store mem ptr [c]
      rw [readline.loop, if_pos hlt, hroom, line]
      by_cases hc : c = '\n'
      · have hcount : ((n - 1 + 1 : ℕ) : ℤ) = n := by omega
        have hend := hbehind ['\x00']
        rw [hc] at hend ⊢
        simp only [if_true, finish, hend, List.mem_singleton, List.length_singleton, hcount]
        rfl
      · -- the rest of the loop, with the count one higher
        have hrest := ih (n := n + 1) (by omega) (by omega) (ptr + 1) (store mem ptr [c])
          (fun h1 => by omega)
        have hcount : (n + 1 - 1 + (line room s).length : ℕ) =
            n - 1 + ((line room s).length + 1) := by
          omega
        have hcount' : n + 1 + (line room s).length = n + ((line room s).length + 1) := by omega
        rw [hroom', hbehind, hcount, hcount'] at hrest
        simp only [if_neg hc, hrest, List.mem_cons, Ne.symm hc, false_or, List.length_cons,
          List.cons_append, List.drop_succ_cons]
    · have hzero : maxlen - n = 0 := by omega
      simp [readline.loop, hlt, hzero, line, finish]

/-- `n` is what `strlen` returns. -/
def IsStrlen (mem : Mem Char) (n : ℕ) : Prop := mem n = '\x00' ∧ ∀ i < n, mem i ≠ '\x00'

/-- What `readline` is for. -/
structure Contract (maxlen : ℕ) (mem : Mem Char) (stream : List Char) (r : Result) : Prop where
  stored : Holds r.mem 0 (line (maxlen - 1) stream ++ ['\x00'])
  bounded : SameBut 0 maxlen mem r.mem
  left : r.left = stream.drop (line (maxlen - 1) stream).length
  count : r.ret = (line (maxlen - 1) stream).length
  strlen : IsStrlen r.mem r.ret.toNat
  eof : r.ret = 0 ↔ stream = []

theorem isStrlen_of_holds {mem : Mem Char} {s : List Char} (hnul : '\x00' ∉ s)
    (h : Holds mem 0 (s ++ ['\x00'])) : IsStrlen mem s.length := by
  rw [holds_append] at h
  refine ⟨?_, fun i hi => ?_⟩
  · simpa using h.2 0 '\x00' rfl
  · have hat := h.1 i s[i] (List.getElem?_eq_getElem hi)
    rw [Nat.zero_add] at hat
    rw [hat]
    intro hzero
    exact hnul (hzero ▸ List.getElem_mem hi)

section Readline

variable {maxlen : ℕ} {mem : Mem Char} {stream : List Char}

theorem line_ne_nil (hmax : 2 ≤ maxlen) (hs : stream ≠ []) : line (maxlen - 1) stream ≠ [] := by
  obtain ⟨c, s, rfl⟩ := List.exists_cons_of_ne_nil hs
  obtain ⟨room, hroom⟩ : ∃ room, maxlen - 1 = room + 1 := ⟨maxlen - 2, by omega⟩
  rw [hroom, line]
  split <;> simp

/-- At the end of the file nothing is stored, and 0 is returned. -/
theorem readline_nil (hmax : 2 ≤ maxlen) : readline false maxlen mem [] = ⟨0, mem, []⟩ := by
  rw [readline, readline.loop, if_pos (by omega)]
  rfl

theorem readline_eq (hmax : 2 ≤ maxlen) (hs : stream ≠ []) :
    readline false maxlen mem stream =
      ⟨if '\n' ∈ line (maxlen - 1) stream then ((line (maxlen - 1) stream).length : ℤ)
        else (((line (maxlen - 1) stream).length + 1 : ℕ) : ℤ),
        store mem 0 (line (maxlen - 1) stream ++ ['\x00']),
        stream.drop (line (maxlen - 1) stream).length⟩ := by
  rw [readline, readline.loop_eq (Nat.le_refl 1) (by omega) 0 mem stream fun _ _ => hs]
  rw [Nat.sub_self, Nat.zero_add, Nat.add_comm 1]

/-- At the end of the file nothing is stored, not even a null character. -/
theorem readline_contract_eof (hmax : 2 ≤ maxlen) :
    Contract maxlen mem [] (readline false maxlen mem []) ↔ mem 0 = '\x00' := by
  have hline : line (maxlen - 1) [] = [] := by cases maxlen - 1 <;> rfl
  rw [readline_nil hmax]
  constructor
  · intro h
    exact h.strlen.1
  · intro hzero
    refine ⟨?_, fun i _ => rfl, by rw [List.drop_nil], by rw [hline]; rfl,
      ⟨hzero, fun i hi => absurd hi (Nat.not_lt_zero _)⟩, by simp⟩
    rw [hline]
    intro i b hb
    rw [List.nil_append, List.getElem?_singleton] at hb
    split at hb
    · rename_i hi
      rw [hi]
      exact hzero.trans (Option.some.inj hb)
    · cases hb

/-- Before it, the newline decides: without one, the null character is counted too. -/
theorem readline_contract_line (hmax : 2 ≤ maxlen) (hnul : '\x00' ∉ stream) (hs : stream ≠ []) :
    Contract maxlen mem stream (readline false maxlen mem stream) ↔
      '\n' ∈ line (maxlen - 1) stream := by
  have hlen := length_line_le (maxlen - 1) stream
  have hpos := List.length_pos_iff.2 (line_ne_nil hmax hs)
  have hnul' : '\x00' ∉ line (maxlen - 1) stream := by
    intro hmem
    exact hnul ((isPrefix_line _ _).subset hmem)
  rw [readline_eq hmax hs]
  by_cases hmem : '\n' ∈ line (maxlen - 1) stream
  · refine ⟨fun _ => hmem, fun _ => ?_⟩
    have hholds := holds_store mem 0 (line (maxlen - 1) stream ++ ['\x00'])
    simp only [if_pos hmem]
    refine ⟨hholds, ?_, rfl, rfl, isStrlen_of_holds hnul' hholds, ?_⟩
    · intro i hi
      apply sameBut_store mem 0 _ i
      rw [List.length_append, List.length_singleton]
      omega
    · constructor
      · intro hzero
        have hzero : ((line (maxlen - 1) stream).length : ℤ) = 0 := hzero
        omega
      · intro hnil
        exact absurd hnil hs
  · simp only [if_neg hmem]
    constructor
    · intro h
      -- the count says that there is one character more
      have hcount : (((line (maxlen - 1) stream).length + 1 : ℕ) : ℤ) =
          (line (maxlen - 1) stream).length := h.count
      omega
    · intro hmem'
      exact absurd hmem' hmem

/-- **When `readline` does what it should**: if there is a newline among the bytes that
fit, or else at the end of the file, if the buffer begins with a null character. -/
theorem readline_contract_iff (hmax : 2 ≤ maxlen) (hnul : '\x00' ∉ stream) :
    Contract maxlen mem stream (readline false maxlen mem stream) ↔
      '\n' ∈ stream.take (maxlen - 1) ∨ (stream = [] ∧ mem 0 = '\x00') := by
  by_cases hs : stream = []
  · subst hs
    rw [readline_contract_eof hmax]
    simp
  · rw [readline_contract_line hmax hnul hs, newline_mem_line]
    constructor
    · intro hmem
      exact .inl hmem
    · rintro (hmem | ⟨hnil, -⟩)
      · exact hmem
      · exact absurd hnil hs

end Readline

theorem readline_contract_iff_hi : Contract 10 (fun _ => 'x') ['h', 'i', '\n']
    (readline false 10 (fun _ => 'x') ['h', 'i', '\n']) ↔
      '\n' ∈ ['h', 'i', '\n'].take (10 - 1) ∨ (['h', 'i', '\n'] = [] ∧ 'x' = '\x00') :=
  readline_contract_iff (by decide) (by decide)

/-- A last line without a newline is one byte longer to `readline` than it is. -/
theorem readline_unfinished : ¬ Contract 10 (fun _ => 'x') ['h', 'i']
    (readline false 10 (fun _ => 'x') ['h', 'i']) := by
  intro h
  have hcount := h.count
  have hline : line (10 - 1) ['h', 'i'] = ['h', 'i'] := by decide
  have hret : (readline false 10 (fun _ => 'x') ['h', 'i']).ret = 3 := rfl
  rw [hline, hret] at hcount
  cases hcount

/-! ## `writen` and `readn` -/

/-- The call moves something. -/
def Wrote.moves (a : Wrote) : Prop := ∃ k, a = .bytes k

def Got.moves (a : Got) : Prop := ∃ k, a = .bytes k

/-- How many bytes the kernel was ready to take in `j` calls from `call` on. -/
def taken (answers : ℕ → Wrote) (call : ℕ) : ℕ → ℕ
  | 0 => 0
  | j + 1 =>
    match answers call with
    | .bytes k => k + 1 + taken answers (call + 1) j
    | .zero | .fails => 0

section Writen

variable {answers : ℕ → Wrote} {nbytes call nleft ptr : ℕ} {buffer sent : List Char}

theorem writen.loop_zero :
    writen.loop answers nbytes buffer call 0 ptr sent = ((nbytes : ℤ), sent) := by
  rw [writen.loop, dif_neg (Nat.lt_irrefl 0)]
  simp

/-- One `write`. -/
theorem writen.loop_bytes {k : ℕ} (hpos : 0 < nleft) (hans : answers call = .bytes k) :
    writen.loop answers nbytes buffer call nleft ptr sent =
      writen.loop answers nbytes buffer (call + 1) (nleft - min (k + 1) nleft)
        (ptr + min (k + 1) nleft) (sent ++ (buffer.drop ptr).take (min (k + 1) nleft)) := by
  rw [writen.loop, dif_pos hpos, hans]

/-- What two calls in a row put on the stream. -/
theorem take_drop_add (bs : List Char) (ptr w n : ℕ) :
    (bs.drop ptr).take w ++ (bs.drop (ptr + w)).take n = (bs.drop ptr).take (w + n) := by
  rw [List.take_add, List.drop_drop]

/-- Without a failure all that is left is sent. -/
theorem writen.loop_eq (hans : ∀ i, (answers i).moves) :
    writen.loop answers nbytes buffer call nleft ptr sent =
      ((nbytes : ℤ), sent ++ (buffer.drop ptr).take nleft) := by
  induction nleft using Nat.strongRecOn generalizing call ptr sent with
  | _ nleft ih =>
    by_cases hpos : 0 < nleft
    · obtain ⟨k, hk⟩ := hans call
      rw [writen.loop_bytes hpos hk, ih _ (by omega), List.append_assoc, take_drop_add,
        Nat.add_sub_cancel' (Nat.min_le_right _ _)]
    · obtain rfl : nleft = 0 := by omega
      rw [writen.loop_zero, List.take_zero, List.append_nil]

/-- A failure ends it, and what went before has been sent. -/
theorem writen.loop_fails {j : ℕ} (hans : ∀ i < j, (answers (call + i)).moves)
    (hj : ¬ (answers (call + j)).moves) (hlt : taken answers call j < nleft) :
    (writen.loop answers nbytes buffer call nleft ptr sent).1 ≤ 0 ∧
    (writen.loop answers nbytes buffer call nleft ptr sent).2 =
      sent ++ (buffer.drop ptr).take (taken answers call j) := by
  induction j generalizing call nleft ptr sent with
  | zero =>
    rw [Nat.add_zero] at hj
    have hpos : 0 < nleft := by
      rw [taken] at hlt
      exact hlt
    rw [writen.loop, dif_pos hpos]
    cases hcall : answers call with
    | bytes k => exact absurd ⟨k, hcall⟩ hj
    | zero => simp [taken]
    | fails => simp [taken]
  | succ j ih =>
    obtain ⟨k, hk⟩ := hans 0 (Nat.zero_lt_succ j)
    rw [Nat.add_zero] at hk
    have hsum : taken answers call (j + 1) = k + 1 + taken answers (call + 1) j := by
      rw [taken, hk]
    have hpos : 0 < nleft := by omega
    -- the call takes all that it could
    have hmin : min (k + 1) nleft = k + 1 := Nat.min_eq_left (by omega)
    have hrest := @ih (call + 1) (nleft - (k + 1)) (ptr + (k + 1))
      (sent ++ (buffer.drop ptr).take (k + 1))
      (fun i hi => by
        rw [Nat.add_assoc, Nat.add_comm 1 i]
        exact hans (i + 1) (by omega))
      (by rwa [Nat.add_assoc, Nat.add_comm 1 j])
      (by omega)
    rw [writen.loop_bytes hpos hk, hmin, hsum]
    refine ⟨hrest.1, ?_⟩
    rw [hrest.2, List.append_assoc, take_drop_add]

end Writen

section Readn

variable {answers : ℕ → Got} {nbytes call nleft ptr : ℕ} {mem : Mem Char} {stream : List Char}

/-- Without a failure all that is there is stored, up to what was asked for. -/
theorem readn.loop_eq (hans : ∀ i, (answers i).moves) (hle : nleft ≤ nbytes) :
    readn.loop answers nbytes call nleft ptr mem stream =
      ⟨((nbytes - nleft + min nleft stream.length : ℕ) : ℤ), store mem ptr (stream.take nleft),
        stream.drop nleft⟩ := by
  induction nleft using Nat.strongRecOn generalizing call ptr mem stream with
  | _ nleft ih =>
    by_cases hpos : 0 < nleft
    · obtain ⟨k, hk⟩ := hans call
      rw [readn.loop, dif_pos hpos, hk]
      by_cases hend : min (min (k + 1) nleft) stream.length = 0
      · -- the end of the stream
        obtain rfl : stream = [] := List.length_eq_zero_iff.1 (by omega)
        simp [store_nil, hle]
      · obtain ⟨n, hn⟩ : ∃ n, n = min (min (k + 1) nleft) stream.length := ⟨_, rfl⟩
        have htake : (stream.take n).length = n := by
          rw [List.length_take]
          omega
        have hstore := store_store mem ptr (stream.take n) ((stream.drop n).take (nleft - n))
        rw [htake, ← List.take_add, Nat.add_sub_cancel' (by omega)] at hstore
        have hcount : nbytes - (nleft - n) + min (nleft - n) (stream.length - n) =
            nbytes - nleft + min nleft stream.length := by omega
        simp only [dif_neg hend]
        rw [← hn, ih (nleft - n) (by omega) (by omega), hstore, List.drop_drop,
          Nat.add_sub_cancel' (by omega), List.length_drop, hcount]
    · obtain rfl : nleft = 0 := by omega
      rw [readn.loop, dif_neg (Nat.lt_irrefl 0)]
      simp [store_nil]

theorem readn_eq (hans : ∀ i, (answers i).moves) (nbytes : ℕ) (mem : Mem Char)
    (stream : List Char) :
    readn answers nbytes mem stream =
      ⟨((min nbytes stream.length : ℕ) : ℤ), store mem 0 (stream.take nbytes),
        stream.drop nbytes⟩ := by
  rw [readn, readn.loop_eq hans (Nat.le_refl nbytes), Nat.sub_self, Nat.zero_add]

end Readn

/-- **`readn` undoes `writen`**, however the kernel splits what they move. All of `bs` is
sent; what `readn` reads of it and of anything that follows is `bs`; at the end of the
stream it returns what there was; and a `write` that fails ends `writen` with another
result than the number of bytes, after exactly what had been taken before. -/
theorem readn_undoes_writen (bs : List Char) (mem : Mem Char) :
    (∀ wrote : ℕ → Wrote, (∀ i, (wrote i).moves) →
      writen wrote bs bs.length = ((bs.length : ℤ), bs) ∧
      ∀ (got : ℕ → Got) (following : List Char), (∀ i, (got i).moves) →
        (readn got bs.length mem ((writen wrote bs bs.length).2 ++ following)).ret = bs.length ∧
        Holds (readn got bs.length mem ((writen wrote bs bs.length).2 ++ following)).mem 0 bs ∧
        (readn got bs.length mem ((writen wrote bs bs.length).2 ++ following)).left = following) ∧
    (∀ (got : ℕ → Got) (n : ℕ), (∀ i, (got i).moves) → bs.length < n →
      (readn got n mem bs).ret = bs.length ∧ Holds (readn got n mem bs).mem 0 bs ∧
      SameBut 0 bs.length mem (readn got n mem bs).mem) ∧
    ∀ (wrote : ℕ → Wrote) (j : ℕ), (∀ i < j, (wrote i).moves) → ¬ (wrote j).moves →
      taken wrote 0 j < bs.length →
        (writen wrote bs bs.length).1 ≠ bs.length ∧
        (writen wrote bs bs.length).2 = bs.take (taken wrote 0 j) := by
  refine ⟨?_, ?_, ?_⟩
  · intro wrote hwrote
    have hsent : writen wrote bs bs.length = ((bs.length : ℤ), bs) := by
      rw [writen, writen.loop_eq hwrote, List.drop_zero, List.take_length, List.nil_append]
    refine ⟨hsent, ?_⟩
    intro got following hgot
    rw [hsent, readn_eq hgot]
    refine ⟨?_, ?_, ?_⟩
    · simp
    · simpa using holds_store mem 0 bs
    · simp
  · intro got n hgot hn
    rw [readn_eq hgot, Nat.min_eq_right (by omega), List.take_of_length_le (by omega)]
    exact ⟨rfl, holds_store mem 0 bs, sameBut_store mem 0 bs⟩
  · intro wrote j hwrote hj hlt
    -- the loop stops at the write that fails, with what was taken before
    have hloop : (writen.loop wrote bs.length bs 0 bs.length 0 []).1 ≤ 0 ∧
        (writen.loop wrote bs.length bs 0 bs.length 0 []).2 =
          [] ++ (bs.drop 0).take (taken wrote 0 j) :=
      writen.loop_fails (fun i hi => by simpa using hwrote i hi) (by simpa using hj) hlt
    rw [List.nil_append, List.drop_zero] at hloop
    refine ⟨?_, hloop.2⟩
    have hneg := hloop.1
    rw [← writen] at hneg
    omega

end UnixNetProg.StreamIo

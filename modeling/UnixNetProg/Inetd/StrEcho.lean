/-
`str_echo` of `12.inetd`: the lines of a client, sent back up to the one that says
`tcpquit`.

`readline` and `writen` there are those of `1.tcp` (`StreamIo`). `readline` keeps the newline,
and counts the null character of a line that has none; `strncmp` compares eight characters,
so the null character behind `tcpquit` is one of them. It is found in a last line without
a newline, and nowhere else: `str_echo_right_iff`.

A text is cut into its lines, without their newlines, and what is behind the last newline.
-/
import UnixNetProg.StreamIo.Contracts

set_option autoImplicit false

namespace UnixNetProg.Inetd.StrEcho

open UnixNetProg.Memory UnixNetProg.StreamIo

/-! ## The program -/

def MAXLINE : ℕ := 512

def QUIT_CMD : List Char := "tcpquit".toList

/-- How it ends: at the end of the file, behind the `break`, or with `exit (EXIT_FAILURE)`. -/
inductive Exit
  | eof
  | quit
  | failure
  deriving DecidableEq, Repr

/-- What has been written, and the end. -/
structure Echoed where
  out : List Char
  exit : Exit
  deriving DecidableEq, Repr

/-- The loop of `readline` leaves no more than there was. -/
theorem length_left_loop_le (fails : Bool) (maxlen n ptr : ℕ) (mem : Mem Char) (s : List Char) :
    (readline.loop fails maxlen n ptr mem s).left.length ≤ s.length := by
  induction s generalizing n ptr mem with
  | nil =>
    rw [readline.loop]
    split_ifs <;> exact Nat.le_refl 0
  | cons c s ih =>
    rw [readline.loop]
    split_ifs
    · exact Nat.le_succ _
    · exact Nat.le_succ_of_le (ih _ _ _)
    · exact Nat.le_refl _

/-- A line takes something off the stream. -/
theorem length_left_lt {fails : Bool} {mem : Mem Char} {s : List Char}
    (h : 0 < (readline fails MAXLINE mem s).ret) :
    (readline fails MAXLINE mem s).left.length < s.length := by
  cases s with
  | nil =>
    cases fails <;> cases h
  | cons c s =>
    rw [readline, readline.loop, if_pos (by decide)]
    simp only
    split
    · exact Nat.lt_succ_self _
    · exact Nat.lt_succ_of_le (length_left_loop_le _ _ _ _ _ _)

/-- The loop of `main`. `wrote` answers the calls of `write`, for each line anew. -/
def str_echo.loop (fails : Bool) (wrote : ℕ → ℕ → Wrote) (call : ℕ) (mem : Mem Char)
    (stream : List Char) (out : List Char) : Echoed :=
  let r := readline fails MAXLINE mem stream
  if h : 0 < r.ret then
    if strncmp '\x00' r.mem QUIT_CMD 8 then ⟨out, .quit⟩
    else
      let w := writen (wrote call) (load r.mem 0 r.ret.toNat) r.ret.toNat
      if w.1 ≠ r.ret then ⟨out ++ w.2, .failure⟩
      else
        have : r.left.length < stream.length := length_left_lt h
        str_echo.loop fails wrote (call + 1) r.mem r.left (out ++ w.2)
  else if r.ret = 0 then ⟨out, .eof⟩
  else ⟨out, .failure⟩
termination_by stream.length

/-- `main` (`12.inetd/str_echo.c:6-38`); what is in `line` at first is not known. -/
def str_echo (fails : Bool) (wrote : ℕ → ℕ → Wrote) (mem : Mem Char) (stream : List Char) :
    Echoed :=
  str_echo.loop fails wrote 0 mem stream []

/-! ## Texts -/

/-- Lines, and what is behind the last of them. -/
structure Text where
  lines : List (List Char)
  last : List Char
  deriving DecidableEq, Repr

/-- The lines with their newlines. -/
def joined (lines : List (List Char)) : List Char := lines.flatMap fun l => l ++ ['\n']

def Text.stream (t : Text) : List Char := joined t.lines ++ t.last

/-- A line as the client may send it. -/
def Fits (l : List Char) : Prop := '\n' ∉ l ∧ '\x00' ∉ l ∧ l.length < MAXLINE - 1

instance (l : List Char) : Decidable (Fits l) := inferInstanceAs (Decidable (_ ∧ _))

/-- All of its lines are. -/
def Text.Fits (t : Text) : Prop := (∀ l ∈ t.lines, StrEcho.Fits l) ∧ StrEcho.Fits t.last

instance (t : Text) : Decidable t.Fits := inferInstanceAs (Decidable (_ ∧ _))

/-- What should be sent back: the lines in front of the first that says `tcpquit`, or all. -/
def Text.wanted (t : Text) : Echoed :=
  if QUIT_CMD ∈ t.lines then ⟨joined (t.lines.takeWhile (· ≠ QUIT_CMD)), .quit⟩
  else if t.last = QUIT_CMD then ⟨joined t.lines, .quit⟩
  else ⟨t.stream, .eof⟩

/-- Every stream is a text. -/
theorem exists_text (s : List Char) :
    ∃ t : Text, t.stream = s ∧ (∀ l ∈ t.lines, '\n' ∉ l) ∧ '\n' ∉ t.last := by
  induction s with
  | nil => exact ⟨⟨[], []⟩, rfl, by simp, by simp⟩
  | cons c s ih =>
    obtain ⟨⟨lines, last⟩, rfl, hlines, hlast⟩ := ih
    by_cases hc : c = '\n'
    · exact ⟨⟨[] :: lines, last⟩, by simp [Text.stream, joined, hc], by simpa using hlines, hlast⟩
    · cases lines with
      | nil => exact ⟨⟨[], c :: last⟩, rfl, by simp, by simp [Ne.symm hc, hlast]⟩
      | cons l lines =>
        refine ⟨⟨(c :: l) :: lines, last⟩, rfl, ?_, hlast⟩
        simp only [List.forall_mem_cons] at hlines ⊢
        exact ⟨by simp [Ne.symm hc, hlines.1], hlines.2⟩

/-! ## One line -/

section Lines

variable {wrote : ℕ → ℕ → Wrote} {call : ℕ} {mem : Mem Char} {l rest out : List Char}

/-- A line with its newline. -/
theorem line_of_newline {room : ℕ} (hl : '\n' ∉ l) (hlen : l.length < room) :
    line room (l ++ '\n' :: rest) = l ++ ['\n'] := by
  induction l generalizing room with
  | nil =>
    obtain ⟨room, rfl⟩ : ∃ k, room = k + 1 := ⟨room - 1, by omega⟩
    rfl
  | cons c l ih =>
    rw [List.length_cons] at hlen
    obtain ⟨room, rfl⟩ : ∃ k, room = k + 1 := ⟨room - 1, by omega⟩
    rw [List.mem_cons, not_or] at hl
    rw [List.cons_append, line, if_neg (Ne.symm hl.1), ih hl.2 (by omega)]
    rfl

/-- And a last line, without one. -/
theorem line_of_last {room : ℕ} (hl : '\n' ∉ l) (hlen : l.length ≤ room) : line room l = l := by
  induction l generalizing room with
  | nil => cases room <;> rfl
  | cons c l ih =>
    rw [List.length_cons] at hlen
    obtain ⟨room, rfl⟩ : ∃ k, room = k + 1 := ⟨room - 1, by omega⟩
    rw [List.mem_cons, not_or] at hl
    rw [line, if_neg (Ne.symm hl.1), ih hl.2 (by omega)]

theorem readline_newline (mem : Mem Char) (rest : List Char) (hl : Fits l) :
    readline false MAXLINE mem (l ++ '\n' :: rest) =
      ⟨((l ++ ['\n']).length : ℤ), store mem 0 (l ++ ['\n'] ++ ['\x00']), rest⟩ := by
  obtain ⟨hnl, -, hlen⟩ := hl
  have hline : line (MAXLINE - 1) (l ++ '\n' :: rest) = l ++ ['\n'] := line_of_newline hnl hlen
  have happend : l ++ '\n' :: rest = (l ++ ['\n']) ++ rest := by simp
  have hdrop : (l ++ '\n' :: rest).drop (l ++ ['\n']).length = rest := by
    rw [happend, List.drop_left]
  rw [readline_eq (by decide) (by simp), hline, if_pos (by simp), hdrop]

/-- The null character of a last line is counted. -/
theorem readline_last (mem : Mem Char) (hl : Fits l) (hne : l ≠ []) :
    readline false MAXLINE mem l =
      ⟨((l ++ ['\x00']).length : ℤ), store mem 0 (l ++ ['\x00']), []⟩ := by
  obtain ⟨hnl, -, hlen⟩ := hl
  have hline : line (MAXLINE - 1) l = l := line_of_last hnl (Nat.le_of_lt hlen)
  rw [readline_eq (by decide) hne, hline, if_neg hnl, List.drop_length, List.length_append,
    List.length_singleton]

/-- The string in the buffer is compared with the whole of `tcpquit`. -/
theorem strncmp_quit (mem : Mem Char) {s : List Char} (hs : '\x00' ∉ s) :
    strncmp '\x00' (store mem 0 (s ++ ['\x00'])) QUIT_CMD 8 = true ↔ s = QUIT_CMD := by
  have hquit : '\x00' ∉ QUIT_CMD := by decide
  have hall : (QUIT_CMD ++ ['\x00']).take 8 = QUIT_CMD ++ ['\x00'] := by decide
  rw [strncmp_iff hquit, hall]
  constructor
  · exact eq_of_holds hs hquit (holds_store mem 0 _)
  · rintro rfl
    exact holds_store mem 0 _

/-- A line is read that is not the command, and written. -/
theorem loop_echoes (call : ℕ) (out : List Char) {s : List Char} {n : ℕ} {left : List Char}
    (hs : '\x00' ∉ s)
    (hne : s ≠ QUIT_CMD) (hwrote : ∀ i j, (wrote i j).moves) {stream : List Char} (hpos : 0 < n)
    (hn : n ≤ (s ++ ['\x00']).length)
    (hread : readline false MAXLINE mem stream = ⟨(n : ℤ), store mem 0 (s ++ ['\x00']), left⟩) :
    str_echo.loop false wrote call mem stream out =
      str_echo.loop false wrote (call + 1) (store mem 0 (s ++ ['\x00'])) left
        (out ++ (s ++ ['\x00']).take n) := by
  have hcmp : ¬ strncmp '\x00' (store mem 0 (s ++ ['\x00'])) QUIT_CMD 8 = true :=
    mt (strncmp_quit mem hs).1 hne
  have hlen : ((s ++ ['\x00']).take n).length = n := by
    rw [List.length_take, Nat.min_eq_left hn]
  have hload : load (store mem 0 (s ++ ['\x00'])) 0 n = (s ++ ['\x00']).take n :=
    load_store mem 0 hn
  -- `writen` moves all of what was read
  have hwriten : writen (wrote call) ((s ++ ['\x00']).take n) n =
      ((n : ℤ), (s ++ ['\x00']).take n) := by
    rw [writen, writen.loop_eq (hwrote call), List.drop_zero, List.nil_append,
      List.take_of_length_le (Nat.le_of_eq hlen)]
  have hpos : 0 < (n : ℤ) := Int.ofNat_lt.2 hpos
  rw [str_echo.loop]
  simp only [hread, hpos, dif_pos, Int.toNat_natCast, hload, hwriten, ne_eq, not_true_eq_false,
    if_false]
  exact if_neg hcmp

theorem loop_newline (call : ℕ) (mem : Mem Char) (rest out : List Char) (hl : Fits l)
    (hwrote : ∀ i j, (wrote i j).moves) :
    ∃ mem', str_echo.loop false wrote call mem (l ++ '\n' :: rest) out =
      str_echo.loop false wrote (call + 1) mem' rest (out ++ (l ++ ['\n'])) := by
  have hs : '\x00' ∉ l ++ ['\n'] := by simp [hl.2.1]
  have hne : l ++ ['\n'] ≠ QUIT_CMD := by
    intro h
    have hmem : '\n' ∈ QUIT_CMD := h ▸ List.mem_append_right l List.mem_cons_self
    revert hmem
    decide
  have hloop := loop_echoes call out hs hne hwrote (by simp) (by simp)
    (readline_newline mem rest hl)
  rw [List.take_left] at hloop
  exact ⟨_, hloop⟩

/-- The end of the file. -/
theorem loop_nil : str_echo.loop false wrote call mem [] out = ⟨out, .eof⟩ := by
  have hread : readline false MAXLINE mem [] = ⟨0, mem, []⟩ := readline_nil (by decide)
  rw [str_echo.loop]
  simp only [hread]
  rfl

/-- A last line is the command, or is written with its null character. -/
theorem loop_last (hl : Fits l) (hne : l ≠ []) (hwrote : ∀ i j, (wrote i j).moves) :
    str_echo.loop false wrote call mem l out =
      if l = QUIT_CMD then ⟨out, .quit⟩ else ⟨out ++ (l ++ ['\x00']), .eof⟩ := by
  have hread := readline_last mem hl hne
  by_cases hquit : l = QUIT_CMD
  · have hcmp := (strncmp_quit mem hl.2.1).2 hquit
    have hpos : 0 < ((l ++ ['\x00']).length : ℤ) := by
      rw [List.length_append, List.length_singleton]
      omega
    rw [if_pos hquit, str_echo.loop]
    simp only [hread, hpos, dif_pos]
    exact if_pos hcmp
  · rw [if_neg hquit, loop_echoes call out hl.2.1 hquit hwrote (by simp) (Nat.le_refl _) hread,
      List.take_length, loop_nil]

end Lines

/-! ## Texts that come back right -/

section Results

variable {wrote : ℕ → ℕ → Wrote} {mem : Mem Char} {t : Text}

/-- What comes behind the complete lines. -/
def Text.rest (t : Text) : Echoed :=
  if t.last = [] then ⟨[], .eof⟩
  else if t.last = QUIT_CMD then ⟨[], .quit⟩
  else ⟨t.last ++ ['\x00'], .eof⟩

/-- **What `str_echo` does**: it sends back every complete line. -/
theorem str_echo_eq (ht : t.Fits) (hwrote : ∀ i j, (wrote i j).moves) :
    str_echo false wrote mem t.stream = ⟨joined t.lines ++ t.rest.out, t.rest.exit⟩ := by
  obtain ⟨lines, last⟩ := t
  obtain ⟨hlines, hlast⟩ := ht
  -- induction on the lines, from any point of the loop
  suffices hloop : ∀ call mem out, str_echo.loop false wrote call mem (joined lines ++ last) out =
      ⟨out ++ (joined lines ++ (Text.rest ⟨lines, last⟩).out), (Text.rest ⟨lines, last⟩).exit⟩ from
    hloop 0 mem []
  induction lines with
  | nil =>
    intro call mem out
    unfold Text.rest
    by_cases hnil : last = []
    · subst hnil
      -- nothing behind the last line
      exact (loop_nil).trans (by simp [joined])
    · -- an open line, which may be the command
      apply (loop_last hlast hnil hwrote).trans
      have hquit_ne : QUIT_CMD ≠ [] := by decide
      by_cases hquit : last = QUIT_CMD
      · simp [joined, hquit, hquit_ne]
      · simp [joined, hnil, hquit]
  | cons l lines ih =>
    intro call mem out
    obtain ⟨hl, hlines⟩ := List.forall_mem_cons.1 hlines
    have hsplit : joined (l :: lines) ++ last = l ++ '\n' :: (joined lines ++ last) := by
      simp [joined]
    obtain ⟨mem', hline⟩ := loop_newline call mem (joined lines ++ last) out hl hwrote
    rw [hsplit, hline, ih hlines hlast]
    simp [joined, Text.rest]

theorem joined_cons (l : List Char) (lines : List (List Char)) :
    joined (l :: lines) = l ++ '\n' :: joined lines := by
  simp [joined]

/-- The lines in front of the command are fewer, and so shorter, than all of them. -/
theorem length_front_lt {lines : List (List Char)} (h : QUIT_CMD ∈ lines) :
    (joined (lines.takeWhile (· ≠ QUIT_CMD))).length < (joined lines).length := by
  induction lines with
  | nil => cases h
  | cons l lines ih =>
    by_cases hl : l = QUIT_CMD
    · rw [List.takeWhile_cons_of_neg (by simpa using hl), joined_cons, List.length_append,
        List.length_cons]
      exact Nat.lt_of_lt_of_le (Nat.succ_pos _) (Nat.le_add_left _ _)
    · have hrest := ih ((List.mem_cons.1 h).resolve_left (Ne.symm hl))
      rw [List.takeWhile_cons_of_pos (by simpa using hl), joined_cons, joined_cons,
        List.length_append, List.length_append, List.length_cons, List.length_cons]
      omega

/-- **What comes back is right if and only if no complete line says `tcpquit`**, and the text
ends with a newline or with an incomplete line that does. -/
theorem str_echo_right_iff (ht : t.Fits) (hwrote : ∀ i j, (wrote i j).moves) :
    str_echo false wrote mem t.stream = t.wanted ↔
      QUIT_CMD ∉ t.lines ∧ (t.last = [] ∨ t.last = QUIT_CMD) := by
  rw [str_echo_eq ht hwrote]
  unfold Text.wanted
  by_cases hmem : QUIT_CMD ∈ t.lines
  · rw [if_pos hmem]
    refine iff_of_false (fun heq => ?_) fun h => h.1 hmem
    -- too much has been sent back
    have hlen := congrArg (fun e => e.out.length) heq
    have hlt := length_front_lt hmem
    simp only [List.length_append] at hlen
    omega
  · rw [if_neg hmem]
    unfold Text.rest
    have hquit_ne : QUIT_CMD ≠ [] := by decide
    by_cases hquit : t.last = QUIT_CMD
    · simp [hquit, hquit_ne, hmem]
    · by_cases hnil : t.last = []
      · simp [hnil, hmem, Text.stream, Ne.symm hquit_ne]
      · simp [hnil, hquit, Text.stream]

end Results

/-- Two lines. -/
theorem str_echo_right_iff_two :
    str_echo false (fun _ _ => .bytes 0) (fun _ => 'x')
      (Text.mk [['h', 'i'], ['o', 'k']] []).stream =
      ⟨['h', 'i', '\n', 'o', 'k', '\n'], .eof⟩ := by
  exact (@str_echo_right_iff (fun _ _ => .bytes 0) (fun _ => 'x') ⟨[['h', 'i'], ['o', 'k']], []⟩
    (by decide) fun _ _ => ⟨0, rfl⟩).2 (by decide)

/-- The command, as a client types it, is sent back. -/
theorem str_echo_missed : ¬ ∀ (t : Text) (wrote : ℕ → ℕ → Wrote) (mem : Mem Char), t.Fits →
    (∀ i j, (wrote i j).moves) → str_echo false wrote mem t.stream = t.wanted := by
  intro h
  have hall := h ⟨[QUIT_CMD], []⟩ (fun _ _ => .bytes 0) (fun _ => 'x') (by decide)
    fun _ _ => ⟨0, rfl⟩
  rw [str_echo_eq (by decide) fun _ _ => ⟨0, rfl⟩] at hall
  revert hall
  decide

end UnixNetProg.Inetd.StrEcho

/-
`str_echo` of `11.tcp_daemon` and `str_dis` of `12.inetd`: lines are read until one begins with
the command that ends the service.

Both look at no more of a line than the command is long, so the command may be the beginning
of a longer line. To them a line is what `readline` gives back: what is up to a newline, or
511 characters. What has no newline is given back with its null character, and sent back with
it (`shown`); if the stream fails, an unfinished line is lost.

On the pieces of the stream the service is `served` (`serve_eq`), and there the buffer and the
null characters are gone.
-/
import Mathlib.Algebra.Order.BigOperators.Group.List
import UnixNetProg.Inetd.StrEcho
import UnixNetProg.Lib.Pieces

set_option autoImplicit false

namespace UnixNetProg.LineService

open UnixNetProg.Memory UnixNetProg.Pieces UnixNetProg.StreamIo

/-! ## The programs -/

def MAXLINE : ℕ := 512

/-- How it ends: at the end of the file, at an error of `read`, at the command, or because a
line could not be sent back. -/
inductive Ends
  | eof
  | readError
  | command
  | notWritten
  deriving DecidableEq, Repr

/-- What has been written, what has not been read, and the end. -/
structure Served where
  out : List Char
  left : List Char
  ends : Ends
  deriving DecidableEq, Repr

/-- What is done with a line that is not the command, by its number and length: whether the
service goes on, and what has been written. -/
abbrev Reply := ℕ → List Char → ℕ → Bool × List Char

/-- A line takes something off the stream. -/
theorem length_left_lt {fails : Bool} {mem : Mem Char} {s : List Char}
    (h : 0 < (readline fails MAXLINE mem s).ret) :
    (readline fails MAXLINE mem s).left.length < s.length := Inetd.StrEcho.length_left_lt h

/-- The loop of both programs. -/
def serve.loop (cmd : List Char) (reply : Reply) (fails : Bool) (call : ℕ) (mem : Mem Char)
    (stream out : List Char) : Served :=
  let r := readline fails MAXLINE mem stream
  if h : 0 < r.ret then
    if strncmp '\x00' r.mem cmd cmd.length then ⟨out, r.left, .command⟩
    else
      let w := reply call (load r.mem 0 r.ret.toNat) r.ret.toNat
      if w.1 then
        have : r.left.length < stream.length := length_left_lt h
        serve.loop cmd reply fails (call + 1) r.mem r.left (out ++ w.2)
      else ⟨out ++ w.2, r.left, .notWritten⟩
  else if r.ret = 0 then ⟨out, r.left, .eof⟩
  else ⟨out, r.left, .readError⟩
termination_by stream.length

def serve (cmd : List Char) (reply : Reply) (fails : Bool) (mem : Mem Char)
    (stream : List Char) : Served :=
  serve.loop cmd reply fails 0 mem stream []

def QUIT_CMD : List Char := "tcp quit".toList

/-- The line is written, and it goes on if all of it was. `wrote` answers the calls of `write`,
for each line anew. -/
def writeBack (wrote : ℕ → ℕ → Wrote) : Reply := fun call line n =>
  let w := writen (wrote call) line n
  (w.1 = n, w.2)

/-- `str_echo` (`11.tcp_daemon/str_echo.c:8-38`). -/
def str_echo (wrote : ℕ → ℕ → Wrote) : Bool → Mem Char → List Char → Served :=
  serve QUIT_CMD (writeBack wrote)

def DIS_CMD : List Char := "tcpdiscard".toList

/-- `main` (`12.inetd/str_dis.c:6-35`); it writes nothing. -/
def str_dis : Bool → Mem Char → List Char → Served := serve DIS_CMD fun _ _ _ => (true, [])

/-! ## The pieces of the stream -/

/-- A line, or as much of it as there is room for. -/
def lines : Cut Char where
  next := line (MAXLINE - 1)
  front := isPrefix_line (MAXLINE - 1)
  ne_nil := line_ne_nil (by decide)

/-- What `readline` gives back even if the stream fails behind it. -/
def Whole (p : List Char) : Prop := '\n' ∈ p ∨ p.length = MAXLINE - 1

instance (p : List Char) : Decidable (Whole p) := inferInstanceAs (Decidable (_ ∨ _))

/-- What `readline` gives back: without a newline, with the null character. -/
def shown (p : List Char) : List Char := if '\n' ∈ p then p else p ++ ['\x00']

/-- The service, as it deals with the pieces. -/
def served (cmd : List Char) (reply : Reply) (fails : Bool) : ℕ → List (List Char) → Served
  | _, [] => ⟨[], [], if fails then .readError else .eof⟩
  | call, p :: ps =>
    if fails ∧ ¬ Whole p then ⟨[], [], .readError⟩
    else if cmd <+: p then ⟨[], ps.flatten, .command⟩
    else
      let w := reply call (shown p) (shown p).length
      if w.1 then
        let r := served cmd reply fails (call + 1) ps
        ⟨w.2 ++ r.out, r.left, r.ends⟩
      else ⟨w.2, ps.flatten, .notWritten⟩

/-! ## One piece -/

section Piece

variable {cmd s p : List Char} {fails : Bool} {mem : Mem Char}

/-- The error of `read` matters only behind what is not whole. -/
theorem readline_loop_fails (maxlen n ptr : ℕ) (mem : Mem Char) (s : List Char) :
    if '\n' ∈ line (maxlen - n) s ∨ (line (maxlen - n) s).length = maxlen - n then
      readline.loop true maxlen n ptr mem s = readline.loop false maxlen n ptr mem s
    else ∃ mem', readline.loop true maxlen n ptr mem s = ⟨-1, mem', []⟩ := by
  induction s generalizing n ptr mem with
  | nil =>
    have hline : line (maxlen - n) [] = [] := by cases maxlen - n <;> rfl
    rw [hline]
    by_cases hlt : n < maxlen
    · have hroom : ¬ ('\n' ∈ ([] : List Char) ∨ ([] : List Char).length = maxlen - n) := by
        simp only [List.not_mem_nil, List.length_nil, false_or]
        omega
      rw [if_neg hroom, readline.loop, if_pos hlt]
      exact ⟨mem, rfl⟩
    · have hroom : ([] : List Char).length = maxlen - n := by
        rw [List.length_nil]
        omega
      rw [if_pos (.inr hroom), readline.loop, readline.loop, if_neg hlt, if_neg hlt]
  | cons c s ih =>
    by_cases hlt : n < maxlen
    · obtain ⟨room, hroom⟩ : ∃ room, maxlen - n = room + 1 := ⟨maxlen - n - 1, by omega⟩
      have hroom' : maxlen - (n + 1) = room := by omega
      rw [readline.loop, readline.loop, if_pos hlt, if_pos hlt, hroom, line]
      by_cases hc : c = '\n'
      · simp [hc]
      · have hrest := ih (n + 1) (ptr + 1) (store mem ptr [c])
        rw [hroom'] at hrest
        simpa only [if_neg hc, List.mem_cons, Ne.symm hc, false_or, List.length_cons,
          Nat.add_right_cancel_iff] using hrest
    · have hroom : maxlen - n = 0 := by omega
      rw [readline.loop, readline.loop, if_neg hlt, if_neg hlt, hroom]
      exact (if_pos (.inr rfl)).mpr rfl

/-- **What `readline` does** where something is left, whether the stream fails or not. -/
theorem readline_piece (fails : Bool) (mem : Mem Char) (hs : s ≠ []) :
    if fails ∧ ¬ Whole (lines.next s) then
      (readline fails MAXLINE mem s).ret = -1 ∧ (readline fails MAXLINE mem s).left = []
    else readline fails MAXLINE mem s = ⟨((shown (lines.next s)).length : ℤ),
      store mem 0 (lines.next s ++ ['\x00']), lines.behind s⟩ := by
  have hfine : readline false MAXLINE mem s = ⟨((shown (lines.next s)).length : ℤ),
      store mem 0 (lines.next s ++ ['\x00']), lines.behind s⟩ := by
    rw [readline_eq (by decide) hs]
    refine congrArg (Result.mk · _ _) ?_
    unfold shown
    split_ifs with hnl hnl' hnl'
    · rfl
    · exact absurd hnl hnl'
    · exact absurd hnl' hnl
    · rw [List.length_append]
      rfl
  have hloop := readline_loop_fails MAXLINE 1 0 mem s
  cases fails with
  | false =>
    rw [if_neg (by simp)]
    exact hfine
  | true =>
    by_cases hwhole : Whole (lines.next s)
    · rw [if_neg fun h => h.2 hwhole, ← hfine]
      exact (if_pos hwhole).mp hloop
    · rw [if_pos ⟨rfl, hwhole⟩]
      obtain ⟨mem', h⟩ := (if_neg hwhole).mp hloop
      rw [readline, h]
      exact ⟨rfl, rfl⟩

/-- The command is at the beginning of the buffer if the piece begins with it. -/
theorem strncmp_cmd (mem : Mem Char) (hcmd : '\x00' ∉ cmd) :
    strncmp '\x00' (store mem 0 (p ++ ['\x00'])) cmd cmd.length = true ↔ cmd <+: p := by
  have htake : (cmd ++ ['\x00']).take cmd.length = cmd := by rw [List.take_left]
  have hbuffer := holds_store mem 0 (p ++ ['\x00'])
  rw [strncmp_iff hcmd, htake]
  constructor
  · intro hheld
    rcases hheld.prefix_or hbuffer with hpre | hpre
    · -- the command has no null character, so that it ends in front of it
      rcases List.prefix_concat_iff.1 hpre with heq | hpre
      · exact absurd (heq ▸ List.mem_append_right p List.mem_cons_self) hcmd
      · exact hpre
    · exact absurd (hpre.subset (List.mem_append_right p List.mem_cons_self)) hcmd
  · rintro ⟨rest, rfl⟩
    exact (holds_append.1 (holds_append.1 hbuffer).1).1

theorem isPrefix_shown (p : List Char) : shown p <+: p ++ ['\x00'] := by
  unfold shown
  split_ifs
  · exact List.prefix_append p _
  · exact List.prefix_refl _

theorem shown_length_pos (hp : p ≠ []) : 0 < (shown p).length := by
  unfold shown
  split_ifs
  · exact List.length_pos_iff.2 hp
  · rw [List.length_append]
    exact Nat.succ_pos _

end Piece

/-! ## All of them -/

section All

variable {cmd : List Char} {reply : Reply} {fails : Bool}

/-- **The service deals with one piece after the other.** -/
theorem serve_eq (hcmd : '\x00' ∉ cmd) (reply : Reply) (fails : Bool) (mem : Mem Char)
    (stream : List Char) :
    serve cmd reply fails mem stream = served cmd reply fails 0 (lines.pieces stream) := by
  -- induction on the pieces, from any point of the loop
  suffices hloop : ∀ call mem out, serve.loop cmd reply fails call mem stream out =
      ⟨out ++ (served cmd reply fails call (lines.pieces stream)).out,
        (served cmd reply fails call (lines.pieces stream)).left,
        (served cmd reply fails call (lines.pieces stream)).ends⟩ from hloop 0 mem []
  induction stream using lines.induct with
  | nil =>
    intro call mem out
    have hread : readline fails MAXLINE mem [] = ⟨if fails then -1 else 0, mem, []⟩ := by
      cases fails <;> rfl
    rw [serve.loop, lines.pieces_nil, served]
    simp only [hread]
    cases fails <;> simp
  | piece s hs ih =>
    intro call mem out
    have hread := readline_piece fails mem hs
    rw [lines.pieces_of_ne_nil hs, serve.loop, served]
    by_cases hlost : fails ∧ ¬ Whole (lines.next s)
    · -- an unfinished line, and then the error
      rw [if_pos hlost] at hread
      rw [if_pos hlost]
      simp [hread.1, hread.2]
    · rw [if_neg hlost] at hread
      rw [if_neg hlost]
      have hpos : 0 < ((shown (lines.next s)).length : ℤ) :=
        Int.natCast_pos.2 (shown_length_pos (lines.ne_nil hs))
      have hload : load (store mem 0 (lines.next s ++ ['\x00'])) 0 (shown (lines.next s)).length =
          shown (lines.next s) := by
        rw [load_store mem 0 (isPrefix_shown _).length_le]
        exact (List.prefix_iff_eq_take.1 (isPrefix_shown _)).symm
      simp only [hread, hpos, dif_pos, Int.toNat_natCast, hload, lines.flatten_pieces,
        strncmp_cmd mem hcmd]
      by_cases hstop : cmd <+: lines.next s
      · simp [hstop]
      · simp only [hstop, if_false]
        cases hw : (reply call (shown (lines.next s)) (shown (lines.next s)).length).1 with
        | false => simp
        | true => simp [ih]

end All

/-! ## Up to the command -/

/-- The pieces that are given back: not an unfinished one, in front of an error. -/
def given (fails : Bool) (ps : List (List Char)) : List (List Char) :=
  if fails then ps.takeWhile Whole else ps

/-- Those in front of the first that begins with the command. -/
def before (cmd : List Char) (ps : List (List Char)) : List (List Char) :=
  ps.takeWhile fun p => ¬ cmd <+: p

/-- **Where the service ends**: at the command, of which nothing more is read than its piece,
or with the stream. -/
def StopsRight (cmd : List Char) (fails : Bool) (stream : List Char) (r : Served) : Prop :=
  let ps := given fails (lines.pieces stream)
  (∃ p ∈ ps, cmd <+: p ∧ r.ends = .command ∧ (before cmd ps).flatten ++ p ++ r.left = stream) ∨
    (∀ p ∈ ps, ¬ cmd <+: p) ∧ r.ends = (if fails then .readError else .eof) ∧ r.left = []

section UpTo

variable {cmd p : List Char} {reply : Reply} {fails : Bool} {ps : List (List Char)}

theorem given_cons_of_lost (h : fails ∧ ¬ Whole p) : given fails (p :: ps) = [] := by
  rw [given, if_pos h.1, List.takeWhile_cons_of_neg (by simpa using h.2)]

theorem given_cons (h : ¬ (fails ∧ ¬ Whole p)) : given fails (p :: ps) = p :: given fails ps := by
  unfold given
  cases fails with
  | false => rfl
  | true =>
    have hwhole : Whole p := by simpa using h
    rw [if_pos rfl, if_pos rfl, List.takeWhile_cons_of_pos (by simpa using hwhole)]

theorem before_cons_of_cmd (h : cmd <+: p) : before cmd (p :: ps) = [] := by
  rw [before, List.takeWhile_cons_of_neg (by simpa using h)]

theorem before_cons (h : ¬ cmd <+: p) : before cmd (p :: ps) = p :: before cmd ps := by
  rw [before, List.takeWhile_cons_of_pos (by simpa using h)]
  rfl

/-- A reply that sends a line back, or some of it. -/
def Reply.Echoes (reply : Reply) : Prop :=
  ∀ call line, (reply call line line.length).2 <+: line ∧
    ((reply call line line.length).1 = true → line ≠ [] → (reply call line line.length).2 = line)

/-- The text of what is shown. -/
theorem filter_shown (p : List Char) :
    (shown p).filter (· ≠ '\x00') = p.filter (· ≠ '\x00') := by
  unfold shown
  split_ifs
  · rfl
  · simp

/-- **Nothing is sent back that was not there**, but null characters. -/
theorem served_text (h : reply.Echoes) (call : ℕ) (hne : ∀ p ∈ ps, p ≠ []) :
    (served cmd reply fails call ps).out.filter (· ≠ '\x00') <+:
      (before cmd (given fails ps)).flatten.filter (· ≠ '\x00') := by
  induction ps generalizing call with
  | nil => exact List.nil_prefix
  | cons p ps ih =>
    obtain ⟨hp, hps⟩ := List.forall_mem_cons.1 hne
    rw [served]
    by_cases hlost : fails ∧ ¬ Whole p
    · rw [if_pos hlost]
      exact List.nil_prefix
    rw [if_neg hlost, given_cons hlost]
    by_cases hstop : cmd <+: p
    · rw [if_pos hstop]
      exact List.nil_prefix
    rw [if_neg hstop, before_cons hstop, List.flatten_cons, List.filter_append, ← filter_shown p]
    obtain ⟨hsome, hall⟩ := h call (shown p)
    cases hgo : (reply call (shown p) (shown p).length).1 with
    | false =>
      -- it ends with a part of this line
      simp only [hgo, Bool.false_eq_true, if_false]
      exact (hsome.filter _).trans (List.prefix_append _ _)
    | true =>
      have hshown := hall hgo (List.length_pos_iff.1 (shown_length_pos hp))
      simp only [hgo, if_true, hshown, List.filter_append]
      exact (List.prefix_append_right_inj _).2 (ih (call + 1) hps)

/-- **What the service does** when every line is answered in one way. -/
theorem served_eq {answer : List Char → List Char}
    (h : ∀ call line, reply call line line.length = (true, answer line)) (call : ℕ) :
    (served cmd reply fails call ps).out =
      (before cmd (given fails ps)).flatMap fun p => answer (shown p) := by
  induction ps generalizing call with
  | nil => cases fails <;> rfl
  | cons p ps ih =>
    rw [served]
    by_cases hlost : fails ∧ ¬ Whole p
    · rw [if_pos hlost, given_cons_of_lost hlost]
      rfl
    rw [if_neg hlost, given_cons hlost]
    by_cases hstop : cmd <+: p
    · rw [if_pos hstop, before_cons_of_cmd hstop]
      rfl
    rw [if_neg hstop, before_cons hstop, List.flatMap_cons, ← ih (call + 1)]
    simp only [h, if_true]

theorem served_stops (h : ∀ call line, (reply call line line.length).1 = true) (call : ℕ)
    (stream : List Char) :
    StopsRight cmd fails stream (served cmd reply fails call (lines.pieces stream)) := by
  induction stream using lines.induct generalizing call with
  | nil =>
    right
    cases fails <;> simp [given, served]
  | piece s hs ih =>
    rw [StopsRight, lines.pieces_of_ne_nil hs, served]
    by_cases hlost : fails ∧ ¬ Whole (lines.next s)
    · rw [if_pos hlost, given_cons_of_lost hlost, hlost.1]
      exact .inr ⟨by simp, rfl, rfl⟩
    rw [if_neg hlost, given_cons hlost]
    by_cases hstop : cmd <+: lines.next s
    · rw [if_pos hstop, before_cons_of_cmd hstop]
      refine .inl ⟨_, List.mem_cons_self, hstop, rfl, ?_⟩
      rw [lines.flatten_pieces]
      exact lines.next_append_behind s
    rw [if_neg hstop, before_cons hstop]
    simp only [h, if_true]
    rcases ih (call + 1) with ⟨p, hp, hcmd, hends, hstream⟩ | ⟨hnone, hends, hleft⟩
    · refine .inl ⟨p, List.mem_cons_of_mem _ hp, hcmd, hends, ?_⟩
      rw [List.flatten_cons, List.append_assoc, List.append_assoc, ← List.append_assoc _ p, hstream,
        lines.next_append_behind]
    · exact .inr ⟨List.forall_mem_cons.2 ⟨hstop, hnone⟩, hends, hleft⟩

/-- What is shown is the text if all of the lines are complete. -/
theorem flatMap_shown_eq_iff : ps.flatMap shown = ps.flatten ↔ ∀ p ∈ ps, '\n' ∈ p := by
  have hlen (p : List Char) : p.length ≤ (shown p).length := by
    unfold shown
    split_ifs
    · exact le_rfl
    · exact List.length_append ▸ Nat.le_add_right _ _
  induction ps with
  | nil => simp
  | cons p ps ih =>
    rw [List.flatMap_cons, List.flatten_cons, List.forall_mem_cons]
    refine Iff.trans ?_ (and_congr_right' ih)
    constructor
    · intro heq
      have hall : ps.flatten.length ≤ (ps.flatMap shown).length := by
        rw [List.length_flatten, List.length_flatMap]
        exact List.sum_le_sum fun q _ => hlen q
      -- the first is not longer than it was, so it has its newline
      have hsame := List.append_inj heq (by
        have htotal := congrArg List.length heq
        rw [List.length_append, List.length_append] at htotal
        have hfirst := hlen p
        omega)
      refine ⟨by_contra fun hnl => ?_, hsame.2⟩
      have hshown : shown p = p ++ ['\x00'] := if_neg hnl
      have hlonger := congrArg List.length (hshown.symm.trans hsame.1)
      rw [List.length_append, List.length_singleton] at hlonger
      omega
    · rintro ⟨hnl, heq⟩
      rw [heq, shown, if_pos hnl]

end UpTo

/-! ## The two services -/

section Writing

variable {answers : ℕ → Wrote} {nbytes call nleft ptr : ℕ} {buffer sent line : List Char}

/-- Whatever `write` answers, what is sent is the front of what should be, and all of it if
`writen` returns the number. -/
theorem writen_loop_sent (hle : nleft ≤ nbytes) :
    ∃ n ≤ nleft, (writen.loop answers nbytes buffer call nleft ptr sent).2 =
        sent ++ (buffer.drop ptr).take n ∧
      ((writen.loop answers nbytes buffer call nleft ptr sent).1 = nbytes → nbytes ≠ 0 →
        n = nleft) := by
  induction nleft using Nat.strongRecOn generalizing call ptr sent with
  | _ nleft ih =>
    by_cases hpos : 0 < nleft
    · cases hcall : answers call with
      | bytes k =>
        have hmin := Nat.min_le_right (k + 1) nleft
        obtain ⟨n, hn, hsent, hall⟩ := @ih (nleft - min (k + 1) nleft) (by omega) (call + 1)
          (ptr + min (k + 1) nleft) (sent ++ (buffer.drop ptr).take (min (k + 1) nleft)) (by omega)
        refine ⟨min (k + 1) nleft + n, by omega, ?_, fun hret hne => ?_⟩
        · rw [writen.loop_bytes hpos hcall, hsent, List.append_assoc, take_drop_add]
        · rw [writen.loop_bytes hpos hcall] at hret
          have hrest := hall hret hne
          omega
      | zero =>
        refine ⟨0, Nat.zero_le _, ?_, fun hret hne => ?_⟩
        · rw [writen.loop, dif_pos hpos, hcall]
          simp
        · rw [writen.loop, dif_pos hpos, hcall] at hret
          exact absurd (Int.ofNat_inj.1 hret.symm) hne
      | fails =>
        refine ⟨0, Nat.zero_le _, ?_, fun hret hne => ?_⟩
        · rw [writen.loop, dif_pos hpos, hcall]
          simp
        · rw [writen.loop, dif_pos hpos, hcall] at hret
          have hneg : (-1 : ℤ) = nbytes := hret
          omega
    · obtain rfl : nleft = 0 := by omega
      exact ⟨0, le_rfl, by rw [writen.loop_zero, List.take_zero, List.append_nil], fun _ _ => rfl⟩

end Writing

/-- `str_echo` sends a line back, or the front of it. -/
theorem echoes_writeBack (wrote : ℕ → ℕ → Wrote) : (writeBack wrote).Echoes := by
  intro call line
  obtain ⟨n, -, hsent, hall⟩ := @writen_loop_sent (wrote call) line.length 0 line.length 0 line []
    (Nat.le_refl _)
  rw [List.drop_zero, List.nil_append] at hsent
  refine ⟨?_, fun hgo hne => ?_⟩
  · show (writen (wrote call) line line.length).2 <+: line
    rw [writen, hsent]
    exact List.take_prefix n line
  · show (writen (wrote call) line line.length).2 = line
    have hlen := hall (of_decide_eq_true hgo) fun h => hne (List.length_eq_zero_iff.1 h)
    rw [writen, hsent, hlen, List.take_length]

theorem writeBack_eq {wrote : ℕ → ℕ → Wrote} (hwrote : ∀ i j, (wrote i j).moves) (call : ℕ)
    (line : List Char) : writeBack wrote call line line.length = (true, line) := by
  have hwriten : writen (wrote call) line line.length = ((line.length : ℤ), line) := by
    rw [writen, writen.loop_eq (hwrote call), List.drop_zero, List.take_length, List.nil_append]
  simp only [writeBack, hwriten, decide_true]

/-- **The lines up to the command.** Whatever `write` answers, `str_echo` sends back nothing but
the text in front of the command, and null characters. If every `write` moves something it
sends back all of it, and that right if and only if each line is complete; and it stops at
the command or with the stream, as `str_dis` does, which sends nothing. -/
theorem line_services (wrote : ℕ → ℕ → Wrote) (fails : Bool) (mem : Mem Char)
    (stream : List Char) :
    let ps := given fails (lines.pieces stream)
    let e := str_echo wrote fails mem stream
    let d := str_dis fails mem stream
    (e.out.filter (· ≠ '\x00') <+: (before QUIT_CMD ps).flatten.filter (· ≠ '\x00')) ∧
      ((∀ i j, (wrote i j).moves) →
        e.out = (before QUIT_CMD ps).flatMap shown ∧
        (e.out = (before QUIT_CMD ps).flatten ↔ ∀ p ∈ before QUIT_CMD ps, '\n' ∈ p) ∧
        StopsRight QUIT_CMD fails stream e) ∧
      d.out = [] ∧ StopsRight DIS_CMD fails stream d := by
  intro ps e d
  have hecho : e = served QUIT_CMD _ fails 0 (lines.pieces stream) :=
    serve_eq (by decide) _ fails mem stream
  have hdis : d = served DIS_CMD _ fails 0 (lines.pieces stream) :=
    serve_eq (by decide) _ fails mem stream
  have hpieces : ∀ p ∈ lines.pieces stream, p ≠ [] :=
    lines.forall_mem_pieces (fun _ hs => lines.ne_nil hs) stream
  refine ⟨?_, fun hwrote => ?_, ?_, ?_⟩
  · rw [hecho]
    exact served_text (echoes_writeBack wrote) 0 hpieces
  · -- each line is sent back as it was shown
    have hout : e.out = (before QUIT_CMD ps).flatMap shown := by
      rw [hecho]
      exact served_eq (writeBack_eq hwrote) 0
    refine ⟨hout, ?_, ?_⟩
    · rw [hout]
      exact flatMap_shown_eq_iff
    · rw [hecho]
      refine served_stops (fun call line => ?_) 0 stream
      exact congrArg Prod.fst (writeBack_eq hwrote call line)
  · rw [hdis, served_eq (fun _ _ => rfl) 0]
    exact List.flatMap_eq_nil_iff.2 fun _ _ => rfl
  · rw [hdis]
    exact served_stops (fun _ _ => rfl) 0 stream

/-- A line, the command with more behind it, and what is not read. -/
theorem line_services_quit :
    let e := str_echo (fun _ _ => .bytes 0) false (fun _ => 'x')
      (['o', 'k', '\n'] ++ ("tcp quits\n".toList ++ ['x']))
    e.out = ['o', 'k', '\n'] ∧ StopsRight QUIT_CMD false
      (['o', 'k', '\n'] ++ ("tcp quits\n".toList ++ ['x'])) e := by
  intro e
  have hall := (line_services (fun _ _ => .bytes 0) false (fun _ => 'x')
    (['o', 'k', '\n'] ++ ("tcp quits\n".toList ++ ['x']))).2.1 fun _ _ => ⟨0, rfl⟩
  have hpieces : lines.pieces (['o', 'k', '\n'] ++ ("tcp quits\n".toList ++ ['x'])) =
      ['o', 'k', '\n'] :: "tcp quits\n".toList :: lines.pieces ['x'] :=
    (lines.pieces_of_ne_nil (by decide)).trans
      (congrArg _ (lines.pieces_of_ne_nil (s := "tcp quits\n".toList ++ ['x']) (by decide)))
  refine ⟨hall.1.trans ?_, hall.2.2⟩
  rw [hpieces, given, if_neg (by decide), before_cons (by decide), before_cons_of_cmd (by decide)]
  rfl

end UnixNetProg.LineService

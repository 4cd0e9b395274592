/-
`send_recv/connectionless/server.c`: the buffer of the server, and the errors of
`recvfrom`.

`message_len` is a `size_t`, which has no sign: -1 becomes the largest one, the test for a
negative length is never true, and what is behind the message goes to the byte in front of
the buffer. Two bytes are stored behind a message, so one of 255 or 256 bytes leaves
the buffer at its other end.

An answer of `recvfrom` is a datagram with what `client_details` holds after the call, or -1.
(`client_sock_addr_size` has no value when it is passed, so that this need not be the
address of the sender.) Memory goes on outside of the buffer, and every range of it that is
used is recorded. Of what is logged the lengths and the message are kept.
-/
import Mathlib.Logic.Function.Basic
import UnixNetProg.Lib.Memory
import UnixNetProg.Lib.Wrapping

set_option autoImplicit false

namespace UnixNetProg.Connectionless

open UnixNetProg.Memory UnixNetProg.Wrapping

/-! ## The program -/

/-- `sizeof (message_buffer)`. -/
def SIZEOF : ℕ := 256

def AF_INET : ℕ := 2

def RECEIVE_FAILED : String := "[SERVER ERROR] Failed to receive message from the client."

/-- The answer to a `recvfrom`. -/
inductive Answer
  | datagram (bs : List UInt8) (sa_family : ℕ)
  | fails
  deriving DecidableEq, Repr

inductive Out
  | peeked (message_len : BitVec 64)
  | stdout (bs : List UInt8)
  | message (message_len message_id : BitVec 64)
  deriving DecidableEq, Repr

inductive At
  | running
  | exited (msg : String)
  deriving DecidableEq, Repr

/-- Memory by its distance from `message_buffer`, and the other variables. -/
structure Server where
  mem : ℤ → UInt8
  message_len : BitVec 64
  sa_family : ℕ
  message_id : BitVec 64
  out : List Out
  pc : At
  used : List Span

/-- Before the first call: of the variables only `message_id` has a value. -/
def start (mem : ℤ → UInt8) (message_len : BitVec 64) (sa_family : ℕ) : Server :=
  ⟨mem, message_len, sa_family, 0, [], .running, []⟩

/-- Bytes are stored from the start of the buffer on. -/
def fill (mem : ℤ → UInt8) (bs : List UInt8) : ℤ → UInt8 := fun i =>
  if 0 ≤ i then (bs[i.toNat]?).getD (mem i) else mem i

/-- `strlen(message_buffer)`, if there is a null at `last`. -/
def strlen (mem : ℤ → UInt8) (last : ℕ) : ℕ :=
  ((List.range last).takeWhile fun i : ℕ => mem i ≠ 0).length

def Server.recvfrom (s : Server) : Answer → Server
  | .datagram bs sa_family =>
    { s with
      mem := fill s.mem (bs.take SIZEOF)
      message_len := BitVec.ofNat 64 (bs.take SIZEOF).length
      sa_family := sa_family
      used := s.used ++ [⟨0, (bs.take SIZEOF).length⟩] }
  | .fails => { s with message_len := BitVec.ofInt 64 (-1) }

/-- The first `recvfrom`, with `MSG_PEEK`. -/
def Server.peek (s : Server) (r : Answer) : Server :=
  let s := s.recvfrom r
  if s.message_len < 0 then { s with pc := .exited RECEIVE_FAILED }
  else { s with out := s.out ++ [.peeked s.message_len] }

/-- A message is put out. -/
def Server.show (s : Server) : Server :=
  let newline := s.message_len.toInt
  let null := (s.message_len + 1).toInt
  let mem := Function.update (Function.update s.mem newline 10) null 0
  let n := strlen mem null.toNat
  { s with
    mem := mem
    out := s.out ++ [.stdout ((List.range n).map fun i : ℕ => mem i),
      .message s.message_len s.message_id]
    message_id := s.message_id + 1
    used := s.used ++ [⟨newline, 1⟩, ⟨null, 1⟩, ⟨0, n + 1⟩, ⟨0, n⟩] }

/-- A turn of the loop (`send_recv/connectionless/server.c:67-89`). -/
def Server.turn (s : Server) (r : Answer) : Server :=
  match s.pc with
  | .exited _ => s
  | .running =>
    let s := s.recvfrom r
    if s.message_len < 0 then { s with pc := .exited RECEIVE_FAILED }
    else if s.sa_family = AF_INET then if 0 < s.message_len then s.show else s
    else s

/-- The server, with the answers so far. -/
def run (s : Server) (first : Answer) (rest : List Answer) : Server :=
  rest.foldl Server.turn (s.peek first)

/-! ## What should hold -/

/-- Only the buffer is used, and where a `recvfrom` has failed the server has said so and
exited. -/
structure Safe (answers : List Answer) (s : Server) : Prop where
  inside : ∀ a ∈ s.used, a.Inside SIZEOF
  noticed : .fails ∈ answers → s.pc = .exited RECEIVE_FAILED

/-- There is room behind the message for two more bytes, if it is put out. -/
def Answer.Short : Answer → Prop
  | .datagram bs sa_family => sa_family = AF_INET → bs.length ≤ SIZEOF - 2
  | .fails => False

/-! ## A turn of the loop -/

section Turns

variable {s : Server} {r : Answer}

/-- A length is never less than 0. -/
theorem not_len_lt (s : Server) : ¬ s.message_len < 0 := BitVec.not_lt_zero

theorem turn_eq (h : s.pc = .running) (r : Answer) : s.turn r =
    if (s.recvfrom r).sa_family = AF_INET ∧ 0 < (s.recvfrom r).message_len then
      (s.recvfrom r).show
    else s.recvfrom r := by
  simp only [Server.turn, h, if_neg (not_len_lt _), ite_and]

/-- **However the calls come out, the server goes on.** -/
theorem turn_pc (h : s.pc = .running) (r : Answer) : (s.turn r).pc = .running := by
  have hrecv : (s.recvfrom r).pc = .running := by
    cases r with
    | datagram bs sa_family => exact h
    | fails => exact h
  rw [turn_eq h]
  split_ifs
  · exact hrecv
  · exact hrecv

theorem run_pc (h : s.pc = .running) (first : Answer) (rest : List Answer) :
    (run s first rest).pc = .running := by
  have hpeek : (s.peek first).pc = .running := by
    rw [Server.peek, if_neg (not_len_lt _)]
    cases first with
    | datagram bs sa_family => exact h
    | fails => exact h
  rw [run]
  generalize s.peek first = s' at hpeek
  induction rest generalizing s' with
  | nil => exact hpeek
  | cons r rest ih => exact ih _ (turn_pc hpeek r)

theorem strlen_le (mem : ℤ → UInt8) (last : ℕ) : strlen mem last ≤ last := by
  have hle := (List.takeWhile_prefix (fun i : ℕ => mem i ≠ 0) (l := List.range last)).length_le
  rwa [List.length_range] at hle

/-- A small length is the number that it stands for. -/
theorem toInt_ofNat {n : ℕ} (hn : n ≤ SIZEOF + 1) : (BitVec.ofNat 64 n).toInt = n := by
  apply (toInt_ofNat_iff (by decide) n).2
  exact hn.trans_lt (by decide)

/-- What is used to put a message of `n` bytes out is inside if two bytes more are. -/
theorem show_inside_iff {n : ℕ} (hn : s.message_len = BitVec.ofNat 64 n) (hle : n ≤ SIZEOF) :
    (∀ a ∈ s.show.used, a.Inside SIZEOF) ↔
      (∀ a ∈ s.used, a.Inside SIZEOF) ∧ n ≤ SIZEOF - 2 := by
  have hsize : SIZEOF = 256 := rfl
  have hnewline : s.message_len.toInt = n := by
    rw [hn, toInt_ofNat (by omega)]
  have hnull : (s.message_len + 1).toInt = (n + 1 : ℕ) := by
    have hsucc : BitVec.ofNat 64 n + 1 = BitVec.ofNat 64 (n + 1) := (BitVec.ofNat_add n 1).symm
    rw [hn, hsucc, toInt_ofNat (by omega)]
  -- `strlen` does not go past the null that was stored
  have hlen := strlen_le (Function.update (Function.update s.mem n 10) (n + 1 : ℕ) 0) (n + 1)
  simp only [Server.show, hnewline, hnull, Int.toNat_natCast, List.forall_mem_append,
    List.forall_mem_cons, Span.Inside]
  apply and_congr_right
  intro _
  constructor
  · rintro ⟨-, ⟨-, hright⟩, -⟩
    omega
  · intro hroom
    refine ⟨?_, ?_, ?_, ?_, by simp⟩
    · omega
    · omega
    · omega
    · omega

/-- `recvfrom` is told how long the buffer is, and stores nothing outside of it. -/
theorem recvfrom_inside_iff :
    (∀ a ∈ (s.recvfrom r).used, a.Inside SIZEOF) ↔ ∀ a ∈ s.used, a.Inside SIZEOF := by
  cases r with
  | fails => exact Iff.rfl
  | datagram bs sa_family =>
    have hgot : (bs.take SIZEOF).length = min SIZEOF bs.length := List.length_take
    simp only [Server.recvfrom, List.forall_mem_append, List.forall_mem_singleton, Span.Inside,
      and_iff_left_iff_imp]
    omega

/-- **A datagram stays inside if and only if it is short.** -/
theorem turn_inside_iff (h : s.pc = .running) (hr : r ≠ .fails) :
    (∀ a ∈ (s.turn r).used, a.Inside SIZEOF) ↔ (∀ a ∈ s.used, a.Inside SIZEOF) ∧ r.Short := by
  cases r with
  | fails => exact absurd rfl hr
  | datagram bs sa_family =>
    have hsize : SIZEOF = 256 := rfl
    have hgot : (bs.take SIZEOF).length = min SIZEOF bs.length := List.length_take
    have hrecv := @recvfrom_inside_iff s (.datagram bs sa_family)
    have hlen : (s.recvfrom (.datagram bs sa_family)).message_len =
        BitVec.ofNat 64 (bs.take SIZEOF).length := rfl
    have hpos : 0 < (s.recvfrom (.datagram bs sa_family)).message_len ↔ 0 < bs.length := by
      rw [hlen, BitVec.lt_def, BitVec.toNat_ofNat, Nat.mod_eq_of_lt (by omega), hgot]
      show 0 < _ ↔ _
      omega
    rw [turn_eq h, Answer.Short]
    by_cases hshown : sa_family = AF_INET ∧ 0 < bs.length
    · rw [if_pos ⟨hshown.1, hpos.2 hshown.2⟩, show_inside_iff hlen (by omega), hrecv]
      apply and_congr_right
      intro _
      rw [hgot]
      omega
    · -- nothing is put out
      rw [if_neg fun hcond => hshown ⟨hcond.1, hpos.1 hcond.2⟩, hrecv]
      apply (and_iff_left _).symm
      intro hinet
      by_contra hlong
      exact hshown ⟨hinet, by omega⟩

end Turns

/-! ## Every run -/

section Runs

variable {s : Server}

theorem foldl_inside_iff {rest : List Answer} (h : s.pc = .running)
    (hrest : ∀ r ∈ rest, r ≠ .fails) :
    (∀ a ∈ (rest.foldl Server.turn s).used, a.Inside SIZEOF) ↔
      (∀ a ∈ s.used, a.Inside SIZEOF) ∧ ∀ r ∈ rest, r.Short := by
  induction rest generalizing s with
  | nil => simp
  | cons r rest ih =>
    rw [List.forall_mem_cons] at hrest
    rw [List.foldl_cons, ih (turn_pc h r) hrest.2, turn_inside_iff h hrest.1, and_assoc,
      List.forall_mem_cons]

/-- Looking at the first datagram uses nothing outside. -/
theorem peek_inside (h : s.used = []) {first : Answer} :
    ∀ a ∈ (s.peek first).used, a.Inside SIZEOF := by
  rw [Server.peek, if_neg (not_len_lt _)]
  apply recvfrom_inside_iff.2
  rw [h]
  exact List.forall_mem_nil _

/-- **The server stays in its buffer and sees its errors if and only if there are none and
every message that it puts out leaves room for two more bytes.** -/
theorem server_safe_iff (mem : ℤ → UInt8) (message_len : BitVec 64) (sa_family : ℕ)
    (first : Answer) (rest : List Answer) :
    Safe (first :: rest) (run (start mem message_len sa_family) first rest) ↔
      first ≠ .fails ∧ ∀ r ∈ rest, r.Short := by
  have hpc := @run_pc (start mem message_len sa_family) rfl first rest
  have hpeek := @run_pc (start mem message_len sa_family) rfl first []
  have hstart := @peek_inside (start mem message_len sa_family) rfl first
  have hinside := @foldl_inside_iff ((start mem message_len sa_family).peek first) rest hpeek
  constructor
  · intro h
    -- an error would not be noticed
    have hnone : ∀ r ∈ first :: rest, r ≠ .fails := by
      rintro r hr rfl
      have hexit := h.noticed hr
      rw [hpc] at hexit
      cases hexit
    rw [List.forall_mem_cons] at hnone
    exact ⟨hnone.1, ((hinside hnone.2).1 h.inside).2⟩
  · rintro ⟨hfirst, hshort⟩
    have hrest : ∀ r ∈ rest, r ≠ .fails := by
      rintro r hr rfl
      exact hshort _ hr
    -- there is no error to be noticed
    refine ⟨(hinside hrest).2 ⟨hstart, hshort⟩, fun hmem => ?_⟩
    rcases List.mem_cons.1 hmem with heq | hmem
    · exact absurd heq.symm hfirst
    · exact absurd rfl (hrest _ hmem)

end Runs

/-- The first `recvfrom` of the loop fails: the byte in front of the buffer becomes a
newline. -/
theorem server_unnoticed : ¬ Safe [.datagram [104, 105] AF_INET, .fails]
    (run (start (fun _ => 0) 0 0) (.datagram [104, 105] AF_INET) [.fails]) := by
  intro h
  have hin := h.inside ⟨-1, 1⟩ (by decide)
  exact absurd hin.1 (by decide)

end UnixNetProg.Connectionless

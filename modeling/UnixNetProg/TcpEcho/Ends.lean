/-
A session comes to its end, whatever the order of the steps and the sizes of the pieces.

Each byte of the input is read, sent, received, sent back and received again, and every
step of either side is one of these or leads to one. So what is left to do is a number
(`World.left`): a byte in front of the client weighs more than one it has read, this one
more than one in the stream, and so on to the byte that has come back. No step of any
kind adds to it, so a session of any text, with or without failing calls, takes at most
ten steps for each byte and two more.

It can end too early only where a call fails or both sides wait, and on a text whose
lines fit the buffers neither happens: what can do nothing more has put out the text, and
the server has seen the end of it (`session_ends`).
-/
import UnixNetProg.Lib.Termination
import UnixNetProg.TcpEcho.InStep

set_option autoImplicit false

namespace UnixNetProg.TcpEcho

open UnixNetProg.Channel UnixNetProg.Runs UnixNetProg.Stdio

/-! ## What is left to do -/

/-- What the server will do with the bytes it has stored: it may send one more. -/
def Readline.left (r : Readline) : ℕ := if r.n = 1 then 0 else 2 * r.n + 1

def CliAt.left : CliAt → ℕ
  | .fgets => 1
  | .writen left => 7 * left.length + 3
  | .readline _ => 3
  | .fputs _ => 2
  | .done | .ended _ => 0

def ServAt.left : ServAt → ℕ
  | .readline r => r.left + 1
  | .writen left => 2 * left.length + 1
  | .done | .ended _ => 0

def World.left (w : World) : ℕ :=
  10 * w.cli.stdin.length + w.cli.pc.left + 6 * w.toServ.bytes.length + w.serv.pc.left +
    w.toCli.bytes.length

section Left

variable {w w' : World}

@[simp] theorem left_client_writen (c : Client) (left : List Char) :
    (c.writen left).pc.left = 7 * left.length + 3 := by
  unfold Client.writen
  by_cases hnil : left = []
  · rw [if_pos hnil, hnil]
    rfl
  · rw [if_neg hnil]
    rfl

@[simp] theorem left_server_writen (s : Server) (left : List Char) :
    (s.writen left).pc.left = 2 * left.length + 1 := by
  unfold Server.writen
  by_cases hnil : left = []
  · rw [if_pos hnil, hnil]
    rfl
  · rw [if_neg hnil]
    rfl

@[simp] theorem stdin_client_writen (c : Client) (left : List Char) :
    (c.writen left).stdin = c.stdin := rfl

@[simp] theorem stdin_client_read (c : Client) (r : Readline) (bs : List Char) :
    (c.read r bs).stdin = c.stdin := by
  unfold Client.read
  cases r.next MAXLINE bs <;> rfl

@[simp] theorem stdin_client_fputs (c : Client) (n : ℕ) : (c.fputs n).stdin = c.stdin := rfl

/-- A call that can fail is made by a side that has something left to do. -/
theorem left_pos_of_cli_error {pc : CliAt} {msg : String} (h : pc.error = some msg) :
    0 < pc.left := by
  cases pc with
  | fgets => exact Nat.one_pos
  | writen left => exact Nat.succ_pos _
  | readline r => exact Nat.succ_pos _
  | fputs n => cases h
  | done => cases h
  | ended msg => cases h

theorem left_pos_of_serv_error {pc : ServAt} {msg : String} (h : pc.error = some msg) :
    0 < pc.left := by
  cases pc with
  | readline r => exact Nat.succ_pos _
  | writen left => exact Nat.succ_pos _
  | done => cases h
  | ended msg => cases h

/-- A line in front of the client weighs more than the same line to send. -/
theorem left_fgets {c : Client} (hpc : c.pc = .fgets) :
    10 * c.fgets.stdin.length + c.fgets.pc.left < 10 * c.stdin.length + c.pc.left := by
  have hone : c.pc.left = 1 := by rw [hpc, CliAt.left]
  unfold Client.fgets
  cases hget : Stdio.fgets MAXLINE c.stdin with
  | none =>
    have hzero : CliAt.done.left = 0 := rfl
    simp only [hzero]
    omega
  | some chunk =>
    have hpos := List.length_pos_iff.2 (fgets_ne_nil (by decide) hget)
    have hsplit := congrArg List.length (fgets_append_drop hget)
    have htake := List.length_take_le' (strlen chunk) chunk
    rw [List.length_append] at hsplit
    simp only [left_client_writen, stdin_client_writen]
    omega

/-- The end of the stream takes the client on; a byte does not throw it back. -/
theorem left_client_read (c : Client) (r : Readline) (bs : List Char) :
    (c.read r bs).pc.left < 3 + bs.length := by
  have hput : ∀ n, (CliAt.fputs n).left = 2 := fun _ => rfl
  have hmore : ∀ r, (CliAt.readline r).left = 3 := fun _ => rfl
  unfold Client.read
  cases bs with
  | nil =>
    unfold Readline.next Readline.atEof
    by_cases hn : r.n = 1
    · simp [hn, hput]
    · simp [hn, hput]
  | cons b bs =>
    cases r.next MAXLINE (b :: bs) with
    | more r =>
      simp only [hmore, List.length_cons]
      omega
    | ret n stored =>
      simp only [hput]
      omega
    | eof =>
      simp only [hput]
      omega

/-- What the server sends for a line weighs less than the line in the stream, even where
it is a byte longer. -/
theorem left_server_read (s : Server) (r : Readline) (bs : List Char) :
    (s.read r bs).pc.left < 6 * bs.length + r.left + 1 := by
  have hmore : ∀ r, (ServAt.readline r).left = r.left + 1 := fun _ => rfl
  have hdone : ServAt.done.left = 0 := rfl
  have hwrites : ∀ (l : List Char) (n : ℕ), 2 * (l.take n).length ≤ 2 * n := by
    intro l n
    rw [List.length_take]
    omega
  unfold Server.read
  cases bs with
  | nil =>
    unfold Readline.next Readline.atEof
    by_cases hn : r.n = 1
    · simp [hn, hdone]
    · -- a part of a line, and the byte behind it
      have hleft : r.left = 2 * r.n + 1 := if_neg hn
      have hle := hwrites (store s.line r.stored) r.n
      simp only [if_neg hn, left_server_writen, List.length_nil]
      omega
  | cons b bs =>
    have hleft : 2 * r.n ≤ r.left + 2 := by
      unfold Readline.left
      split_ifs with hn <;> omega
    unfold Readline.next Readline.got
    simp only [List.length_cons]
    by_cases hline : b = '\n'
    · have hle := hwrites (store s.line (r.stored ++ [b])) r.n
      simp only [if_pos hline, left_server_writen]
      omega
    · simp only [if_neg hline]
      by_cases hroom : r.n + 1 < MAXLINE
      · simp only [if_pos hroom, hmore, Readline.left]
        split_ifs <;> omega
      · have hle := hwrites (store s.line (r.stored ++ [b])) (r.n + 1)
        simp only [if_neg hroom, left_server_writen]
        omega

theorem read_length {c c' : Chan Char} {bs : List Char} (h : c.read 1 1 = some (bs, c')) :
    c.bytes.length = bs.length + c'.bytes.length := by
  rw [(Chan.read_eq_some h).1, List.length_append]

/-- To close a stream takes nothing from it. -/
theorem bytes_closes {p : Prop} [Decidable p] (c : Chan Char) :
    (if p then c.close else c).bytes = c.bytes := by
  split_ifs <;> rfl

/-- **Every step leaves less to do.** -/
theorem left_step {a : Act} (hs : w.step a = some w') : w'.left < w.left := by
  cases World.moves_of_step hs with
  | fgets k pc =>
    have hlt := left_fgets pc
    simp only [World.left, bytes_closes]
    omega
  | sends k left pc part =>
    -- what is sent weighs less in the stream
    have hleft : w.cli.pc.left = 7 * left.length + 3 := by rw [pc, CliAt.left]
    have htake := List.length_take_of_le part.2
    simp only [World.left, left_client_writen, stdin_client_writen, hleft, Chan.write_bytes,
      List.length_append, List.length_drop, htake]
    omega
  | cliReads k r bs c pc read =>
    have hleft : w.cli.pc.left = 3 := by rw [pc, CliAt.left]
    have hlen := read_length read
    have hlt := left_client_read w.cli r bs
    simp only [World.left, stdin_client_read, hleft]
    omega
  | fputs k n pc =>
    have hleft : w.cli.pc.left = 2 := by rw [pc, CliAt.left]
    have hnext : (w.cli.fputs n).pc.left = 1 := rfl
    simp only [World.left, stdin_client_fputs, hleft, hnext]
    omega
  | servReads k r bs c pc read =>
    have hleft : w.serv.pc.left = r.left + 1 := by rw [pc, ServAt.left]
    have hlen := read_length read
    have hlt := left_server_read w.serv r bs
    simp only [World.left, bytes_closes, hleft]
    omega
  | replies k left pc part =>
    have hleft : w.serv.pc.left = 2 * left.length + 1 := by rw [pc, ServAt.left]
    have htake := List.length_take_of_le part.2
    simp only [World.left, left_server_writen, hleft, Chan.write_bytes, List.length_append,
      List.length_drop, htake]
    omega
  | cliFails msg error =>
    have hpos := left_pos_of_cli_error error
    have hzero : (CliAt.ended msg).left = 0 := rfl
    simp only [World.left, hzero, Chan.close_bytes]
    omega
  | servFails msg error =>
    have hpos := left_pos_of_serv_error error
    have hzero : (ServAt.ended msg).left = 0 := rfl
    simp only [World.left, hzero, Chan.close_bytes]
    omega

/-- So a session of any text comes to its end. -/
theorem lowers (text : List Char) : (machine text).Lowers (fun _ => True) World.left := by
  intro w a w' _ hs
  exact ⟨trivial, left_step hs⟩

end Left

/-! ## Where it can do nothing -/

/-- Neither side can go on, unless a call fails. -/
def World.Quiet (w : World) : Prop := ∀ k, w.cliStep k = none ∧ w.servStep k = none

/-- What is true of the two whatever the text: who writes has something to write, and a
client that has returned has closed the connection. -/
structure Busy (w : World) : Prop where
  cli : w.cli.pc ≠ .writen []
  serv : w.serv.pc ≠ .writen []
  closed : w.cli.pc = .done → w.toServ.closed = true

section Quiet

variable {w w' : World} {text : List Char}

theorem client_writen_ne (c : Client) (left : List Char) : (c.writen left).pc ≠ .writen [] := by
  unfold Client.writen
  by_cases hnil : left = []
  · simp [hnil]
  · simp [hnil]

theorem server_writen_ne (s : Server) (left : List Char) : (s.writen left).pc ≠ .writen [] := by
  unfold Server.writen
  by_cases hnil : left = []
  · simp [hnil]
  · simp [hnil]

theorem client_writen_not_done (c : Client) (left : List Char) : (c.writen left).pc ≠ .done := by
  unfold Client.writen
  by_cases hnil : left = []
  · simp [hnil]
  · simp [hnil]

/-- After a `read` the client is inside `readline` or behind it. -/
theorem client_read_pc (c : Client) (r : Readline) (bs : List Char) :
    (c.read r bs).pc ≠ .writen [] ∧ (c.read r bs).pc ≠ .done := by
  unfold Client.read
  cases r.next MAXLINE bs <;> simp

theorem server_read_ne (s : Server) (r : Readline) (bs : List Char) :
    (s.read r bs).pc ≠ .writen [] := by
  unfold Server.read
  cases r.next MAXLINE bs with
  | more r => simp
  | ret n stored => exact server_writen_ne _ _
  | eof => simp

theorem client_fgets_ne (c : Client) : c.fgets.pc ≠ .writen [] := by
  unfold Client.fgets
  cases Stdio.fgets MAXLINE c.stdin with
  | none => simp
  | some chunk => exact client_writen_ne _ _

theorem busy_start (text sendline recvline line : List Char) :
    Busy (start text sendline recvline line) where
  cli := CliAt.noConfusion
  serv := ServAt.noConfusion
  closed := CliAt.noConfusion

/-- Every step keeps it. -/
theorem Busy.step {a : Act} (h : Busy w) (hs : w.step a = some w') : Busy w' := by
  cases World.moves_of_step hs with
  | fgets k pc =>
    refine ⟨client_fgets_ne w.cli, h.serv, ?_⟩
    intro hdone
    simp only [if_pos hdone, Chan.close_closed]
  | sends k left pc part =>
    exact ⟨client_writen_ne _ _, h.serv, fun hdone => absurd hdone (client_writen_not_done _ _)⟩
  | cliReads k r bs c pc read =>
    exact ⟨(client_read_pc _ _ _).1, h.serv, fun hdone => absurd hdone (client_read_pc _ _ _).2⟩
  | fputs k n pc => exact ⟨CliAt.noConfusion, h.serv, CliAt.noConfusion⟩
  | servReads k r bs c pc read =>
    refine ⟨h.cli, server_read_ne _ _ _, ?_⟩
    intro hdone
    exact (Chan.read_eq_some read).2.1.trans (h.closed hdone)
  | replies k left pc part => exact ⟨h.cli, server_writen_ne _ _, h.closed⟩
  | cliFails msg error => exact ⟨CliAt.noConfusion, h.serv, CliAt.noConfusion⟩
  | servFails msg error => exact ⟨h.cli, ServAt.noConfusion, h.closed⟩

/-- Nobody waits for a stream that is closed. -/
theorem read_ne_none {c : Chan Char} (hclosed : c.closed = true) : c.read 1 1 ≠ none := by
  by_cases hnil : c.bytes = []
  · rw [Chan.read, if_pos hnil, hclosed]
    exact Option.some_ne_none _
  · rw [Chan.read_of_le Nat.one_pos (Nat.le_refl 1) (List.length_pos_iff.2 hnil)]
    exact Option.some_ne_none _

/-- A quiet client waits for a byte, has returned, or has ended with a message. -/
theorem World.Quiet.cli (h : w.Quiet) (hbusy : Busy w) :
    (∃ r, w.cli.pc = .readline r) ∧ w.toCli.read 1 1 = none ∨ w.cli.pc = .done ∨
      ∃ msg, w.cli.pc = .ended msg := by
  have hnone := (h 1).1
  unfold World.cliStep at hnone
  cases hpc : w.cli.pc with
  | fgets => simp [hpc] at hnone
  | writen left =>
    -- one byte could be written
    have hne : left ≠ [] := by
      rintro rfl
      exact hbusy.cli hpc
    have hpos := List.length_pos_iff.2 hne
    simp [hpc, Nat.succ_le_of_lt hpos] at hnone
  | readline r => exact .inl ⟨⟨r, rfl⟩, by simpa [hpc] using hnone⟩
  | fputs n => simp [hpc] at hnone
  | done => exact .inr (.inl rfl)
  | ended msg => exact .inr (.inr ⟨msg, rfl⟩)

/-- So does a quiet server. -/
theorem World.Quiet.serv (h : w.Quiet) (hbusy : Busy w) :
    (∃ r, w.serv.pc = .readline r) ∧ w.toServ.read 1 1 = none ∨ w.serv.pc = .done ∨
      ∃ msg, w.serv.pc = .ended msg := by
  have hnone := (h 1).2
  unfold World.servStep at hnone
  cases hpc : w.serv.pc with
  | readline r => exact .inl ⟨⟨r, rfl⟩, by simpa [hpc] using hnone⟩
  | writen left =>
    have hne : left ≠ [] := by
      rintro rfl
      exact hbusy.serv hpc
    have hpos := List.length_pos_iff.2 hne
    simp [hpc, Nat.succ_le_of_lt hpos] at hnone
  | done => exact .inr (.inl rfl)
  | ended msg => exact .inr (.inr ⟨msg, rfl⟩)

/-- As long as the client has not returned, neither side has ended. -/
theorem Phase.going (h : Phase text w) :
    (w.cli.pc ≠ .done ∧ ∀ msg, w.cli.pc ≠ .ended msg) ∧
      w.serv.pc ≠ .done ∧ ∀ msg, w.serv.pc ≠ .ended msg := by
  have hserv : ∀ {left : List Char}, w.serv.Replies left →
      w.serv.pc ≠ .done ∧ ∀ msg, w.serv.pc ≠ .ended msg := by
    intro left hreplies
    rw [hreplies]
    split_ifs <;> simp
  cases h with
  | between left pc serv => exact ⟨by simp [pc], hserv serv⟩
  | request s buf left on pc serv =>
    refine ⟨?_, by simp [serv]⟩
    rw [pc]
    split_ifs <;> simp
  | reply s buf left on pc serv => exact ⟨by simp [pc], hserv serv⟩
  | printing s left n on pc line serv => exact ⟨by simp [pc], hserv serv⟩

/-- What a session should come to: the text is put out, and the server has seen its end, or
has found that nobody reads any more. -/
def Finished (text : List Char) (w : World) : Prop :=
  w.cli.pc = .done ∧ w.cli.stdout = text ∧ (w.serv.pc = .done ∨ ∃ msg, w.serv.pc = .ended msg)

theorem Session.finished (h : Session text w) (hbusy : Busy w) (hquiet : w.Quiet) :
    Finished text w := by
  rcases hquiet.cli hbusy with ⟨hcli, hwaits⟩ | hdone | ⟨msg, hmsg⟩
  · -- the server does not wait as well, and has not ended
    exfalso
    rcases hquiet.serv hbusy with ⟨hserv, hwaits'⟩ | hover
    · exact h.not_stuck ⟨hcli, hwaits, hserv, hwaits'⟩
    · obtain ⟨r, hpc⟩ := hcli
      rcases h with ⟨hdone, -⟩ | ⟨hphase, -, -⟩
      · rw [hpc] at hdone
        cases hdone
      · obtain ⟨-, hne, hne'⟩ := hphase.going
        rcases hover with hdone | ⟨msg, hmsg⟩
        · exact hne hdone
        · exact hne' msg hmsg
  · rcases h with ⟨-, hout⟩ | ⟨hphase, -, -⟩
    · refine ⟨hdone, hout, ?_⟩
      rcases hquiet.serv hbusy with ⟨-, hnone⟩ | hover
      · -- the connection is closed, so the server need not wait
        exfalso
        have hclosed := hbusy.closed hdone
        exact read_ne_none hclosed hnone
      · exact hover
    · exact absurd hdone hphase.going.1.1
  · exfalso
    rcases h with ⟨hdone, -⟩ | ⟨hphase, -, -⟩
    · rw [hmsg] at hdone
      cases hdone
    · exact hphase.going.1.2 msg hmsg

end Quiet

/-! ## Every session -/

theorem busy_of_reach {text : List Char} {w : World} (h : (machine text).Reach reliable w) :
    Busy w := by
  apply h.invariant (I := Busy)
  · rintro w ⟨sendline, recvline, line, rfl⟩
    exact busy_start _ _ _ _
  · intro w a w' _ hinv _ hs
    exact hinv.step hs

/-- The steps in which no call fails can go on until there are none. -/
theorem exists_quiet (text : List Char) (w : World) :
    ∃ f, ((machine text).startedAt w).Reach reliable f ∧ f.Quiet := by
  have hlowers :
      (((machine text).startedAt w).only reliable).Lowers (fun _ => True) World.left := by
    intro w a w' _ hs
    exact ⟨trivial, left_step (Machine.step_only.1 hs).2⟩
  obtain ⟨f, ⟨n, hpath⟩, hfinal⟩ := hlowers.ends (s := w) trivial
  have hrun := hpath.reach (fun _ _ => trivial) (Machine.Reach.init rfl)
  refine ⟨f, hrun.of_only, ?_⟩
  intro k
  have hcli : reliable f (.cli k) := trivial
  have hserv : reliable f (.serv k) := trivial
  exact ⟨hfinal.of_only hcli, hfinal.of_only hserv⟩

/-- **A session comes to its end, and on a text whose lines fit to the right one.** No run
is longer than ten steps for a byte and two more, whatever the text and whatever fails. On
such a text, where no call fails, a state in which neither side can go on is one in which
the text has been put out; and every run can be carried on to one. -/
theorem session_ends (text sendline recvline line : List Char) :
    (∀ n w, (machine text).Path n (start text sendline recvline line) w →
      n ≤ 10 * text.length + 2) ∧
    (Keeps text → ∀ w, (machine text).Reach reliable w →
      (w.Quiet → Finished text w) ∧
        ∃ f, ((machine text).startedAt w).Reach reliable f ∧ f.Quiet ∧ Finished text f) := by
  constructor
  · intro n w hpath
    have hle := (lowers text).add_le hpath trivial
    have hstart : (start text sendline recvline line).left = 10 * text.length + 2 := rfl
    omega
  · intro hkeeps w hw
    have hend : ∀ w, (machine text).Reach reliable w → w.Quiet → Finished text w := by
      intro w hw hquiet
      exact (session_of_reach hkeeps hw).finished (busy_of_reach hw) hquiet
    refine ⟨hend w hw, ?_⟩
    obtain ⟨f, hreach, hquiet⟩ := exists_quiet text w
    exact ⟨f, hreach, hquiet, hend f (hw.append hreach) hquiet⟩

/-- One line of three bytes: 32 steps at most. -/
theorem session_ends_hi :
    (∀ n w, (machine hi).Path n (start hi [] [] []) w → n ≤ 32) ∧
      ∃ f, ((machine hi).startedAt (start hi [] [] [])).Reach reliable f ∧ f.Quiet ∧
        Finished hi f := by
  obtain ⟨hlen, hend⟩ := session_ends hi [] [] []
  exact ⟨hlen, (hend keeps_hi _ (.init ⟨[], [], [], rfl⟩)).2⟩

end UnixNetProg.TcpEcho

/-
On which texts a session is faithful and never stuck: those whose lines fit, and no others.

The session of a text that does not fit is driven, round by round, to the first chunk that
does not end in a newline. If it does not fill the buffer, the server waits for the rest of it
and the client for the reply. If it does, and more is to come, a null byte is left in the
stream to the client, and the string that the client puts out next begins with it. What can
still be put out (`World.due`) is a number that no step adds to, and a byte behind a null
byte does not count; so from there a session that comes to its end has put out too little.
-/
import UnixNetProg.TcpEcho.Ends

set_option autoImplicit false

namespace UnixNetProg.TcpEcho

open UnixNetProg.Channel UnixNetProg.Runs UnixNetProg.Stdio

/-! ## What can still be put out -/

/-- The characters of a text that are no null bytes. -/
def nonNul (l : List Char) : ℕ := l.countP (· != '\x00')

/-- What the client has of the line it sends or reads. -/
def Client.due (c : Client) : ℕ :=
  match c.pc with
  | .writen left => nonNul left
  | .readline r => strlen r.stored
  | .fputs n => strlen (c.recvline.set n '\x00')
  | .fgets | .done | .ended _ => 0

def ServAt.due : ServAt → ℕ
  | .readline r => nonNul r.stored
  | .writen left => nonNul left
  | .done | .ended _ => 0

def World.due (w : World) : ℕ :=
  w.cli.stdout.length + w.cli.stdin.length + w.cli.due + nonNul w.toServ.bytes + w.serv.pc.due +
    nonNul w.toCli.bytes

section Due

variable {w w' : World} {l l' : List Char} {c : Char} {n : ℕ}

@[simp] theorem nonNul_nil : nonNul [] = 0 := rfl

@[simp] theorem nonNul_append : nonNul (l ++ l') = nonNul l + nonNul l' := List.countP_append

theorem nonNul_cons : nonNul (c :: l) = nonNul [c] + nonNul l := nonNul_append (l := [c])

theorem nonNul_le : nonNul l ≤ l.length := List.countP_le_length

theorem nonNul_of_nul_free (h : '\x00' ∉ l) : nonNul l = l.length := by
  refine List.countP_eq_length.2 fun c hc => ?_
  rw [bne_iff_ne]
  rintro rfl
  exact h hc

theorem nonNul_echo_le : nonNul (echo l) ≤ l.length := by
  have hle := nonNul_le (l := l)
  have hnul : nonNul ['\x00'] = 0 := rfl
  unfold echo
  split_ifs
  · exact hle
  · rw [nonNul_append]
    omega

theorem strlen_cons_nul : strlen ('\x00' :: l) = 0 := rfl

/-- A byte more makes a string longer only if it is no null byte. -/
theorem strlen_concat_le : strlen (l ++ [c]) ≤ strlen l + nonNul [c] := by
  unfold strlen cstr nonNul
  rw [List.takeWhile_append]
  split_ifs with hall
  · rw [hall, List.length_append]
    by_cases hc : c = '\x00'
    · simp [hc]
    · simp [hc]
  · omega

/-- A null byte does not make a string longer. -/
theorem strlen_set_le (l : List Char) (n : ℕ) : strlen (l.set n '\x00') ≤ strlen l := by
  unfold strlen cstr
  induction l generalizing n with
  | nil => simp
  | cons a l ih =>
    cases n with
    | zero => simp
    | succ n =>
      rw [List.set_cons_succ, List.takeWhile_cons, List.takeWhile_cons]
      split_ifs
      · exact Nat.succ_le_succ (ih n)
      · exact Nat.le_refl _

/-- The string in the buffer of `readline` is what it has stored. -/
theorem strlen_store_set_le (buffer : List Char) (n : ℕ) :
    strlen ((store buffer l).set n '\x00') ≤ strlen l := by
  refine (strlen_set_le _ n).trans ?_
  rw [store, strlen, ← nul_char, cstr_nul, strlen]

/-- What is sent of the buffer is what was stored, and a null byte. -/
theorem nonNul_take_store_le (buffer : List Char) (h : n ≤ l.length + 1) :
    nonNul ((store buffer l).take n) ≤ nonNul l := by
  have hfront : (store buffer l).take n = (l ++ ['\x00']).take n := by
    have hsplit : store buffer l = (l ++ ['\x00']) ++ buffer.drop (l.length + 1) := by
      simp [store]
    rw [hsplit, List.take_append_of_le_length (by simpa using h)]
  have hpart : nonNul ((l ++ ['\x00']).take n) ≤ nonNul (l ++ ['\x00']) :=
    (List.take_sublist n _).countP_le
  rw [hfront]
  simpa [nonNul] using hpart

theorem stdout_client_read (cli : Client) (r : Readline) (bs : List Char) :
    (cli.read r bs).stdout = cli.stdout := by
  unfold Client.read
  cases r.next MAXLINE bs <;> rfl

theorem due_client_writen (c : Client) (left : List Char) : (c.writen left).due = nonNul left := by
  unfold Client.writen Client.due
  by_cases hnil : left = []
  · simp [hnil, Readline.start, strlen, cstr]
  · simp [hnil]

theorem due_server_writen (s : Server) (left : List Char) :
    (s.writen left).pc.due = nonNul left := by
  unfold Server.writen
  by_cases hnil : left = []
  · simp [hnil, Readline.start, ServAt.due]
  · simp [hnil, ServAt.due]

/-- What the client has of a line when a byte more is read. -/
theorem due_client_got (c : Client) (r : Readline) (b : Char) (bs : List Char) :
    (c.read r (b :: bs)).due ≤ strlen (r.stored ++ [b]) := by
  unfold Client.read Readline.next Readline.got
  by_cases hline : b = '\n'
  · simp only [if_pos hline, Client.due]
    exact strlen_store_set_le _ _
  · simp only [if_neg hline]
    by_cases hroom : r.n + 1 < MAXLINE
    · simp only [if_pos hroom, Client.due]
      exact Nat.le_refl _
    · simp only [if_neg hroom, Client.due]
      exact strlen_store_set_le _ _

theorem due_client_eof (c : Client) (r : Readline) : (c.read r []).due ≤ strlen r.stored := by
  unfold Client.read Readline.next Readline.atEof
  by_cases hn : r.n = 1
  · simp only [if_pos hn, Client.due]
    cases c.recvline with
    | nil => exact Nat.zero_le _
    | cons a l => exact Nat.zero_le _
  · simp only [if_neg hn, Client.due]
    exact strlen_store_set_le _ _

theorem due_client_fgets (c : Client) :
    c.fgets.stdout.length + c.fgets.stdin.length + c.fgets.due ≤
      c.stdout.length + c.stdin.length := by
  unfold Client.fgets
  cases hget : Stdio.fgets MAXLINE c.stdin with
  | none => exact Nat.le_refl _
  | some chunk =>
    have hsplit := congrArg List.length (fgets_append_drop hget)
    have hsent := nonNul_le (l := chunk.take (strlen chunk))
    have htake := List.length_take_le' (strlen chunk) chunk
    rw [List.length_append] at hsplit
    simp only [due_client_writen]
    simp only [Client.writen]
    omega

/-- The count of the server is at most one more than the bytes it has stored. -/
def ServAt.Counts (pc : ServAt) : Prop := ∀ r, pc = .readline r → r.n ≤ r.stored.length + 1

theorem counts_server_writen (s : Server) (left : List Char) : (s.writen left).pc.Counts := by
  intro r hpc
  unfold Server.writen at hpc
  by_cases hnil : left = []
  · simp only [if_pos hnil, ServAt.readline.injEq] at hpc
    rw [← hpc, Readline.start]
    exact Nat.le_refl _
  · simp [if_neg hnil] at hpc

theorem counts_server_read (s : Server) (r : Readline) (bs : List Char)
    (hr : r.n ≤ r.stored.length + 1) : (s.read r bs).pc.Counts := by
  unfold Server.read
  cases hnext : r.next MAXLINE bs with
  | more r' =>
    rintro _ ⟨⟩
    -- a byte more is stored, and counted
    cases bs with
    | nil =>
      simp only [Readline.next, Readline.atEof] at hnext
      split_ifs at hnext
    | cons b bs =>
      simp only [Readline.next, Readline.got] at hnext
      split_ifs at hnext
      cases hnext
      simpa using hr
  | ret n stored => exact counts_server_writen _ _
  | eof =>
    rintro _ ⟨⟩

theorem due_server_read (s : Server) (r : Readline) (bs : List Char)
    (hr : r.n ≤ r.stored.length + 1) :
    (s.read r bs).pc.due ≤ nonNul r.stored + nonNul bs := by
  unfold Server.read Readline.next
  cases bs with
  | nil =>
    unfold Readline.atEof
    by_cases hn : r.n = 1
    · simp only [if_pos hn, ServAt.due]
      exact Nat.zero_le _
    · simp only [if_neg hn, due_server_writen]
      exact (nonNul_take_store_le s.line hr).trans (Nat.le_add_right _ _)
  | cons b bs =>
    have hlen : (r.stored ++ [b]).length = r.stored.length + 1 := by simp
    have hstored : nonNul (r.stored ++ [b]) ≤ nonNul r.stored + nonNul (b :: bs) := by
      have hcons := nonNul_cons (c := b) (l := bs)
      rw [nonNul_append]
      omega
    unfold Readline.got
    by_cases hline : b = '\n'
    · simp only [if_pos hline, due_server_writen]
      exact (nonNul_take_store_le s.line (by omega)).trans hstored
    · simp only [if_neg hline]
      by_cases hroom : r.n + 1 < MAXLINE
      · simp only [if_pos hroom, ServAt.due]
        exact hstored
      · simp only [if_neg hroom, due_server_writen]
        exact (nonNul_take_store_le s.line (by omega)).trans hstored

/-- What the reader gets is no longer in the stream. -/
theorem nonNul_read {c c' : Chan Char} {bs : List Char} (h : c.read 1 1 = some (bs, c')) :
    nonNul c.bytes = nonNul bs + nonNul c'.bytes := by
  rw [(Chan.read_eq_some h).1, nonNul_append]

theorem due_client_read {bs : List Char} {c' toCli : Chan Char} {r : Readline} (cli : Client)
    (h : toCli.read 1 1 = some (bs, c')) :
    (cli.read r bs).due + nonNul c'.bytes ≤ strlen r.stored + nonNul toCli.bytes := by
  rw [nonNul_read h]
  cases bs with
  | nil =>
    have hle := due_client_eof cli r
    simp only [nonNul_nil]
    omega
  | cons b bs =>
    have hgot := due_client_got cli r b bs
    have hstored := strlen_concat_le (l := r.stored) (c := b)
    have hcons := nonNul_cons (c := b) (l := bs)
    omega

/-- What is true of the two in every session in which no call fails, whatever the text. -/
structure Fair (w : World) : Prop where
  cli : ∀ msg, w.cli.pc ≠ .ended msg
  serv : w.serv.pc = .done ∨ (∃ msg, w.serv.pc = .ended msg) → w.toCli.closed = true
  count : w.serv.pc.Counts

theorem fair_start (text sendline recvline line : List Char) :
    Fair (start text sendline recvline line) where
  cli := fun _ => CliAt.noConfusion
  serv := by
    rintro (h | ⟨msg, h⟩) <;> cases h
  count := by
    rintro r ⟨⟩
    exact Nat.le_refl _

theorem client_writen_not_ended (c : Client) (left : List Char) (msg : String) :
    (c.writen left).pc ≠ .ended msg := by
  unfold Client.writen
  by_cases hnil : left = []
  · simp [hnil]
  · simp [hnil]

theorem server_writen_going (s : Server) (left : List Char) :
    ¬ ((s.writen left).pc = .done ∨ ∃ msg, (s.writen left).pc = .ended msg) := by
  unfold Server.writen
  by_cases hnil : left = []
  · simp [hnil]
  · simp [hnil]

/-- Every step keeps it, if no call fails that should not. -/
theorem Fair.step {a : Act} (h : Fair w) (hok : reliable w a) (hs : w.step a = some w') :
    Fair w' := by
  cases World.moves_of_step hs with
  | fgets k pc =>
    refine ⟨?_, h.serv, h.count⟩
    intro msg
    simp only [Client.fgets]
    cases Stdio.fgets MAXLINE w.cli.stdin with
    | none => exact CliAt.noConfusion
    | some chunk => exact client_writen_not_ended _ _ msg
  | sends k left pc part => exact ⟨client_writen_not_ended _ _, h.serv, h.count⟩
  | cliReads k r bs c pc read =>
    refine ⟨?_, ?_, h.count⟩
    · intro msg
      simp only [Client.read]
      cases r.next MAXLINE bs <;> exact CliAt.noConfusion
    · intro hover
      exact (Chan.read_eq_some read).2.1.trans (h.serv hover)
  | fputs k n pc => exact ⟨fun _ => CliAt.noConfusion, h.serv, h.count⟩
  | servReads k r bs c pc read =>
    refine ⟨h.cli, ?_, counts_server_read _ _ _ (h.count r pc)⟩
    rintro (hdone | ⟨msg, hmsg⟩)
    · simp only at hdone
      simp only [if_pos hdone, Chan.close_closed]
    · exfalso
      revert hmsg
      simp only [Server.read]
      cases r.next MAXLINE bs with
      | more r' => exact ServAt.noConfusion
      | ret n stored => exact fun hmsg => server_writen_going _ _ (.inr ⟨msg, hmsg⟩)
      | eof => exact ServAt.noConfusion
  | replies k left pc part =>
    exact ⟨h.cli, fun hover => absurd hover (server_writen_going _ _), counts_server_writen _ _⟩
  | cliFails msg error => exact absurd hok id
  | servFails msg error => exact ⟨h.cli, fun _ => rfl, fun _ => ServAt.noConfusion⟩

/-- **No step adds to what can still be put out.** -/
theorem due_step {a : Act} (h : Fair w) (hs : w.step a = some w') : w'.due ≤ w.due := by
  have hparts : ∀ (left : List Char) (k : ℕ),
      nonNul (left.take k) + nonNul (left.drop k) = nonNul left := by
    intro left k
    rw [← nonNul_append, List.take_append_drop]
  cases World.moves_of_step hs with
  | fgets k pc =>
    have hle := due_client_fgets w.cli
    simp only [World.due, bytes_closes]
    omega
  | sends k left pc part =>
    have hleft : w.cli.due = nonNul left := by rw [Client.due, pc]
    have hout : (w.cli.writen (left.drop k)).stdout = w.cli.stdout := rfl
    have hsum := hparts left k
    simp only [World.due, due_client_writen, stdin_client_writen, hout, hleft, Chan.write_bytes,
      nonNul_append]
    omega
  | cliReads k r bs c pc read =>
    have hleft : w.cli.due = strlen r.stored := by rw [Client.due, pc]
    have hle := due_client_read w.cli (r := r) read
    simp only [World.due, stdin_client_read, stdout_client_read, hleft]
    omega
  | fputs k n pc =>
    have hleft : w.cli.due = strlen (w.cli.recvline.set n '\x00') := by rw [Client.due, pc]
    have hnext : (w.cli.fputs n).due = 0 := rfl
    have hout : (w.cli.fputs n).stdout.length =
        w.cli.stdout.length + strlen (w.cli.recvline.set n '\x00') := List.length_append
    simp only [World.due, stdin_client_fputs, hleft, hnext, hout]
    omega
  | servReads k r bs c pc read =>
    have hleft : w.serv.pc.due = nonNul r.stored := by rw [pc, ServAt.due]
    have hle := due_server_read w.serv r bs (h.count r pc)
    have hsplit := nonNul_read read
    simp only [World.due, bytes_closes, hleft]
    omega
  | replies k left pc part =>
    have hleft : w.serv.pc.due = nonNul left := by rw [pc, ServAt.due]
    have hsum := hparts left k
    simp only [World.due, due_server_writen, hleft, Chan.write_bytes, nonNul_append]
    omega
  | cliFails msg error =>
    have hzero : ({ w.cli with pc := .ended msg } : Client).due = 0 := rfl
    simp only [World.due, hzero, Chan.close_bytes]
    omega
  | servFails msg error =>
    have hzero : (ServAt.ended msg).due = 0 := rfl
    simp only [World.due, hzero, Chan.close_bytes]
    omega

end Due

/-! ## Where a byte is lost -/

section Lost

variable {text : List Char} {w : World}

theorem fair_of_reach (h : (machine text).Reach reliable w) : Fair w := by
  apply h.invariant (I := Fair)
  · rintro w ⟨sendline, recvline, line, rfl⟩
    exact fair_start _ _ _ _
  · intro w a w' _ hinv hok hs
    exact hinv.step hok hs

/-- A session that has lost a byte comes to a bad end. -/
theorem not_good_of_lost (h : (machine text).Reach reliable w) (hlost : w.due < text.length) :
    ∃ f, (machine text).Reach reliable f ∧ ¬ Good text f := by
  obtain ⟨f, hrun, hquiet⟩ := exists_quiet text w
  have hf := h.append hrun
  have hbusy := busy_of_reach hf
  have hdue : Fair f ∧ f.due ≤ w.due := by
    apply hrun.invariant (I := fun f => Fair f ∧ f.due ≤ w.due)
    · rintro _ rfl
      exact ⟨fair_of_reach h, Nat.le_refl _⟩
    · intro f a f' _ hinv hok hs
      exact ⟨hinv.1.step hok hs, (due_step hinv.1 hs).trans hinv.2⟩
  refine ⟨f, hf, ?_⟩
  rintro ⟨hstuck, hout⟩
  rcases hquiet.cli hbusy with ⟨hcli, hwaits⟩ | hdone | ⟨msg, hmsg⟩
  · -- the server waits as well, or its stream is at its end
    rcases hquiet.serv hbusy with ⟨hserv, hwaits'⟩ | hover
    · exact hstuck ⟨hcli, hwaits, hserv, hwaits'⟩
    · exact read_ne_none ((fair_of_reach hf).serv hover) hwaits
  · -- what has been put out is too short
    have hlen : f.cli.stdout.length ≤ f.due := by
      unfold World.due
      omega
    rw [hout hdone] at hlen
    omega
  · exact (fair_of_reach hf).cli msg hmsg

end Lost

/-! ## One way to take the steps -/

/-- Steps in which no call fails lead from one state to another. -/
def Goes (text : List Char) (w w' : World) : Prop := ((machine text).only reliable).Leads w w'

/-- Between two lines: the client is about to read `input`, and `left` of the last reply
is still in the stream to it. -/
def between (input out sendline recvline line left : List Char) : World where
  cli := ⟨input, out, sendline, recvline, .fgets⟩
  serv := ⟨line, .readline .start⟩
  toServ := ⟨[], false⟩
  toCli := ⟨left, false⟩

/-- The client waits for the reply to what it has sent. -/
def waiting (input out sendline recvline : List Char) (r : Readline) : Client :=
  ⟨input, out, sendline, recvline, .readline r⟩

section Blocks

variable {text input out sendline recvline line s buf rest left : List Char} {w w' w'' : World}
  {cli : Client} {serv : Server} {toServ toCli : Chan Char}

theorem Goes.trans (h : Goes text w w') (h' : Goes text w' w'') : Goes text w w'' :=
  Machine.Leads.trans h h'

theorem goes_step {a : Act} (hok : reliable w a) (hs : w.step a = some w') : Goes text w w' :=
  ⟨1, .single (Machine.step_only.2 ⟨hok, hs⟩)⟩

theorem Goes.reach (h : Goes text w w') (hw : (machine text).Reach reliable w) :
    (machine text).Reach reliable w' := by
  obtain ⟨n, hpath⟩ := h
  have hrun := hpath.reach (fun _ _ => trivial) hw.to_only
  exact hrun.of_only

theorem read_cons (b : Char) (bs : List Char) :
    (⟨b :: bs, false⟩ : Chan Char).read 1 1 = some ([b], ⟨bs, false⟩) :=
  Chan.read_of_le Nat.one_pos (Nat.le_refl 1) (Nat.succ_le_succ (Nat.zero_le _))

/-- The client reads a chunk of its input and sends it in one piece. -/
theorem goes_send (hget : Stdio.fgets MAXLINE input = some s) (hnul : '\x00' ∉ s) :
    Goes text ⟨⟨input, out, sendline, recvline, .fgets⟩, serv, ⟨[], false⟩, toCli⟩
      ⟨waiting (input.drop s.length) out s recvline .start, serv, ⟨s, false⟩, toCli⟩ := by
  have hne := fgets_ne_nil (by decide) hget
  have hwrites : s.take (strlen s) = s := by
    rw [strlen_of_nul_free hnul, List.take_length]
  have hpos := List.length_pos_iff.2 hne
  let sends : World :=
    ⟨⟨input.drop s.length, out, s, recvline, .writen s⟩, serv, ⟨[], false⟩, toCli⟩
  have hfirst : Goes text ⟨⟨input, out, sendline, recvline, .fgets⟩, serv, ⟨[], false⟩, toCli⟩
      sends := by
    apply goes_step (a := .cli 0) trivial
    simp only [World.step, World.cliStep, Client.fgets, hget, Client.writen, hwrites, if_neg hne,
      reduceCtorEq, if_false, sends]
  have hsecond : Goes text sends
      ⟨waiting (input.drop s.length) out s recvline .start, serv, ⟨s, false⟩, toCli⟩ := by
    apply goes_step (a := .cli s.length) trivial
    simp [World.step, World.cliStep, Client.writen, Chan.write, waiting, sends, hpos]
  exact hfirst.trans hsecond

/-- The server reads a line that is all there. -/
theorem goes_request (hs : s = buf ++ rest) (hne : rest ≠ []) (hline : Line s)
    (hshort : s.length < MAXLINE) (hend : s.getLast? = some '\n' ∨ s.length = MAXLINE - 1) :
    Goes text ⟨cli, ⟨line, .readline ⟨buf.length + 1, buf⟩⟩, ⟨rest, false⟩, toCli⟩
      ⟨cli, ⟨store line s, .writen (echo s)⟩, ⟨[], false⟩, toCli⟩ := by
  have hecho : echo s ≠ [] := by
    obtain ⟨t, ht, -⟩ := echo_eq (s := s)
    rw [ht, hs]
    simp [hne]
  induction rest generalizing buf with
  | nil => exact absurd rfl hne
  | cons b rest ih =>
    have hnext := got_next hs hline hshort hend
    have hread := read_cons b rest
    by_cases hrest : rest = []
    · -- the last byte of the line
      subst hrest
      rw [if_pos rfl] at hnext
      have hline : Server.read ⟨line, .readline ⟨buf.length + 1, buf⟩⟩ ⟨buf.length + 1, buf⟩ [b] =
          ⟨store line s, .writen (echo s)⟩ := by
        simp only [Server.read, Readline.next, hnext, take_store, Server.writen, if_neg hecho]
      apply goes_step (a := .serv 0) trivial
      simp [World.step, World.servStep, hread, hline]
    · rw [if_neg hrest] at hnext
      have hbyte : Goes text
          ⟨cli, ⟨line, .readline ⟨buf.length + 1, buf⟩⟩, ⟨b :: rest, false⟩, toCli⟩
          ⟨cli, ⟨line, .readline ⟨(buf ++ [b]).length + 1, buf ++ [b]⟩⟩, ⟨rest, false⟩, toCli⟩ := by
        apply goes_step (a := .serv 0) trivial
        simp [World.step, World.servStep, hread, Server.read, Readline.next, hnext]
      exact hbyte.trans (ih (by simpa using hs) hrest)

/-- It writes it back in one piece. -/
theorem goes_reply (hne : s ≠ []) :
    Goes text ⟨cli, ⟨line, .writen s⟩, toServ, toCli⟩
      ⟨cli, ⟨line, .readline .start⟩, toServ, toCli.write s⟩ := by
  have hpos := List.length_pos_iff.2 hne
  apply goes_step (a := .serv s.length) trivial
  simp [World.step, World.servStep, Server.writen, hpos]

/-- Of a line that ends neither in a newline nor where the buffer does it reads what is there,
and waits. -/
theorem goes_wait (hline : '\n' ∉ rest) (hshort : buf.length + rest.length < MAXLINE - 1) :
    Goes text ⟨cli, ⟨line, .readline ⟨buf.length + 1, buf⟩⟩, ⟨rest, false⟩, toCli⟩
      ⟨cli, ⟨line, .readline ⟨(buf ++ rest).length + 1, buf ++ rest⟩⟩, ⟨[], false⟩, toCli⟩ := by
  induction rest generalizing buf with
  | nil =>
    rw [List.append_nil]
    exact Machine.Leads.refl _
  | cons b rest ih =>
    rw [List.mem_cons, not_or] at hline
    rw [List.length_cons] at hshort
    have hread := read_cons b rest
    have hroom : buf.length + 1 + 1 < MAXLINE := by omega
    have hbyte : Goes text ⟨cli, ⟨line, .readline ⟨buf.length + 1, buf⟩⟩, ⟨b :: rest, false⟩, toCli⟩
        ⟨cli, ⟨line, .readline ⟨(buf ++ [b]).length + 1, buf ++ [b]⟩⟩, ⟨rest, false⟩, toCli⟩ := by
      apply goes_step (a := .serv 0) trivial
      simp [World.step, World.servStep, hread, Server.read, Readline.next, Readline.got,
        Ne.symm hline.1, hroom]
    have hsplit : buf ++ b :: rest = buf ++ [b] ++ rest := by simp
    rw [hsplit]
    refine hbyte.trans (ih hline.2 ?_)
    rw [List.length_append, List.length_singleton]
    omega

/-- The client reads the line of the reply. -/
theorem goes_answer (hs : s = buf ++ rest) (hne : rest ≠ []) (hline : Line s)
    (hshort : s.length < MAXLINE) (hend : s.getLast? = some '\n' ∨ s.length = MAXLINE - 1) :
    Goes text
      ⟨waiting input out sendline recvline ⟨buf.length + 1, buf⟩, serv, toServ,
        ⟨rest ++ left, false⟩⟩
      ⟨⟨input, out, sendline, store recvline s, .fputs (echo s).length⟩, serv, toServ,
        ⟨left, false⟩⟩ := by
  induction rest generalizing buf with
  | nil => exact absurd rfl hne
  | cons b rest ih =>
    have hnext := got_next hs hline hshort hend
    have hread := read_cons b (rest ++ left)
    by_cases hrest : rest = []
    · subst hrest
      rw [if_pos rfl] at hnext
      rw [List.nil_append] at hread
      apply goes_step (a := .cli 0) trivial
      simp [World.step, World.cliStep, waiting, hread, Client.read, Readline.next, hnext]
    · rw [if_neg hrest] at hnext
      have hbyte : Goes text
          ⟨waiting input out sendline recvline ⟨buf.length + 1, buf⟩, serv, toServ,
            ⟨b :: rest ++ left, false⟩⟩
          ⟨waiting input out sendline recvline ⟨(buf ++ [b]).length + 1, buf ++ [b]⟩, serv, toServ,
            ⟨rest ++ left, false⟩⟩ := by
        apply goes_step (a := .cli 0) trivial
        simp [World.step, World.cliStep, waiting, hread, Client.read, Readline.next, hnext]
      exact hbyte.trans (ih (by simpa using hs) hrest)

/-- The client reads a null byte that was left in the stream. -/
theorem goes_nul : Goes text
    ⟨waiting input out sendline recvline .start, serv, toServ, ⟨['\x00'], false⟩⟩
    ⟨waiting input out sendline recvline ⟨2, ['\x00']⟩, serv, toServ, ⟨[], false⟩⟩ :=
  goes_step (a := .cli 0) trivial rfl

/-- **A round**: the client sends a line, gets it back and puts it out; what the server has
sent behind it is left in the stream. -/
theorem goes_round (hget : Stdio.fgets MAXLINE input = some s) (hnul : '\x00' ∉ s)
    (hend : s.getLast? = some '\n' ∨ s.length = MAXLINE - 1) (hecho : echo s = s ++ left) :
    Goes text (between input out sendline recvline line [])
      (between (input.drop s.length) (out ++ s) s ((store recvline s).set (echo s).length '\x00')
        (store line s) left) := by
  have hne := fgets_ne_nil (by decide) hget
  have hline := line_of_fgets hget
  have hshort := length_fgets_lt (by decide) hget
  have hreplies : echo s ≠ [] := by
    rw [hecho]
    simp [hne]
  let waits := waiting (input.drop s.length) out s recvline .start
  have hsend : Goes text (between input out sendline recvline line [])
      ⟨waits, ⟨line, .readline .start⟩, ⟨s, false⟩, ⟨[], false⟩⟩ := goes_send hget hnul
  have hrequest : Goes text ⟨waits, ⟨line, .readline .start⟩, ⟨s, false⟩, ⟨[], false⟩⟩
      ⟨waits, ⟨store line s, .writen (echo s)⟩, ⟨[], false⟩, ⟨[], false⟩⟩ :=
    goes_request (List.nil_append s).symm hne hline hshort hend
  have hreply : Goes text ⟨waits, ⟨store line s, .writen (echo s)⟩, ⟨[], false⟩, ⟨[], false⟩⟩
      ⟨waits, ⟨store line s, .readline .start⟩, ⟨[], false⟩, ⟨s ++ left, false⟩⟩ := by
    rw [← hecho]
    exact goes_reply hreplies
  have hanswer : Goes text
      ⟨waits, ⟨store line s, .readline .start⟩, ⟨[], false⟩, ⟨s ++ left, false⟩⟩
      ⟨⟨input.drop s.length, out, s, store recvline s, .fputs (echo s).length⟩,
        ⟨store line s, .readline .start⟩, ⟨[], false⟩, ⟨left, false⟩⟩ :=
    goes_answer (List.nil_append s).symm hne hline hshort hend
  have hputs : Goes text
      ⟨⟨input.drop s.length, out, s, store recvline s, .fputs (echo s).length⟩,
        ⟨store line s, .readline .start⟩, ⟨[], false⟩, ⟨left, false⟩⟩
      (between (input.drop s.length) (out ++ s) s ((store recvline s).set (echo s).length '\x00')
        (store line s) left) := by
    apply goes_step (a := .cli 0) trivial
    simp only [World.step, World.cliStep, Client.fputs, cstr_store recvline hnul, between]
  exact hsend.trans (hrequest.trans (hreply.trans (hanswer.trans hputs)))

end Blocks

/-! ## The texts -/

section Texts

variable {text input out sendline recvline line s : List Char} {l : List (List Char)}

theorem inStep_cons (hs : s.getLast? = some '\n') (hl : InStep l) : InStep (s :: l) := by
  cases l with
  | nil => exact .inl hs
  | cons t l => exact ⟨hs, hl⟩

/-- A line without a newline at its end has none. -/
theorem newline_notMem (hline : Line s) (hlast : s.getLast? ≠ some '\n') : '\n' ∉ s := by
  intro hmem
  obtain ⟨p, q, hsplit⟩ := List.append_of_mem hmem
  by_cases hq : q = []
  · rw [hsplit, hq] at hlast
    simp at hlast
  · exact hline p '\n' q hsplit hq rfl

/-- Both wait, and nothing is on the way. -/
theorem not_good_of_waiting {r r' : Readline} : ¬ Good text
    ⟨waiting input out sendline recvline r, ⟨line, .readline r'⟩, ⟨[], false⟩, ⟨[], false⟩⟩ :=
  fun hgood => hgood.1 ⟨⟨r, rfl⟩, rfl, ⟨r', rfl⟩, rfl⟩

/-- A chunk that ends in no newline and does not fill the buffer is sent, and the server waits
for more of it. -/
theorem goes_unanswered {serv_line : List Char} {toCli : Chan Char}
    (hget : Stdio.fgets MAXLINE input = some s) (hnul : '\x00' ∉ s)
    (hlast : s.getLast? ≠ some '\n') (hfull : s.length ≠ MAXLINE - 1) :
    Goes text
      ⟨⟨input, out, sendline, recvline, .fgets⟩, ⟨serv_line, .readline .start⟩, ⟨[], false⟩, toCli⟩
      ⟨waiting (input.drop s.length) out s recvline .start,
        ⟨serv_line, .readline ⟨s.length + 1, s⟩⟩, ⟨[], false⟩, toCli⟩ := by
  have hshort := length_fgets_lt (by decide) hget
  have hfree := newline_notMem (line_of_fgets hget) hlast
  have hroom : ([] : List Char).length + s.length < MAXLINE - 1 := by
    rw [List.length_nil]
    omega
  exact (goes_send hget hnul).trans (goes_wait hfree hroom)

/-- Behind a null byte the next line does not count any more, where it comes back. -/
theorem lost_behind_nul (hget : Stdio.fgets MAXLINE input = some s) (hnul : '\x00' ∉ s)
    (hend : s.getLast? = some '\n' ∨ s.length = MAXLINE - 1) (htext : out ++ input = text)
    (h : (machine text).Reach reliable (between input out sendline recvline line ['\x00'])) :
    ∃ w, (machine text).Reach reliable w ∧ w.due < text.length := by
  let waits := waiting (input.drop s.length) out s recvline ⟨2, ['\x00']⟩
  have hne := fgets_ne_nil (by decide) hget
  have hshort := length_fgets_lt (by decide) hget
  have hsent := goes_nul.reach ((goes_send hget hnul).reach h)
  have hrequest : Goes text ⟨waits, ⟨line, .readline .start⟩, ⟨s, false⟩, ⟨[], false⟩⟩
      ⟨waits, ⟨store line s, .writen (echo s)⟩, ⟨[], false⟩, ⟨[], false⟩⟩ :=
    goes_request (List.nil_append s).symm hne (line_of_fgets hget) hshort hend
  obtain ⟨b, s', rfl⟩ := List.exists_cons_of_ne_nil hne
  obtain ⟨t, ht, -⟩ := echo_eq (s := b :: s')
  have hreply : Goes text
      ⟨waits, ⟨store line (b :: s'), .writen (echo (b :: s'))⟩, ⟨[], false⟩, ⟨[], false⟩⟩
      ⟨waits, ⟨store line (b :: s'), .readline .start⟩, ⟨[], false⟩, ⟨b :: (s' ++ t), false⟩⟩ := by
    rw [ht]
    exact goes_reply (List.cons_ne_nil _ _)
  -- the first byte is read behind the null byte
  have hbyte : Goes text
      ⟨waits, ⟨store line (b :: s'), .readline .start⟩, ⟨[], false⟩, ⟨b :: (s' ++ t), false⟩⟩
      ⟨waits.read ⟨2, ['\x00']⟩ [b], ⟨store line (b :: s'), .readline .start⟩, ⟨[], false⟩,
        ⟨s' ++ t, false⟩⟩ := by
    apply goes_step (a := .cli 0) trivial
    simp only [World.step, World.cliStep, waits, waiting, read_cons, Option.map_some]
  refine ⟨_, hbyte.reach (hreply.reach (hrequest.reach hsent)), ?_⟩
  have hzero := due_client_got waits ⟨2, ['\x00']⟩ b []
  have hcut : strlen (['\x00'] ++ [b]) = 0 := strlen_cons_nul
  have hecho : nonNul (b :: (s' ++ t)) ≤ (b :: s').length := by
    rw [← List.cons_append, ← ht]
    exact nonNul_echo_le
  have hfirst : nonNul [b] = 1 := by
    have hb : '\x00' ∉ [b] := fun hmem => hnul (List.mem_cons.2 (.inl (List.mem_singleton.1 hmem)))
    rw [nonNul_of_nul_free hb, List.length_singleton]
  have hcons := nonNul_cons (c := b) (l := s' ++ t)
  have hlen := congrArg List.length htext
  have hparts := congrArg List.length (fgets_append_drop hget)
  rw [List.length_append] at hlen hparts
  simp only [World.due, stdin_client_read, stdout_client_read, waits, waiting, nonNul_nil,
    ServAt.due, Readline.start] at hzero ⊢
  omega

/-- Behind a null byte the next line is lost, or never answered. -/
theorem not_good_behind_nul (hnul : '\x00' ∉ input) (hne : input ≠ [])
    (htext : out ++ input = text)
    (h : (machine text).Reach reliable (between input out sendline recvline line ['\x00'])) :
    ∃ f, (machine text).Reach reliable f ∧ ¬ Good text f := by
  cases hget : Stdio.fgets MAXLINE input with
  | none => exact absurd (fgets_eq_none_iff.1 hget) hne
  | some s =>
    rw [← fgets_append_drop hget, List.mem_append, not_or] at hnul
    by_cases hend : s.getLast? = some '\n' ∨ s.length = MAXLINE - 1
    · obtain ⟨w, hw, hlost⟩ := lost_behind_nul hget hnul.1 hend htext h
      exact not_good_of_lost hw hlost
    · rw [not_or] at hend
      have hwaits := (goes_unanswered hget hnul.1 hend.1 hend.2).reach h
      exact ⟨_, goes_nul.reach hwaits, not_good_of_waiting⟩

/-- **A text that does not fit is not served**: the two are stuck, or a line is lost. -/
theorem not_good_of_not_inStep (hnul : '\x00' ∉ input) (htext : out ++ input = text)
    (hnot : ¬ InStep (chunks MAXLINE input))
    (h : (machine text).Reach reliable (between input out sendline recvline line [])) :
    ∃ f, (machine text).Reach reliable f ∧ ¬ Good text f := by
  induction hlen : input.length using Nat.strong_induction_on
    generalizing input out sendline recvline line with
  | _ k ih =>
    cases hget : Stdio.fgets MAXLINE input with
    | none =>
      rw [fgets_eq_none_iff.1 hget, chunks_nil] at hnot
      exact absurd trivial hnot
    | some s =>
      have hsplit := fgets_append_drop hget
      have hpos := List.length_pos_iff.2 (fgets_ne_nil (by decide) hget)
      rw [chunks_cons (by decide) hget] at hnot
      rw [← hsplit, List.mem_append, not_or] at hnul
      have hrest : out ++ s ++ input.drop s.length = text := by
        rw [List.append_assoc, hsplit, htext]
      by_cases hlast : s.getLast? = some '\n'
      · -- a line: what does not fit comes later
        have hecho : echo s = s ++ [] := by
          rw [echo, if_pos hlast, List.append_nil]
        have hlater := (goes_round hget hnul.1 (.inl hlast) hecho).reach h
        have hshorter : (input.drop s.length).length < k := by
          have hsum := congrArg List.length hsplit
          rw [List.length_append] at hsum
          omega
        exact ih _ hshorter hnul.2 hrest (fun hin => hnot (inStep_cons hlast hin)) hlater rfl
      · by_cases hfull : s.length = MAXLINE - 1
        · -- the buffer is full, and more is to come
          have hecho : echo s = s ++ ['\x00'] := by rw [echo, if_neg hlast]
          have hlater := (goes_round hget hnul.1 (.inr hfull) hecho).reach h
          refine not_good_behind_nul hnul.2 ?_ hrest hlater
          intro hnil
          rw [hnil, chunks_nil] at hnot
          exact hnot (.inr hfull)
        · have hwaits := (goes_unanswered hget hnul.1 hlast hfull).reach h
          exact ⟨_, hwaits, not_good_of_waiting⟩

end Texts

/-- **A session on a text without null bytes is faithful and never stuck exactly if its lines
fit**: in every run, for every way the streams are split. -/
theorem tcp_echo (text : List Char) (hnul : '\x00' ∉ text) :
    (∀ w, (machine text).Reach reliable w → Good text w) ↔ InStep (chunks MAXLINE text) := by
  constructor
  · intro hgood
    by_contra hnot
    have hstart : (machine text).Reach reliable (between text [] [] [] [] []) :=
      .init ⟨[], [], [], rfl⟩
    obtain ⟨f, hf, hbad⟩ := not_good_of_not_inStep hnul (List.nil_append text) hnot hstart
    exact hbad (hgood f hf)
  · intro hfit w hw
    exact good_of_keeps ⟨hnul, hfit⟩ hw

/-- The line is sent in two pieces, echoed, and put out. -/
def hiSession : List Act :=
  [.cli 0, .cli 2, .serv 0, .serv 0, .cli 1, .serv 0, .serv 3, .cli 0, .cli 0, .cli 0, .cli 0,
    .cli 0]

theorem hiSession_runs :
    ((machine hi).exec reliable (start hi [] [] []) hiSession).isSome = true := by decide

theorem tcp_echo_hi :
    (((machine hi).exec reliable (start hi [] [] []) hiSession).get hiSession_runs).cli.stdout =
      hi :=
  ((tcp_echo hi keeps_hi.1).2 keeps_hi.2 _ (Machine.Reach.run (machine hi) reliable
    ⟨[], [], [], rfl⟩ hiSession hiSession_runs)).2 rfl

/-- A line without a newline: the server waits for the rest of it, and the client
for the reply. -/
theorem unterminated_stuck : ¬ ∀ text : List Char, '\x00' ∉ text →
    ∀ w, (machine text).Reach reliable w → Good text w := by
  intro h
  have hrun : ((machine ['x']).exec reliable (start ['x'] [] [] [])
    [.cli 0, .cli 1, .serv 0]).isSome
      = true := by decide
  have hgood := h ['x'] (by decide) _
    (Machine.Reach.run (machine ['x']) reliable ⟨[], [], [], rfl⟩ _ hrun)
  exact hgood.1 ⟨⟨_, rfl⟩, rfl, ⟨_, rfl⟩, rfl⟩

end UnixNetProg.TcpEcho

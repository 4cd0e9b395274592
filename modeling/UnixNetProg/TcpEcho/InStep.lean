/-
Client and server stay in step on texts whose lines fit the buffers.

`readline` returns a line that ends in a newline as it is. One that fills the
buffer it returns with the null byte behind it, so the server sends that too, and
the client leaves it in the stream: the next line is not read as it should be. A
line that does neither the server goes on waiting for. `InStep` says that every
chunk `fgets` cuts ends in a newline, but for the last one, which may also fill
the buffer.

On such a text the request is read as it was written, and the reply as it was
sent, for every way the streams are split (`Phase`); so the two are never both
waiting, and the client puts out its input (`good_of_keeps`).
-/
import UnixNetProg.TcpEcho.Code

set_option autoImplicit false

namespace UnixNetProg.TcpEcho

open UnixNetProg.Channel UnixNetProg.Runs UnixNetProg.Stdio

/-! ## Lines -/

/-- Every chunk ends in a newline; the last one may also fill the buffer. -/
def InStep : List (List Char) → Prop
  | [] => True
  | [s] => s.getLast? = some '\n' ∨ s.length = MAXLINE - 1
  | s :: t :: l => s.getLast? = some '\n' ∧ InStep (t :: l)

/-- A newline is only at the end. -/
def Line (s : List Char) : Prop := ∀ p c q, s = p ++ c :: q → q ≠ [] → c ≠ '\n'

/-- What the server sends for a line. -/
def echo (s : List Char) : List Char := if s.getLast? = some '\n' then s else s ++ ['\x00']

section Lines

variable {s buf rest input chunk : List Char} {c : Char} {l : List (List Char)} {n : ℕ}

theorem InStep.ends (h : InStep (s :: l)) : s.getLast? = some '\n' ∨ s.length = MAXLINE - 1 := by
  cases l with
  | nil => exact h
  | cons t l => exact .inl h.1

theorem InStep.tail (h : InStep (s :: l)) : InStep l := by
  cases l with
  | nil => trivial
  | cons t l => exact h.2

/-- A line without a newline is the last. -/
theorem InStep.last (h : InStep (s :: l)) (hs : s.getLast? ≠ some '\n') : l = [] := by
  cases l with
  | nil => rfl
  | cons t l => exact absurd h.1 hs

/-- What `fgets` reads has a newline only at its end. -/
theorem line_of_fgets (h : fgets n input = some chunk) : Line chunk := by
  have hne : input ≠ [] := by
    rintro rfl
    cases h
  rw [fgets_eq hne, Option.some.injEq] at h
  have hprefix : chunk <+: line input := by
    rw [← h]
    exact List.take_prefix _ _
  obtain ⟨r, hr⟩ := hprefix
  rintro p c q rfl hq rfl
  rcases line_cases input with ⟨l, rest, -, hfree, hline⟩ | ⟨hfree, hline⟩
  · -- the newline would be in front of the one at the end
    rw [hline] at hr
    have hlast := congrArg List.dropLast hr
    rw [List.dropLast_concat, List.append_assoc, List.cons_append,
      List.dropLast_append_of_ne_nil (List.cons_ne_nil _ _),
      List.dropLast_cons_of_ne_nil (by simp [hq])] at hlast
    apply hfree
    rw [← hlast, newline_char]
    simp
  · apply hfree
    rw [← hline, ← hr, newline_char]
    simp

theorem length_echo_le : s.length ≤ (echo s).length ∧ (echo s).length ≤ s.length + 1 := by
  unfold echo
  split_ifs <;> simp

/-- The reply begins with the line. -/
theorem echo_eq : ∃ t, echo s = s ++ t ∧ (s.getLast? = some '\n' → t = []) := by
  unfold echo
  split_ifs with hlast
  · exact ⟨[], by simp, fun _ => rfl⟩
  · exact ⟨_, rfl, fun h => absurd h hlast⟩

/-- `readline` on a line that ends in a newline or fills the buffer: it returns
with the last byte, and not before. -/
theorem got_next (hs : s = buf ++ c :: rest) (hline : Line s) (hshort : s.length < MAXLINE)
    (hend : s.getLast? = some '\n' ∨ s.length = MAXLINE - 1) :
    Readline.got MAXLINE ⟨buf.length + 1, buf⟩ c
      = if rest = [] then .ret (echo s).length s
        else .more ⟨(buf ++ [c]).length + 1, buf ++ [c]⟩ := by
  have hlen := congrArg List.length hs
  rw [List.length_append, List.length_cons] at hlen
  unfold Readline.got
  by_cases hrest : rest = []
  · subst hrest
    rw [if_pos rfl]
    have hlast : s.getLast? = some c := by
      rw [hs]
      simp
    by_cases hc : c = '\n'
    · have hecho : (echo s).length = s.length := by rw [echo, if_pos (by rw [hlast, hc])]
      rw [if_pos hc, hecho, hlen, hs]
      rfl
    · -- no newline: the buffer is full
      have hne : s.getLast? ≠ some '\n' := by
        rw [hlast]
        exact fun heq => hc (Option.some.inj heq)
      have hfull := hend.resolve_left hne
      have hecho : (echo s).length = s.length + 1 := by
        rw [echo, if_neg hne]
        simp
      rw [if_neg hc, hecho, hlen, if_neg, hs]
      · rfl
      · simp only [MAXLINE, List.length_nil] at hfull hlen ⊢
        omega
  · -- neither the end of the line nor of the buffer
    have hpos := List.length_pos_iff.2 hrest
    rw [if_neg hrest, if_neg (hline buf c rest hs hrest), if_pos]
    · simp
    · simp only [MAXLINE] at hshort ⊢
      omega

/-- The buffer holds the line, and the null byte, or the byte behind it. -/
theorem take_store (buffer : List Char) : (store buffer s).take (echo s).length = echo s := by
  unfold store echo
  split_ifs
  · exact List.take_left' rfl
  · rw [show s ++ '\x00' :: buffer.drop (s.length + 1) =
      (s ++ ['\x00']) ++ buffer.drop (s.length + 1) by
      simp]
    exact List.take_left' rfl

/-- The string in the buffer, ended behind as many bytes as `readline` returned. -/
theorem cstr_store (buffer : List Char) (hnul : '\x00' ∉ s) :
    cstr ((store buffer s).set (echo s).length '\x00') = s := by
  have hset : ∃ t, (store buffer s).set (echo s).length '\x00' = s ++ '\x00' :: t := by
    have hlen := length_echo_le (s := s)
    unfold store
    rw [List.set_append_right _ _ hlen.1]
    by_cases heq : (echo s).length - s.length = 0
    · exact ⟨_, by rw [heq, List.set_cons_zero]⟩
    · have hone : (echo s).length - s.length = 0 + 1 := by omega
      exact ⟨_, by rw [hone, List.set_cons_succ]⟩
  obtain ⟨t, ht⟩ := hset
  rw [ht, cstr, List.takeWhile_append_of_pos]
  · simp
  · intro c hc
    rw [bne_iff_ne]
    rintro rfl
    exact hnul hc

end Lines

/-! ## A round -/

/-- The client is on line `s`: it has put out what is in front of it. -/
structure Client.On (text : List Char) (c : Client) (s : List Char) : Prop where
  text : c.stdout ++ s ++ c.stdin = text
  nul : '\x00' ∉ s ∧ '\x00' ∉ c.stdin
  line : Line s
  short : s.length < MAXLINE
  inStep : InStep (s :: chunks MAXLINE c.stdin)

/-- The server has `left` to write back, or nothing, and reads the next line. -/
def Server.Replies (s : Server) (left : List Char) : Prop :=
  s.pc = if left = [] then .readline .start else .writen left

/-- Where the two are. Between two lines the server may have a null byte left to
write, but only after the last one. A request is read by the server up to `buf`,
and `left` to write by the client; a reply the other way round. -/
inductive Phase (text : List Char) (w : World) : Prop
  | between (left : List Char) (pc : w.cli.pc = .fgets) (serv : w.serv.Replies left)
      (sent : w.toServ.bytes = []) (reply : w.cli.stdin ≠ [] → w.toCli.bytes ++ left = [])
      (text : w.cli.stdout ++ w.cli.stdin = text) (nul : '\x00' ∉ w.cli.stdin)
      (inStep : InStep (chunks MAXLINE w.cli.stdin))
  | request (s buf left : List Char) (on : w.cli.On text s)
      (pc : w.cli.pc = if left = [] then .readline .start else .writen left)
      (serv : w.serv.pc = .readline ⟨buf.length + 1, buf⟩)
        (sent : buf ++ w.toServ.bytes ++ left = s)
      (short : buf.length < s.length) (reply : w.toCli.bytes = [])
  | reply (s buf left : List Char) (on : w.cli.On text s)
      (pc : w.cli.pc = .readline ⟨buf.length + 1, buf⟩) (serv : w.serv.Replies left)
      (sent : w.toServ.bytes = []) (reply : buf ++ w.toCli.bytes ++ left = echo s)
      (short : buf.length < s.length)
  | printing (s left : List Char) (n : ℕ) (on : w.cli.On text s) (pc : w.cli.pc = .fputs n)
      (line : cstr (w.cli.recvline.set n '\x00') = s) (serv : w.serv.Replies left)
      (sent : w.toServ.bytes = []) (reply : s ++ w.toCli.bytes ++ left = echo s)

/-- The client has returned, having put out its input; or both go on, and neither
has closed the connection. -/
def Session (text : List Char) (w : World) : Prop :=
  w.cli.pc = .done ∧ w.cli.stdout = text ∨
    Phase text w ∧ w.toServ.closed = false ∧ w.toCli.closed = false

section Rounds

variable {text s left : List Char} {w w' : World} {k : ℕ}

/-- One byte is read from a stream that is open. -/
theorem read_one {c c' : Chan Char} {bs : List Char} (hopen : c.closed = false)
    (h : c.read 1 1 = some (bs, c')) :
    ∃ b, bs = [b] ∧ c.bytes = b :: c'.bytes ∧ c'.closed = false := by
  obtain ⟨hbytes, hclosed, hle⟩ := Chan.read_eq_some h
  have hne : bs ≠ [] := by
    rintro rfl
    have heof := (Chan.read_nil h).2.1
    rw [hopen] at heof
    cases heof
  obtain ⟨b, rest, rfl⟩ := List.exists_cons_of_ne_nil hne
  obtain rfl : rest = [] := List.length_eq_zero_iff.1 (by simpa using hle)
  exact ⟨b, rfl, hbytes, hclosed.trans hopen⟩

/-- Nothing is read from an empty stream that is open. -/
theorem read_none {c : Chan Char} (hopen : c.closed = false) (hnil : c.bytes = []) :
    c.read 1 1 = none := by
  rw [Chan.read, if_pos hnil, hopen]
  rfl

theorem replies_writen (serv : Server) (left : List Char) : (serv.writen left).Replies left := rfl

/-- A server that writes back goes on writing, or waits. -/
theorem servStep_replies (h : w.serv.Replies left) (hsent : w.toServ.bytes = [])
    (hopen : w.toServ.closed = false) (hs : w.servStep k = some w') :
    ∃ left', w'.cli = w.cli ∧ w'.toServ = w.toServ ∧ w'.serv.Replies left' ∧
      w'.toCli.bytes ++ left' = w.toCli.bytes ++ left ∧ w'.toCli.closed = w.toCli.closed := by
  unfold Server.Replies at h
  simp only [World.servStep] at hs
  by_cases hnil : left = []
  · -- it reads the next line, and nothing is sent
    rw [if_pos hnil] at h
    rw [h] at hs
    simp [read_none hopen hsent] at hs
  · rw [if_neg hnil] at h
    simp only [h] at hs
    split_ifs at hs with hk
    cases hs
    refine ⟨left.drop k, rfl, rfl, replies_writen _ _, ?_, rfl⟩
    rw [Chan.write_bytes, List.append_assoc, List.take_append_drop]

/-- The client returns, or sends the next line. -/
theorem session_fgets (hpc : w.cli.pc = .fgets) (hserv : w.serv.Replies left)
    (hsent : w.toServ.bytes = []) (hreply : w.cli.stdin ≠ [] → w.toCli.bytes ++ left = [])
    (htext : w.cli.stdout ++ w.cli.stdin = text) (hnul : '\x00' ∉ w.cli.stdin)
    (hinStep : InStep (chunks MAXLINE w.cli.stdin)) (hserv_open : w.toServ.closed = false)
    (hcli_open : w.toCli.closed = false) (hs : w.cliStep k = some w') : Session text w' := by
  simp only [World.cliStep, hpc] at hs
  cases hs
  unfold Client.fgets
  cases hget : Stdio.fgets MAXLINE w.cli.stdin with
  | none =>
    left
    -- the end of the input
    rw [fgets_eq_none_iff.1 hget, List.append_nil] at htext
    exact ⟨rfl, htext⟩
  | some chunk =>
    have hne : w.cli.stdin ≠ [] := by
      intro hnil
      rw [hnil] at hget
      cases hget
    obtain ⟨hempty, rfl⟩ := List.append_eq_nil_iff.1 (hreply hne)
    have hchunk := fgets_ne_nil (by decide) hget
    have hsplit := fgets_append_drop hget
    rw [← hsplit, List.mem_append, not_or] at hnul
    rw [chunks_cons (by decide) hget] at hinStep
    right
    -- what is sent is what was read
    have hwrites : chunk.take (strlen chunk) = chunk := by
      rw [strlen_of_nul_free hnul.1, List.take_length]
    refine ⟨.request chunk [] chunk ⟨?_, hnul, line_of_fgets hget, ?_, hinStep⟩ ?_ hserv ?_ ?_
      hempty,
      ?_, hcli_open⟩
    · show w.cli.stdout ++ chunk ++ w.cli.stdin.drop chunk.length = text
      rw [List.append_assoc, hsplit, htext]
    · exact length_fgets_lt (by decide) hget
    · simp only [hwrites, Client.writen]
    · simp only [hwrites, Client.writen, if_neg hchunk, reduceCtorEq, if_false, hsent]
      rfl
    · exact List.length_pos_iff.2 hchunk
    · simp only [hwrites, Client.writen, if_neg hchunk, reduceCtorEq, if_false, hserv_open]

/-- The client sends a part of the line, or waits. -/
theorem session_sends {buf : List Char} (hon : w.cli.On text s)
    (hpc : w.cli.pc = if left = [] then .readline .start else .writen left)
    (hserv : w.serv.pc = .readline ⟨buf.length + 1, buf⟩)
    (hsent : buf ++ w.toServ.bytes ++ left = s)
    (hshort : buf.length < s.length) (hreply : w.toCli.bytes = [])
    (hserv_open : w.toServ.closed = false) (hcli_open : w.toCli.closed = false)
    (hs : w.cliStep k = some w') : Session text w' := by
  simp only [World.cliStep] at hs
  by_cases hnil : left = []
  · rw [if_pos hnil] at hpc
    rw [hpc] at hs
    simp [read_none hcli_open hreply] at hs
  · rw [if_neg hnil] at hpc
    simp only [hpc] at hs
    split_ifs at hs with hk
    cases hs
    right
    refine ⟨.request s buf (left.drop k) ⟨hon.text, hon.nul, hon.line, hon.short, hon.inStep⟩ rfl
      hserv ?_
      hshort hreply, hserv_open, hcli_open⟩
    rw [Chan.write_bytes, List.append_assoc, List.append_assoc, List.take_append_drop,
      ← List.append_assoc, hsent]

/-- The server reads a byte of the line; with the last one it sends the reply. -/
theorem session_request {buf : List Char} (hon : w.cli.On text s)
    (hpc : w.cli.pc = if left = [] then .readline .start else .writen left)
    (hserv : w.serv.pc = .readline ⟨buf.length + 1, buf⟩)
    (hsent : buf ++ w.toServ.bytes ++ left = s)
    (hreply : w.toCli.bytes = []) (hserv_open : w.toServ.closed = false)
    (hcli_open : w.toCli.closed = false) (hs : w.servStep k = some w') : Session text w' := by
  simp only [World.servStep, hserv] at hs
  obtain ⟨⟨bs, c'⟩, hread, rfl⟩ := Option.map_eq_some_iff.1 hs
  obtain ⟨b, rfl, hbytes, hopen⟩ := read_one hserv_open hread
  have hsplit : s = buf ++ b :: (c'.bytes ++ left) := by
    rw [← hsent, hbytes]
    simp
  have hnext := got_next hsplit hon.line hon.short hon.inStep.ends
  right
  simp only [Server.read, Readline.next, hnext]
  by_cases hlast : c'.bytes ++ left = []
  · -- the last byte of the line, which is echoed
    obtain ⟨hempty, hnil⟩ := List.append_eq_nil_iff.1 hlast
    rw [if_pos hlast]
    simp only [take_store]
    have hne : s ≠ [] := by
      rw [hsplit]
      simp
    have hpos := List.length_pos_iff.2 hne
    have hecho : echo s ≠ [] := by
      have hlen := (length_echo_le (s := s)).1
      exact List.length_pos_iff.1 (hpos.trans_le hlen)
    refine ⟨.reply s [] (echo s) hon ?_ (replies_writen _ _) hempty ?_ hpos, hopen, ?_⟩
    · rw [hpc, if_pos hnil]
      rfl
    · simp [Server.writen, hecho, hreply]
    · simp [Server.writen, hecho, hcli_open]
  · rw [if_neg hlast]
    -- more of it is to come
    refine ⟨.request s (buf ++ [b]) left hon hpc rfl ?_ ?_ ?_, hopen, ?_⟩
    · rw [hsplit]
      simp
    · have hpos := List.length_pos_iff.2 hlast
      rw [hsplit]
      simp only [List.length_append, List.length_cons, List.length_nil] at hpos ⊢
      omega
    · simpa using hreply
    · simpa using hcli_open

/-- The client reads a byte of the reply; with the last one of the line it has
the line. -/
theorem session_reply {buf : List Char} (hon : w.cli.On text s)
    (hpc : w.cli.pc = .readline ⟨buf.length + 1, buf⟩) (hserv : w.serv.Replies left)
    (hsent : w.toServ.bytes = []) (hreply : buf ++ w.toCli.bytes ++ left = echo s)
    (hshort : buf.length < s.length) (hserv_open : w.toServ.closed = false)
    (hcli_open : w.toCli.closed = false) (hs : w.cliStep k = some w') : Session text w' := by
  simp only [World.cliStep, hpc] at hs
  obtain ⟨⟨bs, c'⟩, hread, rfl⟩ := Option.map_eq_some_iff.1 hs
  obtain ⟨b, rfl, hbytes, hopen⟩ := read_one hcli_open hread
  -- the byte is the next one of the line
  obtain ⟨t, htail, -⟩ := echo_eq (s := s)
  obtain ⟨rest, hsplit⟩ : ∃ rest, s = buf ++ b :: rest := by
    have hprefix : buf ++ [b] <+: s := by
      have hread : buf ++ [b] <+: echo s := by
        rw [← hreply, hbytes]
        exact ⟨c'.bytes ++ left, by simp⟩
      have hline : s <+: echo s := by
        rw [htail]
        exact List.prefix_append _ _
      apply List.prefix_of_prefix_length_le hread hline
      rw [List.length_append, List.length_singleton]
      omega
    obtain ⟨rest, hrest⟩ := hprefix
    exact ⟨rest, by rw [← hrest]; simp⟩
  have hafter : buf ++ [b] ++ c'.bytes ++ left = echo s := by
    rw [← hreply, hbytes]
    simp
  have hnext := got_next hsplit hon.line hon.short hon.inStep.ends
  right
  simp only [Client.read, Readline.next, hnext]
  by_cases hlast : rest = []
  · rw [if_pos hlast]
    -- the line is complete
    refine ⟨.printing s left _ ⟨hon.text, hon.nul, hon.line, hon.short, hon.inStep⟩ rfl
      (cstr_store _ hon.nul.1) hserv hsent ?_, hserv_open, hopen⟩
    rw [hsplit, hlast] at hafter ⊢
    exact hafter
  · rw [if_neg hlast]
    -- more of it is to come
    have hpos := List.length_pos_iff.2 hlast
    refine ⟨.reply s (buf ++ [b]) left ⟨hon.text, hon.nul, hon.line, hon.short, hon.inStep⟩ rfl
      hserv hsent
      hafter ?_, hserv_open, hopen⟩
    rw [hsplit]
    simp only [List.length_append, List.length_cons, List.length_nil]
    omega

/-- The client puts out the line. -/
theorem session_fputs {n : ℕ} (hon : w.cli.On text s) (hpc : w.cli.pc = .fputs n)
    (hline : cstr (w.cli.recvline.set n '\x00') = s) (hserv : w.serv.Replies left)
    (hsent : w.toServ.bytes = []) (hreply : s ++ w.toCli.bytes ++ left = echo s)
    (hserv_open : w.toServ.closed = false) (hcli_open : w.toCli.closed = false)
    (hs : w.cliStep k = some w') : Session text w' := by
  simp only [World.cliStep, hpc] at hs
  cases hs
  right
  refine ⟨.between left rfl hserv hsent ?_ ?_ hon.nul.2 hon.inStep.tail, hserv_open, hcli_open⟩
  · intro hne
    -- the line is not the last one, so nothing is left behind it
    have hlast : s.getLast? = some '\n' := by
      by_contra hnone
      apply hne
      have hnil := hon.inStep.last hnone
      show w.cli.stdin = []
      rw [← flatten_chunks (n := MAXLINE) (by decide) w.cli.stdin, hnil, List.flatten_nil]
    rw [echo, if_pos hlast, List.append_assoc] at hreply
    exact List.append_right_eq_self.1 hreply
  · show w.cli.stdout ++ cstr (w.cli.recvline.set n '\x00') ++ w.cli.stdin = text
    rw [hline]
    exact hon.text

/-- **Every step keeps it.** -/
theorem Session.step {a : Act} (h : Session text w) (hok : reliable w a) (hs : w.step a = some w') :
    Session text w' := by
  rcases h with ⟨hdone, hout⟩ | ⟨hphase, hserv_open, hcli_open⟩
  · -- the client has returned, whatever the server does
    have hcli : w'.cli = w.cli := by
      cases a with
      | cli k => simp [World.step, World.cliStep, hdone] at hs
      | serv k =>
        simp only [World.step, World.servStep] at hs
        split at hs
        · obtain ⟨q, -, rfl⟩ := Option.map_eq_some_iff.1 hs
          rfl
        · split_ifs at hs
          cases hs
          rfl
        · cases hs
        · cases hs
      | cliFails => exact absurd hok id
      | servFails =>
        obtain ⟨msg, -, rfl⟩ := Option.map_eq_some_iff.1 hs
        rfl
    left
    rw [hcli]
    exact ⟨hdone, hout⟩
  · cases a with
    | cli k =>
      cases hphase with
      | between left pc serv sent reply text nul inStep =>
        exact session_fgets pc serv sent reply text nul inStep hserv_open hcli_open hs
      | request s buf left on pc serv sent short reply =>
        exact session_sends on pc serv sent short reply hserv_open hcli_open hs
      | reply s buf left on pc serv sent reply short =>
        exact session_reply on pc serv sent reply short hserv_open hcli_open hs
      | printing s left n on pc line serv sent reply =>
        exact session_fputs on pc line serv sent reply hserv_open hcli_open hs
    | serv k =>
      cases hphase with
      | between left pc serv sent reply text nul inStep =>
        obtain ⟨left', hcli, hto, hserv, hbytes, hclosed⟩ :=
          servStep_replies serv sent hserv_open hs
        rw [← hcli] at pc reply text nul inStep
        rw [← hbytes] at reply
        exact .inr ⟨.between left' pc hserv (hto ▸ sent) reply text nul inStep, hto ▸ hserv_open,
          hclosed.trans hcli_open⟩
      | request s buf left on pc serv sent short reply =>
        exact session_request on pc serv sent reply hserv_open hcli_open hs
      | reply s buf left on pc serv sent reply short =>
        obtain ⟨left', hcli, hto, hserv, hbytes, hclosed⟩ :=
          servStep_replies serv sent hserv_open hs
        rw [← hcli] at on pc
        rw [List.append_assoc, ← hbytes, ← List.append_assoc] at reply
        exact .inr ⟨.reply s buf left' on pc hserv (hto ▸ sent) reply short, hto ▸ hserv_open,
          hclosed.trans hcli_open⟩
      | printing s left n on pc line serv sent reply =>
        obtain ⟨left', hcli, hto, hserv, hbytes, hclosed⟩ :=
          servStep_replies serv sent hserv_open hs
        rw [← hcli] at on pc line
        rw [List.append_assoc, ← hbytes, ← List.append_assoc] at reply
        exact .inr ⟨.printing s left' n on pc line hserv (hto ▸ sent) reply, hto ▸ hserv_open,
          hclosed.trans hcli_open⟩
    | cliFails => exact absurd hok id
    | servFails =>
      -- the client has not returned
      have hdone : w.cli.pc = .done := hok
      cases hphase with
      | between left pc => simp [pc] at hdone
      | request s buf left on pc =>
        rw [pc] at hdone
        split_ifs at hdone
      | reply s buf left on pc => simp [pc] at hdone
      | printing s left n on pc => simp [pc] at hdone

/-- Of client and server one can go on. -/
theorem Session.not_stuck (h : Session text w) : ¬ w.Stuck := by
  rintro ⟨⟨r, hcli⟩, hcli_none, ⟨r', hserv⟩, hserv_none⟩
  -- whoever waits finds nothing to read, and the phases say that something is owed to one of them
  have hempty : ∀ {c : Chan Char}, c.read 1 1 = none → c.bytes = [] := by
    intro c hnone
    by_contra hne
    obtain ⟨b, rest, hbytes⟩ := List.exists_cons_of_ne_nil hne
    simp [Chan.read, hbytes] at hnone
  have hsent := hempty hserv_none
  have hreply := hempty hcli_none
  rcases h with ⟨hdone, -⟩ | ⟨hphase, -, -⟩
  · simp [hdone] at hcli
  · cases hphase with
    | between left pc => simp [pc] at hcli
    | request s buf left on pc serv sent short =>
      rw [pc] at hcli
      split_ifs at hcli with hnil
      rw [hsent, hnil, List.append_nil, List.append_nil] at sent
      rw [sent] at short
      exact Nat.lt_irrefl _ short
    | reply s buf left on pc serv sent reply short =>
      rw [Server.Replies, hserv] at serv
      split_ifs at serv with hnil
      rw [hreply, hnil, List.append_nil, List.append_nil] at reply
      have hlen := (length_echo_le (s := s)).1
      rw [← reply] at hlen
      omega
    | printing s left n on pc => simp [pc] at hcli

end Rounds

/-! ## In every run -/

/-- The condition on a text. -/
def Keeps (text : List Char) : Prop := '\x00' ∉ text ∧ InStep (chunks MAXLINE text)

/-- What a session should be: the two are never both waiting, and when the client
returns it has put out its input. -/
def Good (text : List Char) (w : World) : Prop :=
  ¬ w.Stuck ∧ (w.cli.pc = .done → w.cli.stdout = text)

theorem session_of_reach {text : List Char} (hkeeps : Keeps text) {w : World}
    (h : (machine text).Reach reliable w) : Session text w := by
  apply h.invariant (I := Session text)
  · rintro w ⟨sendline, recvline, line, rfl⟩
    right
    exact ⟨.between [] rfl rfl rfl (fun _ => rfl) rfl hkeeps.1 hkeeps.2, rfl, rfl⟩
  · intro w a w' _ hinv hok hs
    exact hinv.step hok hs

/-- **A session on a text whose lines fit is faithful and never stuck**, for every
way the streams are split. -/
theorem good_of_keeps {text : List Char} (hkeeps : Keeps text) {w : World}
    (h : (machine text).Reach reliable w) : Good text w := by
  have hsession := session_of_reach hkeeps h
  refine ⟨hsession.not_stuck, ?_⟩
  intro hdone
  rcases hsession with ⟨-, hout⟩ | ⟨hphase, -, -⟩
  · exact hout
  · cases hphase with
    | between left pc => simp [pc] at hdone
    | request s buf left on pc =>
      rw [pc] at hdone
      split_ifs at hdone
    | reply s buf left on pc => simp [pc] at hdone
    | printing s left n on pc => simp [pc] at hdone

def hi : List Char := ['h', 'i', '\n']

theorem keeps_hi : Keeps hi := by
  have hget : fgets MAXLINE hi = some hi := by decide
  refine ⟨by decide, ?_⟩
  have hrest : hi.drop hi.length = [] := rfl
  rw [chunks_cons (by decide) hget, hrest, chunks_nil]
  exact .inl rfl

end UnixNetProg.TcpEcho

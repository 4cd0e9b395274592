/-
Every client is served its own text.

For each client there is at most one datagram between its `sendto` and its
`recvfrom`: on the way to the server, in the server's buffer, or on the way back.
`World.about` collects them wherever they are, so that a step moves one from one
place to another and changes nothing else. What it holds is the line the client
has sent (`Own.flight`); so what the client puts out is what `fgets` has read.
-/
import UnixNetProg.UdpEcho.Code

set_option autoImplicit false

namespace UnixNetProg.UdpEcho

open UnixNetProg.Datagrams UnixNetProg.Runs UnixNetProg.Stdio

variable {κ : Type} [DecidableEq κ]

/-! ## Between `sendto` and `recvfrom` -/

/-- A datagram from or to client `a`. -/
def isOf (a : κ) (d : Datagram (Addr κ) Char) : Bool := d.src = .cli a || d.dst = .cli a

/-- What the server has received from client `a` and not yet sent back. -/
def Server.held (s : Server κ) (a : κ) : List (List Char) :=
  if s.pc = .sendto ∧ s.pcli_addr = .cli a then [s.mesg.take s.n] else []

/-- What client `a` has sent and not got back, wherever it is. -/
def World.about (w : World κ) (a : κ) : List (List Char) :=
  (w.net.all.filter (isOf a)).map (·.data) ++ w.serv.held a

/-- A datagram between a client and the server. -/
def Routed (d : Datagram (Addr κ) Char) : Prop :=
  (∃ a, d.src = .cli a ∧ d.dst = .serv) ∨ ∃ a, d.src = .serv ∧ d.dst = .cli a

/-- The strings that are read and not yet put out. -/
def Client.rest (c : Client) : List (List Char) :=
  match c.pc with
  | .fgets | .done => []
  | .sendto | .recvfrom | .fputs | .ended _ => [c.sendline]

/-- A client that has put out what it has read, but for the last line, of an
input without null bytes. -/
structure Client.Own (c : Client) (input : List Char) : Prop where
  text : '\x00' ∉ c.stdin
  line : '\x00' ∉ c.sendline
  short : c.sendline.length < MAXLINE
  read : c.stdout ++ c.rest ++ chunks MAXLINE c.stdin = chunks MAXLINE input ∨
    ∃ msg, c.pc = .ended msg ∧ c.stdout <+: chunks MAXLINE input
  received : c.pc = .fputs → c.recvline = c.sendline
  finished : c.pc = .done → c.stdin = []

/-- A client waits for a datagram, or has given up. -/
def Client.Waits (c : Client) : Prop := c.pc = .recvfrom ∨ ∃ msg, c.pc = .ended msg

structure Own (input : κ → List Char) (w : World κ) : Prop where
  cli : ∀ a, (w.cli a).Own (input a)
  flight : ∀ a, w.about a = [] ∨ w.about a = [(w.cli a).sendline] ∧ (w.cli a).Waits
  routed : ∀ d ∈ w.net.all, Routed d
  addr : w.serv.pc = .sendto → ∃ a, w.serv.pcli_addr = .cli a

/-! ## A client alone -/

namespace Client.Own

variable {c : Client} {input data : List Char}

theorem start (htext : '\x00' ∉ input) : (Client.start input).Own input where
  text := htext
  line := List.not_mem_nil
  short := Nat.succ_pos 511
  read := .inl rfl
  received := nofun
  finished := nofun

theorem fgets (h : c.Own input) (hpc : c.pc = .fgets) : c.fgets.Own input := by
  have hread := h.read
  simp only [hpc, Client.rest, List.append_nil, reduceCtorEq, false_and, exists_false, or_false]
    at hread
  unfold Client.fgets
  cases hget : Stdio.fgets MAXLINE c.stdin with
  | none =>
    have hnil : c.stdin = [] := fgets_eq_none_iff.1 hget
    refine ⟨h.text, h.line, h.short, .inl ?_, nofun, fun _ => hnil⟩
    simpa [Client.rest] using hread
  | some chunk =>
    have hsplit := fgets_append_drop hget
    have htext := h.text
    rw [← hsplit, List.mem_append, not_or] at htext
    refine ⟨htext.2, htext.1, length_fgets_lt (by decide) hget, .inl ?_, nofun, nofun⟩
    rw [chunks_cons (by decide) hget] at hread
    simpa [Client.rest] using hread

/-- The datagram it has sent is received. -/
theorem recvfrom (h : c.Own input) (hpc : c.pc = .recvfrom) :
    (c.recvfrom c.sendline).Own input := by
  have hread := h.read
  simp only [hpc, reduceCtorEq, false_and, exists_false, or_false, Client.rest] at hread
  refine ⟨h.text, h.line, h.short, .inl ?_, fun _ => ?_, nofun⟩
  · exact hread
  · exact List.take_of_length_le (Nat.le_of_lt h.short)

theorem fputs (h : c.Own input) (hpc : c.pc = .fputs) : c.fputs.Own input := by
  have hread := h.read
  simp only [hpc, reduceCtorEq, false_and, exists_false, or_false, Client.rest] at hread
  refine ⟨h.text, h.line, h.short, .inl ?_, nofun, nofun⟩
  show c.stdout ++ [cstr c.recvline] ++ [] ++ _ = _
  rw [h.received hpc, cstr_of_nul_free h.line, List.append_nil]
  exact hread

/-- The line is under way. -/
theorem sendto (h : c.Own input) (hpc : c.pc = .sendto) : { c with pc := .recvfrom }.Own input := by
  have hread := h.read
  simp only [hpc, reduceCtorEq, false_and, exists_false, or_false, Client.rest] at hread
  exact ⟨h.text, h.line, h.short, .inl hread, nofun, nofun⟩

/-- What has been put out is a beginning. -/
theorem output (h : c.Own input) : c.stdout <+: chunks MAXLINE input := by
  rcases h.read with hread | ⟨msg, -, hprefix⟩
  · rw [← hread, List.append_assoc]
    exact List.prefix_append _ _
  · exact hprefix

theorem ends (h : c.Own input) (msg : String) : { c with pc := .ended msg }.Own input :=
  ⟨h.text, h.line, h.short, .inr ⟨msg, rfl, h.output⟩, nofun, nofun⟩

/-- What is received is the next line. -/
theorem next (h : c.Own input) (hpc : c.pc = .fputs) :
    c.stdout ++ [c.recvline] <+: chunks MAXLINE input := by
  have hread := h.read
  simp only [hpc, reduceCtorEq, false_and, exists_false, or_false, Client.rest] at hread
  rw [← hread, h.received hpc]
  exact List.prefix_append _ _

/-- At the end of the input all has been put out. -/
theorem done (h : c.Own input) (hpc : c.pc = .done) : c.stdout.flatten = input := by
  have hread := h.read
  simp only [hpc, reduceCtorEq, false_and, exists_false, or_false, Client.rest, List.append_nil,
    h.finished hpc, chunks_nil] at hread
  rw [hread]
  exact flatten_chunks (by decide) input

end Client.Own

/-! ## Where a datagram is -/

section About

variable {w w' : World κ} {a b : κ} {d : Datagram (Addr κ) Char} {c : Client}

@[simp] theorem setCli_about : (w.setCli a c).about b = w.about b := rfl

@[simp] theorem setCli_self : (w.setCli a c).cli a = c := Function.update_self _ _ _

theorem setCli_of_ne (h : b ≠ a) : (w.setCli a c).cli b = w.cli b := Function.update_of_ne h _ _

theorem isOf_iff (hd : Routed d) (hdst : d.dst = .cli a ∨ d.src = .cli a) (b : κ) :
    isOf b d = true ↔ b = a := by
  rcases hd with ⟨e, hsrc, hdst'⟩ | ⟨e, hsrc, hdst'⟩
  all_goals
    simp only [isOf, hsrc, hdst', Addr.cli.injEq, reduceCtorEq, decide_false, Bool.or_false,
      Bool.false_or, decide_eq_true_eq, or_false, false_or] at hdst ⊢
    rw [hdst, eq_comm]

/-- Datagrams change their place. -/
theorem about_perm (hall : w'.net.all.Perm w.net.all) (hserv : w'.serv.held a = w.serv.held a) :
    (w'.about a).Perm (w.about a) := by
  unfold World.about
  rw [hserv]
  exact ((hall.filter _).map _).append_right _

/-- One datagram more, or less, in the network. -/
theorem about_cons (hall : w'.net.all.Perm (d :: w.net.all))
    (hserv : w'.serv.held a = w.serv.held a) :
    (w'.about a).Perm (if isOf a d = true then d.data :: w.about a else w.about a) := by
  have hperm := ((hall.filter (isOf a)).map (·.data)).append_right (w.serv.held a)
  unfold World.about
  rw [hserv]
  split_ifs with hof
  · rwa [List.filter_cons_of_pos hof] at hperm
  · rwa [List.filter_cons_of_neg hof] at hperm

/-- What a client that waits has sent is all there is of it. -/
theorem flight_of_perm
    (h : w.about a = [] ∨ w.about a = [c.sendline] ∧ c.Waits)
    (hperm : (w'.about a).Perm (w.about a)) :
    w'.about a = [] ∨ w'.about a = [c.sendline] ∧ c.Waits := by
  rcases h with hnil | ⟨hone, hwaits⟩
  · rw [hnil] at hperm
    exact .inl hperm.eq_nil
  · rw [hone] at hperm
    exact .inr ⟨List.perm_singleton.1 hperm, hwaits⟩

/-- A datagram of a client is the line it has sent. -/
theorem data_of_about {rest : List (List Char)}
    (h : w.about a = [] ∨ w.about a = [c.sendline] ∧ c.Waits) {data : List Char}
    (hperm : (w.about a).Perm (data :: rest)) : data = c.sendline ∧ rest = [] ∧ c.Waits := by
  rcases h with hnil | ⟨hone, hwaits⟩
  · rw [hnil] at hperm
    exact absurd hperm.symm.eq_nil (List.cons_ne_nil _ _)
  · rw [hone] at hperm
    have heq := List.perm_singleton.1 hperm.symm
    rw [List.cons.injEq] at heq
    exact ⟨heq.1, heq.2, hwaits⟩

theorem not_waits_of_pc (hpc : c.pc = .fgets ∨ c.pc = .sendto ∨ c.pc = .fputs) : ¬ c.Waits := by
  rintro (hwait | ⟨msg, hend⟩)
  · rw [hwait] at hpc
    simp at hpc
  · rw [hend] at hpc
    simp at hpc

end About

/-! ## Every step keeps it -/

namespace Own

variable {input : κ → List Char} {w w' : World κ} {a : κ}

/-- One client changes. -/
theorem setCli (h : Own input w) {c : Client} (hown : c.Own (input a))
    (hflight : w.about a = [] ∨ w.about a = [c.sendline] ∧ c.Waits) : Own input (w.setCli a c) := by
  refine ⟨?_, ?_, h.routed, h.addr⟩
  · intro b
    by_cases hb : b = a
    · subst hb
      rwa [setCli_self]
    · rw [setCli_of_ne hb]
      exact h.cli b
  · intro b
    by_cases hb : b = a
    · subst hb
      rwa [setCli_about, setCli_self]
    · rw [setCli_about, setCli_of_ne hb]
      exact h.flight b

/-- A client between its `fputs` and its `sendto` has nothing under way. -/
theorem about_nil (h : Own input w)
    (hpc : (w.cli a).pc = .fgets ∨ (w.cli a).pc = .sendto ∨ (w.cli a).pc = .fputs) :
    w.about a = [] :=
  (h.flight a).resolve_right fun hone => not_waits_of_pc hpc hone.2

/-- A client sends the line it has read. -/
theorem cli_sendto (h : Own input w) (hpc : (w.cli a).pc = .sendto) :
    Own input ({ w with net := w.net.sendto ⟨.cli a, .serv, (w.cli a).sendline.take
      (strlen (w.cli a).sendline)⟩ }.setCli a { w.cli a with pc := .recvfrom }) := by
  have hown := h.cli a
  rw [strlen_of_nul_free hown.line, List.take_length]
  have habout : ∀ b,
      (World.about { w with net := w.net.sendto ⟨.cli a, .serv, (w.cli a).sendline⟩ } b)
      = if b = a then [(w.cli a).sendline] else w.about b := by
    intro b
    by_cases hb : b = a
    · subst hb
      -- the one datagram of this client
      have hnil := h.about_nil (.inr (.inl hpc))
      simp only [World.about, Net.all_sendto, List.filter_cons, isOf, decide_true, Bool.true_or,
        if_true,
        List.map_cons, List.cons_append] at hnil ⊢
      rw [hnil]
    · -- it is none of the others
      have hne : isOf b ⟨.cli a, .serv, (w.cli a).sendline⟩ = false := by
        simp [isOf, Ne.symm hb]
      simp only [World.about, Net.all_sendto, List.filter_cons, hne, if_neg hb]
      rfl
  refine ⟨?_, ?_, ?_, h.addr⟩
  · intro b
    by_cases hb : b = a
    · subst hb
      rw [setCli_self]
      exact hown.sendto hpc
    · rw [setCli_of_ne hb]
      exact h.cli b
  · intro b
    rw [setCli_about, habout]
    by_cases hb : b = a
    · subst hb
      rw [setCli_self, if_pos rfl]
      exact .inr ⟨rfl, .inl rfl⟩
    · rw [setCli_of_ne hb, if_neg hb]
      exact h.flight b
  · intro d hd
    rcases List.mem_cons.1 hd with rfl | hold
    · exact .inl ⟨a, rfl, rfl⟩
    · exact h.routed d hold

/-- A client receives its line. -/
theorem cli_recvfrom (h : Own input w) (hpc : (w.cli a).pc = .recvfrom)
    {d : Datagram (Addr κ) Char} {net : Net (Addr κ) Char}
    (hrecv : w.net.recvfrom (.cli a) = some (d, net)) :
    Own input ({ w with net := net }.setCli a ((w.cli a).recvfrom d.data)) := by
  obtain ⟨hdst, hall⟩ := Net.all_recvfrom hrecv
  have hrouted : Routed d := h.routed d (hall.mem_iff.2 List.mem_cons_self)
  have hof := isOf_iff hrouted (.inl hdst)
  have habout : ∀ b, (w.about b).Perm (if isOf b d = true then
      d.data :: World.about { w with net := net } b else World.about { w with net := net } b) :=
    fun b => about_cons (w := { w with net := net }) hall rfl
  have hown := habout a
  rw [if_pos ((hof a).2 rfl)] at hown
  obtain ⟨hdata, hnil, -⟩ := data_of_about (h.flight a) hown
  refine ⟨?_, ?_, fun e he => h.routed e (hall.mem_iff.2 (List.mem_cons_of_mem _ he)), h.addr⟩
  · intro b
    by_cases hb : b = a
    · subst hb
      rw [setCli_self, hdata]
      exact (h.cli b).recvfrom hpc
    · rw [setCli_of_ne hb]
      exact h.cli b
  · intro b
    rw [setCli_about]
    by_cases hb : b = a
    · subst hb
      exact .inl hnil
    · rw [setCli_of_ne hb]
      -- what is there of another client stays
      have hother := habout b
      rw [if_neg (fun hb' => hb ((hof b).1 hb'))] at hother
      exact flight_of_perm (h.flight b) hother.symm

/-- The server receives a line. -/
theorem serv_recvfrom (h : Own input w) (hpc : w.serv.pc = .recvfrom)
    {d : Datagram (Addr κ) Char} {net : Net (Addr κ) Char}
    (hrecv : w.net.recvfrom .serv = some (d, net)) :
    Own input { w with net := net, serv := w.serv.recvfrom d } := by
  obtain ⟨hdst, hall⟩ := Net.all_recvfrom hrecv
  have hrouted : Routed d := h.routed d (hall.mem_iff.2 List.mem_cons_self)
  obtain ⟨a, hsrc, -⟩ : ∃ a, d.src = .cli a ∧ d.dst = .serv := by
    rcases hrouted with hsrc | ⟨a, -, hcli⟩
    · exact hsrc
    · rw [hdst] at hcli
      cases hcli
  have hof := isOf_iff hrouted (.inr hsrc)
  -- the datagram leaves the network
  have hnone : ∀ b, w.serv.held b = [] := fun b => if_neg fun hsend => by simp [hpc] at hsend
  have habout : ∀ b, (w.about b).Perm (if isOf b d = true then
      d.data :: (net.all.filter (isOf b)).map (·.data)
        else (net.all.filter (isOf b)).map (·.data)) := by
    intro b
    have hperm := about_cons (w := { w with net := net }) (a := b) hall rfl
    simpa [World.about, hnone b] using hperm
  have hown := habout a
  rw [if_pos ((hof a).2 rfl)] at hown
  obtain ⟨hdata, hnil, hwaits⟩ := data_of_about (h.flight a) hown
  -- and is in the buffer
  have hheld : ∀ b, (w.serv.recvfrom d).held b = if b = a then [d.data] else [] := by
    intro b
    have hle : d.data.length ≤ MAXMESG := by
      rw [hdata]
      exact (Nat.le_of_lt (h.cli a).short).trans (by decide)
    simp only [Server.held, Server.recvfrom, hsrc, Addr.cli.injEq, true_and,
      List.take_of_length_le hle, List.take_left', eq_comm]
  refine ⟨h.cli, ?_, fun e he => h.routed e (hall.mem_iff.2 (List.mem_cons_of_mem _ he)),
    fun _ => ⟨a, hsrc⟩⟩
  intro b
  show (net.all.filter (isOf b)).map (·.data) ++ (w.serv.recvfrom d).held b = [] ∨
    (net.all.filter (isOf b)).map (·.data) ++ (w.serv.recvfrom d).held b = [_] ∧ _
  rw [hheld]
  by_cases hb : b = a
  · subst hb
    rw [if_pos rfl, hnil, List.nil_append, hdata]
    exact .inr ⟨rfl, hwaits⟩
  · have hother := habout b
    rw [if_neg (fun hb' => hb ((hof b).1 hb'))] at hother
    rw [if_neg hb, List.append_nil]
    rcases h.flight b with hnil' | ⟨hone, hwaits'⟩
    · rw [hnil'] at hother
      exact .inl hother.symm.eq_nil
    · rw [hone] at hother
      exact .inr ⟨List.perm_singleton.1 hother.symm, hwaits'⟩

/-- The server sends a line back. -/
theorem serv_sendto (h : Own input w) (hpc : w.serv.pc = .sendto) :
    Own input { w with
      net := w.net.sendto ⟨.serv, w.serv.pcli_addr, w.serv.mesg.take w.serv.n⟩
      serv := { w.serv with pc := .recvfrom } } := by
  obtain ⟨a, haddr⟩ := h.addr hpc
  refine ⟨h.cli, ?_, ?_, nofun⟩
  · intro b
    apply flight_of_perm (h.flight b)
    simp only [World.about, Net.all_sendto, Server.held, haddr, hpc, reduceCtorEq, false_and,
      if_false,
      true_and, List.append_nil, List.filter_cons, isOf, Addr.cli.injEq]
    by_cases hb : a = b
    · simp only [hb, decide_true, decide_false, Bool.false_or, if_true, List.map_cons]
      exact (List.perm_append_singleton _ _).symm
    · simp [hb]
  · intro d hd
    rcases List.mem_cons.1 hd with rfl | hold
    · exact .inr ⟨a, rfl, haddr⟩
    · exact h.routed d hold

/-- The server gives up. -/
theorem servFails (h : Own input w) (msg : String) :
    Own input { w with serv := { w.serv with pc := .ended msg } } := by
  refine ⟨h.cli, ?_, h.routed, nofun⟩
  intro b
  have hsub : (World.about { w with serv := { w.serv with pc := .ended msg } } b).Sublist
      (w.about b) := by
    simp [World.about, Server.held]
  rcases h.flight b with hnil | ⟨hone, hwaits⟩
  · rw [hnil] at hsub
    exact .inl (List.sublist_nil.1 hsub)
  · rw [hone] at hsub
    rcases List.sublist_singleton.1 hsub with hnil | hsame
    · exact .inl hnil
    · exact .inr ⟨hsame, hwaits⟩

/-- A client gives up. -/
theorem cliFails (h : Own input w) (msg : String) :
    Own input (w.setCli a { w.cli a with pc := .ended msg }) := by
  apply h.setCli ((h.cli a).ends msg)
  rcases h.flight a with hnil | ⟨hone, -⟩
  · exact .inl hnil
  · exact .inr ⟨hone, .inr ⟨msg, rfl⟩⟩

/-- **Every step keeps it.** -/
theorem step {act : Act κ} (h : Own input w) (hs : w.step act = some w') : Own input w' := by
  cases act with
  | cli a =>
    simp only [World.step, World.cliStep] at hs
    split at hs
    · rename_i hpc
      cases hs
      exact h.setCli ((h.cli a).fgets hpc) (.inl (h.about_nil (.inl hpc)))
    · rename_i hpc
      cases hs
      exact h.cli_sendto hpc
    · rename_i hpc
      obtain ⟨⟨d, net⟩, hrecv, rfl⟩ := Option.map_eq_some_iff.1 hs
      exact h.cli_recvfrom hpc hrecv
    · rename_i hpc
      cases hs
      exact h.setCli ((h.cli a).fputs hpc) (.inl (h.about_nil (.inr (.inr hpc))))
    · cases hs
    · cases hs
  | serv =>
    simp only [World.step, World.servStep] at hs
    split at hs
    · rename_i hpc
      obtain ⟨⟨d, net⟩, hrecv, rfl⟩ := Option.map_eq_some_iff.1 hs
      exact h.serv_recvfrom hpc hrecv
    · rename_i hpc
      cases hs
      exact h.serv_sendto hpc
    · cases hs
  | arrive d =>
    -- what arrives was in flight, in whatever order
    obtain ⟨net, harrive, rfl⟩ := Option.map_eq_some_iff.1 hs
    have hall := Net.all_arrive harrive
    refine ⟨h.cli, ?_, fun e he => h.routed e (hall.mem_iff.1 he), h.addr⟩
    exact fun b => flight_of_perm (h.flight b) (about_perm hall rfl)
  | cliFails a =>
    obtain ⟨msg, -, rfl⟩ := Option.map_eq_some_iff.1 hs
    exact h.cliFails msg
  | servFails =>
    obtain ⟨msg, -, rfl⟩ := Option.map_eq_some_iff.1 hs
    exact h.servFails msg

end Own

/-! ## In every run -/

/-- What a client has put out is a beginning of its own input, as `fgets` cuts
it, and so is what it has just received; no datagram is longer than a buffer;
there is at most one of a client between its `sendto` and its `recvfrom`; and a
client at the end of its input has put out all of it. -/
structure Faithful (input : κ → List Char) (w : World κ) : Prop where
  output : ∀ a, (w.cli a).stdout <+: chunks MAXLINE (input a)
  received : ∀ a, (w.cli a).pc = .fputs →
    (w.cli a).stdout ++ [(w.cli a).recvline] <+: chunks MAXLINE (input a)
  whole : ∀ d ∈ w.net.all, d.data.length ≤ MAXLINE ∧ d.data.length ≤ MAXMESG
  flight : ∀ a, (w.about a).length ≤ 1
  finished : ∀ a, (w.cli a).pc = .done → (w.cli a).stdout.flatten = input a

variable {input : κ → List Char} {w : World κ}

/-- What is under way is the line of a client, and short enough for both buffers. -/
theorem Own.whole (h : Own input w) {d : Datagram (Addr κ) Char} (hd : d ∈ w.net.all) :
    d.data.length ≤ MAXLINE ∧ d.data.length ≤ MAXMESG := by
  obtain ⟨a, ha⟩ : ∃ a, d.dst = .cli a ∨ d.src = .cli a := by
    rcases h.routed d hd with ⟨a, hsrc, -⟩ | ⟨a, -, hdst⟩
    · exact ⟨a, .inr hsrc⟩
    · exact ⟨a, .inl hdst⟩
  have hof : isOf a d = true := (isOf_iff (h.routed d hd) ha a).2 rfl
  have hmem : d.data ∈ w.about a :=
    List.mem_append_left _ (List.mem_map.2 ⟨d, List.mem_filter.2 ⟨hd, hof⟩, rfl⟩)
  rcases h.flight a with hnil | ⟨hone, -⟩
  · rw [hnil] at hmem
    exact absurd hmem List.not_mem_nil
  · rw [hone] at hmem
    have hshort := (h.cli a).short
    rw [List.mem_singleton.1 hmem]
    simp only [MAXLINE, MAXMESG] at hshort ⊢
    omega

theorem Own.faithful (h : Own input w) : Faithful input w where
  output := fun a => (h.cli a).output
  received := fun a hpc => (h.cli a).next hpc
  whole := fun _ hd => h.whole hd
  flight := by
    intro a
    rcases h.flight a with hnil | ⟨hone, -⟩
    · rw [hnil]
      exact Nat.zero_le 1
    · rw [hone]
      exact Nat.le_refl 1
  finished := fun a hpc => (h.cli a).done hpc

/-- **Every client is served its own text**, however many there are and in
whatever order datagrams are sent, arrive and are answered. -/
theorem udp_echo (input : κ → List Char) (htext : ∀ a, '\x00' ∉ input a) (w : World κ)
    (h : (machine input).Reach (fun _ _ => True) w) : Faithful input w := by
  suffices hinv : Own input w from hinv.faithful
  apply h.invariant (I := Own input)
  · rintro w ⟨mesg, n, addr, rfl⟩
    exact ⟨fun a => Client.Own.start (htext a), fun _ => .inl rfl, nofun, nofun⟩
  · intro w a w' _ hinv _ hs
    exact hinv.step hs

/-- Two clients, each with a line. -/
def twoInputs : Bool → List Char
  | true => ['h', 'i', '\n']
  | false => ['x']

def twoStart : World Bool :=
  ⟨.empty, ⟨[], 0, .serv, .recvfrom⟩, fun a => Client.start (twoInputs a)⟩

/-- Both send; the second one is answered, and reads on. -/
def twoClients : List (Act Bool) :=
  [.cli true, .cli false, .cli true, .cli false, .arrive ⟨.cli false, .serv, ['x']⟩, .serv, .serv,
    .arrive ⟨.serv, .cli false, ['x']⟩, .cli false, .cli false, .cli false]

theorem twoClients_runs :
    ((machine twoInputs).exec (fun _ _ => True) twoStart twoClients).isSome = true := by decide

theorem udp_echo_two : ((((machine twoInputs).exec (fun _ _ => True) twoStart twoClients).get
    twoClients_runs).cli false).stdout.flatten = ['x'] :=
  (udp_echo twoInputs (by decide) _ (Machine.Reach.run (machine twoInputs) (fun _ _ => True)
    ⟨[], 0, .serv, rfl⟩ twoClients twoClients_runs)).finished false rfl

end UnixNetProg.UdpEcho

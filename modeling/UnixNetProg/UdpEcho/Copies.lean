/-
`2.udp` over a network that loses datagrams and makes copies of them.

`dg_cli` takes whatever comes back for the answer to its last line. Where a datagram is there
twice it may put out an old line for a new one, and again later. But it never puts out what
is not its own, nor a line before it has sent it: the `i`th string that it puts out is among
the first `i` lines of its input (`own_lines`).
-/
import UnixNetProg.UdpEcho.Loss

set_option autoImplicit false

namespace UnixNetProg.UdpEcho

open UnixNetProg.Datagrams UnixNetProg.Runs UnixNetProg.Runs.Machine UnixNetProg.Stdio

variable {κ : Type} [DecidableEq κ]

/-! ## The lines of a client -/

section Lines

variable {input l : List Char}

/-- A line of an input without null bytes fits into both buffers. -/
theorem line_facts (htext : '\x00' ∉ input) (hl : l ∈ chunks MAXLINE input) :
    '\x00' ∉ l ∧ l.length < MAXLINE := by
  constructor
  · intro hnul
    apply htext
    rw [← flatten_chunks (by decide : 1 < MAXLINE) input]
    exact List.mem_flatten.2 ⟨l, hl, hnul⟩
  · induction hlen : input.length using Nat.strong_induction_on generalizing input with
    | _ k ih =>
      cases hget : Stdio.fgets MAXLINE input with
      | none =>
        rw [fgets_eq_none_iff.1 hget, chunks_nil] at hl
        cases hl
      | some chunk =>
        have hpos := List.length_pos_iff.2 (fgets_ne_nil (by decide) hget)
        have hle := (prefix_fgets hget).length_le
        rw [chunks_cons (by decide) hget] at hl
        rcases List.mem_cons.1 hl with rfl | hl
        · exact length_fgets_lt (by decide) hget
        · have hshort : (input.drop chunk.length).length < k := by
            rw [List.length_drop]
            omega
          exact ih _ hshort (fun hnul => htext (List.mem_of_mem_drop hnul)) hl rfl

end Lines

/-- How many lines a client has read that has put out `n`. -/
def CliAt.Read (pc : CliAt) (n k : ℕ) : Prop :=
  match pc with
  | .fgets | .done => k = n
  | .sendto | .recvfrom | .fputs => k = n + 1
  | .ended _ => n ≤ k

/-- A client that has read `lines`, while `about` is under way. -/
structure Client.Has (c : Client) (input : List Char) (about lines : List (List Char)) : Prop where
  read : lines ++ chunks MAXLINE c.stdin = chunks MAXLINE input
  count : c.pc.Read c.stdout.length lines.length
  about : ∀ l ∈ about, l ∈ lines
  sends : c.pc = .sendto → c.sendline ∈ lines
  received : c.pc = .fputs → c.recvline ∈ lines
  output : ∀ i l, c.stdout[i]? = some l → l ∈ lines.take (i + 1)
  finished : c.pc = .done → c.stdin = []

/-- Whatever is under way is somebody's line. -/
structure Mine (input : κ → List Char) (w : World κ) : Prop where
  cli : ∀ a, ∃ lines, (w.cli a).Has (input a) (w.about a) lines
  routed : ∀ d ∈ w.net.all, Routed d
  addr : w.serv.pc = .sendto → ∃ a, w.serv.pcli_addr = .cli a

/-! ## A client alone -/

namespace Client.Has

variable {c : Client} {input data : List Char} {about about' lines : List (List Char)}

theorem start : (Client.start input).Has input [] [] := by
  refine ⟨rfl, rfl, fun l hl => hl, fun hpc => CliAt.noConfusion hpc,
    fun hpc => CliAt.noConfusion hpc, fun i l hl => ?_, fun hpc => CliAt.noConfusion hpc⟩
  cases hl

/-- What it has read are lines of its input. -/
theorem facts (h : c.Has input about lines) (htext : '\x00' ∉ input) (hl : data ∈ lines) :
    '\x00' ∉ data ∧ data.length < MAXLINE :=
  line_facts htext (h.read ▸ List.mem_append_left _ hl)

theorem mono (h : c.Has input about lines) (hsub : ∀ l ∈ about', l ∈ about) :
    c.Has input about' lines :=
  { h with about := fun l hl => h.about l (hsub l hl) }

theorem fgets (h : c.Has input about lines) (hpc : c.pc = .fgets) :
    ∃ lines, c.fgets.Has input about lines := by
  have hcount := h.count
  rw [hpc] at hcount
  unfold Client.fgets
  cases hget : Stdio.fgets MAXLINE c.stdin with
  | none =>
    have hnil : c.stdin = [] := fgets_eq_none_iff.1 hget
    exact ⟨lines, { h with
      count := hcount
      sends := fun hpc => by cases hpc
      received := fun hpc => by cases hpc
      finished := fun _ => hnil }⟩
  | some chunk =>
    refine ⟨lines ++ [chunk], ?_, ?_, fun l hl => List.mem_append_left _ (h.about l hl),
      fun _ => List.mem_append_right _ List.mem_cons_self, fun hpc => CliAt.noConfusion hpc,
      fun i l hl => ?_, fun hpc => CliAt.noConfusion hpc⟩
    · rw [← h.read, chunks_cons (by decide) hget, List.append_assoc]
      rfl
    · rw [List.length_append]
      exact congrArg (· + 1) hcount
    · rw [List.take_append]
      exact List.mem_append_left _ (h.output i l hl)

theorem sendto (h : c.Has input about lines) (htext : '\x00' ∉ input) (hpc : c.pc = .sendto)
    (hsub : ∀ l ∈ about', l = c.sendline.take (strlen c.sendline) ∨ l ∈ about) :
    { c with pc := .recvfrom }.Has input about' lines := by
  have hcount := h.count
  rw [hpc] at hcount
  have hsends := h.sends hpc
  rw [strlen_of_nul_free (h.facts htext hsends).1, List.take_length] at hsub
  refine { h with
    count := hcount
    about := fun l hl => ?_
    sends := fun hpc => by cases hpc
    received := fun hpc => by cases hpc
    finished := fun hpc => by cases hpc }
  rcases hsub l hl with rfl | hl
  · exact hsends
  · exact h.about l hl

/-- It receives one of its lines. -/
theorem recvfrom (h : c.Has input about lines) (htext : '\x00' ∉ input) (hpc : c.pc = .recvfrom)
    (hdata : data ∈ about) (hsub : ∀ l ∈ about', l ∈ about) :
    (c.recvfrom data).Has input about' lines := by
  have hcount := h.count
  rw [hpc] at hcount
  have hline := h.about data hdata
  refine { h.mono hsub with
    count := hcount
    sends := fun hpc => by cases hpc
    received := fun _ => ?_
    finished := fun hpc => by cases hpc }
  show data.take MAXLINE ∈ lines
  rwa [List.take_of_length_le (Nat.le_of_lt (h.facts htext hline).2)]

/-- What it puts out it has read before. -/
theorem fputs (h : c.Has input about lines) (htext : '\x00' ∉ input) (hpc : c.pc = .fputs) :
    c.fputs.Has input about lines := by
  have hcount : lines.length = c.stdout.length + 1 := by
    have hcount := h.count
    rwa [hpc] at hcount
  have hline := h.received hpc
  have hcstr : cstr c.recvline = c.recvline := cstr_of_nul_free (h.facts htext hline).1
  refine { h with
    count := ?_
    sends := fun hpc => by cases hpc
    received := fun hpc => by cases hpc
    output := fun i l hl => ?_
    finished := fun hpc => by cases hpc }
  · show lines.length = (c.stdout ++ [cstr c.recvline]).length
    rw [List.length_append, hcount, List.length_singleton]
  · by_cases hi : i < c.stdout.length
    · exact h.output i l ((List.getElem?_append_left hi).symm.trans hl)
    · -- the last one
      have hl : (c.stdout ++ [cstr c.recvline])[i]? = some l := hl
      rw [List.getElem?_append_right (Nat.le_of_not_lt hi), List.getElem?_singleton] at hl
      split_ifs at hl with hlast
      obtain rfl := Option.some.inj hl
      rw [hcstr, List.take_of_length_le (by omega)]
      exact hline

theorem ends (h : c.Has input about lines) (msg : String) :
    { c with pc := .ended msg }.Has input about lines := by
  have hcount := h.count
  refine { h with
    count := ?_
    sends := fun hpc => by cases hpc
    received := fun hpc => by cases hpc
    finished := fun hpc => by cases hpc }
  show c.stdout.length ≤ lines.length
  unfold CliAt.Read at hcount
  split at hcount <;> omega

end Client.Has

/-! ## Every step keeps it -/

section Steps

variable {input : κ → List Char} {w w' : World κ} {a : κ} {l : List Char}

theorem mem_about : l ∈ w.about a ↔ (∃ d ∈ w.net.all, isOf a d = true ∧ d.data = l) ∨
    (w.serv.pc = .sendto ∧ w.serv.pcli_addr = .cli a) ∧ w.serv.mesg.take w.serv.n = l := by
  have hheld : l ∈ w.serv.held a ↔
      (w.serv.pc = .sendto ∧ w.serv.pcli_addr = .cli a) ∧ w.serv.mesg.take w.serv.n = l := by
    unfold Server.held
    split_ifs with hsend
    · rw [List.mem_singleton, and_iff_right hsend, eq_comm]
    · exact iff_of_false List.not_mem_nil fun h => hsend h.1
  rw [World.about, List.mem_append, hheld, List.mem_map]
  simp only [List.mem_filter, and_assoc]

namespace Mine

/-- The clients stay as they are, and nothing more is under way of any. -/
theorem rest (h : Mine input w) {net : Net (Addr κ) Char} {serv : Server κ}
    (habout : ∀ a, ∀ l ∈ World.about ⟨net, serv, w.cli⟩ a, l ∈ w.about a)
    (hrouted : ∀ d ∈ net.all, Routed d)
    (haddr : serv.pc = .sendto → ∃ a, serv.pcli_addr = .cli a) : Mine input ⟨net, serv, w.cli⟩ := by
  refine ⟨fun a => ?_, hrouted, haddr⟩
  obtain ⟨lines, hlines⟩ := h.cli a
  exact ⟨lines, hlines.mono (habout a)⟩

/-- One client changes, and of the others nothing more is under way. -/
theorem setCli (h : Mine input w) {b : κ} {c : Client} {net : Net (Addr κ) Char}
    (hcli : ∃ lines, c.Has (input b) (World.about { w with net := net } b) lines)
    (habout : ∀ a ≠ b, ∀ l ∈ World.about { w with net := net } a, l ∈ w.about a)
    (hrouted : ∀ d ∈ net.all, Routed d) : Mine input ({ w with net := net }.setCli b c) := by
  refine ⟨fun a => ?_, hrouted, h.addr⟩
  by_cases ha : a = b
  · subst ha
    rw [setCli_self]
    exact hcli
  · rw [setCli_of_ne ha]
    obtain ⟨lines, hlines⟩ := h.cli a
    exact ⟨lines, hlines.mono (habout a ha)⟩

/-- Less in the network. -/
theorem about_of_subset {net : Net (Addr κ) Char} (hall : ∀ d ∈ net.all, d ∈ w.net.all) :
    ∀ a, ∀ l ∈ World.about { w with net := net } a, l ∈ w.about a := by
  intro a l hl
  rcases mem_about.1 hl with ⟨d, hd, hof, hdata⟩ | hheld
  · exact mem_about.2 (.inl ⟨d, hall d hd, hof, hdata⟩)
  · exact mem_about.2 (.inr hheld)

/-- A client makes a call. -/
theorem cliStep (h : Mine input w) (htext : ∀ a, '\x00' ∉ input a) {b : κ}
    (hs : w.step (.cli b) = some w') : Mine input w' := by
  obtain ⟨lines, hlines⟩ := h.cli b
  simp only [World.step, World.cliStep] at hs
  split at hs
  · rename_i hpc
    cases hs
    exact h.setCli (hlines.fgets hpc) (fun _ _ _ hl => hl) h.routed
  · rename_i hpc
    cases hs
    refine h.setCli ⟨lines, hlines.sendto (htext b) hpc fun l hl => ?_⟩ (fun a ha l hl => ?_)
      fun d hd => ?_
    · rcases mem_about.1 hl with ⟨d, hd, hof, hdata⟩ | hheld
      · rcases List.mem_cons.1 hd with rfl | hd
        · exact .inl hdata.symm
        · exact .inr (mem_about.2 (.inl ⟨d, hd, hof, hdata⟩))
      · exact .inr (mem_about.2 (.inr hheld))
    · -- what is sent is none of the others
      rcases mem_about.1 hl with ⟨d, hd, hof, hdata⟩ | hheld
      · rcases List.mem_cons.1 hd with rfl | hd
        · simp [isOf, Ne.symm ha] at hof
        · exact mem_about.2 (.inl ⟨d, hd, hof, hdata⟩)
      · exact mem_about.2 (.inr hheld)
    · rcases List.mem_cons.1 hd with rfl | hd
      · exact .inl ⟨b, rfl, rfl⟩
      · exact h.routed d hd
  · rename_i hpc
    obtain ⟨⟨d, net⟩, hrecv, rfl⟩ := Option.map_eq_some_iff.1 hs
    obtain ⟨hdst, hall⟩ := Net.all_recvfrom hrecv
    have hsub : ∀ e ∈ net.all, e ∈ w.net.all := fun e he =>
      hall.mem_iff.2 (List.mem_cons_of_mem _ he)
    have hdata : d.data ∈ w.about b :=
      mem_about.2 (.inl ⟨d, hall.mem_iff.2 List.mem_cons_self, by simp [isOf, hdst], rfl⟩)
    exact h.setCli ⟨lines, hlines.recvfrom (htext b) hpc hdata (about_of_subset hsub b)⟩
      (fun a _ => about_of_subset hsub a) fun e he => h.routed e (hsub e he)
  · rename_i hpc
    cases hs
    exact h.setCli ⟨lines, hlines.fputs (htext b) hpc⟩ (fun _ _ _ hl => hl) h.routed
  · cases hs
  · cases hs

/-- The server makes a call: what it has is in its buffer, and then sent back. -/
theorem servStep (h : Mine input w) (htext : ∀ a, '\x00' ∉ input a)
    (hs : w.step .serv = some w') : Mine input w' := by
  simp only [World.step, World.servStep] at hs
  split at hs
  · obtain ⟨⟨d, net⟩, hrecv, rfl⟩ := Option.map_eq_some_iff.1 hs
    obtain ⟨hdst, hall⟩ := Net.all_recvfrom hrecv
    have hd : d ∈ w.net.all := hall.mem_iff.2 List.mem_cons_self
    obtain ⟨b, hsrc, -⟩ : ∃ b, d.src = .cli b ∧ d.dst = .serv := by
      rcases h.routed d hd with hcli | ⟨b, -, hcli⟩
      · exact hcli
      · rw [hdst] at hcli
        cases hcli
    refine h.rest (fun a l hl => ?_) (fun e he => h.routed e
      (hall.mem_iff.2 (List.mem_cons_of_mem _ he))) fun _ => ⟨b, hsrc⟩
    rcases mem_about.1 hl with ⟨e, he, hof, hdata⟩ | ⟨⟨-, haddr⟩, hdata⟩
    · exact mem_about.2 (.inl ⟨e, hall.mem_iff.2 (List.mem_cons_of_mem _ he), hof, hdata⟩)
    · have haddr : d.src = .cli a := haddr
      have hmine : d.data ∈ w.about a := mem_about.2 (.inl ⟨d, hd, by simp [isOf, haddr], rfl⟩)
      obtain ⟨lines, hlines⟩ := h.cli a
      have hshort := (hlines.facts (htext a) (hlines.about _ hmine)).2
      have hle : d.data.length ≤ MAXMESG := (Nat.le_of_lt hshort).trans (by decide)
      simp only [Server.recvfrom, List.take_of_length_le hle, List.take_left'] at hdata
      exact hdata ▸ hmine
  · rename_i hpc
    cases hs
    obtain ⟨b, haddr⟩ := h.addr hpc
    refine h.rest (fun a l hl => ?_) (fun e he => ?_) fun hsend => ServAt.noConfusion hsend
    · rcases mem_about.1 hl with ⟨e, he, hof, hdata⟩ | ⟨⟨hsend, -⟩, -⟩
      · rcases List.mem_cons.1 he with rfl | he
        · have haddr : w.serv.pcli_addr = .cli a := by simpa [isOf] using hof
          exact mem_about.2 (.inr ⟨⟨hpc, haddr⟩, hdata⟩)
        · exact mem_about.2 (.inl ⟨e, he, hof, hdata⟩)
      · cases hsend
    · rcases List.mem_cons.1 he with rfl | he
      · exact .inr ⟨b, rfl, haddr⟩
      · exact h.routed e he
  · cases hs

/-- **Every step keeps it.** -/
theorem step {act : NetAct κ} (h : Mine input w) (htext : ∀ a, '\x00' ∉ input a)
    (hs : w.netStep act = some w') : Mine input w' := by
  cases act with
  | does act =>
    cases act with
    | cli b => exact h.cliStep htext hs
    | serv => exact h.servStep htext hs
    | arrive d =>
      obtain ⟨net, harrive, rfl⟩ := Option.map_eq_some_iff.1 hs
      have hsub : ∀ e ∈ net.all, e ∈ w.net.all := fun e he =>
        (Net.all_arrive harrive).mem_iff.1 he
      exact h.rest (about_of_subset hsub) (fun e he => h.routed e (hsub e he)) h.addr
    | cliFails b =>
      obtain ⟨msg, -, rfl⟩ := Option.map_eq_some_iff.1 hs
      obtain ⟨lines, hlines⟩ := h.cli b
      exact @setCli _ _ _ _ h b _ w.net ⟨lines, hlines.ends msg⟩ (fun _ _ _ hl => hl) h.routed
    | servFails =>
      obtain ⟨msg, -, rfl⟩ := Option.map_eq_some_iff.1 hs
      refine h.rest (fun a l hl => ?_) h.routed fun hsend => ServAt.noConfusion hsend
      rcases mem_about.1 hl with hnet | ⟨⟨hsend, -⟩, -⟩
      · exact mem_about.2 (.inl hnet)
      · cases hsend
  | loses d =>
    obtain ⟨net, hlose, rfl⟩ := Option.map_eq_some_iff.1 hs
    have hsub : ∀ e ∈ net.all, e ∈ w.net.all := fun e he =>
      (Net.all_lose hlose).mem_iff.2 (List.mem_cons_of_mem _ he)
    exact h.rest (about_of_subset hsub) (fun e he => h.routed e (hsub e he)) h.addr
  | doubles d =>
    obtain ⟨net, hdouble, rfl⟩ := Option.map_eq_some_iff.1 hs
    obtain ⟨hd, hall⟩ := Net.all_double hdouble
    have hsub : ∀ e ∈ net.all, e ∈ w.net.all := by
      intro e he
      rw [hall] at he
      rcases List.mem_cons.1 he with rfl | he
      · exact hd
      · exact he
    exact h.rest (about_of_subset hsub) (fun e he => h.routed e (hsub e he)) h.addr

end Mine

end Steps

/-! ## Every run -/

/-- **A client puts out its own lines only.** Any number of clients, and a network that delays,
reorders, loses and doubles datagrams: the string number `i` that a client puts out is one of
the lines up to number `i` of its own input, one string for each line at the end, and so is
all that is under way of it. -/
theorem own_lines (input : κ → List Char) (htext : ∀ a, '\x00' ∉ input a) (w : World κ)
    (h : (unreliable input).Reach (fun _ _ => True) w) (a : κ) :
    (∀ (i : ℕ) (l : List Char), (w.cli a).stdout[i]? = some l →
        ∃ j ≤ i, (chunks MAXLINE (input a))[j]? = some l) ∧
      ((w.cli a).pc = .done → (w.cli a).stdout.length = (chunks MAXLINE (input a)).length) ∧
      ∀ l ∈ w.about a, l ∈ chunks MAXLINE (input a) := by
  have hmine : Mine input w := by
    refine h.invariant ?_ fun s b t _ hinv _ hs => hinv.step htext hs
    rintro w ⟨mesg, n, addr, rfl⟩
    exact ⟨fun a => ⟨[], Client.Has.start⟩, fun d hd => absurd hd List.not_mem_nil,
      fun hpc => ServAt.noConfusion hpc⟩
  obtain ⟨lines, hlines⟩ := hmine.cli a
  refine ⟨fun i l hl => ?_, fun hpc => ?_, fun l hl => ?_⟩
  · obtain ⟨j, hj⟩ := List.mem_iff_getElem?.1 (hlines.output i l hl)
    rw [List.getElem?_take] at hj
    split_ifs at hj with hlt
    refine ⟨j, Nat.le_of_lt_succ hlt, ?_⟩
    rw [← hlines.read]
    exact (List.getElem?_append_left (List.getElem?_eq_some_iff.1 hj).1).trans hj
  · have hcount := hlines.count
    rw [hpc] at hcount
    rw [← hlines.read, hlines.finished hpc, chunks_nil, List.append_nil]
    exact hcount.symm
  · rw [← hlines.read]
    exact List.mem_append_left _ (hlines.about l hl)

/-- A client with two lines. -/
def twoLines (_ : Unit) : List Char := ['a', '\n', 'b', '\n']

/-- The first datagram is there twice, and the second answer to it comes for the second line. -/
def oneDoubled : List (NetAct Unit) :=
  [.does (.cli ()), .does (.cli ()), .doubles ⟨.cli (), .serv, ['a', '\n']⟩,
    .does (.arrive ⟨.cli (), .serv, ['a', '\n']⟩), .does .serv, .does .serv,
    .does (.arrive ⟨.serv, .cli (), ['a', '\n']⟩), .does (.cli ()), .does (.cli ()),
    .does (.arrive ⟨.cli (), .serv, ['a', '\n']⟩), .does .serv, .does .serv,
    .does (.arrive ⟨.serv, .cli (), ['a', '\n']⟩),
    .does (.cli ()), .does (.cli ()), .does (.cli ()), .does (.cli ())]

def oneClient : World Unit :=
  ⟨.empty, ⟨[], 0, .serv, .recvfrom⟩, fun a => Client.start (twoLines a)⟩

theorem oneDoubled_runs :
    ((unreliable twoLines).exec (fun _ _ => True) oneClient oneDoubled).isSome = true := by decide

/-- The second line is still under way, and the first one has been put out for it. -/
theorem own_lines_doubled :
    let w := ((unreliable twoLines).exec (fun _ _ => True) oneClient oneDoubled).get oneDoubled_runs
    (w.cli ()).stdout = [['a', '\n'], ['a', '\n']] ∧
      ∀ l ∈ w.about (), l ∈ chunks MAXLINE (twoLines ()) := by
  intro w
  have hrun : (unreliable twoLines).Reach (fun _ _ => True) w :=
    Machine.Reach.run (unreliable twoLines) (fun _ _ => True) ⟨[], 0, .serv, rfl⟩ oneDoubled
      oneDoubled_runs
  exact ⟨by decide, (own_lines twoLines (fun _ => by simp [twoLines]) w hrun ()).2.2⟩

end UnixNetProg.UdpEcho

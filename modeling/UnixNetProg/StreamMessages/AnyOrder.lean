/-
The order in which the client and the server make their steps.

`Phase` says how far the two have come, and that what is in a FIFO is whole messages and
what the reader has left of one. In every phase a read finds all it asks for, or nothing,
and nobody goes while the other one has something to send (`Phase.settled`). So the order
of the steps makes no difference, and one conversation that has come to its end says what
becomes of every other one (`one_schedule`).
-/
import UnixNetProg.StreamMessages.Conversation

set_option autoImplicit false

namespace UnixNetProg.StreamMessages.Conversation

open UnixNetProg.Bytes UnixNetProg.Duplex UnixNetProg.Runs UnixNetProg.Runs.Machine
open UnixNetProg.Stdio

/-! ## Phases -/

/-- How much of a message the process still has to read. -/
def Client.want (c : Client) : ℕ :=
  match c.pc with
  | .body => c.mesg.mesg_len.toInt.toNat
  | _ => 0

def Server.want (s : Server) : ℕ :=
  match s.pc with
  | .body => s.mesg.mesg_len.toInt.toNat
  | _ => 0

/-- There is a message to be read. -/
def Mesg.Full (m : Mesg) : Prop := 0 < m.mesg_len.toInt ∧ m.mesg_len.toInt ≤ MAXMESGDATA

/-- What the server has in its message where it needs it. -/
def Server.Holds (s : Server) : Prop :=
  match s.pc with
  | .body | .senddata .. | .senderr => Mesg.Full s.mesg
  | .sendend => s.mesg.mesg_len.toInt = 0
  | _ => True

/-- The server does not send any more. -/
def ServAt.late : ServAt → Bool
  | .closeread | .closewrite | .exit | .done | .err_sys _ | .ended _ => true
  | _ => false

/-- Neither end has been closed. -/
def Live (p : Pipe UInt8) : Prop := p.w ≠ .closed ∧ p.r ≠ .closed

/-- Before the request. -/
structure Asking (c : Client) (s : Server) (p p' : Pipe UInt8) : Prop where
  cli : (c.pc = .open1 ∨ c.pc = .open2 ∨ c.pc = .fgets) ∧ c.mesg = Mesg.null ∨
    c.pc = .send ∧ c.mesg.Fits
  serv : s.pc = .open1 ∨ s.pc = .open2 ∨ s.pc = .recv
  bytes : p.bytes = []
  bytes' : p'.bytes = []
  live : Live p
  live' : Live p'

/-- There is no request. -/
structure Left (c : Client) (s : Server) (p p' : Pipe UInt8) : Prop where
  cli : ∃ msg, c.pc = .err_sys msg ∨ c.pc = .ended msg
  serv : s.pc = .open1 ∨ s.pc = .open2 ∨ s.pc = .recv ∨
    ∃ msg, s.pc = .err_sys msg ∨ s.pc = .ended msg
  bytes : p.bytes = []

/-- The client reads the answer. Only a server that does not send any more has sent an
empty message. -/
structure Replying (c : Client) (s : Server) (p p' : Pipe UInt8) : Prop where
  cli : c.pc = .recv ∨ (c.pc = .body ∧ Mesg.Full c.mesg) ∨ ∃ n, c.pc = .write n
  serv : s.Holds
  framed : Framed (fun _ => True) s.want p.bytes
  framed' : Framed (fun m => s.pc.late = false → 0 < m.mesg_len.toInt) c.want p'.bytes
  readers : p'.r ≠ .closed
  writers : s.pc.late = false → p'.w ≠ .closed

/-- The client has got the end of the answer. -/
structure Leaving (c : Client) (s : Server) (p p' : Pipe UInt8) : Prop where
  cli : c.pc = .wait ∨ c.pc = .closewrite ∨ c.pc = .closeread ∨ c.pc = .exit ∨ c.pc = .done
  serv : s.pc.late = true

/-- How far the two have come. -/
def Phase (w : Duplex.World Proc UInt8) : Prop :=
  ∃ c s p p', w = .of (.client c) (.server s) p p' ∧
    (Asking c s p p' ∨ Left c s p p' ∨ Replying c s p p' ∨ Leaving c s p p')

section Steps

variable (fs : List UInt8 → File) {c : Client} {s : Server} {p p' : Pipe UInt8} {capacity : ℕ}
  {gone : Prop} [Decidable gone] {wm : WMove UInt8} {rm : RMove} {oc : Outcome UInt8}

/-! ### Before the request -/

/-- A process that opens its end. -/
theorem live_opens (h : Live p) : Live { p with w := .opened } ∧ Live { p with r := .opened } :=
  ⟨⟨nofun, h.2⟩, ⟨h.1, nofun⟩⟩

theorem length_fgets {n : ℕ} {input line : List UInt8} (h : Stdio.fgets n input = some line) :
    line.length ≤ n - 1 := by
  unfold Stdio.fgets at h
  split_ifs at h
  simp only [Option.some.injEq] at h
  rw [← h]
  exact List.length_take_le _ _

/-- What fits is stored. -/
theorem put_eq {m : Mesg} {bs : List UInt8} (h : bs.length ≤ MAXMESGDATA) :
    Mesg.put m bs = some (m.readData bs h) := dif_pos h

/-- The line fits, and so does the message made of it: the byte in front of `mesg_data` is
null. -/
theorem fits_fgets {input line : List UInt8} (h : Stdio.fgets MAXMESGDATA input = some line) :
    ∃ m, Mesg.put Mesg.null (line ++ [0]) = some m ∧ 0 ≤ namelen m ∧ namelen m ≤ MAXMESGDATA := by
  have hroom : (line ++ [0]).length ≤ MAXMESGDATA := by
    have := length_fgets h
    rw [List.length_append]
    simp only [MAXMESGDATA, List.length_singleton] at this ⊢
    omega
  refine ⟨_, put_eq hroom, ?_, ?_⟩
  · unfold namelen
    simp only
    split_ifs with hnl
    · by_contra hneg
      have hzero : strlen (Mesg.null.readData (line ++ [0]) hroom).mesg_data = 0 := by omega
      have hbyte : ∀ d : List UInt8, (Mesg.null.header ++ d)[15]? = some 0 := fun _ => rfl
      rw [hzero] at hnl
      exact absurd ((hbyte _).symm.trans hnl) (by decide)
    · omega
  · have hlen := strlen_le (Mesg.null.readData (line ++ [0]) hroom).mesg_data
    rw [(Mesg.null.readData (line ++ [0]) hroom).size] at hlen
    unfold namelen
    simp only
    split_ifs <;> omega

/-- A step of the client before the request: it opens its ends, reads the line, and goes
or sends. -/
theorem Asking.first (h : Asking c s p p')
    (hperf : c.ask.perform capacity p p' gone = some (wm, rm, oc)) :
    ∃ c', (program fs).after (.client c) oc = .client c' ∧
      (Asking c' s (wm.apply p) (rm.apply p') ∨ Left c' s (wm.apply p) (rm.apply p') ∨
        Replying c' s (wm.apply p) (rm.apply p')) := by
  obtain ⟨stdin, stdout, mesg, pc⟩ := c
  obtain ⟨hcli, hserv, hbytes, hbytes', hlive, hlive'⟩ := h
  rcases hcli with ⟨rfl | rfl | rfl, rfl⟩ | ⟨rfl, hfits⟩ <;>
    simp only [Client.ask, Req.perform] at hperf
  · split_ifs at hperf <;> cases hperf
    · exact ⟨_, rfl,
        .inl ⟨.inl ⟨.inl rfl, rfl⟩, hserv, hbytes, hbytes', (live_opens hlive).1, hlive'⟩⟩
    · exact ⟨_, rfl, .inl ⟨.inl ⟨.inr (.inl rfl), rfl⟩, hserv, hbytes, hbytes', hlive, hlive'⟩⟩
  · split_ifs at hperf <;> cases hperf
    · exact ⟨_, rfl,
        .inl ⟨.inl ⟨.inr (.inl rfl), rfl⟩, hserv, hbytes, hbytes', hlive, (live_opens hlive').2⟩⟩
    · exact ⟨_, rfl, .inl ⟨.inl ⟨.inr (.inr rfl), rfl⟩, hserv, hbytes, hbytes', hlive, hlive'⟩⟩
  · cases hperf
    refine ⟨_, rfl, ?_⟩
    simp only [Client.next, Client.fgets]
    cases hline : Stdio.fgets MAXMESGDATA stdin with
    | none =>
      -- without a line the client goes
      refine .inr (.inl ⟨⟨_, .inl rfl⟩, ?_, hbytes⟩)
      rcases hserv with hs | hs | hs
      · exact .inl hs
      · exact .inr (.inl hs)
      · exact .inr (.inr (.inl hs))
    | some line =>
      obtain ⟨m, hput, hlo, hhi⟩ := fits_fgets hline
      simp only [hput]
      refine .inl ⟨.inr ⟨rfl, ?_⟩, hserv, hbytes, hbytes', hlive, hlive'⟩
      exact fits_setLen (m := m) hlo hhi
  · split_ifs at hperf with hopen hnil hclosed hroom <;> cases hperf
    · exact absurd hnil (mesg_send_ne_nil hfits)
    · exact absurd hclosed hlive.2
    · -- the request is on its way
      refine ⟨_, rfl, .inr (.inr ⟨.inl rfl, ?_, ?_, ?_, hlive'.2, fun _ => hlive'.1⟩)⟩
      · rcases hserv with hs | hs | hs <;> simp only [Server.Holds, hs]
      · have hwant : s.want = 0 := by
          rcases hserv with hs | hs | hs <;> simp only [Server.want, hs]
        rw [hwant]
        show Framed _ 0 (p.bytes ++ mesg_send mesg)
        rw [hbytes]
        exact framed_nil.append hfits trivial
      · show Framed _ 0 p'.bytes
        rw [hbytes']
        exact framed_nil

/-- A step of the server before the request: it opens its ends. -/
theorem Asking.second (h : Asking c s p p')
    (hperf : s.ask.perform capacity p' p gone = some (wm, rm, oc)) :
    ∃ s', (program fs).after (.server s) oc = .server s' ∧
      Asking c s' (rm.apply p) (wm.apply p') := by
  obtain ⟨mesg, pc⟩ := s
  obtain ⟨hcli, hserv, hbytes, hbytes', hlive, hlive'⟩ := h
  rcases hserv with rfl | rfl | rfl <;> simp only [Server.ask, Req.perform] at hperf
  · split_ifs at hperf <;> cases hperf
    · exact ⟨_, rfl, hcli, .inl rfl, hbytes, hbytes', (live_opens hlive).2, hlive'⟩
    · exact ⟨_, rfl, hcli, .inr (.inl rfl), hbytes, hbytes', hlive, hlive'⟩
  · split_ifs at hperf <;> cases hperf
    · exact ⟨_, rfl, hcli, .inr (.inl rfl), hbytes, hbytes', hlive, (live_opens hlive').1⟩
    · exact ⟨_, rfl, hcli, .inr (.inr rfl), hbytes, hbytes', hlive, hlive'⟩
  · split_ifs at hperf with hopen hclosed
    exact absurd hclosed hlive.1

/-! ### No request -/

theorem Left.first (h : Left c s p p')
    (hperf : c.ask.perform capacity p p' gone = some (wm, rm, oc)) :
    ∃ c', (program fs).after (.client c) oc = .client c' ∧
      Left c' s (wm.apply p) (rm.apply p') := by
  obtain ⟨stdin, stdout, mesg, pc⟩ := c
  obtain ⟨⟨msg, rfl | rfl⟩, hserv, hbytes⟩ := h
  · cases hperf
    exact ⟨_, rfl, ⟨msg, .inr rfl⟩, hserv, hbytes⟩
  · cases hperf

theorem Left.second (h : Left c s p p')
    (hperf : s.ask.perform capacity p' p gone = some (wm, rm, oc)) :
    ∃ s', (program fs).after (.server s) oc = .server s' ∧
      Left c s' (rm.apply p) (wm.apply p') := by
  obtain ⟨mesg, pc⟩ := s
  obtain ⟨hcli, hserv, hbytes⟩ := h
  rcases hserv with rfl | rfl | rfl | ⟨msg, rfl | rfl⟩
  · simp only [Server.ask, Req.perform] at hperf
    split_ifs at hperf <;> cases hperf
    · exact ⟨_, rfl, hcli, .inl rfl, hbytes⟩
    · exact ⟨_, rfl, hcli, .inr (.inl rfl), hbytes⟩
  · simp only [Server.ask, Req.perform] at hperf
    split_ifs at hperf <;> cases hperf
    · exact ⟨_, rfl, hcli, .inr (.inl rfl), hbytes⟩
    · exact ⟨_, rfl, hcli, .inr (.inr (.inl rfl)), hbytes⟩
  · simp only [Server.ask, Req.perform, if_pos hbytes] at hperf
    split_ifs at hperf
    cases hperf
    exact ⟨_, rfl, hcli, .inr (.inr (.inr ⟨_, .inl rfl⟩)), hbytes⟩
  · cases hperf
    exact ⟨_, rfl, hcli, .inr (.inr (.inr ⟨msg, .inr rfl⟩)), hbytes⟩
  · cases hperf

/-! ### The answer -/

theorem Framed.ne_nil {Q : Mesg → Prop} {want : ℕ} {bytes : List UInt8} (h : Framed Q want bytes)
    (hwant : 0 < want) : bytes ≠ [] := by
  obtain ⟨d, ms, rfl, hlen, -⟩ := h
  rw [← hlen] at hwant
  simp [List.ne_nil_of_length_pos hwant]

theorem want_pos {m : Mesg} (h : 0 < m.mesg_len.toInt) : 0 < m.mesg_len.toInt.toNat := by
  omega

/-- A step of the client that reads the answer. -/
theorem Replying.first (h : Replying c s p p')
    (hperf : c.ask.perform capacity p p' gone = some (wm, rm, oc)) :
    ∃ c', (program fs).after (.client c) oc = .client c' ∧
      (Replying c' s (wm.apply p) (rm.apply p') ∨ Leaving c' s (wm.apply p) (rm.apply p')) := by
  obtain ⟨stdin, stdout, mesg, pc⟩ := c
  obtain ⟨hcli, hserv, hframed, hframed', hreaders, hwriters⟩ := h
  rcases hcli with rfl | ⟨rfl, hpos, hle⟩ | ⟨n, rfl⟩ <;>
    simp only [Client.ask, Req.perform] at hperf
  · split_ifs at hperf with hopen hnil hclosed <;> cases hperf
    · -- the end of the file: the server has closed
      refine ⟨_, rfl, .inr ⟨.inl rfl, ?_⟩⟩
      by_contra hlate
      exact hwriters (by simpa using hlate) hclosed
    · -- a header
      obtain ⟨m, hfits, hlen, hread, heq, hrest⟩ := hframed'.recvHeader hnil mesg
      refine ⟨_, rfl, ?_⟩
      simp only [Client.next, heq]
      by_cases hdata : 0 < m.mesg_len.toInt
      · rw [if_pos hdata]
        refine .inl ⟨.inr (.inl ⟨rfl, ?_⟩), hserv, hframed, ?_, hreaders, hwriters⟩
        · simp only [Client.received, Mesg.Full, hread]
          exact ⟨hdata, hfits.2⟩
        · simp only [Client.received, Client.want, hread]
          exact hrest
      · have hzero : m.mesg_len.toInt = 0 := by
          have := hfits.1
          omega
        rw [if_neg hdata]
        refine .inr ⟨.inl ?_, ?_⟩
        · simp [Client.received, hzero]
        · by_contra hlate
          exact hdata (hlen (by simpa using hlate))
  · split_ifs at hperf with hopen hnil hclosed <;> cases hperf
    · exact absurd hnil (hframed'.ne_nil (want_pos hpos))
    · -- the data of the message
      obtain ⟨hroom, heq, hrest⟩ := hframed'.recvData hpos hle
      refine ⟨_, rfl, .inl ?_⟩
      simp only [Client.next, heq, Client.received, if_pos hpos]
      exact ⟨.inr (.inr ⟨_, rfl⟩), hserv, hframed, hrest, hreaders, hwriters⟩
  · cases hperf
    exact ⟨_, rfl, .inl ⟨.inl rfl, hserv, hframed, hframed', hreaders, hwriters⟩⟩

/-- A step of the server that sends nothing. -/
theorem Replying.serve (h : Replying c s p p') {s' : Server} {p₁ p₁' : Pipe UInt8}
    (hholds : s'.Holds) (hframed : Framed (fun _ => True) s'.want p₁.bytes)
    (hlate : s'.pc.late = false → s.pc.late = false ∧ p₁'.w ≠ .closed)
    (hbytes : p₁'.bytes = p'.bytes) (hr : p₁'.r = p'.r) : Replying c s' p₁ p₁' where
  cli := h.cli
  serv := hholds
  framed := hframed
  framed' := by
    rw [hbytes]
    exact h.framed'.mono fun m hm hl => hm (hlate hl).1
  readers := hr ▸ h.readers
  writers := fun hl => (hlate hl).2

/-- A server that does not send any more. -/
theorem Replying.serveLate (h : Replying c s p p') {s' : Server} {p₁ p₁' : Pipe UInt8}
    (hholds : s'.Holds) (hframed : Framed (fun _ => True) s'.want p₁.bytes)
    (hlate : s'.pc.late = true) (hbytes : p₁'.bytes = p'.bytes) (hr : p₁'.r = p'.r) :
    Replying c s' p₁ p₁' := by
  refine h.serve hholds hframed (fun hl => ?_) hbytes hr
  rw [hlate] at hl
  cases hl

/-- The server sends a message. -/
theorem Replying.send (h : Replying c s p p') {s' : Server} {m : Mesg}
    (hholds : s'.Holds) (hwant : s'.want = s.want) (hfits : m.Fits)
    (hfull : s'.pc.late = false → s.pc.late = false ∧ 0 < m.mesg_len.toInt) :
    Replying c s' p { p' with bytes := p'.bytes ++ mesg_send m } where
  cli := h.cli
  serv := hholds
  framed := by
    rw [hwant]
    exact h.framed
  framed' := (h.framed'.mono fun m hm hl => hm (hfull hl).1).append hfits fun hl => (hfull hl).2
  readers := h.readers
  writers := fun hl => h.writers (hfull hl).1

/-- A write of the server goes through, once there is room. -/
theorem Replying.perform_write (h : Replying c s p p') {m : Mesg} (hfits : m.Fits)
    (hperf : (Req.write (mesg_send m)).perform capacity p' p gone = some (wm, rm, oc)) :
    wm = .append (mesg_send m) ∧ rm = .stay ∧ oc = .go [] := by
  simp only [Req.perform] at hperf
  split_ifs at hperf with hopen hnil hclosed hroom <;> cases hperf
  · exact absurd hnil (mesg_send_ne_nil hfits)
  · exact absurd hclosed h.readers
  · exact ⟨rfl, rfl, rfl⟩

theorem fits_of_full {m : Mesg} (h : Mesg.Full m) : m.Fits := ⟨Int.le_of_lt h.1, h.2⟩

theorem full_setLen {m : Mesg} {n : ℕ} (h : 0 < n) (h' : n ≤ MAXMESGDATA) :
    Mesg.Full (Mesg.setLen m n) := by
  rw [Mesg.Full, toInt_setLen (by omega) (by omega)]
  omega

/-- A string that has been put there. -/
theorem cstr_put {m m' : Mesg} {s : List UInt8} (hput : Mesg.put m (s ++ [0]) = some m') :
    cstr m'.mesg_data = cstr s := by
  unfold Mesg.put at hput
  split_ifs at hput with hroom
  cases hput
  show cstr (s ++ [0] ++ m.mesg_data.drop (s ++ [0]).length) = cstr s
  rw [List.append_assoc]
  exact cstr_nul s _

/-- The error message is not empty. -/
theorem full_errmesg {m m' : Mesg} {name : List UInt8} {err : ErrStr}
    (hput : Mesg.put m (cstr name ++ errmesg err.1.1 ++ [0]) = some m') :
    Mesg.Full (Mesg.setLen m' (strlen m'.mesg_data)) := by
  have hnul : nul ∉ cstr name ++ errmesg err.1.1 := by
    simp [nul_notMem_cstr, nul_notMem_errmesg]
  apply full_setLen
  · rw [strlen, cstr_put hput, cstr_of_nul_free hnul, List.length_append, errmesg,
      Exchange.length_errmesg]
    omega
  · exact (strlen_le _).trans_eq m'.size

/-- A step of the server that has a request, or is about to read it. -/
theorem Replying.second (h : Replying c s p p')
    (hperf : s.ask.perform capacity p' p gone = some (wm, rm, oc)) :
    ∃ s', (program fs).after (.server s) oc = .server s' ∧
      Replying c s' (rm.apply p) (wm.apply p') := by
  obtain ⟨mesg, pc⟩ := s
  have hframed := h.framed
  have hholds := h.serv
  have hwriters := h.writers
  cases pc with
  | open1 =>
    simp only [Server.ask, Req.perform] at hperf
    split_ifs at hperf <;> cases hperf
    · exact ⟨_, rfl, h.serve trivial hframed (fun hl => ⟨hl, hwriters hl⟩) rfl rfl⟩
    · exact ⟨_, rfl, h.serve trivial hframed (fun hl => ⟨hl, hwriters hl⟩) rfl rfl⟩
  | open2 =>
    simp only [Server.ask, Req.perform] at hperf
    split_ifs at hperf <;> cases hperf
    · exact ⟨_, rfl, h.serve trivial hframed (fun hl => ⟨hl, End.noConfusion⟩) rfl rfl⟩
    · exact ⟨_, rfl, h.serve trivial hframed (fun hl => ⟨hl, hwriters hl⟩) rfl rfl⟩
  | recv =>
    simp only [Server.ask, Req.perform] at hperf
    split_ifs at hperf with hopen hnil hclosed <;> cases hperf
    · exact ⟨_, rfl, h.serveLate trivial hframed rfl rfl rfl⟩
    · obtain ⟨m, hfits, -, hread, heq, hrest⟩ := hframed.recvHeader hnil mesg
      refine ⟨_, rfl, ?_⟩
      simp only [Server.next, heq]
      by_cases hdata : 0 < m.mesg_len.toInt
      · rw [if_pos hdata]
        refine h.serve ?_ ?_ (fun hl => ⟨rfl, hwriters rfl⟩) rfl rfl
        · simp only [Server.received, Server.Holds, Mesg.Full, hread]
          exact ⟨hdata, hfits.2⟩
        · simp only [Server.received, Server.want, hread]
          exact hrest
      · -- an empty request
        have hzero : m.mesg_len.toInt.toNat = 0 := by omega
        rw [if_neg hdata]
        simp only [Server.received, if_pos (Int.not_lt.1 hdata)]
        rw [hzero] at hrest
        exact h.serveLate trivial hrest rfl rfl rfl
  | body =>
    obtain ⟨hpos, hle⟩ : Mesg.Full mesg := hholds
    simp only [Server.ask, Req.perform] at hperf
    split_ifs at hperf with hopen hnil hclosed <;> cases hperf
    · exact absurd hnil (hframed.ne_nil (want_pos hpos))
    · obtain ⟨hroom, heq, hrest⟩ := hframed.recvData hpos hle
      refine ⟨_, rfl, ?_⟩
      simp only [Server.next, heq, Server.received, if_neg (Int.not_le.2 hpos)]
      split
      · exact h.serve trivial hrest (fun hl => ⟨rfl, hwriters rfl⟩) rfl rfl
      · exact h.serve trivial hrest (fun hl => ⟨rfl, hwriters rfl⟩) rfl rfl
  | openfile =>
    cases hperf
    refine ⟨_, rfl, ?_⟩
    simp only [Server.next, Server.openfile]
    split
    · exact h.serve trivial hframed (fun hl => ⟨rfl, hwriters rfl⟩) rfl rfl
    · rename_i err _
      split_ifs with herr
      · cases hput : Mesg.put mesg (cstr mesg.mesg_data ++ errmesg err.1.1 ++ [0]) with
        | none => exact h.serve trivial hframed (fun hl => ⟨rfl, hwriters rfl⟩) rfl rfl
        | some m =>
          refine h.serve ?_ hframed (fun hl => ⟨rfl, hwriters rfl⟩) rfl rfl
          exact full_errmesg hput
      · exact h.serve trivial hframed (fun hl => ⟨rfl, hwriters rfl⟩) rfl rfl
  | fstat stat chunks fails =>
    cases hperf
    refine ⟨_, rfl, ?_⟩
    cases stat with
    | fails => exact h.serveLate trivial hframed rfl rfl rfl
    | directory => exact h.serveLate trivial hframed rfl rfl rfl
    | other => exact h.serve trivial hframed (fun hl => ⟨rfl, hwriters rfl⟩) rfl rfl
  | readfile chunks fails =>
    cases hperf
    refine ⟨_, rfl, ?_⟩
    cases chunks with
    | nil =>
      cases fails with
      | true => exact h.serveLate trivial hframed rfl rfl rfl
      | false =>
        refine h.serve ?_ hframed (fun hl => ⟨rfl, hwriters rfl⟩) rfl rfl
        exact toInt_setLen le_rfl (by decide)
    | cons chunk cs =>
      obtain ⟨chunk, hpos, hle⟩ := chunk
      refine h.serve ?_ hframed (fun hl => ⟨rfl, hwriters rfl⟩) rfl rfl
      exact full_setLen (m := mesg.readData chunk hle) hpos hle
  | senddata chunks fails =>
    obtain ⟨rfl, rfl, rfl⟩ := h.perform_write (fits_of_full hholds) hperf
    exact ⟨_, rfl, h.send trivial rfl (fits_of_full hholds) fun _ => ⟨rfl, hholds.1⟩⟩
  | senderr =>
    obtain ⟨rfl, rfl, rfl⟩ := h.perform_write (fits_of_full hholds) hperf
    refine ⟨_, rfl, h.send ?_ rfl (fits_of_full hholds) fun _ => ⟨rfl, hholds.1⟩⟩
    exact toInt_setLen le_rfl (by decide)
  | sendend =>
    have hzero : mesg.mesg_len.toInt = 0 := hholds
    have hfits : mesg.Fits := by
      rw [Mesg.Fits, hzero]
      decide
    obtain ⟨rfl, rfl, rfl⟩ := h.perform_write hfits hperf
    exact ⟨_, rfl, h.send trivial rfl hfits fun hl => Bool.noConfusion hl⟩
  | closeread | closewrite | exit | err_sys =>
    cases hperf
    exact ⟨_, rfl, h.serveLate trivial hframed rfl rfl rfl⟩
  | done | ended | killed | overrun => cases hperf

/-! ### The end -/

/-- A server that does not send any more goes on to its end. -/
theorem late_next (h : s.pc.late = true)
    (hperf : s.ask.perform capacity p' p gone = some (wm, rm, oc)) :
    ∃ s', (program fs).after (.server s) oc = .server s' ∧ s'.pc.late = true := by
  obtain ⟨mesg, pc⟩ := s
  cases pc with
  | closeread | closewrite | exit | err_sys =>
    cases hperf
    exact ⟨_, rfl, rfl⟩
  | done | ended => cases hperf
  | _ => cases h

theorem Leaving.first (h : Leaving c s p p')
    (hperf : c.ask.perform capacity p p' gone = some (wm, rm, oc)) :
    ∃ c', (program fs).after (.client c) oc = .client c' ∧
      Leaving c' s (wm.apply p) (rm.apply p') := by
  obtain ⟨stdin, stdout, mesg, pc⟩ := c
  obtain ⟨hcli, hlate⟩ := h
  rcases hcli with rfl | rfl | rfl | rfl | rfl
  · simp only [Client.ask, Req.perform] at hperf
    split_ifs at hperf
    cases hperf
    exact ⟨_, rfl, .inr (.inl rfl), hlate⟩
  · cases hperf
    exact ⟨_, rfl, .inr (.inr (.inl rfl)), hlate⟩
  · cases hperf
    exact ⟨_, rfl, .inr (.inr (.inr (.inl rfl))), hlate⟩
  · cases hperf
    exact ⟨_, rfl, .inr (.inr (.inr (.inr rfl))), hlate⟩
  · cases hperf

theorem Leaving.second (h : Leaving c s p p')
    (hperf : s.ask.perform capacity p' p gone = some (wm, rm, oc)) :
    ∃ s', (program fs).after (.server s) oc = .server s' ∧
      Leaving c s' (rm.apply p) (wm.apply p') := by
  obtain ⟨s', hs', hlate⟩ := late_next fs h.serv hperf
  exact ⟨s', hs', h.cli, hlate⟩

end Steps

/-! ## Every step -/

section Phases

variable {fs : List UInt8 → File} {capacity : Side → ℕ} {stdin : List UInt8}
  {w w' : Duplex.World Proc UInt8} {b : Side}

theorem Phase.step (h : Phase w) (hstep : (machine fs capacity stdin).step w b = some w') :
    Phase w' := by
  obtain ⟨c, s, p, p', rfl, hphase⟩ := h
  obtain ⟨wm, rm, oc, hperf, rfl⟩ := World.of_step hstep
  cases b with
  | first =>
    rw [World.of_moved_first]
    rcases hphase with h | h | h | h
    · obtain ⟨c', hc', h'⟩ := h.first fs hperf
      rw [hc']
      rcases h' with h' | h' | h'
      · exact ⟨_, _, _, _, rfl, .inl h'⟩
      · exact ⟨_, _, _, _, rfl, .inr (.inl h')⟩
      · exact ⟨_, _, _, _, rfl, .inr (.inr (.inl h'))⟩
    · obtain ⟨c', hc', h'⟩ := h.first fs hperf
      rw [hc']
      exact ⟨_, _, _, _, rfl, .inr (.inl h')⟩
    · obtain ⟨c', hc', h'⟩ := h.first fs hperf
      rw [hc']
      exact ⟨_, _, _, _, rfl, .inr (.inr h')⟩
    · obtain ⟨c', hc', h'⟩ := h.first fs hperf
      rw [hc']
      exact ⟨_, _, _, _, rfl, .inr (.inr (.inr h'))⟩
  | second =>
    rw [World.of_moved_second]
    rcases hphase with h | h | h | h
    · obtain ⟨s', hs', h'⟩ := h.second fs hperf
      rw [hs']
      exact ⟨_, _, _, _, rfl, .inl h'⟩
    · obtain ⟨s', hs', h'⟩ := h.second fs hperf
      rw [hs']
      exact ⟨_, _, _, _, rfl, .inr (.inl h')⟩
    · obtain ⟨s', hs', h'⟩ := h.second fs hperf
      rw [hs']
      exact ⟨_, _, _, _, rfl, .inr (.inr (.inl h'))⟩
    · obtain ⟨s', hs', h'⟩ := h.second fs hperf
      rw [hs']
      exact ⟨_, _, _, _, rfl, .inr (.inr (.inr h'))⟩

theorem phase_start : Phase (World.start (forked stdin)) := by
  rw [World.start_eq]
  exact ⟨_, _, _, _, rfl, .inl
    { cli := .inl ⟨.inl rfl, rfl⟩, serv := .inl rfl, bytes := rfl, bytes' := rfl,
      live := ⟨nofun, nofun⟩, live' := ⟨nofun, nofun⟩ }⟩

/-! ## The order of the steps -/

section Settled

variable {c : Client} {s : Server} {p p' : Pipe UInt8}

theorem settled_of (hcli : c.ask.Whole p') (hserv : s.ask.Whole p)
    (hsends : c.ask.Writes → ¬ s.ask.Shuts p') (hanswers : s.ask.Writes → ¬ c.ask.Shuts p) :
    (Duplex.World.of (.client c) (.server s) p p').Settled (program fs) := by
  intro b
  cases b with
  | first => exact ⟨hcli, hsends⟩
  | second => exact ⟨hserv, hanswers⟩

theorem Asking.settled (h : Asking c s p p') :
    (Duplex.World.of (.client c) (.server s) p p').Settled (program fs) := by
  obtain ⟨stdin, stdout, mesg, pc⟩ := c
  obtain ⟨mesg', pc'⟩ := s
  obtain ⟨hcli, hserv, hbytes, -, -, -⟩ := h
  have hwhole : (Server.ask ⟨mesg', pc'⟩).Whole p := by
    rcases hserv with rfl | rfl | rfl
    · trivial
    · trivial
    · exact fun hne => absurd hbytes hne
  have hcalm : ¬ (Server.ask ⟨mesg', pc'⟩).Writes ∧ ¬ (Server.ask ⟨mesg', pc'⟩).Shuts p' := by
    rcases hserv with rfl | rfl | rfl <;> exact ⟨id, id⟩
  refine settled_of ?_ hwhole (fun _ => hcalm.2) fun hw => absurd hw hcalm.1
  rcases hcli with ⟨rfl | rfl | rfl, -⟩ | ⟨rfl, -⟩ <;> trivial

theorem Left.settled (h : Left c s p p') :
    (Duplex.World.of (.client c) (.server s) p p').Settled (program fs) := by
  obtain ⟨stdin, stdout, mesg, pc⟩ := c
  obtain ⟨mesg', pc'⟩ := s
  obtain ⟨⟨msg, hcli⟩, hserv, hbytes⟩ := h
  have hgone : (Client.ask ⟨stdin, stdout, mesg, pc⟩).Whole p' ∧
      ¬ (Client.ask ⟨stdin, stdout, mesg, pc⟩).Writes := by
    rcases hcli with rfl | rfl <;> exact ⟨trivial, id⟩
  have hcalm : (Server.ask ⟨mesg', pc'⟩).Whole p ∧ ¬ (Server.ask ⟨mesg', pc'⟩).Writes := by
    rcases hserv with rfl | rfl | rfl | ⟨msg, rfl | rfl⟩
    · exact ⟨trivial, id⟩
    · exact ⟨trivial, id⟩
    · exact ⟨fun hne => absurd hbytes hne, id⟩
    · exact ⟨trivial, id⟩
    · exact ⟨trivial, id⟩
  exact settled_of hgone.1 hcalm.1 (fun hw => absurd hw hgone.2) fun hw => absurd hw hcalm.2

theorem Framed.read {Q : Mesg → Prop} {bytes : List UInt8} (h : Framed Q 0 bytes)
    (hne : bytes ≠ []) : MESGHDRSIZE ≤ bytes.length := (h.whole hne).2 rfl

theorem Replying.settled (h : Replying c s p p') :
    (Duplex.World.of (.client c) (.server s) p p').Settled (program fs) := by
  obtain ⟨stdin, stdout, mesg, pc⟩ := c
  obtain ⟨mesg', pc'⟩ := s
  obtain ⟨hcli, -, hframed, hframed', -, -⟩ := h
  have hreads : (Client.ask ⟨stdin, stdout, mesg, pc⟩).Whole p' ∧
      ¬ (Client.ask ⟨stdin, stdout, mesg, pc⟩).Writes ∧
      ¬ (Client.ask ⟨stdin, stdout, mesg, pc⟩).Shuts p := by
    rcases hcli with rfl | ⟨rfl, -⟩ | ⟨n, rfl⟩
    · exact ⟨hframed'.read, id, id⟩
    · exact ⟨fun hne => (hframed'.whole hne).1, id, id⟩
    · exact ⟨trivial, id, id⟩
  have hwhole : (Server.ask ⟨mesg', pc'⟩).Whole p := by
    cases pc' with
    | recv => exact hframed.read
    | body => exact fun hne => (hframed.whole hne).1
    | _ => trivial
  exact settled_of hreads.1 hwhole (fun hw => absurd hw hreads.2.1) fun _ => hreads.2.2

theorem Leaving.settled (h : Leaving c s p p') :
    (Duplex.World.of (.client c) (.server s) p p').Settled (program fs) := by
  obtain ⟨stdin, stdout, mesg, pc⟩ := c
  obtain ⟨mesg', pc'⟩ := s
  obtain ⟨hcli, hlate⟩ := h
  have hquiet : (Client.ask ⟨stdin, stdout, mesg, pc⟩).Whole p' ∧
      ¬ (Client.ask ⟨stdin, stdout, mesg, pc⟩).Writes := by
    rcases hcli with rfl | rfl | rfl | rfl | rfl <;> exact ⟨trivial, id⟩
  have hlast : (Server.ask ⟨mesg', pc'⟩).Whole p ∧ ¬ (Server.ask ⟨mesg', pc'⟩).Writes := by
    cases pc' with
    | closeread | closewrite | exit | done | err_sys | ended => exact ⟨trivial, id⟩
    | _ => cases hlate
  exact settled_of hquiet.1 hlast.1 (fun hw => absurd hw hquiet.2) fun hw => absurd hw hlast.2

/-- **In every phase the order of the steps makes no difference.** -/
theorem Phase.settled (h : Phase w) : w.Settled (program fs) := by
  obtain ⟨c, s, p, p', rfl, h | h | h | h⟩ := h
  · exact h.settled
  · exact h.settled
  · exact h.settled
  · exact h.settled

end Settled

/-- Whoever has seen one conversation to its end has seen them all. -/
theorem one_schedule {f : Duplex.World Proc UInt8} {n : ℕ}
    (hf : Path (machine fs capacity stdin) n (.start (forked stdin)) f)
    (hend : (machine fs capacity stdin).Final f)
    (hw : (machine fs capacity stdin).Reach (fun _ _ => True) w) :
    ∃ m k, Path (machine fs capacity stdin) m (.start (forked stdin)) w ∧ m + k = n ∧
      Path (machine fs capacity stdin) k w f :=
  Reach.descent (fun _ h => h) (fun _ _ _ h hstep => Phase.step h hstep)
    (balanced fun _ h => h.settled) hend phase_start hf hw

end Phases

end UnixNetProg.StreamMessages.Conversation

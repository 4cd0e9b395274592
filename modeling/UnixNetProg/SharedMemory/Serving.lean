/-
The transfer, once the file is open.

`Duo.Serving` is what holds between the server and the client from the server's
`open` to the end of both. The messages the server has read, `msgs`, the last of
them empty if there is one that is, are numbered: message `j` goes to buffer
`j % nbuff`. The server has sent the first `sent` of them and may be filling the
buffer of the next, the client has written out the first `out.length` and may be
reading the next. `exact` and `credit` are the two counters: `clisem` counts the
messages sent and not yet taken, `servsem` the buffers posted that nobody has
taken and no message is in.

This module has the steps of the server; those of the client are in the next.
-/
import UnixNetProg.Lib.Ring
import UnixNetProg.SharedMemory.Simulation

set_option autoImplicit false

namespace UnixNetProg.SharedMemory

open UnixNetProg.SysV UnixNetProg.Semaphore UnixNetProg.Runs

/-! ## Where the two are -/

/-- The server has taken a buffer and not yet sent it. -/
def ServerStage.holds : ServerStage → Bool
  | .read | .len | .send | .last | .lastsend => true
  | _ => false

/-- It has read what goes into the buffer. -/
def ServerStage.filled : ServerStage → Bool
  | .len | .send | .last | .lastsend => true
  | _ => false

/-- And the buffer is ready to be sent. -/
def ServerStage.ready : ServerStage → Bool
  | .send | .lastsend => true
  | _ => false

/-- The buffers the server has given away so far. -/
def Server.posted (v : Version) (u : Server) : ℕ :=
  if u.stage = .post then u.i else v.nbuff

/-- What the server has read so far, stage by stage: the first empty message is
the last one. -/
def Server.Script (v : Version) (msgs : List (List Char)) (u : Server) : Prop :=
  match v, u.stage with
  | .multi _, .post => msgs = []
  | _, .wait | _, .read => [] ∉ msgs
  | .single, .len | .single, .send =>
    ∃ ms m, msgs = ms ++ [m] ∧ [] ∉ ms ∧ m.length = u.n ∧ m ≠ []
  | .multi _, .len | .multi _, .send | .multi _, .next =>
    ∃ ms m, msgs = ms ++ [m] ∧ [] ∉ ms ∧ m.length = u.n
  | .single, .last | .single, .lastsend | .multi _, .poll | _, .detach | _, .close1 | _, .close2
  | _, .exit => ∃ ms, msgs = ms ++ [[]] ∧ [] ∉ ms
  | _, _ => False

/-- The buffer the server works on is that of the next message. -/
def Server.Place (v : Version) (sent : ℕ) (u : Server) : Prop :=
  match v, u.stage with
  | .multi nbuff, .wait | .multi nbuff, .read | .multi nbuff, .len | .multi nbuff, .send =>
    u.i = sent % nbuff
  | .multi nbuff, .next => ∃ k, sent = k + 1 ∧ u.i = k % nbuff
  | _, _ => True

/-- And so is that of the client, which leaves its loop with the empty message. -/
def Client.Place (v : Version) (msgs out : List (List Char)) (sent : ℕ) (u : Client) : Prop :=
  match u.stage with
  | .wait | .len => u.i = out.length % v.nbuff
  | .write => u.i = out.length % v.nbuff ∧ ∃ m, msgs[out.length]? = some m ∧ m ≠ [] ∧ u.n = m.length
  | .signal | .next => ∃ k, out.length = k + 1 ∧ u.i = k % v.nbuff
  | .alldone | .detach | .close1 | .close2 | .exit => msgs = out ++ [[]] ∧ sent = msgs.length
  | _ => False

/-- The message is in the buffer. -/
def Mesg.Has (m : Mesg) (msg : List Char) : Prop :=
  m.mesg_len = msg.length ∧ m.bytes msg.length = msg

/-- What a statement of the server adds to what has been read: `read`, with the choice `c`,
one message of that length. -/
def Adds (c : Option ℕ) (st : ServerStage) (msgs msgs' : List (List Char)) : Prop :=
  msgs' = msgs ∨ st = .read ∧ ∃ n m, c = some n ∧ m.length = n ∧ msgs' = msgs ++ [m]

/-- Message `j` of those read. -/
def message (msgs : List (List Char)) (j : ℕ) : List Char := msgs[j]?.getD []

/-- **The transfer.** -/
structure Duo.Serving (v : Version) (data : List Char) (msgs : List (List Char)) (d : Duo) :
    Prop where
  file : d.server.file = some data
  read : msgs.flatten = data.take d.server.off
  whole : [] ∈ msgs → d.server.off = data.length
  script : d.server.Script v msgs
  filled : msgs.length = d.sent + d.server.stage.filled.toNat
  serverAt : d.server.Place v d.sent
  clientAt : d.client.Place v msgs d.shared.out d.sent
  out : d.shared.out <+: msgs
  solid : [] ∉ d.shared.out
  le : d.shared.out.length + d.client.stage.reads.toNat ≤ d.sent
  there : d.sup = true → d.client.stage.done = false → d.cup = true
  tokens : d.cup = true → d.client.stage.done = false →
    d.cli + d.shared.out.length + d.client.stage.reads.toNat ≤ d.sent
  exact : d.sup = true → d.client.stage.done = false →
    d.cli + d.shared.out.length + d.client.stage.reads.toNat = d.sent
  credit : d.sup = true → d.client.stage.done = false →
    d.serv + d.sent + d.server.stage.holds.toNat + d.client.stage.returns.toNat =
      d.server.posted v + d.shared.out.length
  posted : d.server.posted v ≤ SEMVMX
  room : d.server.stage.holds = true → d.sent < d.shared.out.length + v.nbuff
  ring : Ring.Holds Mesg.Has v.nbuff d.shared.mesg (message msgs) d.shared.out.length
    (d.sent + d.server.stage.ready.toNat)
  content : d.server.stage = .len →
    (d.shared.mesg (d.sent % v.nbuff)).bytes d.server.n = message msgs d.sent

section Serving

variable {v : Version} {e : Env} {data : List Char} {msgs : List (List Char)} {d d' : Duo}
  {a : Act User (Option ℕ)}

/-! ## What it says about messages and buffers -/

theorem ServerStage.idle {st : ServerStage} (h : st.holds = false) :
    st.filled = false ∧ st.ready = false := by
  cases st <;> first | exact ⟨rfl, rfl⟩ | cases h

/-- What the server puts in front of a buffer. -/
theorem bytes_fill (m : Mesg) (bytes : List Char) :
    ({ m with mesg_data := Files.fwrite m.mesg_data 0 bytes } : Mesg).bytes bytes.length =
      bytes := by
  simp [Mesg.bytes]

theorem message_append (j : ℕ) (hj : j < msgs.length) (m : List Char) :
    message (msgs ++ [m]) j = message msgs j := by
  rw [message, message, List.getElem?_append_left hj]

theorem message_length (m : List Char) : message (msgs ++ [m]) msgs.length = m := by
  simp [message]

/-- Only the last message can be empty. -/
theorem Server.Script.last {u : Server} (h : u.Script v msgs) {j : ℕ} (hj : msgs[j]? = some []) :
    j + 1 = msgs.length := by
  have hsnoc : ∀ {ms : List (List Char)} {m : List Char}, [] ∉ ms → msgs = ms ++ [m] →
      j + 1 = msgs.length := by
    rintro ms m hms rfl
    obtain ⟨hlt, -⟩ := List.getElem?_eq_some_iff.1 hj
    rw [List.length_append, List.length_singleton] at hlt ⊢
    by_contra hne
    rw [List.getElem?_append_left (by omega)] at hj
    exact hms (List.mem_of_getElem? hj)
  have hmem := List.mem_of_getElem? hj
  revert h
  obtain ⟨stage, i, n, file, off, clisem, servsem⟩ := u
  cases v <;> cases stage <;> intro h <;> first | exact h.elim | exact absurd hmem h | skip
  case multi.post => rw [show msgs = [] from h] at hmem; cases hmem
  all_goals
    obtain ⟨ms, h⟩ := h
    first
      | exact hsnoc h.2 h.1
      | (obtain ⟨m, heq, hms, -⟩ := h; exact hsnoc hms heq)

/-- A server that goes on has sent no empty message. -/
theorem Server.Script.goes_on {u : Server} (h : u.Script v msgs)
    (hst : u.stage = .read ∨ u.stage = .wait ∨ u.stage = .post) : [] ∉ msgs := by
  revert h
  obtain ⟨stage, i, n, file, off, clisem, servsem⟩ := u
  rcases hst with hst | hst | hst <;> obtain rfl := hst <;> cases v <;> intro h
  case inr.inr.single => exact h.elim
  case inr.inr.multi =>
    rw [show msgs = [] from h]
    exact List.not_mem_nil
  all_goals exact h

/-- The client is late. -/
theorem Client.Place.late {out : List (List Char)} {sent : ℕ} {u : Client}
    (h : u.Place v msgs out sent) : u.stage.late = true := by
  revert h
  obtain ⟨stage, i, n, clisem, servsem⟩ := u
  cases stage <;> intro h <;> first | rfl | exact h.elim

/-- A client that has left its loop has written out all but the empty message. -/
theorem Client.Place.done {out : List (List Char)} {sent : ℕ} {u : Client}
    (h : u.Place v msgs out sent) (hdone : u.stage.done = true) :
    msgs = out ++ [[]] ∧ sent = msgs.length := by
  revert h hdone
  obtain ⟨stage, i, n, clisem, servsem⟩ := u
  cases stage <;> intro h hdone <;> first | exact h | cases hdone

/-- A client in its loop does not mind further messages. -/
theorem Client.Place.grow {out msgs' : List (List Char)} {sent sent' : ℕ} {u : Client}
    (h : u.Place v msgs out sent) (hdone : u.stage.done = false) (hmsgs : msgs <+: msgs') :
    u.Place v msgs' out sent' := by
  obtain ⟨more, rfl⟩ := hmsgs
  revert h hdone
  obtain ⟨stage, i, n, clisem, servsem⟩ := u
  cases stage <;> intro h hdone <;> first | exact h | (cases hdone; done) | skip
  obtain ⟨hi, m, hm, hrest⟩ := h
  refine ⟨hi, m, ?_, hrest⟩
  rw [List.getElem?_append_left (List.getElem?_eq_some_iff.1 hm).1, hm]

/-- While the server holds a buffer the client is in its loop. -/
theorem Duo.Serving.not_done (h : d.Serving v data msgs) (hholds : d.server.stage.holds = true) :
    d.client.stage.done = false := by
  by_contra hdone
  obtain ⟨hmsgs, hsent⟩ := h.clientAt.done (by simpa using hdone)
  have hfilled := h.filled
  have hmem : [] ∈ msgs := by
    rw [hmsgs]
    simp
  cases hst : d.server.stage <;> rw [hst] at hholds hfilled <;> try (cases hholds; done)
  case read => exact h.script.goes_on (.inl hst) hmem
  all_goals
    simp only [ServerStage.filled, Bool.toNat_true] at hfilled
    omega

/-! ## Steps that move no message -/

/-- The counters as far as they are known. -/
theorem Duo.Serving.counts (h : d.Serving v data msgs) (cli serv : ℕ)
    (hcli : d.cliKnown → cli = d.cli) (hserv : d.servKnown → serv = d.serv) :
    ({ d with cli := cli, serv := serv } : Duo).Serving v data msgs := by
  refine { h with tokens := fun hcup hdone => ?_, exact := fun hsup hdone => ?_,
                  credit := fun hsup hdone => ?_ }
  · have := h.tokens hcup hdone
    rw [← hcli (.inl ⟨hcup, hdone⟩)] at this
    exact this
  · have := h.exact hsup hdone
    rw [← hcli (.inl ⟨h.there hsup hdone, hdone⟩)] at this
    exact this
  · have := h.credit hsup hdone
    rw [← hserv (.inr ⟨h.there hsup hdone, hsup, .inl hdone⟩)] at this
    exact this

/-- The transfer does not look at the adjustments. -/
theorem Duo.Serving.tallied (h : d.Serving v data msgs) (bal : ℤ) (taken given : ℕ) :
    ({ d with bal := bal, taken := taken, given := given } : Duo).Serving v data msgs := { h with }

/-- The server ends. -/
theorem Duo.Serving.server_gone {cli serv : ℕ} (h : d.Serving v data msgs)
    (hcli : d.cliKnown → cli ≤ d.cli) :
    ({ d with sup := false, cli := cli, serv := serv } : Duo).Serving v data msgs := by
  refine { h with there := nofun, tokens := fun hcup hdone => ?_, exact := nofun, credit := nofun }
  have := h.tokens hcup hdone
  have := hcli (.inl ⟨hcup, hdone⟩)
  simp only
  omega

/-- The client ends, out of its loop or after the server. -/
theorem Duo.Serving.client_gone {cli serv : ℕ} (h : d.Serving v data msgs)
    (hend : d.client.stage.done = true ∨ d.sup = false) :
    ({ d with cup := false, cli := cli, serv := serv } : Duo).Serving v data msgs := by
  have hnot : d.sup = true → d.client.stage.done = false → False := by
    rintro hsup hdone
    rcases hend with hend | hend
    · rw [hdone] at hend
      cases hend
    · rw [hsup] at hend
      cases hend
  exact { h with
    there := fun hsup hdone => (hnot hsup hdone).elim
    tokens := nofun
    exact := fun hsup hdone => (hnot hsup hdone).elim
    credit := fun hsup hdone => (hnot hsup hdone).elim }

/-- A step of the server between two messages. -/
theorem Duo.Serving.onward {u : Server} (h : d.Serving v data msgs)
    (hidle : d.server.stage.holds = false) (hidle' : u.stage.holds = false)
    (hfile : u.file = d.server.file) (hoff : u.off = d.server.off)
    (hposted : u.posted v = d.server.posted v) (hscript : u.Script v msgs)
    (hplace : u.Place v d.sent) : ({ d with server := u } : Duo).Serving v data msgs := by
  have hflags := ServerStage.idle hidle
  have hflags' := ServerStage.idle hidle'
  exact { h with
    file := hfile.trans h.file
    read := by rw [hoff]; exact h.read
    whole := by rw [hoff]; exact h.whole
    script := hscript
    filled := by rw [hflags'.1, ← hflags.1]; exact h.filled
    serverAt := hplace
    credit := fun hsup hdone => by rw [hidle', ← hidle, hposted]; exact h.credit hsup hdone
    posted := by rw [hposted]; exact h.posted
    room := fun hholds => by rw [hidle'] at hholds; cases hholds
    ring := by rw [hflags'.2, ← hflags.2]; exact h.ring
    content := fun hlen => by rw [hlen] at hidle'; cases hidle' }

/-! ## The server's statements -/

theorem posted_eq {u u' : Server} (hst : u.stage ≠ .post) (hst' : u'.stage ≠ .post) :
    u'.posted v = u.posted v := by
  rw [Server.posted, Server.posted, if_neg hst, if_neg hst']

/-- `read`: the next message is put into the buffer, not yet its length. -/
theorem Duo.Serving.reads {n : ℕ} (h : d.Serving v data msgs) (st : ServerStage)
    (hst : d.server.stage = .read) (hn : canRead data d.server.off n)
    (hnext : st.filled = true ∧ st.ready = false ∧ st.holds = true ∧ st ≠ .post)
    (hscript : ∀ ms m, [] ∉ ms → m.length = n →
      ({ d.server with stage := st, n := n, off := d.server.off + n } : Server).Script v
        (ms ++ [m]))
    (hplace : ({ d.server with stage := st, n := n, off := d.server.off + n } : Server).Place v
      d.sent) :
    ({ d with
      server := { d.server with stage := st, n := n, off := d.server.off + n }
      shared := d.shared.fill (d.sent % v.nbuff) ((data.drop d.server.off).take n) } : Duo).Serving
      v data (msgs ++ [(data.drop d.server.off).take n]) := by
  obtain ⟨-, hin, hend⟩ := hn
  obtain ⟨hfilled, hready, hholds, hpost⟩ := hnext
  have hlen : ((data.drop d.server.off).take n).length = n := by
    rw [List.length_take, List.length_drop]
    omega
  have hheld : d.server.stage.holds = true := by rw [hst]; rfl
  have hsent : msgs.length = d.sent := by
    have := h.filled
    rw [hst] at this
    exact this
  have hgoing : [] ∉ msgs := h.script.goes_on (.inl hst)
  have hdone : d.client.stage.done = false := h.not_done hheld
  have hposted := posted_eq (v := v) (u := d.server) (by rw [hst]; nofun) (show
    ({ d.server with stage := st, n := n, off := d.server.off + n } : Server).stage ≠ .post
    from hpost)
  generalize hm : (data.drop d.server.off).take n = m at hlen ⊢
  refine { h with
    read := ?_, whole := fun hmem => ?_, script := hscript msgs m hgoing hlen, filled := ?_,
    serverAt := hplace, clientAt := h.clientAt.grow hdone (List.prefix_append _ _),
    out := h.out.trans (List.prefix_append _ _),
    credit := fun hsup hdone => ?_, posted := ?_, room := fun _ => h.room hheld, ring := ?_,
    content := fun _ => ?_ }
  · rw [List.flatten_append, List.flatten_singleton, h.read, ← hm, ← List.take_add]
  · -- the end of the file
    rcases List.mem_append.1 hmem with hmem | hmem
    · exact absurd hmem hgoing
    · obtain rfl := List.mem_singleton.1 hmem
      obtain rfl : n = 0 := hlen.symm
      exact hend.1 rfl
  · rw [List.length_append, List.length_singleton, hsent, hfilled]
    rfl
  · have := h.credit hsup hdone
    rw [hheld] at this
    rw [hholds, hposted]
    exact this
  · rw [hposted]
    exact h.posted
  · have hring := (h.ring.update (by rw [hst]; exact h.room hheld)
      { d.shared.mesg (d.sent % v.nbuff) with
        mesg_data := Files.fwrite (d.shared.mesg (d.sent % v.nbuff)).mesg_data 0 m })
    rw [hst] at hring
    rw [hready]
    refine hring.congr fun j hj => message_append j ?_ m
    rw [hsent]
    exact hj
  · simp only [Shared.fill, Shared.put, Function.update_self]
    rw [← hlen, bytes_fill, ← hsent, message_length]

/-- What `read` returns is as long as it says. -/
theorem canRead.length {off n : ℕ} (h : canRead data off n) :
    ((data.drop off).take n).length = n := by
  obtain ⟨-, hin, -⟩ := h
  rw [List.length_take, List.length_drop]
  omega

/-- The length is set, and the message can be sent. -/
theorem Duo.Serving.readied (h : d.Serving v data msgs) (st : ServerStage) (m : Mesg)
    (hfill : d.server.stage.filled = true ∧ d.server.stage.ready = false)
    (hready : st.filled = true ∧ st.ready = true)
    (hscript : ({ d.server with stage := st } : Server).Script v msgs)
    (hplace : ({ d.server with stage := st } : Server).Place v d.sent)
    (hm : m.Has (message msgs d.sent)) :
    ({ d with
      server := { d.server with stage := st }
      shared := d.shared.put (d.sent % v.nbuff) m } : Duo).Serving v data msgs := by
  have hholds : ∀ {st : ServerStage}, st.filled = true → st.holds = true ∧ st ≠ .post := by
    intro st hst
    cases st <;> first | (cases hst; done) | exact ⟨rfl, nofun⟩
  have hposted := posted_eq (v := v) (u := d.server) (hholds hfill.1).2 (show
    ({ d.server with stage := st } : Server).stage ≠ .post from (hholds hready.1).2)
  have hroom := h.room (hholds hfill.1).1
  refine { h with
    script := hscript, serverAt := hplace, filled := ?_, credit := fun hsup hdone => ?_,
    posted := ?_, room := fun _ => hroom, ring := ?_, content := fun hlen => ?_ }
  · have := h.filled
    rw [hfill.1] at this
    rw [hready.1]
    exact this
  · have := h.credit hsup hdone
    rw [(hholds hfill.1).1] at this
    rw [(hholds hready.1).1, hposted]
    exact this
  · rw [hposted]
    exact h.posted
  · -- the slot behind the ones that are full is full now
    have hring := h.ring
    rw [hfill.2] at hring
    rw [hready.2]
    apply (hring.update hroom m).snoc
    rw [Bool.toNat_false, Nat.add_zero, Function.update_self]
    exact hm
  · obtain rfl : st = .len := hlen
    cases hready.2

/-- A server that ends leaves the buffers as they are. -/
theorem server_quit_shared {g : ℤ} {c : Option ℕ} {s s' : Shared} {u : Server} {x : Does Server}
    (hs : server_main v e g s u c = some (s', x)) (hx : x = .exit ∨ ∃ msg, x = .err_sys msg) :
    s' = s := by
  obtain ⟨stage, i, n, file, off, clisem, servsem⟩ := u
  have hgo : ∀ u, x ≠ .go u := by
    rintro u rfl
    rcases hx with hx | ⟨msg, hx⟩ <;> cases hx
  cases stage <;> simp only [server_main] at hs
  all_goals
    cases v <;> (try simp only [server, single_server, multi_server] at hs) <;>
      (try split at hs) <;> (try split_ifs at hs) <;> cases hs <;>
      first | rfl | exact absurd rfl (hgo _)

/-- The last message read is the one to be sent. -/
theorem Duo.Serving.message_eq {ms : List (List Char)} {m : List Char} (h : d.Serving v data msgs)
    (hfill : d.server.stage.filled = true) (hmsgs : msgs = ms ++ [m]) :
    message msgs d.sent = m := by
  have hlen := h.filled
  rw [hfill, hmsgs, List.length_append, List.length_singleton, Bool.toNat_true] at hlen
  rw [hmsgs, ← Nat.add_right_cancel hlen, message_length]

/-- `mesg_len = n`. -/
theorem Duo.Serving.lens (h : d.Serving v data msgs) (hst : d.server.stage = .len) :
    ({ d with
      server := { d.server with stage := .send }
      shared := d.shared.setLen (d.sent % v.nbuff) d.server.n } : Duo).Serving v data msgs := by
  have hfill : d.server.stage.filled = true ∧ d.server.stage.ready = false := by
    rw [hst]
    exact ⟨rfl, rfl⟩
  have hcontent := h.content hst
  have hscript := h.script
  have hplace := h.serverAt
  have hlen : ((d.server.n : ℕ) : ℤ) = (message msgs d.sent).length := by
    unfold Server.Script at hscript
    rw [hst] at hscript
    cases v <;> obtain ⟨ms, m, hmsgs, -, hn⟩ := hscript <;> rw [h.message_eq hfill.1 hmsgs]
    · rw [hn.1]
    · rw [hn]
  refine h.readied .send _ hfill ⟨rfl, rfl⟩ ?_ ?_ ⟨hlen, ?_⟩
  · unfold Server.Script at hscript ⊢
    rw [hst] at hscript
    cases v <;> exact hscript
  · unfold Server.Place at hplace ⊢
    rw [hst] at hplace
    cases v <;> exact hplace
  · rw [← Int.ofNat.inj hlen]
    exact hcontent

/-- `mesg_len = 0`, after the end of the file. -/
theorem Duo.Serving.lasts (h : d.Serving .single data msgs) (hst : d.server.stage = .last) :
    ({ d with
      server := { d.server with stage := .lastsend }
      shared := d.shared.setLen 0 0 } : Duo).Serving .single data msgs := by
  have hfill : d.server.stage.filled = true ∧ d.server.stage.ready = false := by
    rw [hst]
    exact ⟨rfl, rfl⟩
  have hscript := h.script
  unfold Server.Script at hscript
  rw [hst] at hscript
  have hempty : message msgs d.sent = [] := by
    obtain ⟨ms, hmsgs, -⟩ := hscript
    exact h.message_eq hfill.1 hmsgs
  have hslot : d.sent % Version.single.nbuff = 0 := Nat.mod_one _
  have hstep := h.readied .lastsend { d.shared.mesg 0 with mesg_len := 0 } hfill
    ⟨rfl, rfl⟩ hscript trivial (by rw [hempty]; exact ⟨rfl, by simp [Mesg.bytes]⟩)
  rw [hslot] at hstep
  exact hstep

/-- What the server with one buffer does in its own code, once the file is open. -/
theorem single_go {g : ℤ} {c : Option ℕ} {s s' : Shared} {u u' : Server}
    (hs : server_main .single e g s u c = some (s', .go u')) (hscript : u.Script .single msgs)
    (hfile : u.file = some data) :
    (u.stage = .read ∧ ∃ n, c = some n ∧ canRead data u.off n ∧
      s' = s.fill 0 ((data.drop u.off).take n) ∧
      u' = { u with stage := if 0 < n then .len else .last, n := n, off := u.off + n }) ∨
    (u.stage = .len ∧ s' = s.setLen 0 u.n ∧ u' = { u with stage := .send }) ∨
    (u.stage = .last ∧ s' = s.setLen 0 0 ∧ u' = { u with stage := .lastsend }) ∨
    (u.stage = .detach ∧ s' = s ∧ u' = { u with stage := .close1 }) := by
  obtain ⟨stage, i, n, file, off, clisem, servsem⟩ := u
  obtain rfl : file = some data := hfile
  cases stage <;> first | exact hscript.elim | skip
  all_goals simp only [server_main, server, single_server] at hs
  case read =>
    cases c with
    | none => cases hs
    | some n =>
      simp only at hs
      by_cases hcan : canRead data off n
      · rw [if_pos hcan] at hs
        cases hs
        exact .inl ⟨rfl, n, rfl, hcan, rfl, rfl⟩
      · rw [if_neg hcan] at hs
        cases hs
  case len => cases hs; exact .inr (.inl ⟨rfl, rfl, rfl⟩)
  case last => cases hs; exact .inr (.inr (.inl ⟨rfl, rfl, rfl⟩))
  case detach => cases hs; exact .inr (.inr (.inr ⟨rfl, rfl, rfl⟩))
  all_goals cases hs

/-- What the server with several does. -/
theorem multi_go {nbuff : ℕ} {g : ℤ} {c : Option ℕ} {s s' : Shared} {u u' : Server}
    (hs : server_main (.multi nbuff) e g s u c = some (s', .go u'))
    (hscript : u.Script (.multi nbuff) msgs) (hfile : u.file = some data) :
    (u.stage = .post ∧ nbuff ≤ u.i ∧ s' = s ∧ u' = { u with stage := .wait, i := 0 }) ∨
    (u.stage = .read ∧ ∃ n, c = some n ∧ canRead data u.off n ∧
      s' = s.fill u.i ((data.drop u.off).take n) ∧
      u' = { u with stage := .len, n := n, off := u.off + n }) ∨
    (u.stage = .len ∧ s' = s.setLen u.i u.n ∧ u' = { u with stage := .send }) ∨
    (u.stage = .next ∧ u.n ≠ 0 ∧ s' = s ∧
      u' = { u with stage := .wait, i := if u.i + 1 < nbuff then u.i + 1 else 0 }) ∨
    (u.stage = .next ∧ u.n = 0 ∧ s' = s ∧ u' = { u with stage := .detach, i := 0 }) ∨
    (u.stage = .detach ∧ s' = s ∧ u' = { u with stage := .poll }) ∨
    (u.stage = .poll ∧ s' = s ∧ (u' = u ∨ g = 0 ∧ u' = { u with stage := .close1 })) := by
  obtain ⟨stage, i, n, file, off, clisem, servsem⟩ := u
  obtain rfl : file = some data := hfile
  cases stage <;> first | exact hscript.elim | skip
  all_goals simp only [server_main, server, multi_server] at hs
  case post =>
    split_ifs at hs with hi <;> cases hs
    exact .inl ⟨rfl, Nat.not_lt.1 hi, rfl, rfl⟩
  case read =>
    cases c with
    | none => cases hs
    | some n =>
      simp only at hs
      by_cases hcan : canRead data off n
      · rw [if_pos hcan] at hs
        cases hs
        exact .inr (.inl ⟨rfl, n, rfl, hcan, rfl, rfl⟩)
      · rw [if_neg hcan] at hs
        cases hs
  case len => cases hs; exact .inr (.inr (.inl ⟨rfl, rfl, rfl⟩))
  case next =>
    by_cases hzero : n = 0
    · rw [if_pos hzero] at hs
      cases hs
      exact .inr (.inr (.inr (.inr (.inl ⟨rfl, hzero, rfl, rfl⟩))))
    · rw [if_neg hzero] at hs
      cases hs
      exact .inr (.inr (.inr (.inl ⟨rfl, hzero, rfl, rfl⟩)))
  case detach => cases hs; exact .inr (.inr (.inr (.inr (.inr (.inl ⟨rfl, rfl, rfl⟩)))))
  case poll =>
    split_ifs at hs with hg <;> cases hs
    · exact .inr (.inr (.inr (.inr (.inr (.inr ⟨rfl, rfl, .inl rfl⟩)))))
    · exact .inr (.inr (.inr (.inr (.inr (.inr ⟨rfl, rfl, .inr ⟨by simpa using hg, rfl⟩⟩)))))
  all_goals cases hs

/-- A statement of the server with one buffer. -/
theorem Duo.Serving.single_step {g : ℤ} {c : Option ℕ} {s : Shared} {u : Server}
    (h : d.Serving .single data msgs)
    (hs : server_main .single e g d.shared d.server c = some (s, .go u)) :
    ∃ msgs', ({ d with server := u, shared := s } : Duo).Serving .single data msgs' ∧
      Adds c d.server.stage msgs msgs' := by
  have hslot : d.sent % Version.single.nbuff = 0 := Nat.mod_one _
  have hscript := h.script
  unfold Server.Script at hscript
  rcases single_go hs h.script h.file with ⟨hst, n, rfl, hcan, rfl, rfl⟩ | ⟨hst, rfl, rfl⟩ |
    ⟨hst, rfl, rfl⟩ | ⟨hst, rfl, rfl⟩
  · -- the loop ends with the first empty message
    have hread := h.reads (if 0 < n then .len else .last) hst hcan
    rw [hslot] at hread
    refine ⟨_, hread ?_ ?_ trivial, .inr ⟨hst, n, _, rfl, hcan.length, rfl⟩⟩
    · split_ifs <;> exact ⟨rfl, rfl, rfl, nofun⟩
    · rintro ms m hms rfl
      by_cases hpos : 0 < m.length
      · rw [if_pos hpos]
        exact ⟨ms, m, rfl, hms, rfl, List.ne_nil_of_length_pos hpos⟩
      · rw [if_neg hpos]
        obtain rfl : m = [] := List.eq_nil_of_length_eq_zero (by omega)
        exact ⟨ms, rfl, hms⟩
  · -- the length is stored
    have hlen := h.lens hst
    rw [hslot] at hlen
    exact ⟨msgs, hlen, .inl rfl⟩
  · exact ⟨msgs, h.lasts hst, .inl rfl⟩
  · rw [hst] at hscript
    exact ⟨msgs, h.onward (by rw [hst]; rfl) rfl rfl rfl (posted_eq (by rw [hst]; nofun) nofun)
      hscript trivial, .inl rfl⟩

/-- A statement of the server with several. At the end of its loop over the buffers it has
posted as many as there are. -/
theorem Duo.Serving.multi_step {nbuff : ℕ} {g : ℤ} {c : Option ℕ} {s : Shared} {u : Server}
    (h : d.Serving (.multi nbuff) data msgs) (hn : 0 < nbuff)
    (hs : server_main (.multi nbuff) e g d.shared d.server c = some (s, .go u))
    (hpost : d.server.stage = .post → d.server.i ≤ nbuff) :
    ∃ msgs', ({ d with server := u, shared := s } : Duo).Serving (.multi nbuff) data msgs' ∧
      Adds c d.server.stage msgs msgs' := by
  have hscript := h.script
  have hplace := h.serverAt
  unfold Server.Script at hscript
  unfold Server.Place at hplace
  -- the steps that change nothing but where the server is
  have honward : ∀ {u' : Server} {st : ServerStage}, d.server.stage = st →
      st.holds = false ∧ st ≠ .post → u'.stage.holds = false ∧ u'.stage ≠ .post →
      u'.file = d.server.file → u'.off = d.server.off → u'.Script (.multi nbuff) msgs →
      u'.Place (.multi nbuff) d.sent →
      ∃ msgs', ({ d with server := u' } : Duo).Serving (.multi nbuff) data msgs' ∧
        Adds c d.server.stage msgs msgs' :=
    fun hst hidle hidle' hfile hoff hscript hplace => ⟨msgs, h.onward (by rw [hst]; exact hidle.1)
      hidle'.1 hfile hoff (posted_eq (by rw [hst]; exact hidle.2) hidle'.2) hscript hplace,
      .inl rfl⟩
  rcases multi_go hs h.script h.file with ⟨hst, hi, rfl, rfl⟩ | ⟨hst, n, rfl, hcan, rfl, rfl⟩ |
    ⟨hst, rfl, rfl⟩ | ⟨hst, hne, rfl, rfl⟩ | ⟨hst, hzero, rfl, rfl⟩ | ⟨hst, rfl, rfl⟩ |
    ⟨hst, rfl, rfl | ⟨-, rfl⟩⟩
  all_goals rw [hst] at hscript hplace
  · -- nothing has been sent yet
    have hsent := h.filled
    rw [show msgs = [] from hscript, hst] at hsent
    have hzero : d.sent = 0 := hsent.symm
    refine ⟨msgs, h.onward (by rw [hst]; rfl) rfl rfl rfl ?_ ?_ ?_, .inl rfl⟩
    · have hle := hpost hst
      simp only [Server.posted, hst, if_true, Version.nbuff] at hle ⊢
      rw [if_neg nofun]
      omega
    · rw [show msgs = [] from hscript]
      exact List.not_mem_nil
    · rw [hzero]
      exact (Nat.zero_mod nbuff).symm
  · -- a buffer is filled
    have hread := h.reads .len hst hcan ⟨rfl, rfl, rfl, nofun⟩
      (fun ms m hms hlen => ⟨ms, m, rfl, hms, hlen⟩) hplace
    rw [Version.nbuff, ← show d.server.i = d.sent % nbuff from hplace] at hread
    exact ⟨_, hread, .inr ⟨hst, n, _, rfl, hcan.length, rfl⟩⟩
  · have hlen := h.lens hst
    rw [Version.nbuff, ← show d.server.i = d.sent % nbuff from hplace] at hlen
    exact ⟨msgs, hlen, .inl rfl⟩
  · obtain ⟨ms, m, rfl, hms, hlen⟩ := hscript
    -- the next buffer; the message was not the empty one
    obtain ⟨k, hk, hi⟩ := hplace
    refine honward hst ⟨rfl, nofun⟩ ⟨rfl, nofun⟩ rfl rfl ?_ ?_
    · intro hmem
      rcases List.mem_append.1 hmem with hmem | hmem
      · exact hms hmem
      · obtain rfl := List.mem_singleton.1 hmem
        exact hne hlen.symm
    · rw [hk]
      exact Ring.next_mod hn hi
  · obtain ⟨ms, m, rfl, hms, hlen⟩ := hscript
    obtain rfl : m = [] := List.eq_nil_of_length_eq_zero (hlen.trans hzero)
    exact honward hst ⟨rfl, nofun⟩ ⟨rfl, nofun⟩ rfl rfl ⟨ms, rfl, hms⟩ trivial
  · exact honward hst ⟨rfl, nofun⟩ ⟨rfl, nofun⟩ rfl rfl hscript trivial
  · exact ⟨msgs, h, .inl rfl⟩
  · exact honward hst ⟨rfl, nofun⟩ ⟨rfl, nofun⟩ rfl rfl hscript trivial

/-- A statement of the server. -/
theorem Duo.Serving.server_go {g : ℤ} {c : Option ℕ} {s : Shared} {u : Server}
    (h : d.Serving v data msgs) (hn : 0 < v.nbuff)
    (hs : server_main v e g d.shared d.server c = some (s, .go u))
    (hpost : d.server.stage = .post → d.server.i ≤ v.nbuff) :
    ∃ msgs', ({ d with server := u, shared := s } : Duo).Serving v data msgs' ∧
      Adds c d.server.stage msgs msgs' := by
  cases v with
  | single => exact h.single_step hs
  | multi nbuff => exact h.multi_step hn hs hpost

/-! ## The server's routines -/

/-- A server that goes on is read by a client that goes on. -/
theorem Duo.Serving.not_done_of_going (h : d.Serving v data msgs) (hgoing : [] ∉ msgs) :
    d.client.stage.done = false := by
  by_contra hdone
  obtain ⟨hmsgs, -⟩ := h.clientAt.done (by simpa using hdone)
  rw [hmsgs] at hgoing
  simp at hgoing

/-- Where the server waits for a buffer. -/
theorem Server.waits {u : Server} {id : ℕ} (hscript : u.Script v msgs)
    (hr : u.routine = some (.sem_wait SEMKEY2 id)) :
    u.stage = .wait ∧ server_return v u 0 = { u with stage := .read } ∧ [] ∉ msgs := by
  obtain ⟨stage, i, n, file, off, clisem, servsem⟩ := u
  cases stage <;> first | (cases hr; done) | skip
  all_goals cases v <;> first | exact hscript.elim | exact ⟨rfl, rfl, hscript⟩

/-- `sem_wait (servsem)`: the server takes a buffer. -/
theorem Duo.Serving.server_waited {id cli serv : ℕ} (h : d.Serving v data msgs)
    (hsup : d.sup = true) (hr : d.server.routine = some (.sem_wait SEMKEY2 id))
    (hcli : d.cliKnown → cli = d.cli) (hserv : d.servKnown → serv + 1 = d.serv) :
    ({ d with server := server_return v d.server 0, cli := cli, serv := serv } : Duo).Serving v data
      msgs := by
  obtain ⟨hst, hret, hgoing⟩ := Server.waits h.script hr
  have hdone := h.not_done_of_going hgoing
  have hcup := h.there hsup hdone
  have hposted : d.server.posted v = v.nbuff := by simp [Server.posted, hst]
  have hposted' : ({ d.server with stage := .read } : Server).posted v = v.nbuff := by
    simp [Server.posted]
  have hcredit := h.credit hsup hdone
  rw [hst, hposted, ← hserv (.inr ⟨hcup, hsup, .inl hdone⟩)] at hcredit
  -- the wait has taken what the client gave back
  have hfilled := h.filled
  have hring := h.ring
  have hplace := h.serverAt
  rw [hst] at hfilled hring
  rw [hret]
  have hcounts := h.counts cli d.serv hcli fun _ => rfl
  refine { hcounts with
    script := ?_, filled := hfilled, serverAt := ?_, credit := fun _ _ => ?_, posted := ?_,
    room := fun _ => ?_, ring := hring, content := nofun }
  · cases v <;> exact hgoing
  · unfold Server.Place at hplace ⊢
    rw [hst] at hplace
    cases v <;> exact hplace
  · rw [hposted']
    simp only [ServerStage.holds, Bool.toNat_false, Bool.toNat_true] at hcredit ⊢
    omega
  · rw [hposted', ← hposted]
    exact h.posted
  · simp only
    omega

/-- Where the server sends a message, and where it goes on. -/
theorem Server.sends {u : Server} {id sent : ℕ} (hscript : u.Script v msgs)
    (hplace : u.Place v sent) (hr : u.routine = some (.sem_signal SEMKEY1 id)) :
    ∃ st, server_return v u 0 = { u with stage := st } ∧
      (u.stage.filled = true ∧ u.stage.ready = true) ∧ st.holds = false ∧
      (u.stage ≠ .post ∧ st ≠ .post) ∧ ({ u with stage := st } : Server).Script v msgs ∧
      ({ u with stage := st } : Server).Place v (sent + 1) := by
  obtain ⟨stage, i, n, file, off, clisem, servsem⟩ := u
  cases stage <;> first | (cases hr; done) | skip
  all_goals cases v <;> first | exact hscript.elim | skip
  case lastsend.single =>
    exact ⟨.detach, rfl, ⟨rfl, rfl⟩, rfl, ⟨nofun, nofun⟩, hscript, trivial⟩
  case send.single =>
    refine ⟨.wait, rfl, ⟨rfl, rfl⟩, rfl, ⟨nofun, nofun⟩, ?_, trivial⟩
    obtain ⟨ms, m, rfl, hms, -, hne⟩ := hscript
    intro hmem
    rcases List.mem_append.1 hmem with hmem | hmem
    · exact hms hmem
    · exact hne (List.mem_singleton.1 hmem).symm
  case send.multi =>
    exact ⟨.next, rfl, ⟨rfl, rfl⟩, rfl, ⟨nofun, nofun⟩, hscript, sent, rfl, hplace⟩

/-- `sem_signal (clisem)`: the next message is sent. -/
theorem Duo.Serving.server_signalled {id cli serv : ℕ} (h : d.Serving v data msgs)
    (hsup : d.sup = true) (hr : d.server.routine = some (.sem_signal SEMKEY1 id))
    (hcli : d.cliKnown → cli = d.cli + 1) (hserv : d.servKnown → serv = d.serv) :
    ({ d with
      server := server_return v d.server 0, cli := cli, serv := serv, sent := d.sent + 1 } :
      Duo).Serving v data msgs := by
  obtain ⟨st, hret, hready, hidle, hpost, hscript, hplace⟩ := Server.sends h.script h.serverAt hr
  -- a server that signals has a message to send
  have hholds : d.server.stage.holds = true := by
    by_contra hno
    rw [(ServerStage.idle (by simpa using hno)).1] at hready
    cases hready.1
  have hdone := h.not_done hholds
  have hcup := h.there hsup hdone
  have hposted : ({ d.server with stage := st } : Server).posted v = d.server.posted v := by
    simp [Server.posted, hpost]
  have hle := h.le
  have hexact := h.exact hsup hdone
  have hcredit := h.credit hsup hdone
  have hfilled := h.filled
  have hring := h.ring
  rw [hholds] at hcredit
  rw [hready.1] at hfilled
  rw [hready.2] at hring
  rw [hret]
  have hcli := hcli (.inl ⟨hcup, hdone⟩)
  have hserv := hserv (.inr ⟨hcup, hsup, .inl hdone⟩)
  have hflags := ServerStage.idle hidle
  refine { h with
    script := hscript, filled := ?_, serverAt := hplace,
    clientAt := h.clientAt.grow hdone (List.prefix_rfl), le := ?_, tokens := fun _ _ => ?_,
    exact := fun _ _ => ?_, credit := fun _ _ => ?_, posted := ?_, room := ?_, ring := ?_,
    content := ?_ }
  · rw [hflags.1]
    exact hfilled
  · simp only
    omega
  · simp only
    omega
  · simp only
    omega
  · rw [hidle, hposted]
    simp only [Bool.toNat_false, Bool.toNat_true] at hcredit ⊢
    omega
  · rw [hposted]
    exact h.posted
  · intro hholds
    rw [hidle] at hholds
    cases hholds
  · rw [hflags.2]
    exact hring
  · rintro rfl
    cases hidle

/-- `sem_signal (servsem)`, for a buffer that is free. -/
theorem Duo.Serving.server_posted {id cli serv : ℕ} (h : d.Serving v data msgs)
    (hsup : d.sup = true) (hr : d.server.routine = some (.sem_signal SEMKEY2 id))
    (hcli : d.cliKnown → cli = d.cli) (hserv : d.servKnown → serv = d.serv + 1)
    (hle : serv ≤ SEMVMX) :
    ({ d with server := server_return v d.server 0, cli := cli, serv := serv } : Duo).Serving v data
      msgs := by
  have hst : d.server.stage = .post := by
    revert hr
    unfold Server.routine
    cases d.server.stage <;> intro hr <;> first | rfl | cases hr
  obtain ⟨nbuff, rfl⟩ : ∃ nbuff, v = .multi nbuff := by
    have hscript := h.script
    unfold Server.Script at hscript
    rw [hst] at hscript
    cases v with
    | single => exact hscript.elim
    | multi nbuff => exact ⟨nbuff, rfl⟩
  have hmsgs : msgs = [] := by
    have hscript := h.script
    unfold Server.Script at hscript
    rw [hst] at hscript
    exact hscript
  have hdone := h.not_done_of_going (by rw [hmsgs]; exact List.not_mem_nil)
  have hcup := h.there hsup hdone
  have hret : server_return (.multi nbuff) d.server 0 =
      { d.server with stage := .post, i := d.server.i + 1 } := by
    simp [server_return, multi_return, hst]
  have hfilled := h.filled
  have hout := h.out
  have hring := h.ring
  have hcredit := h.credit hsup hdone
  rw [hst] at hfilled hring hcredit
  -- nothing has come back
  have hnil : d.shared.out = [] := by
    rw [hmsgs] at hout
    exact List.prefix_nil.1 hout
  have hback : d.client.stage.returns.toNat = 0 := by
    have hat := h.clientAt
    unfold Client.Place at hat
    rw [hnil] at hat
    cases hc : d.client.stage <;> first | rfl | skip
    rw [hc] at hat
    obtain ⟨k, hk, -⟩ := hat
    cases hk
  rw [hmsgs] at hfilled
  rw [hret]
  have hserv := hserv (.inr ⟨hcup, hsup, .inl hdone⟩)
  have hcounts := h.counts cli d.serv hcli fun _ => rfl
  simp only [ServerStage.holds, ServerStage.filled, Bool.toNat_false, Server.posted, hst, if_true,
    List.length_nil, hnil] at hcredit hfilled
  refine { hcounts with
    script := hmsgs, filled := by rw [hmsgs]; exact hfilled, serverAt := trivial,
    credit := fun _ _ => ?_, posted := ?_, room := nofun, ring := hring, content := nofun }
  · simp only [ServerStage.holds, Bool.toNat_false, Server.posted, if_true, hnil, List.length_nil]
    omega
  · simp only [Server.posted, if_true]
    omega

/-- `sem_close`. -/
theorem Duo.Serving.server_closed {key x : ℤ} {id cli serv : ℕ} (h : d.Serving v data msgs)
    (hr : d.server.routine = some (.sem_close key id)) (hcli : d.cliKnown → cli = d.cli)
    (hserv : d.servKnown → serv = d.serv) :
    ({ d with server := server_return v d.server x, cli := cli, serv := serv } : Duo).Serving v data
      msgs := by
  have hscript := h.script
  have hcounts := h.counts cli serv hcli hserv
  obtain ⟨st, hidle, hret, hidle', hne, hscript', hplace⟩ : ∃ st, d.server.stage.holds = false ∧
      server_return v d.server x = { d.server with stage := st } ∧ st.holds = false ∧
      (d.server.stage ≠ .post ∧ st ≠ .post) ∧
      ({ d.server with stage := st } : Server).Script v msgs ∧
      ({ d.server with stage := st } : Server).Place v d.sent := by
    generalize d.server = u at hr hscript ⊢
    obtain ⟨stage, i, n, file, off, clisem, servsem⟩ := u
    cases stage <;> first | (cases hr; done) | skip
    case close1 => exact ⟨.close2, rfl, rfl, rfl, ⟨nofun, nofun⟩, by cases v <;> exact hscript,
      by cases v <;> trivial⟩
    case close2 => exact ⟨.exit, rfl, rfl, rfl, ⟨nofun, nofun⟩, by cases v <;> exact hscript,
      by cases v <;> trivial⟩
  rw [hret]
  exact hcounts.onward hidle hidle' rfl rfl (posted_eq hne.1 hne.2) hscript' hplace

end Serving

end UnixNetProg.SharedMemory

/-
The client's side of the transfer.

What the client takes from a buffer is the message the server put there, and what
it writes out is the next one. With the server's steps this makes every step:
`Duo.Serving.step`.
-/
import UnixNetProg.SharedMemory.Serving

set_option autoImplicit false

namespace UnixNetProg.SharedMemory

open UnixNetProg.SysV UnixNetProg.Semaphore UnixNetProg.Runs

section Transfer

variable {v : Version} {e : Env} {data : List Char} {msgs : List (List Char)} {d d' : Duo}
  {a : Act User (Option ℕ)}

/-! ## The client -/

/-- What a client that has asked for the file does in its own code. -/
theorem client_late_go {c : Option ℕ} {s s' : Shared} {u u' : Client}
    (hs : client_main v e s u c = some (s', .go u')) (hlate : u.stage.late = true) :
    (u.stage = .len ∧ s' = s ∧
      u' = { u with
        stage := if (s.mesg u.i).mesg_len ≤ 0 then .alldone else .write
        n := (s.mesg u.i).mesg_len }) ∨
    (u.stage = .write ∧ s' = { s with out := s.out ++ [(s.mesg u.i).bytes u.n.toNat] } ∧
      u' = { u with stage := .signal }) ∨
    (u.stage = .next ∧ s' = s ∧
      u' = { u with stage := .wait, i := if u.i + 1 < v.nbuff then u.i + 1 else 0 }) ∨
    (u.stage.done = true ∧ u'.stage.done = true ∧ s'.mesg = s.mesg ∧ s'.out = s.out) := by
  obtain ⟨stage, i, n, clisem, servsem⟩ := u
  cases stage <;> first | (cases hlate; done) | skip
  all_goals simp only [client_main] at hs
  case len => cases hs; exact .inl ⟨rfl, rfl, rfl⟩
  case write =>
    cases c with
    | none => cases hs
    | some k => cases hs; exact .inr (.inl ⟨rfl, rfl, rfl⟩)
  case next => cases hs; exact .inr (.inr (.inl ⟨rfl, rfl, rfl⟩))
  case wait | signal | close1 | close2 | exit => cases hs
  case alldone =>
    split_ifs at hs <;> cases hs
    exact .inr (.inr (.inr ⟨rfl, rfl, rfl, rfl⟩))
  case detach =>
    split_ifs at hs <;> cases hs <;> exact .inr (.inr (.inr ⟨rfl, rfl, rfl, rfl⟩))

/-- A client that has asked for the file ends out of its loop. -/
theorem client_quit_late {c : Option ℕ} {s s' : Shared} {u : Client} {x : Does Client}
    (hs : client_main v e s u c = some (s', x)) (hx : x = .exit ∨ ∃ msg, x = .err_sys msg)
    (hlate : u.stage.late = true) (hc : c ≠ none) : s' = s ∧ u.stage.done = true := by
  obtain ⟨stage, i, n, clisem, servsem⟩ := u
  have hgo : ∀ u, x ≠ .go u := by
    rintro u rfl
    rcases hx with hx | ⟨msg, hx⟩ <;> cases hx
  cases stage <;> first | (cases hlate; done) | skip
  all_goals
    simp only [client_main] at hs
    (try split at hs) <;> (try split_ifs at hs) <;> cases hs <;>
      first | exact ⟨rfl, rfl⟩ | exact absurd rfl (hgo _) | exact absurd rfl hc | skip
  all_goals rcases hx with hx | ⟨msg, hx⟩ <;> cases hx

/-- The message the client has taken is in the buffer it looks at. -/
theorem Duo.Serving.message_taken (h : d.Serving v data msgs)
    (hreads : d.client.stage.reads = true) :
    msgs[d.shared.out.length]? = some (message msgs d.shared.out.length) ∧
      d.client.i = d.shared.out.length % v.nbuff ∧
      (d.shared.mesg d.client.i).Has (message msgs d.shared.out.length) := by
  have hle := h.le
  have hfilled := h.filled
  rw [hreads, Bool.toNat_true] at hle
  have hi : d.client.i = d.shared.out.length % v.nbuff := by
    have hat := h.clientAt
    revert hreads hat
    unfold Client.Place
    cases d.client.stage <;> intro hreads hat <;> first | (cases hreads; done) | skip
    · exact hat
    · exact hat.1
  have hlt : d.shared.out.length < msgs.length := by omega
  refine ⟨?_, hi, ?_⟩
  · rw [message, List.getElem?_eq_getElem hlt, Option.getD_some]
  · rw [hi]
    exact h.ring _ (Nat.le_refl _) (by omega)

/-- A step of the client that takes no message and writes none. -/
theorem Duo.Serving.client_onward {u : Client} {s : Shared} (h : d.Serving v data msgs)
    (hmesg : s.mesg = d.shared.mesg) (hout : s.out = d.shared.out)
    (hdone : u.stage.done = d.client.stage.done) (hreads : u.stage.reads = d.client.stage.reads)
    (hreturns : u.stage.returns = d.client.stage.returns)
    (hplace : u.Place v msgs d.shared.out d.sent) :
    ({ d with client := u, shared := s } : Duo).Serving v data msgs := by
  refine { h with
    clientAt := ?_, out := ?_, solid := ?_, le := ?_, there := ?_, tokens := ?_, exact := ?_,
    credit := ?_, room := ?_, ring := ?_, content := ?_ }
  all_goals simp only [hmesg, hout, hdone, hreads, hreturns]
  · exact hplace
  · exact h.out
  · exact h.solid
  · exact h.le
  · exact h.there
  · exact h.tokens
  · exact h.exact
  · exact h.credit
  · exact h.room
  · exact h.ring
  · exact h.content

/-- The client finds the empty message. -/
theorem Duo.Serving.client_finds (h : d.Serving v data msgs) (hst : d.client.stage = .len)
    (hempty : message msgs d.shared.out.length = []) (n : ℤ) :
    ({ d with client := { d.client with stage := .alldone, n := n } } : Duo).Serving v data
      msgs := by
  have hreads : d.client.stage.reads = true := by
    rw [hst]
    rfl
  obtain ⟨hget, -, -⟩ := h.message_taken hreads
  rw [hempty] at hget
  have hlast := h.script.last hget
  have hle := h.le
  have hfilled := h.filled
  rw [hreads, Bool.toNat_true] at hle
  -- an empty message is the last one
  have hmsgs : msgs = d.shared.out ++ [[]] := by
    obtain ⟨rest, hrest⟩ := h.out
    rw [← hrest] at hget hlast ⊢
    rw [List.length_append] at hlast
    obtain ⟨m, rfl⟩ := List.length_eq_one_iff.1 (by omega : rest.length = 1)
    rw [List.getElem?_concat_length] at hget
    cases hget
    rfl
  exact { h with
    clientAt := ⟨hmsgs, by simp only; omega⟩
    le := by simp only [ClientStage.reads, Bool.toNat_false]; omega
    there := nofun
    tokens := nofun
    exact := nofun
    credit := nofun }

/-- The client writes its message out. -/
theorem Duo.Serving.client_writes (h : d.Serving v data msgs) (hst : d.client.stage = .write) :
    ({ d with
      client := { d.client with stage := .signal }
      shared := { d.shared with
        out := d.shared.out ++ [(d.shared.mesg d.client.i).bytes d.client.n.toNat] } } :
      Duo).Serving v data msgs := by
  have hreads : d.client.stage.reads = true := by
    rw [hst]
    rfl
  obtain ⟨hget, hi, -, hbytes⟩ := h.message_taken hreads
  obtain ⟨m, hm, hne, hn⟩ : ∃ m, msgs[d.shared.out.length]? = some m ∧ m ≠ [] ∧
      d.client.n = m.length := by
    have hat := h.clientAt
    unfold Client.Place at hat
    rw [hst] at hat
    exact hat.2
  obtain rfl : m = message msgs d.shared.out.length := Option.some.inj (hm.symm.trans hget)
  rw [hn, Int.toNat_natCast, hbytes]
  generalize message msgs d.shared.out.length = m at hget hne
  have hdone : d.client.stage.done = false := by
    rw [hst]
    rfl
  have hle := h.le
  rw [hreads, Bool.toNat_true] at hle
  refine { h with
    clientAt := ⟨d.shared.out.length, by simp, hi⟩, out := ?_, solid := fun hmem => ?_, le := ?_,
    there := fun hsup _ => h.there hsup hdone, tokens := fun hcup _ => ?_,
    exact := fun hsup _ => ?_, credit := fun hsup _ => ?_, room := fun hholds => ?_, ring := ?_ }
  · -- what is written is the next message
    obtain ⟨rest, hrest⟩ := h.out
    rw [← hrest, List.getElem?_append_right (Nat.le_refl _), Nat.sub_self] at hget
    cases rest with
    | nil => cases hget
    | cons m' rest =>
      obtain rfl : m' = m := Option.some.inj hget
      exact ⟨rest, by rw [← hrest, List.append_assoc]; rfl⟩
  · rcases List.mem_append.1 hmem with hmem | hmem
    · exact h.solid hmem
    · exact hne (List.mem_singleton.1 hmem).symm
  · simp only [List.length_append, List.length_singleton, ClientStage.reads, Bool.toNat_false]
    omega
  · have := h.tokens hcup hdone
    rw [hreads, Bool.toNat_true] at this
    simp only [List.length_append, List.length_singleton, ClientStage.reads, Bool.toNat_false]
    omega
  · have := h.exact hsup hdone
    rw [hreads, Bool.toNat_true] at this
    simp only [List.length_append, List.length_singleton, ClientStage.reads, Bool.toNat_false]
    omega
  · have := h.credit hsup hdone
    rw [hst] at this
    simp only [List.length_append, List.length_singleton, ClientStage.returns, Bool.toNat_false,
      Bool.toNat_true] at this ⊢
    omega
  · have := h.room hholds
    simp only [List.length_append, List.length_singleton]
    omega
  · have hring := h.ring.tail
    rw [List.length_append, List.length_singleton]
    exact hring

/-- A statement of the client. -/
theorem Duo.Serving.client_go {c : Option ℕ} {s : Shared} {u : Client} (h : d.Serving v data msgs)
    (hn : 0 < v.nbuff) (hs : client_main v e d.shared d.client c = some (s, .go u)) :
    ({ d with client := u, shared := s } : Duo).Serving v data msgs := by
  have hflags : ∀ {st : ClientStage}, d.client.stage = st → st.done = d.client.stage.done ∧
      st.reads = d.client.stage.reads ∧ st.returns = d.client.stage.returns := by
    rintro st rfl
    exact ⟨rfl, rfl, rfl⟩
  have hat := h.clientAt
  rcases client_late_go hs h.clientAt.late with ⟨hst, rfl, rfl⟩ | ⟨hst, rfl, rfl⟩ |
    ⟨hst, rfl, rfl⟩ | ⟨hdone, hdone', hmesg, hout⟩
  · obtain ⟨hget, hi, hlen, -⟩ := h.message_taken (by rw [hst]; rfl)
    by_cases hempty : message msgs d.shared.out.length = []
    · -- the empty message
      have hle : (d.shared.mesg d.client.i).mesg_len ≤ 0 := by
        rw [hlen, hempty]
        rfl
      rw [if_pos hle]
      exact h.client_finds hst hempty _
    · have hpos := List.length_pos_iff.2 hempty
      rw [if_neg (by rw [hlen]; omega)]
      obtain ⟨hd, hr, hb⟩ := hflags hst
      exact h.client_onward rfl rfl hd hr hb ⟨hi, _, hget, hempty, hlen⟩
  · exact h.client_writes hst
  · unfold Client.Place at hat
    rw [hst] at hat
    obtain ⟨k, hk, hi⟩ := hat
    obtain ⟨hd, hr, hb⟩ := hflags hst
    apply h.client_onward rfl rfl hd hr hb
    simp only [Client.Place]
    rw [hk]
    exact Ring.next_mod hn hi
  · -- the client is leaving
    have hnone : ∀ {st : ClientStage}, st.done = true → st.reads = false ∧ st.returns = false := by
      intro st hst
      cases st <;> first | exact ⟨rfl, rfl⟩ | cases hst
    refine h.client_onward hmesg hout (hdone'.trans hdone.symm)
      ((hnone hdone').1.trans (hnone hdone).1.symm) ((hnone hdone').2.trans (hnone hdone).2.symm) ?_
    have hat := h.clientAt.done hdone
    unfold Client.Place
    cases hst : u.stage <;> rw [hst] at hdone' <;> first | exact hat | cases hdone'

/-- `sem_wait (clisem)`: the client takes a message. -/
theorem Duo.Serving.client_waited {id cli serv : ℕ} (h : d.Serving v data msgs)
    (hcup : d.cup = true) (hr : d.client.routine = some (.sem_wait SEMKEY1 id))
    (hcli : d.cliKnown → cli + 1 = d.cli) (hserv : d.servKnown → serv = d.serv) :
    ({ d with client := client_return d.client 0, cli := cli, serv := serv } : Duo).Serving v data
      msgs := by
  have hat := h.clientAt
  unfold Client.Place at hat
  obtain ⟨hst, hret⟩ : d.client.stage = .wait ∧
      client_return d.client 0 = { d.client with stage := .len } := by
    unfold Client.routine at hr
    unfold client_return
    cases hst : d.client.stage <;> rw [hst] at hr hat <;>
      first | exact ⟨rfl, rfl⟩ | exact hat.elim | cases hr
  rw [hst] at hat
  have hdone : d.client.stage.done = false := by
    rw [hst]
    rfl
  have hcli := hcli (.inl ⟨hcup, hdone⟩)
  -- the count of `clisem` goes down, and one more message is being read
  have htokens := h.tokens hcup hdone
  have hcounts := h.counts d.cli serv (fun _ => rfl) hserv
  have hcredit := hcounts.credit
  simp only [hst, ClientStage.reads, Bool.toNat_false, Nat.add_zero] at htokens
  rw [hret]
  refine { hcounts with
    clientAt := hat, le := ?_, there := fun hsup _ => h.there hsup hdone, tokens := fun _ _ => ?_,
    exact := fun hsup _ => ?_, credit := fun hsup _ => ?_ }
  · simp only [ClientStage.reads, Bool.toNat_true]
    omega
  · simp only [ClientStage.reads, Bool.toNat_true]
    omega
  · have hexact := h.exact hsup hdone
    simp only [hst, ClientStage.reads, Bool.toNat_false, Bool.toNat_true] at hexact ⊢
    omega
  · have hcredit := hcredit hsup hdone
    simp only [hst] at hcredit
    exact hcredit

/-- `sem_signal (servsem)`: the client gives the buffer back. -/
theorem Duo.Serving.client_signalled {id cli serv : ℕ} (h : d.Serving v data msgs)
    (hr : d.client.routine = some (.sem_signal SEMKEY2 id)) (hcli : d.cliKnown → cli = d.cli)
    (hserv : d.servKnown → serv = d.serv + 1) :
    ({ d with client := client_return d.client 0, cli := cli, serv := serv } : Duo).Serving v data
      msgs := by
  have hat := h.clientAt
  unfold Client.Place at hat
  obtain ⟨hst, hret⟩ : d.client.stage = .signal ∧
      client_return d.client 0 = { d.client with stage := .next } := by
    unfold Client.routine at hr
    unfold client_return
    cases hst : d.client.stage <;> rw [hst] at hr hat <;>
      first | exact ⟨rfl, rfl⟩ | exact hat.elim | cases hr
  rw [hst] at hat
  have hdone : d.client.stage.done = false := by
    rw [hst]
    rfl
  have hcounts := h.counts cli d.serv hcli fun _ => rfl
  have hle := hcounts.le
  have htokens := hcounts.tokens
  have hexact := hcounts.exact
  simp only [hst] at hle htokens hexact
  rw [hret]
  refine { hcounts with
    clientAt := hat, le := hle, there := fun hsup _ => h.there hsup hdone, tokens := htokens,
    exact := hexact, credit := fun hsup _ => ?_ }
  -- the buffer that was read is given back
  have hcredit := h.credit hsup hdone
  have hserv := hserv (.inr ⟨h.there hsup hdone, hsup, .inl hdone⟩)
  simp only [hst, ClientStage.returns, Bool.toNat_false, Bool.toNat_true] at hcredit ⊢
  omega

/-- `sem_close`. -/
theorem Duo.Serving.client_closed {key x : ℤ} {id cli serv : ℕ} (h : d.Serving v data msgs)
    (hr : d.client.routine = some (.sem_close key id)) (hcli : d.cliKnown → cli = d.cli)
    (hserv : d.servKnown → serv = d.serv) :
    ({ d with client := client_return d.client x, cli := cli, serv := serv } : Duo).Serving v data
      msgs := by
  have hcounts := h.counts _ _ hcli hserv
  have hplace := h.clientAt
  obtain ⟨hdone, hreads, hreturns, hplace⟩ :
      (client_return d.client x).stage.done = d.client.stage.done ∧
      (client_return d.client x).stage.reads = d.client.stage.reads ∧
      (client_return d.client x).stage.returns = d.client.stage.returns ∧
      (client_return d.client x).Place v msgs d.shared.out d.sent := by
    generalize d.client = u at hr hplace ⊢
    obtain ⟨stage, i, n, clisem, servsem⟩ := u
    cases stage <;> first | (cases hr; done) | exact ⟨rfl, rfl, rfl, hplace⟩
  exact hcounts.client_onward rfl rfl hdone hreads hreturns hplace

/-- A client that is refused a routine in its loop has come to the last adjustment, with a
message there to take: there are no more buffers than `servsem` can count. -/
theorem Duo.Serving.client_refused {cl : Call} (h : d.Serving v data msgs) (htally : d.Tally)
    (hsup : d.sup = true) (hdone : d.client.stage.done = false)
    (hr : d.client.routine = some cl) (hrefused : d.ClientRefused cl) :
    d.client.stage = .wait ∧ 0 < d.cli ∧ SEMAEM ≤ d.shared.out.length + 1 := by
  have hcup := h.there hsup hdone
  have hcli : d.cliKnown := .inl ⟨hcup, hdone⟩
  have hserv : d.servKnown := .inr ⟨hcup, hsup, .inl hdone⟩
  have htaken := htally.taken
  have hgiven := htally.given
  have hat := h.clientAt
  unfold Client.Place at hat
  unfold Client.routine at hr
  cases hst : d.client.stage <;> rw [hst] at hr hat hdone htaken hgiven <;>
    first | exact hat.elim | (cases hr; done) | (cases hdone; done) | skip
  case wait =>
    cases hr
    obtain ⟨hpos, hlimit⟩ := hrefused hcli
    simp only [ClientStage.waited, ClientStage.reads, ClientStage.done, Bool.toNat_true,
      Bool.toNat_false] at htaken
    exact ⟨rfl, hpos, by omega⟩
  case signal =>
    cases hr
    exfalso
    have hcredit := h.credit hsup (by rw [hst]; rfl)
    have hposted := h.posted
    have hle := h.le
    have hfits := htally.fits hcli hcup
    rw [hst, ClientStage.returns, Bool.toNat_true] at hcredit
    simp only [ClientStage.waited, ClientStage.late, ClientStage.returns, ClientStage.reads,
      ClientStage.done, Bool.toNat_true, Bool.toNat_false] at htaken hgiven
    rcases hrefused hserv with hfull | hlimit <;> omega

/-! ## Every step -/

/-- **Every step keeps the transfer going**, unless the client ends in its loop; it adds at
most one message. -/
theorem Duo.Serving.step (h : d.Serving v data msgs) (hn : 0 < v.nbuff) (hs : d.Step v e a d')
    (hcalm : ∀ p c, a = .user p c → c ≠ none)
    (hpost : d.server.stage = .post → d.server.i ≤ v.nbuff)
    (hlive : d.sup = true → d.client.stage.done = false → d'.cup = true) :
    ∃ msgs', d'.Serving v data msgs' ∧
      (msgs' = msgs ∨ ∃ c, a = .user 0 c ∧ Adds c d.server.stage msgs msgs') := by
  cases hs with
  | idle => exact ⟨msgs, h, .inl rfl⟩
  | server_go ha _ hgo _ =>
    obtain ⟨msgs', hserving, hadds⟩ := h.server_go hn hgo hpost
    exact ⟨msgs', hserving, .inr ⟨_, ha, hadds⟩⟩
  | server_quit ha _ hmain hx hcli _ =>
    obtain rfl := server_quit_shared hmain hx
    exact ⟨msgs, h.server_gone hcli, .inl rfl⟩
  | server_wait hsup hr _ hcli hserv =>
    exact ⟨msgs, (h.server_waited hsup hr hcli hserv).tallied _ _ _, .inl rfl⟩
  | server_signal hsup hr hcli hserv =>
    exact ⟨msgs, h.server_signalled hsup hr hcli hserv, .inl rfl⟩
  | server_post hsup hr hcli hserv hle =>
    exact ⟨msgs, (h.server_posted hsup hr hcli hserv hle).tallied _ _ _, .inl rfl⟩
  | server_create _ hr _ _ _ =>
    -- `sem_create` is behind the server
    exfalso
    have hscript := h.script
    revert hr hscript
    generalize d.server = u
    obtain ⟨stage, i, n, file, off, clisem, servsem⟩ := u
    cases stage <;> intro hr hscript <;> first | (cases hr; done) | skip
    all_goals cases v <;> exact hscript
  | server_close _ hr hcli hserv => exact ⟨msgs, h.server_closed hr hcli hserv, .inl rfl⟩
  | server_fail _ _ _ hcli _ => exact ⟨msgs, h.server_gone hcli, .inl rfl⟩
  | client_go _ _ hgo => exact ⟨msgs, h.client_go hn hgo, .inl rfl⟩
  | client_quit ha _ hmain hx _ _ =>
    obtain ⟨rfl, hdone⟩ := client_quit_late hmain hx h.clientAt.late (hcalm _ _ ha)
    exact ⟨msgs, h.client_gone (.inl hdone), .inl rfl⟩
  | client_wait hcup hr _ hcli hserv =>
    exact ⟨msgs, (h.client_waited hcup hr hcli hserv).tallied _ _ _, .inl rfl⟩
  | client_signal _ hr hcli hserv =>
    exact ⟨msgs, (h.client_signalled hr hcli hserv).tallied _ _ _, .inl rfl⟩
  | client_open _ hr _ _ =>
    -- `sem_open` is behind the client
    exfalso
    have hlate := h.clientAt.late
    revert hr hlate
    generalize d.client = u
    obtain ⟨stage, i, n, clisem, servsem⟩ := u
    cases stage <;> intro hr hlate <;> cases hr <;> cases hlate
  | client_close _ hr hcli hserv => exact ⟨msgs, h.client_closed hr hcli hserv, .inl rfl⟩
  | client_fail =>
    refine ⟨msgs, h.client_gone ?_, .inl rfl⟩
    by_contra hgoing
    rw [not_or] at hgoing
    cases hlive (by simpa using hgoing.2) (by simpa using hgoing.1)

end Transfer

end UnixNetProg.SharedMemory

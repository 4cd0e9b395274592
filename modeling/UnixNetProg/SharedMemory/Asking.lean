/-
The opening of the transfer: the name of the file.

Before the file is open the two pass buffer 0 to and fro. The client takes the
one unit of `clisem`, puts the name into the buffer and gives the server the one
unit of `servsem`; until the server, which has taken that, has opened the file,
the client waits. `Duo.Asking` is what holds until then, and `Duo.Asking.step`
that the next thing is the transfer.
-/
import UnixNetProg.SharedMemory.Transfer

set_option autoImplicit false

namespace UnixNetProg.SharedMemory

open UnixNetProg.SysV UnixNetProg.Semaphore UnixNetProg.Runs UnixNetProg.Stdio
open UnixNetProg.Files (fwrite)

/-! ## The name -/

/-- The name of the file the client asks for: the line it reads, up to a null
byte, without the newline. -/
def filename (e : Env) : List Char :=
  let name := cstr ((Stdio.fgets MAXMESGDATA e.stdin).getD [])
  if name.getLast? = some '\n' then name.dropLast else name

/-- The buffer as the client has filled it. -/
def Typed (e : Env) (buff : List Char) : Prop :=
  ∃ line rest, Stdio.fgets MAXMESGDATA e.stdin = some line ∧ buff = line ++ '\x00' :: rest

section Name

variable {e : Env} {buff : List Char}

/-- The length the client sends is that of the name, which the buffer begins with. -/
theorem Typed.takes (h : Typed e buff) :
    namelen buff ≤ strlen buff ∧ buff.take (namelen buff) = filename e := by
  obtain ⟨line, rest, hline, rfl⟩ := h
  have hname : cstr (line ++ '\x00' :: rest) =
    cstr ((Stdio.fgets MAXMESGDATA e.stdin).getD []) := by
    rw [hline, ← nul_char, cstr_nul, Option.getD_some]
  generalize line ++ '\x00' :: rest = buff at hname
  have hlen : strlen buff = (cstr buff).length := rfl
  -- within the string the buffer is the string
  obtain ⟨more, hmore⟩ : cstr buff <+: buff := List.takeWhile_prefix _
  have htake : ∀ k, k ≤ strlen buff → buff.take k = (cstr buff).take k := by
    intro k hk
    conv_lhs => rw [← hmore]
    exact List.take_append_of_le_length hk
  have hget : ∀ k, k < strlen buff → buff[k]? = (cstr buff)[k]? := by
    intro k hk
    conv_lhs => rw [← hmore]
    exact List.getElem?_append_left hk
  have hlast : 0 < strlen buff → buff[strlen buff - 1]? = (cstr buff).getLast? := by
    intro hpos
    rw [List.getLast?_eq_getElem?, hget _ (by omega), hlen]
  unfold namelen filename
  rw [← hname]
  by_cases hpos : 0 < strlen buff
  · simp only [hpos, true_and, hlast hpos]
    split_ifs with hnl
    · refine ⟨Nat.sub_le _ _, ?_⟩
      rw [htake _ (Nat.sub_le _ _), List.dropLast_eq_take]
      rfl
    · refine ⟨Nat.le_refl _, ?_⟩
      rw [htake _ (Nat.le_refl _)]
      exact List.take_length
  · have hempty : cstr buff = [] := List.eq_nil_of_length_eq_zero (by omega)
    simp [hempty, strlen]

/-- The server reads the name. -/
theorem Typed.terminated (h : Typed e buff) :
    cstr (fwrite buff (namelen buff) ['\x00']) = filename e := by
  obtain ⟨hle, htake⟩ := h.takes
  have hlen : strlen buff ≤ buff.length := strlen_le buff
  rw [fwrite, Nat.sub_eq_zero_of_le (hle.trans hlen), List.replicate_zero, List.append_nil,
    List.append_assoc, List.singleton_append, ← nul_char, cstr_nul, cstr_take hle, htake]

end Name

/-! ## Until the file is open -/

/-- What the client has put into buffer 0, as far as it has got. -/
def Client.Asks (e : Env) (st : ServerStage) (m : Mesg) (u : Client) : Prop :=
  match u.stage with
  | .strlen => Typed e m.mesg_data
  | .setlen => Typed e m.mesg_data ∧ u.n = namelen m.mesg_data
  | .send | .wait =>
    if st = .open then cstr m.mesg_data = filename e
    else Typed e m.mesg_data ∧ m.mesg_len = namelen m.mesg_data
  | _ => True

/-- **The opening of the transfer.** -/
structure Duo.Asking (e : Env) (d : Duo) : Prop where
  file : d.server.file = none
  stage : d.server.stage.early = true ∨ d.server.stage = .null ∨ d.server.stage = .open
  sup : d.sup = true
  sent : d.sent = 0
  out : d.shared.out = []
  late : d.client.stage.late = true → d.cup = true ∧ d.client.stage = .wait ∧ d.client.i = 0
  cli : d.cup = true → d.cli + d.client.stage.waited.toNat = 1
  serv : d.client.stage.late = true → d.serv = d.server.stage.early.toNat
  asks : d.client.Asks e d.server.stage (d.shared.mesg 0)

theorem Duo.Asking.start (e : Env) : Duo.start.Asking e :=
  ⟨rfl, .inl rfl, rfl, rfl, rfl, nofun, fun _ => rfl, nofun, trivial⟩

section Asking

variable {v : Version} {e : Env} {data : List Char} {d d' : Duo} {a : Act User (Option ℕ)}

/-- A server that comes up leaves the buffers as they are, once it has them. -/
theorem server_go_shared {g : ℤ} {c : Option ℕ} {s s' : Shared} {u u' : Server}
    (hs : server_main v e g s u c = some (s', .go u')) (hearly : u.stage.early = true) :
    u'.file = u.file ∧ s'.out = s.out ∧ (u.stage ≠ .shmget → s' = s) := by
  obtain ⟨stage, i, n, file, off, clisem, servsem⟩ := u
  cases stage <;> first | (cases hearly; done) | skip
  all_goals simp only [server_main] at hs
  case shmget =>
    split_ifs at hs <;> cases hs <;> exact ⟨rfl, rfl, fun hne => absurd rfl hne⟩
  case start => cases v <;> cases hs
  all_goals (try split_ifs at hs) <;> cases hs <;> exact ⟨rfl, rfl, fun _ => rfl⟩

/-- And does not end. -/
theorem Duo.Asking.no_quit {g : ℤ} {c : Option ℕ} {s : Shared} {x : Does Server}
    (h : d.Asking e) (hopening : d.Opening)
    (hs : server_main v e g d.shared d.server c = some (s, x)) :
    ¬ (x = .exit ∨ ∃ msg, x = .err_sys msg) := by
  have hstage := h.stage
  have hcheck1 := hopening.check1
  have hcheck2 := hopening.check2
  generalize d.server = u at hs hstage hcheck1 hcheck2
  intro hx
  obtain ⟨hgo, hcall⟩ := Does.of_quit hx
  obtain ⟨stage, i, n, file, off, clisem, servsem⟩ := u
  cases stage <;> first | (rcases hstage with hst | hst | hst <;> cases hst; done) | skip
  all_goals simp only [server_main] at hs
  case check1 =>
    rw [if_neg (Int.not_lt.2 (hcheck1 rfl))] at hs
    cases hs
    exact hgo _ rfl
  case check2 =>
    rw [if_neg (Int.not_lt.2 (hcheck2 rfl))] at hs
    cases hs
    exact hgo _ rfl
  case «open» =>
    generalize hfile : e.files (cstr (d.shared.mesg 0).mesg_data) = file at hs
    cases v <;> cases file <;>
      simp only [SharedMemory.server, single_server, multi_server, hfile] at hs <;>
      cases hs <;> exact hgo _ rfl
  all_goals
    cases v <;> (try simp only [SharedMemory.server, single_server, multi_server] at hs) <;>
      (try split_ifs at hs) <;> cases hs <;> first | exact hgo _ rfl | exact hcall _ _ rfl

/-- The server opens the file the client has asked for. -/
theorem Duo.Asking.opens {g : ℤ} {c : Option ℕ} {s : Shared} {u : Server} (h : d.Asking e)
    (hopening : d.Opening) (hfile : e.files (filename e) = some data)
    (hst : d.server.stage = .open)
    (hs : server_main v e g d.shared d.server c = some (s, .go u)) :
    ({ d with server := u, shared := s } : Duo).Serving v data [] := by
  -- the client waits
  have hlate : d.client.stage.late = true := by
    by_contra hlate
    have hearly := (hopening.early (by simpa using hlate)).1
    rw [hst] at hearly
    cases hearly
  obtain ⟨hcup, hwait, hi⟩ := h.late hlate
  have hname : cstr (d.shared.mesg 0).mesg_data = filename e := by
    have hasks := h.asks
    unfold Client.Asks at hasks
    rw [hwait, hst, if_pos rfl] at hasks
    exact hasks
  have hcli := h.cli hcup
  have hserv := h.serv hlate
  rw [hwait] at hcli
  rw [hst] at hserv
  have hzero : d.cli = 0 := Nat.add_right_cancel (hcli.trans (Nat.zero_add 1).symm)
  -- with one buffer the server has it from the start
  obtain ⟨rfl, hdata, hoff, hidle, hheld, hle, hscript, hat⟩ : s = d.shared ∧
      u.file = some data ∧ u.off = 0 ∧
      (u.stage.filled = false ∧ u.stage.ready = false ∧ u.stage ≠ .len) ∧
      (u.stage.holds.toNat = u.posted v ∧ (u.stage.holds = true → 0 < v.nbuff)) ∧
      u.posted v ≤ SEMVMX ∧ u.Script v [] ∧ u.Place v 0 := by
    generalize d.server = u₀ at hst hs
    obtain ⟨stage, i, n, file, off, clisem, servsem⟩ := u₀
    obtain rfl : stage = .open := hst
    cases v <;>
      simp only [server_main, SharedMemory.server, single_server, multi_server, hname,
        hfile] at hs <;>
      cases hs
    · exact ⟨rfl, rfl, rfl, ⟨rfl, rfl, by simp⟩, ⟨rfl, fun _ => Nat.one_pos⟩,
        show 1 ≤ SEMVMX by decide, List.not_mem_nil, trivial⟩
    · exact ⟨rfl, rfl, rfl, ⟨rfl, rfl, by simp⟩, ⟨rfl, fun hholds => by cases hholds⟩,
        Nat.zero_le _, rfl, trivial⟩
  have hsent := h.sent
  have hout := h.out
  have hdone : d.client.stage.done = false := by
    rw [hwait]
    rfl
  exact {
    file := hdata
    read := by rw [hoff]; rfl
    whole := fun hmem => absurd hmem List.not_mem_nil
    script := hscript
    filled := by rw [hidle.1, hsent]; rfl
    serverAt := by rw [hsent]; exact hat
    clientAt := by
      unfold Client.Place
      simp only [hwait, hout, hi, List.length_nil, Nat.zero_mod]
    out := by simp only [hout, List.nil_prefix]
    solid := by rw [hout]; exact List.not_mem_nil
    le := by rw [hout, hwait]; exact Nat.zero_le _
    there := fun _ _ => hcup
    tokens := fun _ _ => by simp only [hout, hwait, hzero, hsent]; exact Nat.le_refl _
    exact := fun _ _ => by simp only [hout, hwait, hzero, hsent]; rfl
    credit := fun _ _ => by
      simp only [hout, hwait, hserv, hsent, hheld.1]
      exact Nat.zero_add _
    posted := hle
    room := fun hholds => by rw [hsent]; exact (hheld.2 hholds).trans_le (Nat.le_add_left _ _)
    ring := fun j _ hj => by
      rw [hsent, hidle.2.1] at hj
      cases hj
    content := fun hlen => absurd hlen hidle.2.2 }

/-! ## Every step of the opening -/

/-- A server that comes up calls no `sem_signal` and closes nothing. -/
theorem Duo.Asking.routine {cl : Call} (h : d.Asking e) (hr : d.server.routine = some cl) :
    (∃ key n, cl = .sem_create key n) ∨
      d.server.stage = .start ∧ ∃ id, cl = .sem_wait SEMKEY2 id := by
  have hstage := h.stage
  revert hr hstage
  generalize d.server = u
  obtain ⟨stage, i, n, file, off, clisem, servsem⟩ := u
  cases stage <;> intro hr hstage <;> first | (cases hr; done) | skip
  case create1 | create2 => cases hr; exact .inl ⟨_, _, rfl⟩
  case start => cases hr; exact .inr ⟨rfl, _, rfl⟩
  all_goals rcases hstage with hst | hst | hst <;> cases hst

/-- What the client does in its own code before it is late. -/
theorem client_early_go {c : Option ℕ} {s s' : Shared} {u u' : Client}
    (hs : client_main v e s u c = some (s', .go u')) (hlate : u.stage.late = false) :
    s'.out = s.out ∧ ∀ st : ServerStage, st ≠ .open → u.Asks e st (s.mesg 0) →
      u'.Asks e st (s'.mesg 0) := by
  obtain ⟨stage, i, n, clisem, servsem⟩ := u
  cases stage <;> first | (cases hlate; done) | skip
  all_goals simp only [client_main] at hs
  case fgets =>
    generalize hline : Stdio.fgets MAXMESGDATA e.stdin = line at hs
    cases line with
    | none => cases hs
    | some line =>
      cases hs
      have htyped : Typed e ((s.type line).mesg 0).mesg_data := by
        refine ⟨line, (s.mesg 0).mesg_data.drop (line ++ ['\x00']).length, hline, ?_⟩
        simp only [Shared.type, Shared.fill, Shared.put, Function.update_self, Files.fwrite_zero,
          List.append_assoc, List.singleton_append]
      exact ⟨rfl, fun _ _ _ => htyped⟩
  case strlen => cases hs; exact ⟨rfl, fun st _ hasks => ⟨hasks, rfl⟩⟩
  case setlen =>
    cases hs
    refine ⟨rfl, fun st hst hasks => ?_⟩
    simp only [Client.Asks, if_neg hst, Shared.setLen, Shared.put, Function.update_self]
    exact hasks
  case start | send | open1 | open2 => cases hs
  case shmget => split_ifs at hs <;> cases hs <;> exact ⟨rfl, fun _ _ _ => trivial⟩
  all_goals split_ifs at hs <;> cases hs; exact ⟨rfl, fun _ _ _ => trivial⟩

/-- A client that ends before it is late leaves the buffers as they are. -/
theorem client_early_quit {c : Option ℕ} {s s' : Shared} {u : Client} {x : Does Client}
    (hs : client_main v e s u c = some (s', x)) (hx : x = .exit ∨ ∃ msg, x = .err_sys msg)
    (hlate : u.stage.late = false) : s' = s := by
  have hgo : ∀ u, x ≠ .go u := by
    rintro u rfl
    rcases hx with hx | ⟨msg, hx⟩ <;> cases hx
  obtain ⟨stage, i, n, clisem, servsem⟩ := u
  cases stage <;> first | (cases hlate; done) | skip
  all_goals
    simp only [client_main] at hs
    (try split at hs) <;> (try split_ifs at hs) <;> cases hs <;>
      first | rfl | exact absurd rfl (hgo _)

theorem Client.Asks.of_ne {st st' : ServerStage} {m : Mesg} {u : Client} (h : u.Asks e st m)
    (hst : st ≠ .open) (hst' : st' ≠ .open) : u.Asks e st' m := by
  revert h
  unfold Client.Asks
  rw [if_neg hst, if_neg hst']
  exact id

theorem Client.Asks.of_not_opened {st : ServerStage} {m : Mesg} {u : Client}
    (h : u.stage.opened = false) : u.Asks e st m := by
  unfold Client.Asks
  cases hst : u.stage <;> first | trivial | (rw [hst] at h; cases h)

/-- A server that is early has not come to its `open`. -/
theorem ne_open_of_early {st : ServerStage} (h : st.early = true) : st ≠ .open := by
  rintro rfl
  cases h

/-- A statement of the server that comes up. -/
theorem Duo.Asking.server_go {g : ℤ} {c : Option ℕ} {s : Shared} {u : Server} (h : d.Asking e)
    (hs : server_main v e g d.shared d.server c = some (s, .go u)) (hopening : d.Opening)
    (hnew : d.client.stage.opened = true → d.server.stage ≠ .shmget)
    (hfile : e.files (filename e) = some data) :
    ({ d with server := u, shared := s } : Duo).Asking e ∨
      ({ d with server := u, shared := s } : Duo).Serving v data [] := by
  rcases h.stage with hearly | hst | hst
  · have hearly' := server_go_early hs hearly
    obtain ⟨hufile, hout, hsame⟩ := server_go_shared hs hearly
    refine .inl { h with
      file := hufile.trans h.file, stage := .inl hearly', out := hout.trans h.out,
      serv := fun hlate => ?_, asks := ?_ }
    · rw [hearly', ← hearly]
      exact h.serv hlate
    · by_cases hopened : d.client.stage.opened = true
      · obtain rfl := hsame (hnew hopened)
        exact h.asks.of_ne (ne_open_of_early hearly) (ne_open_of_early hearly')
      · exact .of_not_opened (by simpa using hopened)
  · -- the client, which is late, has put the name into the buffer
    have hlate : d.client.stage.late = true := by
      by_contra hlate
      have hearly := (hopening.early (by simpa using hlate)).1
      rw [hst] at hearly
      cases hearly
    obtain ⟨-, hwait, -⟩ := h.late hlate
    have hasks := h.asks
    have hserv := h.serv hlate
    unfold Client.Asks at hasks
    rw [hwait, hst, if_neg nofun] at hasks
    rw [hst] at hserv
    obtain ⟨htyped, hlen⟩ := hasks
    have hstep : server_main v e g d.shared d.server c =
        some (d.shared.terminate, .go { d.server with stage := .open }) := by
      cases v <;> simp [server_main, SharedMemory.server, single_server, multi_server, hst]
    rw [hstep] at hs
    cases hs
    refine .inl { h with
      file := h.file, stage := .inr (.inr rfl), out := h.out, serv := fun _ => hserv, asks := ?_ }
    unfold Client.Asks
    simp only [hwait, if_true, Shared.terminate, Shared.put, Function.update_self, hlen,
      Int.toNat_natCast]
    exact htyped.terminated
  · exact .inr (h.opens hopening hfile hst hs)

/-- The opening does not look at the adjustments. -/
theorem Duo.Asking.tallied (h : d.Asking e) (bal : ℤ) (taken given : ℕ) :
    ({ d with bal := bal, taken := taken, given := given } : Duo).Asking e := { h with }

/-- The server has not begun to take the semaphores down. -/
theorem Duo.Asking.not_passed (h : d.Asking e) : d.server.stage.passed = false := by
  rcases h.stage with hst | hst | hst
  · exact not_passed_of_early hst
  all_goals
    rw [hst]
    rfl

/-- The second counter means something. -/
theorem Duo.Asking.servKnown (h : d.Asking e) : d.servKnown := by
  by_cases hlate : d.client.stage.late = true
  · exact .inr ⟨(h.late hlate).1, h.sup, .inr h.not_passed⟩
  · exact .inl (by simpa using hlate)

/-- The server's first `sem_wait` is not refused. -/
theorem Duo.Asking.not_refused {cl : Call} (h : d.Asking e) (htally : d.Tally)
    (hr : d.server.routine = some cl) : ¬ d.ServerRefused cl := by
  intro hrefused
  have hserv := h.servKnown
  rcases h.routine hr with ⟨_, _, rfl⟩ | ⟨hst, _, rfl⟩
  · exact hrefused
  · have hbal := (htally.unsent (by rw [hst]; rfl)).2
    have hlimit := hrefused.2 hserv
    rw [hbal] at hlimit
    exact hlimit (by decide)

/-- `sem_create`. -/
theorem Duo.Asking.server_created {key initval : ℤ} (h : d.Asking e)
    (hr : d.server.routine = some (.sem_create key initval)) (x : ℤ) :
    ({ d with server := server_return v d.server x } : Duo).Asking e := by
  have hearly : d.server.stage.early = true := by
    unfold Server.routine at hr
    cases hst : d.server.stage <;> rw [hst] at hr <;> first | rfl | cases hr
  have hearly' := server_return_early (v := v) (x := x) hr (.inl ⟨key, initval, rfl⟩)
  have hfile : (server_return v d.server x).file = d.server.file := by
    unfold Server.routine at hr
    unfold server_return
    cases hst : d.server.stage <;> rw [hst] at hr <;> first | rfl | cases hr
  exact { h with
    file := hfile.trans h.file
    stage := .inl (hearly'.trans hearly)
    serv := fun hlate => by rw [hearly']; exact h.serv hlate
    asks := h.asks.of_ne (ne_open_of_early hearly) (ne_open_of_early (hearly'.trans hearly)) }

/-- `sem_wait (servsem)`: the server has been asked. -/
theorem Duo.Asking.server_waited {id serv : ℕ} (h : d.Asking e) (hopening : d.Opening)
    (hr : d.server.routine = some (.sem_wait SEMKEY2 id)) (hserv : serv + 1 = d.serv) :
    ({ d with server := server_return v d.server 0, serv := serv } : Duo).Asking e := by
  have hst : d.server.stage = .start := by
    rcases h.routine hr with ⟨_, _, hcl⟩ | ⟨hst, -⟩
    · cases hcl
    · exact hst
  have hret : server_return v d.server 0 = { d.server with stage := .null } := by
    cases v <;> simp [server_return, single_return, multi_return, hst]
  have hlate : d.client.stage.late = true := by
    by_contra hlate
    have := (hopening.early (by simpa using hlate)).2
    omega
  have hone := h.serv hlate
  rw [hst] at hone
  rw [hret]
  exact { h with
    stage := .inr (.inl rfl)
    serv := fun _ => by
      simp only [ServerStage.early, Bool.toNat_true, Bool.toNat_false] at hone ⊢
      omega
    asks := h.asks.of_ne (by rw [hst]; decide) (by simp) }

/-- A client that is late waits, and makes no statement of its own. -/
theorem Duo.Asking.client_early {c : Option ℕ} {s : Shared} {x : Does Client} (h : d.Asking e)
    (hs : client_main v e d.shared d.client c = some (s, x)) (hx : ∀ cl u, x ≠ .call cl u) :
    d.client.stage.late = false := by
  by_contra hlate
  obtain ⟨-, hwait, -⟩ := h.late (by simpa using hlate)
  simp only [client_main, hwait] at hs
  cases hs
  exact hx _ _ rfl

theorem Duo.Asking.client_quits {c : Option ℕ} {s : Shared} {x : Does Client} (h : d.Asking e)
    (hs : client_main v e d.shared d.client c = some (s, x))
    (hx : x = .exit ∨ ∃ msg, x = .err_sys msg) : d.client.stage.late = false := by
  apply h.client_early hs
  rintro cl u rfl
  rcases hx with hx | ⟨msg, hx⟩ <;> cases hx

/-- A statement of the client. -/
theorem Duo.Asking.client_go {c : Option ℕ} {s : Shared} {u : Client} (h : d.Asking e)
    (hopening : d.Opening) (hs : client_main v e d.shared d.client c = some (s, .go u)) :
    ({ d with client := u, shared := s } : Duo).Asking e := by
  have hlate := h.client_early hs fun _ _ hcall => by cases hcall
  have hlate' := (client_go_late hs).trans hlate
  obtain ⟨hout, hasks⟩ := client_early_go hs hlate
  have hnot : ∀ {P : Prop}, u.stage.late = true → P := by
    intro P hl
    rw [hlate'] at hl
    cases hl
  exact { h with
    out := hout.trans h.out
    late := hnot
    cli := by rw [client_go_waited hs]; exact h.cli
    serv := hnot
    asks := hasks _ (ne_open_of_early (hopening.early hlate).1) h.asks }

/-- The client ends. -/
theorem Duo.Asking.client_gone {cli : ℕ} (h : d.Asking e) (hlate : d.client.stage.late = false) :
    ({ d with cup := false, cli := cli } : Duo).Asking e := by
  have hnot : ∀ {P : Prop}, d.client.stage.late = true → P := by
    intro P hl
    rw [hlate] at hl
    cases hl
  exact { h with late := hnot, cli := nofun, serv := hnot }

/-- `sem_wait (clisem)`: the client may go on, once. -/
theorem Duo.Asking.client_waited {id cli : ℕ} (h : d.Asking e) (hcup : d.cup = true)
    (hr : d.client.routine = some (.sem_wait SEMKEY1 id)) (hcli : cli + 1 = d.cli) :
    ({ d with client := client_return d.client 0, cli := cli } : Duo).Asking e := by
  have hone := h.cli hcup
  have hst : d.client.stage = .start := by
    unfold Client.routine at hr
    cases hst : d.client.stage <;> rw [hst] at hr hone <;> first | rfl | (cases hr; done) | skip
    simp only [ClientStage.waited, Bool.toNat_true] at hone
    omega
  have hret : client_return d.client 0 = { d.client with stage := .fgets } := by
    simp [client_return, hst]
  rw [hst] at hone
  rw [hret]
  exact { h with
    late := fun hlate => by cases hlate
    cli := fun _ => by
      simp only [ClientStage.waited, Bool.toNat_false, Bool.toNat_true] at hone ⊢
      omega
    serv := fun hlate => by cases hlate
    asks := trivial }

/-- `sem_signal (servsem)`: the client asks. -/
theorem Duo.Asking.client_signalled {id serv : ℕ} (h : d.Asking e) (hopening : d.Opening)
    (hcup : d.cup = true) (hr : d.client.routine = some (.sem_signal SEMKEY2 id))
    (hserv : serv = d.serv + 1) :
    ({ d with client := client_return d.client 0, serv := serv } : Duo).Asking e := by
  have hst : d.client.stage = .send := by
    have hlate := h.late
    unfold Client.routine at hr
    cases hst : d.client.stage <;> rw [hst] at hr hlate <;> first | rfl | (cases hr; done) | skip
    cases (hlate rfl).2.1
  have hret : client_return d.client 0 = { d.client with stage := .wait, i := 0 } := by
    simp [client_return, hst]
  obtain ⟨hearly, hzero⟩ := hopening.early (by rw [hst]; rfl)
  have hcli := h.cli
  have hasks := h.asks
  unfold Client.Asks at hasks
  rw [hst] at hcli hasks
  rw [hret]
  exact { h with
    late := fun _ => ⟨hcup, rfl, rfl⟩
    cli := hcli
    serv := fun _ => by simp only [hserv, hzero, hearly]; rfl
    asks := hasks }

/-- `sem_open`. -/
theorem Duo.Asking.client_opened {key : ℤ} (h : d.Asking e)
    (hr : d.client.routine = some (.sem_open key)) (x : ℤ) :
    ({ d with client := client_return d.client x } : Duo).Asking e := by
  have hcli := h.cli
  obtain ⟨hlate, hwaited, hopened⟩ : (client_return d.client x).stage.late = false ∧
      (client_return d.client x).stage.waited = d.client.stage.waited ∧
      (client_return d.client x).stage.opened = false := by
    generalize d.client = u at hr
    obtain ⟨stage, i, n, clisem, servsem⟩ := u
    cases stage <;> first | (cases hr; done) | exact ⟨rfl, rfl, rfl⟩
  have hnot : ∀ {P : Prop}, (client_return d.client x).stage.late = true → P := by
    intro P hl
    rw [hlate] at hl
    cases hl
  exact { h with
    late := hnot
    cli := by rw [hwaited]; exact h.cli
    serv := hnot
    asks := .of_not_opened hopened }

/-- A client that closes has left its loop. -/
theorem done_of_closes {u : Client} {key : ℤ} {id : ℕ} (hr : u.routine = some (.sem_close key id)) :
    u.stage.done = true := by
  unfold Client.routine at hr
  cases hst : u.stage <;> rw [hst] at hr <;> first | rfl | cases hr

/-- **Until the file is open nothing is sent, and then the transfer begins.** -/
theorem Duo.Asking.step (h : d.Asking e) (hs : d.Step v e a d') (hopening : d.Opening)
    (htally : d.Tally) (hnew : d.client.stage.opened = true → d.server.stage ≠ .shmget)
    (hfile : e.files (filename e) = some data) : d'.Asking e ∨ d'.Serving v data [] := by
  have hcli : d.cliKnown := .inr ⟨h.sup, h.not_passed⟩
  have hserv := h.servKnown
  -- the routines the server does not call yet
  have hno : ∀ {cl : Call}, d.server.routine = some cl →
      ((∃ key id, cl = .sem_signal key id) ∨ ∃ key id, cl = .sem_close key id) → False := by
    rintro cl hr hcl
    rcases h.routine hr with ⟨_, _, rfl⟩ | ⟨-, _, rfl⟩ <;>
      rcases hcl with ⟨_, _, hcl⟩ | ⟨_, _, hcl⟩ <;>
      cases hcl
  cases hs with
  | idle => exact .inl h
  | server_go _ _ hgo _ => exact h.server_go hgo hopening hnew hfile
  | server_quit _ _ hmain hx _ _ => exact absurd hx (h.no_quit hopening hmain)
  | server_signal _ hr _ _ | server_post _ hr _ _ _ => exact (hno hr (.inl ⟨_, _, rfl⟩)).elim
  | server_fail _ hr hrefused _ _ => exact (h.not_refused htally hr hrefused).elim
  | server_close _ hr _ _ => exact (hno hr (.inr ⟨_, _, rfl⟩)).elim
  | server_create _ hr _ hc hs =>
    rw [hc hcli, hs hserv]
    exact .inl (h.server_created hr _)
  | server_wait _ hr _ hc hs =>
    rw [hc hcli]
    exact .inl ((h.server_waited hopening hr (hs hserv)).tallied _ _ _)
  | client_go _ _ hgo => exact .inl (h.client_go hopening hgo)
  | client_quit _ _ hmain hx hs _ =>
    have hlate := h.client_quits hmain hx
    obtain rfl := client_early_quit hmain hx hlate
    rw [hs hlate]
    exact .inl (h.client_gone hlate)
  | client_wait hup hr _ hc hs =>
    rw [hs hserv]
    exact .inl ((h.client_waited hup hr (hc hcli)).tallied _ _ _)
  | client_signal hup hr hc hs =>
    rw [hc hcli]
    exact .inl ((h.client_signalled hopening hup hr (hs hserv)).tallied _ _ _)
  | client_open _ hr hc hs =>
    rw [hc hcli, hs hserv]
    exact .inl (h.client_opened hr _)
  | client_close _ hr _ _ =>
    obtain ⟨-, hwait, -⟩ := h.late (late_of_done (done_of_closes hr))
    rw [Client.routine, hwait] at hr
    cases hr
  | client_fail hcup hfail hs _ _ =>
    have hlate : d.client.stage.late = false := by
      by_contra hlate
      have hlate : d.client.stage.late = true := by simpa using hlate
      obtain ⟨cl, hr, hrefused⟩ := hfail hlate
      have hone := h.cli hcup
      -- nothing has been sent that it could take
      rw [Client.routine, (h.late hlate).2.1] at hr
      cases hr
      have hpos := (hrefused hcli).1
      rw [(h.late hlate).2.1, show ClientStage.wait.waited.toNat = 1 from rfl] at hone
      omega
    rw [hs hlate]
    exact .inl (h.client_gone hlate)

end Asking

end UnixNetProg.SharedMemory

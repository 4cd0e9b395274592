/-
What the client writes is the file, as long as the adjustments last.

`transfers_of_reach` says that a run of the two programs without mishaps, in which the file is
read in no more chunks than the client's adjustment of `clisem` can count, is first an opening
and then a transfer. For the programs with several buffers it gives `transfer_exact`: no buffer
is written by the one while the other reads it, the two counters and the buffers in use come to
the number of buffers, and what has been written out is a prefix of the file and in the end the
file. With more chunks the client ends in its loop (`transfer_inexact`).
-/
import UnixNetProg.SharedMemory.Asking
import UnixNetProg.SharedMemory.Rounds

set_option autoImplicit false

namespace UnixNetProg.SharedMemory

open UnixNetProg.SysV UnixNetProg.Semaphore UnixNetProg.Runs UnixNetProg.Pool

/-! ## How often the server posts -/

/-- The server posts no more buffers than there are. -/
def Posting (v : Version) (q : Proc User) : Prop :=
  ∀ u, q.user = .server u → u.stage = .post →
    u.i ≤ v.nbuff ∧ ∀ key pt b, q.pc = .lib key pt b → u.i < v.nbuff

section Posting

variable {v : Version} {e : Env} {g : ℤ} {s s' : Shared} {c : Option ℕ} {w : World Shared User}
  {ok : World Shared User → Act User (Option ℕ) → Prop}

theorem server_go_post {u u' : Server} (hs : server_main v e g s u c = some (s', .go u'))
    (hpost : u'.stage = .post) : u'.i = 0 := by
  obtain ⟨stage, i, n, file, off, clisem, servsem⟩ := u
  cases stage <;> simp only [server_main] at hs
  case «open» =>
    generalize e.files (Stdio.cstr (s.mesg 0).mesg_data) = file at hs
    cases v <;> simp only [server, single_server, multi_server] at hs <;> split at hs <;>
      cases hs <;>
      first | rfl | cases hpost
  all_goals
    cases v <;> (try simp only [server, single_server, multi_server] at hs) <;>
      (try split at hs) <;> (try split_ifs at hs) <;> cases hs <;> cases hpost

theorem server_call_post {u u' : Server} {cl : Call}
    (hs : server_main v e g s u c = some (s', .call cl u')) (hpost : u.stage = .post) :
    u.i < v.nbuff := by
  simp only [server_main, hpost] at hs
  cases v with
  | single => simp [server, single_server, hpost] at hs
  | multi nbuff =>
    simp only [server, multi_server, hpost] at hs
    split_ifs at hs with hi
    · exact hi
    · cases hs

theorem server_return_post {u : Server} {x : ℤ} (hpost : (server_return v u x).stage = .post) :
    u.stage = .post ∧ (server_return v u x).i ≤ u.i + 1 := by
  obtain ⟨stage, i, n, file, off, clisem, servsem⟩ := u
  cases v <;> cases stage <;> first | (cases hpost; done) | skip
  · exact ⟨rfl, Nat.le_succ i⟩
  · exact ⟨rfl, Nat.le_refl _⟩

/-- A step that leaves a server was one of it. -/
theorem program_go_server {sem : ℤ → Slot 3} {q : User} {u' : Server}
    (hs : (program v e).step sem s q c = some (s', .go (.server u'))) :
    ∃ u g, q = .server u ∧ server_main v e g s u c = some (s', .go u') := by
  cases q with
  | server u =>
    obtain ⟨x, hmain, hx⟩ := program_server.1 hs
    obtain ⟨u₁, rfl, hu₁⟩ := Does.map_go hx
    cases hu₁
    exact ⟨u, _, rfl, hmain⟩
  | client u =>
    obtain ⟨x, -, hx⟩ := program_client.1 hs
    obtain ⟨u₁, -, hu₁⟩ := Does.map_go hx
    cases hu₁

theorem program_call_server {sem : ℤ → Slot 3} {q : User} {u' : Server} {cl : Call}
    (hs : (program v e).step sem s q c = some (s', .call cl (.server u'))) :
    ∃ u g, q = .server u ∧ server_main v e g s u c = some (s', .call cl u') := by
  cases q with
  | server u =>
    obtain ⟨x, hmain, hx⟩ := program_server.1 hs
    obtain ⟨u₁, rfl, hu₁⟩ := Does.map_call hx
    cases hu₁
    exact ⟨u, _, rfl, hmain⟩
  | client u =>
    obtain ⟨x, -, hx⟩ := program_client.1 hs
    obtain ⟨u₁, -, hu₁⟩ := Does.map_call hx
    cases hu₁

/-- **In every run the server posts at most `nbuff` times.** -/
theorem posting_of_reach (h : (both v e).Reach ok w) : ∀ q ∈ w.procs, Posting v q := by
  apply h.invariant (I := fun w => ∀ q ∈ w.procs, Posting v q)
  · rintro w rfl q hq u hu hpost
    simp only [World.start, List.map_cons, List.map_nil, List.mem_cons, List.not_mem_nil,
      or_false] at hq
    rcases hq with rfl | rfl <;> cases hu
    cases hpost
  · intro w a w' hw hI _ hs
    have hsane := sane_of_reach hw
    -- one process has moved; the others are where they were
    have hset : ∀ {p : ℕ} {q' : Proc User}, w'.procs = w.procs.set p q' → Posting v q' →
        ∀ q ∈ w'.procs, Posting v q := by
      intro p q' hp hq' q hq
      rw [hp] at hq
      rcases List.mem_or_eq_of_mem_set hq with hq | rfl
      · exact hI q hq
      · exact hq'
    have hget : ∀ {p : ℕ} {q : Proc User}, w.procs[p]? = some q → Posting v q :=
      fun hq => hI _ (List.mem_of_getElem? hq)
    cases World.step_moves hs with
    | spawn u hentry => cases hentry
    | die p q _ hq _ _ _ hp | quit p q c x _ hq _ _ _ _ _ hp
    | fails p q key pt b r _ hq _ _ _ _ _ hp =>
      exact hset hp fun u hu hpost => ⟨(hget hq u hu hpost).1, fun _ _ _ hlib => by cases hlib⟩
    | own p q c u _ hq hpc hstep _ hp =>
      refine hset hp fun u' hu hpost => ?_
      obtain rfl : u = .server u' := hu
      obtain ⟨u₀, g, -, hmain⟩ := program_go_server hstep
      exact ⟨by rw [server_go_post hmain hpost]; exact Nat.zero_le _, fun _ _ _ hlib => by
        rw [show q.pc = _ from hlib] at hpc; cases hpc⟩
    | enter p q c cl u pt _ hq hpc hstep _ _ hp =>
      refine hset hp fun u' hu hpost => ?_
      obtain rfl : u = .server u' := hu
      obtain ⟨u₀, g, -, hmain⟩ := program_call_server hstep
      obtain ⟨rfl, -, -⟩ := server_call hmain
      have hlt := server_call_post hmain hpost
      exact ⟨hlt.le, fun _ _ _ _ => hlt⟩
    | straight p q c cl u x _ hq hpc hstep hstart =>
      exact absurd hstart
        (Sane.no_straight (hsane.ok _ (List.mem_of_getElem? hq)) hpc hstep)
    | sleep p q key pt _ hq hpc _ _ _ hp =>
      refine hset hp fun u hu hpost => ?_
      obtain ⟨hle, hlt⟩ := hget hq u hu hpost
      exact ⟨hle, fun _ _ _ _ => hlt _ _ _ hpc⟩
    | goto p q key pt pt' b sl r _ hq hpc _ _ _ _ hp =>
      refine hset hp fun u hu hpost => ?_
      obtain ⟨hle, hlt⟩ := hget hq u hu hpost
      exact ⟨hle, fun _ _ _ _ => hlt _ _ _ hpc⟩
    | ret p q key pt b sl r x _ hq hpc _ _ _ _ hp =>
      refine hset hp fun u' hu hpost => ⟨?_, fun _ _ _ hlib => by cases hlib⟩
      obtain ⟨u₀, hu₀, rfl⟩ : ∃ u₀, q.user = .server u₀ ∧ u' = server_return v u₀ x := by
        cases hq' : q.user with
        | server u₀ => rw [hq'] at hu; cases hu; exact ⟨u₀, rfl, rfl⟩
        | client u₀ => rw [hq'] at hu; cases hu
      obtain ⟨hpost₀, hle⟩ := server_return_post hpost
      have hlt := (hget hq u₀ hu₀ hpost₀).2 _ _ _ hpc
      omega

end Posting

/-! ## How many chunks there may be -/

/-- The number of messages that are not empty. -/
def chunks (msgs : List (List Char)) : ℕ := msgs.countP fun m => !m.isEmpty

/-- So many of them the client can take: it waits on `clisem` for each, and once before it asks
and once for the empty message, and its adjustment is to stay in a `short`. -/
def MAXCHUNKS : ℕ := SEMAEM - 2

/-- The step is a `read` of the server that returns bytes. -/
def reads (w : World Shared User) (a : Act User (Option ℕ)) : Bool :=
  match a, serverOf w with
  | .user 0 (some (_ + 1)), some (u, _) => u.stage == .read
  | _, _ => false

/-- A step without mishap that reads no more than `max` chunks. -/
def calmWithin (max : ℕ) (w : World Shared User) (a : Act User (Option ℕ)) : Prop :=
  calm w a ∧ (reads w a = true → w.semops.countP isSend < max)

instance (max : ℕ) (w : World Shared User) (a : Act User (Option ℕ)) :
    Decidable (calmWithin max w a) := by
  unfold calmWithin
  infer_instance

section Chunks

variable {v : Version} {e : Env} {data : List Char} {msgs msgs' : List (List Char)}
  {w : World Shared User} {d d' : Duo} {a : Act User (Option ℕ)} {h₀ h₁ : ℤ → Option ℕ}
  {pc₀ pc₁ : Pc}

/-- What is written out are chunks. -/
theorem Duo.Serving.out_le (h : d.Serving v data msgs) : d.shared.out.length ≤ chunks msgs := by
  have hall : chunks d.shared.out = d.shared.out.length := by
    refine List.countP_eq_length.2 fun m hm => ?_
    cases m with
    | nil => exact absurd hm h.solid
    | cons => rfl
  rw [← hall]
  exact h.out.countP_le

/-- Where the client ends in its loop, a wait has been refused for the adjustment. -/
theorem Duo.Serving.client_ends (h : d.Serving v data msgs) (htally : d.Tally)
    (hcalm : ∀ p c, a = .user p c → c ≠ none) (hd : d.Step v e a d') (hsup : d.sup = true)
    (hdone : d.client.stage.done = false) (hcup : d'.cup = false) :
    (∃ cli serv, d' = { d with cup := false, cli := cli, serv := serv } ∧ serv ≤ d.serv) ∧
      d.client.stage = .wait ∧ 0 < d.cli ∧ SEMAEM ≤ d.shared.out.length + 1 := by
  have hthere := h.there hsup hdone
  cases hd with
  | client_quit ha _ hmain hx _ _ =>
    rw [(client_quit_late hmain hx h.clientAt.late (hcalm _ _ ha)).2] at hdone
    cases hdone
  | client_fail _ hfail _ hserv _ =>
    obtain ⟨cl, hr, hrefused⟩ := hfail h.clientAt.late
    exact ⟨⟨_, _, rfl, hserv (.inr ⟨hthere, hsup, .inl hdone⟩)⟩,
      h.client_refused htally hsup hdone hr hrefused⟩
  | _ => exact absurd hcup (by simp [hthere])

/-- A step within the bound keeps to it. -/
theorem Sees.chunks_le {max : ℕ} (hsees : Sees w d h₀ pc₀ h₁ pc₁) (hok : calmWithin max w a)
    (h : d.Serving v data msgs) (hle : chunks msgs ≤ max)
    (hadds : msgs' = msgs ∨ ∃ c, a = .user 0 c ∧ Adds c d.server.stage msgs msgs') :
    chunks msgs' ≤ max := by
  rcases hadds with rfl | ⟨c, rfl, rfl | ⟨hst, n, m, rfl, rfl, rfl⟩⟩
  · exact hle
  · exact hle
  · rw [chunks, List.countP_append]
    cases m with
    | nil => exact hle
    | cons x m =>
      -- of the messages read so far all have been sent
      have hsent := hok.2 (by simp [reads, hsees.serverOf, hst])
      have hlen := h.filled
      have hall : chunks msgs ≤ msgs.length := List.countP_le_length
      rw [← hsees.sent] at hsent
      rw [hst, show ServerStage.read.filled.toNat = 0 from rfl] at hlen
      have hone : List.countP (fun m : List Char => !m.isEmpty) [x :: m] = 1 := rfl
      rw [hone]
      unfold chunks at hall
      omega

end Chunks

/-! ## Every run -/

/-- First the name, then the file. -/
def Duo.Transfers (v : Version) (e : Env) (data : List Char) (d : Duo) : Prop :=
  d.Asking e ∨ ∃ msgs, d.Serving v data msgs ∧ chunks msgs ≤ MAXCHUNKS

section Runs

variable {v : Version} {e : Env} {data : List Char} {msgs : List (List Char)}
  {w w' : World Shared User} {d d' : Duo} {a : Act User (Option ℕ)} {h₀ h₁ : ℤ → Option ℕ}
  {pc₀ pc₁ : Pc}

/-- A step of the opening. -/
theorem Sound.asks (h : Sound w d h₀ pc₀ h₁ pc₁) (hfile : e.files (filename e) = some data)
    (hd : d.Step v e a d') (hask : d.Asking e) : d'.Asking e ∨ d'.Serving v data [] := by
  refine hask.step hd h.opening h.tally (fun hopened hst => ?_) hfile
  apply h.opened hopened SEMKEY2 (.inr rfl)
  simp only [Server.making, hst]

/-- A step of the transfer in which the client does not end in its loop. -/
theorem Sound.serves (h : Sound w d h₀ pc₀ h₁ pc₁) (hcalm : calm w a)
    (hpost : ∀ q ∈ w.procs, Posting v q) (hn : 0 < v.nbuff) (hd : d.Step v e a d')
    (hserving : d.Serving v data msgs)
    (hlive : d.sup = true → d.client.stage.done = false → d'.cup = true) :
    ∃ msgs', d'.Serving v data msgs' ∧
      (msgs' = msgs ∨ ∃ c, a = .user 0 c ∧ Adds c d.server.stage msgs msgs') := by
  refine hserving.step hn hd (fun p c ha => ?_) (fun hst => ?_) hlive
  · rw [ha] at hcalm
    exact hcalm
  · exact (hpost ⟨.server d.server, h₀, pc₀⟩ (by simp [h.sees.procs]) _ rfl hst).1

/-- A step of a run without mishaps is one of the opening or of the transfer. -/
theorem Sound.transfers (h : Sound w d h₀ pc₀ h₁ pc₁) (hok : calmWithin MAXCHUNKS w a)
    (hpost : ∀ q ∈ w.procs, Posting v q) (hn : 0 < v.nbuff)
    (hfile : e.files (filename e) = some data) (hd : d.Step v e a d')
    (htrans : d.Transfers v e data) : d'.Transfers v e data := by
  rcases htrans with hask | ⟨msgs, hserving, hle⟩
  · rcases h.asks hfile hd hask with hask' | hserving
    · exact .inl hask'
    · exact .inr ⟨[], hserving, Nat.zero_le _⟩
  · have hlive : d.sup = true → d.client.stage.done = false → d'.cup = true := by
      intro hsup hdone
      by_contra hcup
      obtain ⟨-, -, -, hlimit⟩ := hserving.client_ends h.tally
        (fun p c ha => by have := hok.1; rw [ha] at this; exact this) hd hsup hdone
        (by simpa using hcup)
      have hout := hserving.out_le
      simp only [MAXCHUNKS, SEMAEM] at hle hlimit
      omega
    obtain ⟨msgs', hserving', hadds⟩ := h.serves hok.1 hpost hn hd hserving hlive
    exact .inr ⟨msgs', hserving', h.sees.chunks_le hok hserving hle hadds⟩

/-- **The transfer in every run without mishaps**, of not too many chunks. -/
theorem transfers_of_reach (hn : 0 < v.nbuff) (hfile : e.files (filename e) = some data)
    (h : (both v e).Reach (calmWithin MAXCHUNKS) w) :
    ∃ d h₀ pc₀ h₁ pc₁, Sound w d h₀ pc₀ h₁ pc₁ ∧ d.Transfers v e data := by
  have h' : (both v e).Reach
      (fun w a => calmWithin MAXCHUNKS w a ∧ ∀ q ∈ w.procs, Posting v q) w :=
    h.strengthen fun w a w' hw hok _ => ⟨hok, posting_of_reach hw⟩
  refine sound_of_reach (fun _ _ hok => hok.1.1) (.inl (Duo.Asking.start e)) ?_ h'
  intro w w' a d d' h₀ pc₀ h₁ pc₁ h₀' pc₀' h₁' pc₁' hok _ hsound _ hI hd
  exact hsound.transfers hok.1 hok.2 hn hfile hd hI

/-! ## What the client has written -/

/-- What has been written out is a prefix of the file. -/
theorem Duo.Serving.written (h : d.Serving v data msgs) : d.shared.out.flatten <+: data := by
  obtain ⟨rest, hrest⟩ := h.out
  have hread := h.read
  rw [← hrest, List.flatten_append] at hread
  exact (List.prefix_append _ _).trans (hread ▸ List.take_prefix _ _)

/-- It is the file once all but the empty message has been written. -/
theorem Duo.Serving.complete (h : d.Serving v data msgs) (hmsgs : msgs = d.shared.out ++ [[]]) :
    d.shared.out.flatten = data := by
  have hread := h.read
  rw [h.whole (by rw [hmsgs]; simp), List.take_length, hmsgs, List.flatten_append] at hread
  simpa using hread

theorem Duo.Transfers.written (h : d.Transfers v e data) : d.shared.out.flatten <+: data := by
  rcases h with hask | ⟨msgs, hserving, -⟩
  · rw [hask.out]
    exact List.nil_prefix
  · exact hserving.written

/-- And the file when the client has left its loop. -/
theorem Duo.Transfers.whole (h : d.Transfers v e data) (hdone : d.client.stage.done = true) :
    d.shared.out.flatten = data := by
  rcases h with hask | ⟨msgs, hserving, -⟩
  · obtain ⟨-, hwait, -⟩ := hask.late (late_of_done hdone)
    rw [hwait] at hdone
    cases hdone
  · exact hserving.complete (hserving.clientAt.done hdone).1

end Runs

/-! ## Several buffers -/

/-- The statement the server of `11_multi_buffer` is at writes buffer `i`. -/
def Server.writes (u : Server) (i : ℕ) : Prop :=
  match u.stage with
  | .null | .errmesg | .errlen => i = 0
  | .read | .len => i = u.i
  | .last => i = 1
  | _ => False

/-- The server has signalled once for each buffer. -/
def Server.hasPosted (nbuff : ℕ) (u : Server) : Prop :=
  match u.stage with
  | .post => u.i = nbuff
  | .wait | .read | .len | .send | .next | .detach | .poll | .close1 | .close2 | .exit => True
  | _ => False

/-- The buffers one of the two has taken and not yet signalled for. -/
def held (u : Server) (x : Client) : ℕ :=
  u.stage.holds.toNat + (x.stage.reads.toNat + x.stage.returns.toNat)

/-- From `w` to `w'` the server returns from the `sem_signal (clisem)` for buffer `i`. -/
def Sends (i : ℕ) (w w' : World Shared User) : Prop :=
  ∃ u pc u' pc', serverOf w = some (u, pc) ∧ u.stage = .send ∧ u.i = i ∧
    serverOf w' = some (u', pc') ∧ u'.stage = .next

/-- One of the steps `ok`, in which the client does not write buffer `i` out. -/
def unwritten (ok : World Shared User → Act User (Option ℕ) → Prop) (i : ℕ)
    (w : World Shared User) (a : Act User (Option ℕ)) : Prop :=
  ok w a ∧ ∀ c x pc, a = .user 1 c → clientOf w = some (x, pc) → x.stage = .write → x.i ≠ i

/-- **The transfer through several buffers is exact**, in the runs whose steps are `ok`.

From the server's `sem_signal (clisem)` for a buffer to the client's `write` of it the server is
at no statement that writes the buffer, and the two are never at one buffer together. Once the
server has posted all buffers, the two counters and the buffers in use come to their number,
until the client finds the empty message; this is said of a server that is there, since at its
end the kernel changes both counters. What the client has written is a prefix of the file, and
the file when it has left its loop. The server finds the name in buffer 0. -/
structure ExactTransfer (ok : World Shared User → Act User (Option ℕ) → Prop) (nbuff : ℕ)
    (e : Env) (data : List Char) : Prop where
  kept : ∀ w a w₁ i w₂ u pc, (both (.multi nbuff) e).Reach ok w → ok w a →
    w.step (program (.multi nbuff) e) a = some w₁ → Sends i w w₁ →
    ((both (.multi nbuff) e).startedAt w₁).Reach (unwritten ok i) w₂ →
    serverOf w₂ = some (u, pc) → ¬ u.writes i
  apart : ∀ w u pc x pc', (both (.multi nbuff) e).Reach ok w → serverOf w = some (u, pc) →
    clientOf w = some (x, pc') → ¬ (u.stage.holds = true ∧ x.stage.reads = true ∧ u.i = x.i)
  counters : ∀ w u pc x pc', (both (.multi nbuff) e).Reach ok w → serverOf w = some (u, pc) →
    clientOf w = some (x, pc') → pc ≠ .dead → u.hasPosted nbuff → x.stage.done = false →
    (w.sem SEMKEY2).value 0 + (w.sem SEMKEY1).value 0 + held u x = nbuff
  written : ∀ w x pc', (both (.multi nbuff) e).Reach ok w → clientOf w = some (x, pc') →
    w.shared.out.flatten <+: data ∧ (x.stage.done = true → w.shared.out.flatten = data)
  named : ∀ w u pc, (both (.multi nbuff) e).Reach ok w → serverOf w = some (u, pc) →
    u.stage = .open → Stdio.cstr (w.shared.mesg 0).mesg_data = filename e

section Several

variable {nbuff : ℕ} {v : Version} {e : Env} {data : List Char} {msgs : List (List Char)} {g : ℤ}
  {s s' : Shared} {c : Option ℕ} {w w' : World Shared User} {d d' : Duo}
  {a : Act User (Option ℕ)} {i : ℕ}

/-- What a statement does not write it leaves as it is. -/
theorem multi_writes {u : Server} {x : Does Server}
    (hs : server_main (.multi nbuff) e g s u c = some (s', x)) (hst : u.stage ≠ .shmget)
    (hi : ¬ u.writes i) : s'.mesg i = s.mesg i := by
  obtain ⟨stage, j, n, file, off, clisem, servsem⟩ := u
  cases stage <;> first | exact absurd rfl hst | skip
  all_goals
    simp only [server_main, server, multi_server] at hs
    (try split at hs) <;> (try split_ifs at hs) <;> cases hs <;>
      first | rfl | exact Function.update_of_ne hi _ _

/-- The number of messages sent does not go down, and a step writes at most one out. -/
theorem Duo.Step.out_le (h : d.Step v e a d') :
    d.sent ≤ d'.sent ∧ (d'.shared.out = d.shared.out ∨
      (∃ c, a = .user 1 c) ∧ d.client.stage = .write ∧
        d'.shared.out.length = d.shared.out.length + 1) := by
  cases h with
  | server_go _ _ hmain _ | server_quit _ _ hmain =>
    exact ⟨Nat.le_refl _, .inl (server_main_out hmain)⟩
  | server_signal => exact ⟨Nat.le_succ _, .inl rfl⟩
  | client_go ha _ hmain | client_quit ha _ hmain =>
    rcases client_main_out hmain with hsame | ⟨hst, hmore⟩
    · exact ⟨Nat.le_refl _, .inl hsame⟩
    · exact ⟨Nat.le_refl _, .inr ⟨⟨_, ha⟩, hst, hmore⟩⟩
  | _ => exact ⟨Nat.le_refl _, .inl rfl⟩

/-- The step in which the server goes on from its `sem_signal (clisem)` sends a message. -/
theorem Duo.Step.sends (h : d.Step v e a d') (hst : d.server.stage = .send)
    (hst' : d'.server.stage = .next) : d'.sent = d.sent + 1 ∧ d'.shared = d.shared := by
  have hsame : ∀ {u : Server}, u.stage = .next → u = d.server → d'.sent = d.sent + 1 ∧
      d'.shared = d.shared := by
    rintro u hu rfl
    rw [hst] at hu
    cases hu
  have hr : d.server.routine = some (.sem_signal SEMKEY1 d.server.clisem.toNat) := by
    rw [Server.routine, hst]
  cases h with
  | server_go _ _ hmain _ =>
    cases v <;> simp [server_main, SharedMemory.server, single_server, multi_server, hst] at hmain
  | server_signal => exact ⟨rfl, rfl⟩
  | server_wait _ hr' | server_post _ hr' | server_create _ hr' | server_close _ hr' =>
    rw [hr] at hr'
    simp [SEMKEY1, SEMKEY2] at hr'
  | _ => exact hsame hst' rfl

/-- Message `k` has been sent, and not yet been written out. -/
def Unread (k : ℕ) (w : World Shared User) : Prop :=
  w.shared.out.length ≤ k ∧ k < w.semops.countP isSend

variable {h₀ h₁ : ℤ → Option ℕ} {pc₀ pc₁ : Pc}

/-- Where the server is when it sends. -/
theorem Duo.Transfers.sending (h : d.Transfers v e data) (hst : d.server.stage = .send) :
    ∃ msgs, d.Serving v data msgs := by
  rcases h with hask | ⟨msgs, hserving, -⟩
  · rcases hask.stage with hst' | hst' | hst' <;> rw [hst] at hst' <;> cases hst'
  · exact ⟨msgs, hserving⟩

/-- The message in the buffer the server sends is unread. -/
theorem unread_of_sends (hn : 0 < nbuff) (hfile : e.files (filename e) = some data)
    (h : (both (.multi nbuff) e).Reach (calmWithin MAXCHUNKS) w) (hok : calmWithin MAXCHUNKS w a)
    (hs : w.step (program (.multi nbuff) e) a = some w') (hsend : Sends i w w') :
    ∃ k, i = k % nbuff ∧ Unread k w' := by
  obtain ⟨d, h₀, pc₀, h₁, pc₁, hsound, htrans⟩ :=
    transfers_of_reach (v := .multi nbuff) hn hfile h
  obtain ⟨d', h₀', pc₀', h₁', pc₁', hd, hsound'⟩ := hsound.step (sane_of_reach h)
    (sane_of_reach (h.step hok hs)) hok.1 hs
  obtain ⟨u, pc, u', pc', hu, hst, hi, hu', hst'⟩ := hsend
  rw [hsound.sees.serverOf, Option.some.injEq, Prod.mk.injEq] at hu
  rw [hsound'.sees.serverOf, Option.some.injEq, Prod.mk.injEq] at hu'
  obtain ⟨rfl, rfl⟩ := hu
  obtain ⟨rfl, rfl⟩ := hu'
  obtain ⟨msgs, hserving⟩ := htrans.sending hst
  obtain ⟨hsent, hshared⟩ := hd.sends hst hst'
  have hplace := hserving.serverAt
  have hle := hserving.le
  unfold Server.Place at hplace
  rw [hst] at hplace
  refine ⟨d.sent, hi.symm.trans hplace, ?_, ?_⟩
  · rw [hsound'.sees.shared, hshared]
    omega
  · rw [← hsound'.sees.sent]
    omega

/-- It stays so as long as the client does not write that buffer out. -/
theorem Unread.step {k : ℕ} (h : Unread k w) (hn : 0 < nbuff)
    (hfile : e.files (filename e) = some data)
    (hw : (both (.multi nbuff) e).Reach (calmWithin MAXCHUNKS) w)
    (hs : w.step (program (.multi nbuff) e) a = some w')
    (hok : unwritten (calmWithin MAXCHUNKS) (k % nbuff) w a) : Unread k w' := by
  obtain ⟨d, h₀, pc₀, h₁, pc₁, hsound, htrans⟩ :=
    transfers_of_reach (v := .multi nbuff) hn hfile hw
  obtain ⟨d', h₀', pc₀', h₁', pc₁', hd, hsound'⟩ := hsound.step (sane_of_reach hw)
    (sane_of_reach (hw.step hok.1 hs)) hok.1.1 hs
  obtain ⟨hout, hsent⟩ := h
  rw [hsound.sees.shared] at hout
  rw [← hsound.sees.sent] at hsent
  unfold Unread
  rw [hsound'.sees.shared, ← hsound'.sees.sent]
  obtain ⟨hle, hsame | ⟨⟨c, ha⟩, hst, hmore⟩⟩ := hd.out_le
  · rw [hsame]
    omega
  · -- what is written out is another message
    have hne := hok.2 c d.client pc₁ ha hsound.sees.clientOf hst
    have hi : d.client.i = d.shared.out.length % nbuff := by
      rcases htrans with hask | ⟨msgs, hserving, -⟩
      · have hwait := (hask.late (by rw [hst]; rfl)).2.1
        rw [hst] at hwait
        cases hwait
      · exact (hserving.message_taken (by rw [hst]; rfl)).2.1
    have hother : d.shared.out.length ≠ k := by
      rintro rfl
      exact hne hi
    omega

/-- The server does not write to the buffer of an unread message. -/
theorem Unread.not_writes {k : ℕ} (h : Unread k w) (hsound : Sound w d h₀ pc₀ h₁ pc₁)
    (htrans : d.Transfers (.multi nbuff) e data) : ¬ d.server.writes (k % nbuff) := by
  obtain ⟨hout, hsent⟩ := h
  rw [hsound.sees.shared] at hout
  rw [← hsound.sees.sent] at hsent
  intro hwrites
  rcases htrans with hask | ⟨msgs, hserving, -⟩
  · rw [hask.sent] at hsent
    omega
  · have hscript := hserving.script
    have hplace := hserving.serverAt
    have hroom := hserving.room
    unfold Server.writes at hwrites
    unfold Server.Script at hscript
    unfold Server.Place at hplace
    cases hst : d.server.stage <;> rw [hst] at hwrites hscript hplace hroom <;>
      first | exact hwrites | exact hscript | skip
    all_goals exact Ring.mod_ne hout hsent (hroom rfl) (hwrites.trans hplace)

/-- The two do not meet in a buffer. -/
theorem Duo.Transfers.apart (h : d.Transfers (.multi nbuff) e data)
    (hholds : d.server.stage.holds = true) (hreads : d.client.stage.reads = true) :
    d.server.i ≠ d.client.i := by
  rcases h with hask | ⟨msgs, hserving, -⟩
  · rcases hask.stage with hst | hst | hst
    all_goals
      revert hst hholds
      cases d.server.stage <;> intro hholds hst <;> first | (cases hst; done) | cases hholds
  · have hscript := hserving.script
    have hplace := hserving.serverAt
    have hle := hserving.le
    have hroom := hserving.room hholds
    unfold Server.Script at hscript
    unfold Server.Place at hplace
    rw [hreads, Bool.toNat_true] at hle
    rw [(hserving.message_taken hreads).2.1]
    have hi : d.server.i = d.sent % nbuff := by
      cases hst : d.server.stage <;> rw [hst] at hholds hscript hplace <;>
        first | (cases hholds; done) | exact hscript.elim | exact hplace
    rw [hi]
    exact (Ring.mod_ne (Nat.le_refl _) (by omega) hroom).symm

/-- The two counters and the buffers in use. -/
theorem Duo.Transfers.counters (h : d.Transfers (.multi nbuff) e data) (hsup : d.sup = true)
    (hposted : d.server.hasPosted nbuff) (hdone : d.client.stage.done = false) :
    d.serv + d.cli + held d.server d.client = nbuff := by
  rcases h with hask | ⟨msgs, hserving, -⟩
  · exfalso
    unfold Server.hasPosted at hposted
    rcases hask.stage with hst | hst | hst
    all_goals
      revert hst hposted
      cases d.server.stage <;> intro hposted hst <;> first | (cases hst; done) | exact hposted
  · have hexact := hserving.exact hsup hdone
    have hcredit := hserving.credit hsup hdone
    have hall : d.server.posted (.multi nbuff) = nbuff := by
      unfold Server.hasPosted at hposted
      unfold Server.posted
      split_ifs with hst
      · rw [hst] at hposted
        exact hposted
      · rfl
    rw [hall] at hcredit
    unfold held
    omega

/-- The server reads the name before it overwrites the buffer. -/
theorem Duo.Transfers.named (h : d.Transfers v e data) (hopening : d.Opening)
    (hst : d.server.stage = .open) : Stdio.cstr (d.shared.mesg 0).mesg_data = filename e := by
  rcases h with hask | ⟨msgs, hserving, -⟩
  · have hlate : d.client.stage.late = true := by
      by_contra hlate
      have hearly := (hopening.early (by simpa using hlate)).1
      rw [hst] at hearly
      cases hearly
    have hasks := hask.asks
    unfold Client.Asks at hasks
    rw [(hask.late hlate).2.1, hst, if_pos rfl] at hasks
    exact hasks
  · have hscript := hserving.script
    unfold Server.Script at hscript
    rw [hst] at hscript
    cases v <;> exact hscript.elim

end Several

/-- **The transfer is exact if the file is read in no more than `MAXCHUNKS` chunks.** -/
theorem transfer_exact (nbuff : ℕ) (hn : 0 < nbuff) (e : Env) (data : List Char)
    (hfile : e.files (filename e) = some data) :
    ExactTransfer (calmWithin MAXCHUNKS) nbuff e data := by
  have htransfers : ∀ {w : World Shared User},
      (both (.multi nbuff) e).Reach (calmWithin MAXCHUNKS) w →
      ∃ d h₀ pc₀ h₁ pc₁, Sound w d h₀ pc₀ h₁ pc₁ ∧ d.Transfers (.multi nbuff) e data :=
    fun h => transfers_of_reach (v := .multi nbuff) hn hfile h
  constructor
  · intro w a w₁ i w₂ u pc h hok hs hsend hrun hu
    obtain ⟨k, rfl, hunread⟩ := unread_of_sends hn hfile h hok hs hsend
    have hreach := h.step hok hs
    have hok' : ((both (.multi nbuff) e).startedAt w₁).Reach (calmWithin MAXCHUNKS) w₂ :=
      hrun.mono fun _ _ h => h.1
    -- the message stays unread as long as nobody writes to its buffer
    have hunread₂ : Unread k w₂ := by
      refine hrun.invariant (I := Unread k) (fun w hw => ?_) fun w a w' hw hk hok hs => ?_
      · obtain rfl : w = w₁ := hw
        exact hunread
      · exact hk.step hn hfile (hreach.append (hw.mono fun _ _ h => h.1)) hs hok
    obtain ⟨d, h₀, pc₀, h₁, pc₁, hsound, htrans⟩ := htransfers (hreach.append hok')
    rw [hsound.sees.serverOf, Option.some.injEq, Prod.mk.injEq] at hu
    obtain ⟨rfl, rfl⟩ := hu
    exact hunread₂.not_writes hsound htrans
  · rintro w u pc x pc' h hu hx ⟨hholds, hreads, hi⟩
    obtain ⟨d, h₀, pc₀, h₁, pc₁, hsound, htrans⟩ := htransfers h
    rw [hsound.sees.serverOf, Option.some.injEq, Prod.mk.injEq] at hu
    rw [hsound.sees.clientOf, Option.some.injEq, Prod.mk.injEq] at hx
    obtain ⟨rfl, rfl⟩ := hu
    obtain ⟨rfl, rfl⟩ := hx
    exact htrans.apart hholds hreads hi
  · intro w u pc x pc' h hu hx hlive hposted hdone
    obtain ⟨d, h₀, pc₀, h₁, pc₁, hsound, htrans⟩ := htransfers h
    rw [hsound.sees.serverOf, Option.some.injEq, Prod.mk.injEq] at hu
    rw [hsound.sees.clientOf, Option.some.injEq, Prod.mk.injEq] at hx
    obtain ⟨rfl, rfl⟩ := hu
    obtain ⟨rfl, rfl⟩ := hx
    have hsup : d.sup = true := hsound.sees.sup.trans (by simpa using hlive)
    -- a server that has posted is not about to make `clisem`
    have hcli : d.cli = (w.sem SEMKEY1).value 0 := by
      apply hsound.sees.cli_eq
      unfold Server.hasPosted at hposted
      unfold Server.blank
      cases hst : d.server.stage <;> rw [hst] at hposted <;> first | rfl | exact hposted.elim
    rw [← hsound.sees.serv, ← hcli]
    exact htrans.counters hsup hposted hdone
  · intro w x pc' h hx
    obtain ⟨d, h₀, pc₀, h₁, pc₁, hsound, htrans⟩ := htransfers h
    rw [hsound.sees.clientOf, Option.some.injEq, Prod.mk.injEq] at hx
    obtain ⟨rfl, rfl⟩ := hx
    rw [hsound.sees.shared]
    exact ⟨htrans.written, htrans.whole⟩
  · intro w u pc h hu hst
    obtain ⟨d, h₀, pc₀, h₁, pc₁, hsound, htrans⟩ := htransfers h
    rw [hsound.sees.serverOf, Option.some.injEq, Prod.mk.injEq] at hu
    obtain ⟨rfl, rfl⟩ := hu
    rw [hsound.sees.shared]
    exact htrans.named hsound.opening hst

/-- A file of two bytes. -/
def smallFile : Env where
  stdin := ['f', '\n']
  files := fun name => if name = ['f'] then some ['a', 'b'] else none
  sys_err_str := []

/-- The server takes a buffer, reads `n` bytes into it and sends it. -/
def toSend (n : ℕ) : List (Act User (Option ℕ)) :=
  calls 0 1 ++ [.user 0 (some n)] ++ own 0 2 ++ calls 0 1 ++ own 0 2

/-- The server reads the two bytes, one at a time, and finds the end of the file; the client,
which has asked for the file, writes the two messages out and leaves its loop. -/
def toWhole : List (Act User (Option ℕ)) :=
  own 0 6 ++ calls 0 6 ++ own 0 2 ++ calls 0 6 ++ own 0 2 ++
  own 1 6 ++ calls 1 2 ++ own 1 2 ++ calls 1 2 ++ own 1 2 ++ calls 1 1 ++ own 1 4 ++ calls 1 1 ++
  own 1 1 ++
  calls 0 1 ++ own 0 3 ++ calls 0 1 ++ own 0 1 ++ calls 0 1 ++ own 0 1 ++ calls 0 1 ++ own 0 1 ++
  calls 0 1 ++ own 0 2 ++ toSend 1 ++ toSend 1 ++ toSend 0 ++
  calls 1 1 ++ own 1 3 ++ calls 1 1 ++ own 1 2 ++ calls 1 1 ++ own 1 3 ++ calls 1 1 ++ own 1 2 ++
  calls 1 1 ++ own 1 1

/-- A run in which the whole file is written out. -/
theorem transfer_exact_two : ∃ w,
    (both (.multi NBUFF) smallFile).Reach (calmWithin MAXCHUNKS) w ∧
      w.shared.out.length = 2 ∧ w.shared.out.flatten = ['a', 'b'] := by
  have hrun := Machine.Reach.run (both (.multi NBUFF) smallFile) (calmWithin MAXCHUNKS) rfl toWhole
    (by decide +kernel)
  refine ⟨_, hrun, by decide +kernel, ?_⟩
  have hexact := transfer_exact NBUFF (by decide) smallFile ['a', 'b'] (by decide)
  exact (hexact.written _ ⟨.alldone, 2, 0, 0, 0⟩ .user hrun (by decide +kernel)).2 rfl

/-- A file of 32767 bytes. -/
def longFile : Env where
  stdin := ['f', '\n']
  files := fun name => if name = ['f'] then some (List.replicate SEMAEM 'x') else none
  sys_err_str := []

/-- The client has asked for the file, and the server has posted the buffers: both wait. -/
def toWaits : List (Act User (Option ℕ)) :=
  own 0 6 ++ calls 0 6 ++ own 0 2 ++ calls 0 6 ++ own 0 2 ++
  own 1 6 ++ calls 1 2 ++ own 1 2 ++ calls 1 2 ++ own 1 2 ++ calls 1 1 ++ own 1 4 ++ calls 1 1 ++
  own 1 1 ++
  calls 0 1 ++ own 0 3 ++ calls 0 1 ++ own 0 1 ++ calls 0 1 ++ own 0 1 ++ calls 0 1 ++ own 0 1 ++
  calls 0 1 ++ own 0 2

/-- A server that waits for its first buffer, with the file open. -/
theorem Duo.Transfers.waits {v : Version} {e : Env} {data : List Char} {d : Duo}
    (h : d.Transfers v e data)
    (hat : { d.server with file := none } = (⟨.wait, 0, 0, none, 0, 0, 0⟩ : Server)) :
    d.server = ⟨.wait, 0, 0, some data, 0, 0, 0⟩ := by
  have hst : d.server.stage = .wait := congrArg Server.stage hat
  have hfile : d.server.file = some data := by
    rcases h with hask | ⟨msgs, hserving, -⟩
    · rcases hask.stage with hst' | hst' | hst' <;> rw [hst] at hst' <;> cases hst'
    · exact hserving.file
  generalize d.server = u at hat hfile
  obtain ⟨stage, i, n, file, off, clisem, servsem⟩ := u
  cases hat
  cases hfile
  rfl

/-- The rounds begin where both wait for the first time. -/
theorem rounds_of_waits {nbuff : ℕ} {e : Env} {data : List Char} {w : World Shared User}
    (hn : 0 < nbuff) (hfile : e.files (filename e) = some data)
    (h : (both (.multi nbuff) e).Reach (calmWithin MAXCHUNKS) w)
    (hserver : (serverOf w).map (fun r => ({ r.1 with file := none }, r.2)) =
      some (⟨.wait, 0, 0, none, 0, 0, 0⟩, .lib SEMKEY2 (.op_semop 0 (-1)) false))
    (hclient : clientOf w = some (⟨.wait, 0, 1, 0, 0⟩, .lib SEMKEY1 (.op_semop 0 (-1)) false))
    (hclisem : Counts (w.sem SEMKEY1) 0 0 1)
    (hservsem : Counts (w.sem SEMKEY2) nbuff (1 - nbuff) (-1)) (hout : w.shared.out = []) :
    Rounds nbuff data 0 w := by
  obtain ⟨d, h₀, pc₀, h₁, pc₁, hsound, htrans⟩ :=
    transfers_of_reach (v := .multi nbuff) hn hfile h
  rw [hsound.sees.serverOf, Option.map_some, Option.some.injEq, Prod.mk.injEq] at hserver
  rw [hsound.sees.clientOf, Option.some.injEq, Prod.mk.injEq] at hclient
  obtain ⟨hat, rfl⟩ := hserver
  obtain ⟨hx, rfl⟩ := hclient
  refine ⟨0, 1, w.shared, by rw [hout]; exact Nat.le_refl 0, ⟨h₀, h₁, ?_⟩, rfl, hclisem, ?_⟩
  · rw [hsound.sees.procs, htrans.waits hat, hx, Nat.zero_mod]
  · simpa using hservsem

/-- In a file of 32767 bytes. -/
theorem longFile_waits : ∃ w, (both (.multi NBUFF) longFile).Reach calm w ∧
    Rounds NBUFF (List.replicate SEMAEM 'x') 0 w := by
  have hrun := Machine.Reach.run (both (.multi NBUFF) longFile) (calmWithin MAXCHUNKS) rfl toWaits
    (by decide +kernel)
  exact ⟨_, hrun.mono fun _ _ h => h.1, rounds_of_waits (by decide) rfl hrun (by decide +kernel)
    (by decide +kernel) (.of_map (by decide +kernel)) (.of_map (by decide +kernel))
    (by decide +kernel)⟩

/-- **With more chunks it is not**: the client, which has taken 32766 of them, ends in its loop. -/
theorem transfer_inexact : longFile.files (filename longFile) = some (List.replicate SEMAEM 'x') ∧
    ¬ ExactTransfer calm NBUFF longFile (List.replicate SEMAEM 'x') := by
  refine ⟨rfl, fun hexact => ?_⟩
  obtain ⟨w, hw, hrounds⟩ := longFile_waits
  obtain ⟨w', u, x, hw', ⟨key, pt, b, hu⟩, hst, hx, hst', hval, -⟩ :=
    refused_of_rounds hrounds hw (by decide) (by decide) (by rw [List.length_replicate])
  have hsum := hexact.counters w' u _ x _ hw' hu hx nofun (by rw [Server.hasPosted, hst]; trivial)
    (by rw [hst']; rfl)
  rw [hval] at hsum
  have : NBUFF < SEMVMX := by decide
  omega

end UnixNetProg.SharedMemory

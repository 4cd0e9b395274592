/-
The two programs over two counters.

`Duo` is the system as its authors think of it: a server, a client, their
shared memory, and two counters that `sem_wait` takes from and `sem_signal`
gives to, each in one step. `Duo.Step` lists what can happen in it. What the
kernel adds, the creation of the sets, their identifiers, the lock and the
process counter, removal and most of what undo does, is left out, and so the
values of the counters are only spoken of as long as one of the two has not
begun to take the sets down: `cliKnown` and `servKnown`.

The theorem that the system of the two programs is this one, step by step, is
in the next module.
-/
import UnixNetProg.SharedMemory.Interface

set_option autoImplicit false

namespace UnixNetProg.SharedMemory

open UnixNetProg.SysV UnixNetProg.Semaphore UnixNetProg.Runs

/-! ## Stages -/

/-- Up to the first `sem_wait`. -/
def ServerStage.early : ServerStage → Bool
  | .shmget | .create1 | .check1 | .create2 | .check2 | .start => true
  | _ => false

/-- The server is taking the semaphores down. -/
def ServerStage.passed : ServerStage → Bool
  | .close1 | .close2 | .exit => true
  | _ => false

/-- The client has opened the semaphores. -/
def ClientStage.opened : ClientStage → Bool
  | .shmget | .open1 | .check1 | .open2 | .check2 => false
  | _ => true

/-- The client has got past its first `sem_wait`. -/
def ClientStage.waited : ClientStage → Bool
  | .shmget | .open1 | .check1 | .open2 | .check2 | .start => false
  | _ => true

/-- The client has signalled that the name of the file is there. -/
def ClientStage.late : ClientStage → Bool
  | .wait | .len | .write | .signal | .next | .alldone | .detach | .close1 | .close2 | .exit => true
  | _ => false

/-- The client has taken a message and not yet written it out. -/
def ClientStage.reads : ClientStage → Bool
  | .len | .write => true
  | _ => false

/-- The client has yet to give the buffer back. -/
def ClientStage.returns : ClientStage → Bool
  | .signal => true
  | _ => false

/-- The client has left its loop. -/
def ClientStage.done : ClientStage → Bool
  | .alldone | .detach | .close1 | .close2 | .exit => true
  | _ => false

/-! ## The system -/

/-- The two processes, whether they are still there, the counters, the shared
memory, and what the kernel keeps to undo: how many `sem_signal (clisem)` the
server has made and what it has taken from `servsem` beyond what it has posted, and
how many `sem_wait (clisem)` and `sem_signal (servsem)` the client has made. -/
structure Duo where
  server : Server
  client : Client
  sup : Bool
  cup : Bool
  cli : ℕ
  serv : ℕ
  sent : ℕ
  shared : Shared
  bal : ℤ
  taken : ℕ
  given : ℕ

/-- The first counter means something: one of the two is there and not yet taking
the semaphores down. -/
def Duo.cliKnown (d : Duo) : Prop :=
  (d.cup = true ∧ d.client.stage.done = false) ∨ (d.sup = true ∧ d.server.stage.passed = false)

/-- The second counter means something. -/
def Duo.servKnown (d : Duo) : Prop :=
  d.client.stage.late = false ∨ (d.cup = true ∧ d.sup = true ∧
    (d.client.stage.done = false ∨ d.server.stage.passed = false))

/-- The routine fails, and ends the server: the value or the adjustment would leave its range.
A routine that has to wait does not get so far. -/
def Duo.ServerRefused (d : Duo) : Call → Prop
  | .sem_wait _ _ => 0 < d.serv ∧ (d.servKnown → ¬ UndoFits (d.bal + 1))
  | .sem_signal key _ => key = SEMKEY1 → d.cliKnown → SEMVMX ≤ d.cli ∨ SEMAEM < d.sent
  | _ => False

/-- And so it is with the client. -/
def Duo.ClientRefused (d : Duo) : Call → Prop
  | .sem_wait _ _ => d.cliKnown → 0 < d.cli ∧ SEMAEM ≤ d.taken
  | .sem_signal _ _ => d.servKnown → SEMVMX ≤ d.serv ∨ SEMAEM < d.given
  | _ => False

/-- What can happen, with the step `a` of the world in which it does. -/
inductive Duo.Step (v : Version) (e : Env) (a : Act User (Option ℕ)) (d : Duo) : Duo → Prop
  | idle : Step v e a d d
  | server_go {g : ℤ} {c : Option ℕ} {s : Shared} {u : Server} : a = .user 0 c → d.sup = true →
      server_main v e g d.shared d.server c = some (s, .go u) →
      (d.server.stage = .poll → d.cliKnown → g = d.cli) →
      Step v e a d { d with server := u, shared := s }
  | server_quit {g : ℤ} {c : Option ℕ} {s : Shared} {x : Does Server} {cli serv : ℕ} :
      a = .user 0 c → d.sup = true → server_main v e g d.shared d.server c = some (s, x) →
      (x = .exit ∨ ∃ msg, x = .err_sys msg) → (d.cliKnown → cli ≤ d.cli) →
      (d.client.stage.late = false → serv = d.serv) →
      Step v e a d { d with sup := false, cli := cli, serv := serv, shared := s }
  | server_wait {id cli serv : ℕ} : d.sup = true →
      d.server.routine = some (.sem_wait SEMKEY2 id) → 0 < d.serv → (d.cliKnown → cli = d.cli) →
      (d.servKnown → serv + 1 = d.serv) →
      Step v e a d { d with
        server := server_return v d.server 0, cli := cli, serv := serv, bal := d.bal + 1 }
  | server_signal {id cli serv : ℕ} : d.sup = true →
      d.server.routine = some (.sem_signal SEMKEY1 id) → (d.cliKnown → cli = d.cli + 1) →
      (d.servKnown → serv = d.serv) →
      Step v e a d { d with
        server := server_return v d.server 0, cli := cli, serv := serv, sent := d.sent + 1 }
  | server_post {id cli serv : ℕ} : d.sup = true →
      d.server.routine = some (.sem_signal SEMKEY2 id) → (d.cliKnown → cli = d.cli) →
      (d.servKnown → serv = d.serv + 1) → serv ≤ SEMVMX →
      Step v e a d { d with
        server := server_return v d.server 0, cli := cli, serv := serv, bal := d.bal - 1 }
  | server_create {key initval x : ℤ} {cli serv : ℕ} : d.sup = true →
      d.server.routine = some (.sem_create key initval) → 0 ≤ x → (d.cliKnown → cli = d.cli) →
      (d.servKnown → serv = d.serv) →
      Step v e a d { d with server := server_return v d.server x, cli := cli, serv := serv }
  | server_close {key x : ℤ} {id cli serv : ℕ} : d.sup = true →
      d.server.routine = some (.sem_close key id) → (d.cliKnown → cli = d.cli) →
      (d.servKnown → serv = d.serv) →
      Step v e a d { d with server := server_return v d.server x, cli := cli, serv := serv }
  | server_fail {cl : Call} {cli serv : ℕ} : d.sup = true →
      d.server.routine = some cl → d.ServerRefused cl → (d.cliKnown → cli ≤ d.cli) →
      (d.client.stage.late = false → serv = d.serv) →
      Step v e a d { d with sup := false, cli := cli, serv := serv }
  | client_go {c : Option ℕ} {s : Shared} {u : Client} : a = .user 1 c → d.cup = true →
      client_main v e d.shared d.client c = some (s, .go u) →
      Step v e a d { d with client := u, shared := s }
  | client_quit {c : Option ℕ} {s : Shared} {x : Does Client} {cli serv : ℕ} :
      a = .user 1 c → d.cup = true → client_main v e d.shared d.client c = some (s, x) →
      (x = .exit ∨ ∃ msg, x = .err_sys msg) → (d.client.stage.late = false → serv = d.serv) →
      (d.client.stage.late = true → d.sup = true → d.server.stage.passed = false → 0 < cli) →
      Step v e a d { d with cup := false, cli := cli, serv := serv, shared := s }
  | client_wait {id cli serv : ℕ} : d.cup = true →
      d.client.routine = some (.sem_wait SEMKEY1 id) → (d.cliKnown → d.taken < SEMAEM) →
      (d.cliKnown → cli + 1 = d.cli) → (d.servKnown → serv = d.serv) →
      Step v e a d { d with
        client := client_return d.client 0, cli := cli, serv := serv, taken := d.taken + 1 }
  | client_signal {id cli serv : ℕ} : d.cup = true →
      d.client.routine = some (.sem_signal SEMKEY2 id) → (d.cliKnown → cli = d.cli) →
      (d.servKnown → serv = d.serv + 1) →
      Step v e a d { d with
        client := client_return d.client 0, cli := cli, serv := serv, given := d.given + 1 }
  | client_open {key x : ℤ} {cli serv : ℕ} : d.cup = true →
      d.client.routine = some (.sem_open key) → (d.cliKnown → cli = d.cli) →
      (d.servKnown → serv = d.serv) →
      Step v e a d { d with client := client_return d.client x, cli := cli, serv := serv }
  | client_close {key x : ℤ} {id cli serv : ℕ} : d.cup = true →
      d.client.routine = some (.sem_close key id) → (d.cliKnown → cli = d.cli) →
      (d.servKnown → serv = d.serv) →
      Step v e a d { d with client := client_return d.client x, cli := cli, serv := serv }
  | client_fail {cli serv : ℕ} : d.cup = true →
      (d.client.stage.late = true → ∃ cl, d.client.routine = some cl ∧ d.ClientRefused cl) →
      (d.client.stage.late = false → serv = d.serv) → (d.servKnown → serv ≤ d.serv) →
      (d.client.stage.late = true → d.sup = true → d.server.stage.passed = false → 0 < cli) →
      Step v e a d { d with cup := false, cli := cli, serv := serv }

/-- The system before the programs run: `clisem` counts as initialised. -/
def Duo.start : Duo := ⟨.start, .start, true, true, 1, 0, 0, .start, 0, 0, 0⟩

/-! ## How the stages follow each other -/

section Stages

variable {v : Version} {e : Env} {g : ℤ} {s s' : Shared} {c : Option ℕ} {key : ℤ}

/-- The server gets past its first `sem_wait` only through it. -/
theorem server_go_early {u u' : Server} (hs : server_main v e g s u c = some (s', .go u'))
    (h : u.stage.early = true) : u'.stage.early = true := by
  obtain ⟨stage, i, n, file, off, clisem, servsem⟩ := u
  cases stage <;> first | (cases h; done) | skip
  all_goals simp only [server_main] at hs
  case start => cases v <;> cases hs
  all_goals (try split_ifs at hs) <;> cases hs <;> rfl

/-- The client signals, and so becomes late, only in `sem_signal`. -/
theorem client_go_late {u u' : Client} (hs : client_main v e s u c = some (s', .go u')) :
    u'.stage.late = u.stage.late := by
  obtain ⟨stage, i, n, clisem, servsem⟩ := u
  cases stage <;> simp only [client_main] at hs
  case len =>
    cases hs
    simp only
    split_ifs <;> rfl
  all_goals (try split at hs) <;> (try split_ifs at hs) <;> cases hs <;> rfl

/-- The client goes on with the semaphores once it has looked at both identifiers. -/
theorem client_go_opened {u u' : Client} (hs : client_main v e s u c = some (s', .go u'))
    (h : u'.stage.opened = true) :
    u.stage.opened = true ∨ (u.stage = .check2 ∧ ¬ u.servsem < 0) := by
  obtain ⟨stage, i, n, clisem, servsem⟩ := u
  cases stage <;> simp only [client_main] at hs <;>
    first
      | exact .inl rfl
      | ((try split at hs) <;> (try split_ifs at hs) <;> cases hs <;>
          first | (cases h; done) | skip)
  case check2 hneg => exact .inr ⟨rfl, hneg⟩

/-- A client that has left its loop stays out of it. -/
theorem client_go_done {u u' : Client} (hs : client_main v e s u c = some (s', .go u'))
    (h : u'.stage.done = false) : u.stage.done = false := by
  obtain ⟨stage, i, n, clisem, servsem⟩ := u
  cases stage <;> first | rfl | skip
  all_goals
    simp only [client_main] at hs
    (try split_ifs at hs) <;> cases hs <;> cases h

/-- The client gets past its first `sem_wait` only through it. -/
theorem client_go_waited {u u' : Client} (hs : client_main v e s u c = some (s', .go u')) :
    u'.stage.waited = u.stage.waited := by
  obtain ⟨stage, i, n, clisem, servsem⟩ := u
  cases stage <;> simp only [client_main] at hs
  case len =>
    cases hs
    simp only
    split_ifs <;> rfl
  all_goals (try split at hs) <;> (try split_ifs at hs) <;> cases hs <;> rfl

/-- A client that has waited has opened the semaphores. -/
theorem opened_of_waited {st : ClientStage} (h : st.waited = true) : st.opened = true := by
  cases st <;> first | rfl | cases h

/-- A client that has left its loop is late. -/
theorem late_of_done {st : ClientStage} (h : st.done = true) : st.late = true := by
  cases st <;> first | rfl | cases h

/-- A client that is late has waited. -/
theorem waited_of_late {st : ClientStage} (h : st.late = true) : st.waited = true := by
  cases st <;> first | rfl | cases h

/-- A client that is late has opened the semaphores. -/
theorem opened_of_late {st : ClientStage} (h : st.late = true) : st.opened = true := by
  cases st <;> first | rfl | cases h

/-- A server that is early has not passed. -/
theorem not_passed_of_early {st : ServerStage} (h : st.early = true) : st.passed = false := by
  cases st <;> first | rfl | cases h

/-- A server that takes the semaphores down makes no statement of `server` any more. -/
theorem server_go_passed {u u' : Server} (hs : server_main v e g s u c = some (s', .go u')) :
    u.stage.passed = false := by
  obtain ⟨stage, i, n, file, off, clisem, servsem⟩ := u
  cases stage <;> first | rfl | skip
  all_goals cases hs

theorem server_return_passed {u : Server} {cl : Call} {x : ℤ} (hr : u.routine = some cl)
    (h : (server_return v u x).stage.passed = false) : u.stage.passed = false := by
  obtain ⟨stage, i, n, file, off, clisem, servsem⟩ := u
  cases stage <;> first | rfl | (cases hr; done) | skip
  all_goals cases h

theorem client_return_done {u : Client} {x : ℤ} (h : (client_return u x).stage.done = false) :
    u.stage.done = false := by
  obtain ⟨stage, i, n, clisem, servsem⟩ := u
  cases stage <;> first | rfl | cases h

theorem client_return_late {u : Client} {x : ℤ} (h : (client_return u x).stage.late = false) :
    u.stage.late = false := by
  obtain ⟨stage, i, n, clisem, servsem⟩ := u
  cases stage <;> first | rfl | cases h

/-- What comes before a look at an identifier is the routine that returned it. -/
theorem server_go_check {u u' : Server} (hs : server_main v e g s u c = some (s', .go u')) :
    u'.stage ≠ .check1 ∧ u'.stage ≠ .check2 := by
  obtain ⟨stage, i, n, file, off, clisem, servsem⟩ := u
  cases stage <;> simp only [server_main] at hs
  all_goals
    cases v <;> (try simp only [server, single_server, multi_server] at hs) <;>
      (try split at hs) <;> (try split_ifs at hs) <;> cases hs <;> simp

end Stages

/-! ## What only ever happens once -/

/-- Neither process comes back, nor to a part of its program it has left. -/
structure Duo.Le (d d' : Duo) : Prop where
  sup : d'.sup = true → d.sup = true
  cup : d'.cup = true → d.cup = true
  late : d'.client.stage.late = false → d.client.stage.late = false
  done : d'.client.stage.done = false → d.client.stage.done = false
  passed : d'.server.stage.passed = false → d.server.stage.passed = false

section Once

variable {v : Version} {e : Env} {a : Act User (Option ℕ)} {d d' : Duo}

theorem Duo.Step.le (h : d.Step v e a d') : d.Le d' := by
  have hnever : false = true → d.sup = true := fun h => by cases h
  have hnever' : false = true → d.cup = true := fun h => by cases h
  cases h with
  | idle => exact ⟨id, id, id, id, id⟩
  | server_go _ _ hgo _ => exact ⟨id, id, id, id, fun _ => server_go_passed hgo⟩
  | server_quit | server_fail => exact ⟨hnever, id, id, id, id⟩
  | server_wait _ hr | server_signal _ hr | server_post _ hr | server_create _ hr
  | server_close _ hr => exact ⟨id, id, id, id, server_return_passed hr⟩
  | client_go _ _ hgo =>
    exact ⟨id, id, fun hl => by rw [← client_go_late hgo]; exact hl, client_go_done hgo, id⟩
  | client_quit | client_fail => exact ⟨id, hnever', id, id, id⟩
  | client_wait | client_signal | client_open | client_close =>
    exact ⟨id, id, client_return_late, client_return_done, id⟩

/-- What the counters mean they have meant before. -/
theorem Duo.Le.cliKnown (h : d.Le d') (hk : d'.cliKnown) : d.cliKnown := by
  rcases hk with ⟨hup, hd⟩ | ⟨hup, hp⟩
  · exact .inl ⟨h.cup hup, h.done hd⟩
  · exact .inr ⟨h.sup hup, h.passed hp⟩

theorem Duo.Le.servKnown (h : d.Le d') (hk : d'.servKnown) : d.servKnown := by
  rcases hk with hl | ⟨hcup, hsup, hk⟩
  · exact .inl (h.late hl)
  · refine .inr ⟨h.cup hcup, h.sup hsup, ?_⟩
    rcases hk with hd | hp
    · exact .inl (h.done hd)
    · exact .inr (h.passed hp)

end Once

/-! ## The opening -/

/-- Up to the client's first signal the server gets no further than its first
`sem_wait`. What `sem_create` has returned is an identifier. -/
structure Duo.Opening (d : Duo) : Prop where
  early : d.client.stage.late = false → d.server.stage.early = true ∧ d.serv = 0
  check1 : d.server.stage = .check1 → 0 ≤ d.server.clisem
  check2 : d.server.stage = .check2 → 0 ≤ d.server.servsem

theorem Duo.Opening.start : Duo.start.Opening := ⟨fun _ => ⟨rfl, rfl⟩, nofun, nofun⟩

section Opening

variable {v : Version} {e : Env} {a : Act User (Option ℕ)} {d d' : Duo}

/-- Where the server is after a routine. -/
theorem server_return_early {u : Server} {cl : Call} {x : ℤ} (h : u.routine = some cl)
    (hcl : (∃ key n, cl = .sem_create key n) ∨ u.stage.early = false) :
    (server_return v u x).stage.early = u.stage.early := by
  obtain ⟨stage, i, n, file, off, clisem, servsem⟩ := u
  cases stage <;> first | (cases h; done) | skip
  case start =>
    rcases hcl with ⟨key, n, rfl⟩ | hcl
    · cases h
    · exact absurd hcl (by simp [ServerStage.early])
  all_goals cases v <;> rfl

theorem server_return_check {u : Server} {cl : Call} {x : ℤ} (h : u.routine = some cl) :
    ((server_return v u x).stage = .check1 →
      cl = .sem_create SEMKEY1 1 ∧ (server_return v u x).clisem = x) ∧
    ((server_return v u x).stage = .check2 →
      cl = .sem_create SEMKEY2 0 ∧ (server_return v u x).servsem = x) := by
  obtain ⟨stage, i, n, file, off, clisem, servsem⟩ := u
  cases stage <;> first | (cases h; done) | skip
  case create1 => cases h; exact ⟨fun _ => ⟨rfl, rfl⟩, nofun⟩
  case create2 => cases h; exact ⟨nofun, fun _ => ⟨rfl, rfl⟩⟩
  all_goals cases v <;> constructor <;> intro hc <;> cases hc

/-- **The opening is as it should be in every state.** -/
theorem Duo.Opening.step (h : d.Opening) (hs : d.Step v e a d') : d'.Opening := by
  -- before the first signal there is nothing to take and nothing is given
  have hserv : ∀ {serv : ℕ}, (d.client.stage.late = false → serv = d.serv) →
      d.client.stage.late = false → d.server.stage.early = true ∧ serv = 0 := by
    intro serv hsame hl
    rw [hsame hl]
    exact h.early hl
  have hknown : d.client.stage.late = false → d.servKnown := .inl
  cases hs with
  | idle => exact h
  | server_go _ _ hgo _ =>
    have hcheck := server_go_check hgo
    refine ⟨fun hl => ?_, fun h1 => absurd h1 hcheck.1, fun h2 => absurd h2 hcheck.2⟩
    obtain ⟨he, h0⟩ := h.early hl
    exact ⟨server_go_early hgo he, h0⟩
  | server_quit _ _ _ _ _ hs => exact ⟨hserv hs, h.check1, h.check2⟩
  | server_fail _ _ _ _ hs => exact ⟨hserv hs, h.check1, h.check2⟩
  | server_wait _ hr _ _ hs =>
    obtain ⟨h1, h2⟩ := server_return_check (v := v) (x := 0) hr
    refine ⟨fun hl => ?_, fun hc => ?_, fun hc => ?_⟩
    · have hone := hs (hknown hl)
      have hzero := (h.early hl).2
      omega
    · cases (h1 hc).1
    · cases (h2 hc).1
  | server_signal _ hr _ hs | server_post _ hr _ hs =>
    obtain ⟨h1, h2⟩ := server_return_check (v := v) (x := 0) hr
    refine ⟨fun hl => ?_, fun hc => ?_, fun hc => ?_⟩
    · have hearly := (h.early hl).1
      revert hr hearly
      obtain ⟨⟨stage, i, n, file, off, clisem, servsem⟩, _⟩ := d
      cases stage <;> simp [Server.routine, ServerStage.early]
    · cases (h1 hc).1
    · cases (h2 hc).1
  | @server_create key n x _ _ _ hr hx _ hs =>
    obtain ⟨h1, h2⟩ := server_return_check (v := v) (x := x) hr
    refine ⟨fun hl => ?_, fun hc => ?_, fun hc => ?_⟩
    · obtain ⟨he, h0⟩ := hserv (fun hl => hs (hknown hl)) hl
      exact ⟨by rw [server_return_early hr (.inl ⟨key, n, rfl⟩)]; exact he, h0⟩
    · rw [(h1 hc).2]
      exact hx
    · rw [(h2 hc).2]
      exact hx
  | @server_close key x _ _ _ _ hr _ hs =>
    obtain ⟨h1, h2⟩ := server_return_check (v := v) (x := x) hr
    refine ⟨fun hl => ?_, fun hc => ?_, fun hc => ?_⟩
    · have hearly := (h.early hl).1
      revert hr hearly
      obtain ⟨⟨stage, i, n, file, off, clisem, servsem⟩, _⟩ := d
      cases stage <;> simp [Server.routine, ServerStage.early]
    · cases (h1 hc).1
    · cases (h2 hc).1
  | client_go _ _ hgo =>
    refine ⟨fun hl => ?_, h.check1, h.check2⟩
    rw [client_go_late hgo] at hl
    exact h.early hl
  | client_quit _ _ _ _ hs _ => exact ⟨hserv hs, h.check1, h.check2⟩
  | client_fail _ _ hs _ _ => exact ⟨hserv hs, h.check1, h.check2⟩
  | client_wait _ hr _ _ hs | client_open _ hr _ hs | client_close _ hr _ hs =>
    refine ⟨fun hl => hserv (fun hl => hs (hknown hl)) ?_, h.check1, h.check2⟩
    revert hr hl
    obtain ⟨_, ⟨stage, i, n, clisem, servsem⟩, _⟩ := d
    cases stage <;> simp [Client.routine, client_return, ClientStage.late]
  | client_signal _ hr _ _ =>
    refine ⟨fun hl => absurd hl ?_, h.check1, h.check2⟩
    revert hr
    obtain ⟨_, ⟨stage, i, n, clisem, servsem⟩, _⟩ := d
    cases stage <;> simp [Client.routine, client_return, ClientStage.late]

end Opening

end UnixNetProg.SharedMemory

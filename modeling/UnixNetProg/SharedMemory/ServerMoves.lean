/-
The server's steps, as steps of `Duo`.

The moves of the world (`World.Moves`) that process 0 makes are taken one by
one. Most of them are nothing at all to `Duo`: the process calls a routine,
falls asleep in it, or gets from one system call to the next. What is left are
the statements of the program, its end, and the returns of the routines, of
which only `sem_wait`, `sem_signal` and a removal touch the counters. `Matched`
says what has to be shown of each of them.
-/
import UnixNetProg.SharedMemory.Refine

set_option autoImplicit false

namespace UnixNetProg.SharedMemory

open UnixNetProg.SysV UnixNetProg.Semaphore UnixNetProg.Runs UnixNetProg.Pool

/-! ## What a step leaves as it was -/

/-- `[0]` of every set, the shared memory and the number of the server's signals
are as they were. -/
structure Still (w w' : World Shared User) : Prop where
  value : ∀ key, (w'.sem key).value 0 = (w.sem key).value 0
  undo : ∀ key p, (w'.sem key).undo p 0 = (w.sem key).undo p 0
  sent : w'.semops.countP isSend = w.semops.countP isSend
  shared : w'.shared = w.shared

section Still

variable {w w' : World Shared User} {a : Act User (Option ℕ)} {pt pt' : Point} {p : ℕ} {key : ℤ}
  {sl : Slot 3} {r : Except Errno ℕ} {b : Bool}

theorem Still.of_sem (hsem : w'.sem = w.sem) (hshared : w'.shared = w.shared)
    (hops : w'.semops = w.semops) : Still w w' := by
  refine ⟨fun key => ?_, fun key p => ?_, by rw [hops], hshared⟩ <;> rw [hsem]

/-- Only the array of `sem_op` is one of the server's signals. -/
theorem not_send (hop : ∀ id n, pt ≠ .op_semop id n) :
    (Event.sys p key pt.call r).semop?.toList.countP isSend = 0 := by
  have hlock : (op_lock == op_op 1) = false := by decide
  have hend : (op_endcreate == op_op 1) = false := by decide
  have hopen : (op_open == op_op 1) = false := by decide
  have hclose : (op_close == op_op 1) = false := by decide
  have hunlock : (op_unlock == op_op 1) = false := by decide
  cases pt with
  | op_semop id n => exact absurd rfl (hop id n)
  | _ => cases r <;> simp [Event.semop?, Point.call, isSend, hlock, hend, hopen, hclose, hunlock]

/-- A system call that is none of the three that touch `[0]`. -/
theorem Still.of_comes (hc : pt.Comes a (w.sem key) p b sl r)
    (hset : ∀ id v, pt ≠ .create_setval0 id v) (hop : ∀ id n, pt ≠ .op_semop id n)
    (hrm : ∀ id, pt ≠ .rm id) (hsem : w'.sem = Function.update w.sem key sl)
    (hshared : w'.shared = w.shared)
    (hops : w'.semops = w.semops ++ (Event.sys p key pt.call r).semop?.toList) : Still w w' := by
  obtain ⟨hval, hundo⟩ := hc.still hset hop hrm
  refine ⟨fun key' => ?_, fun key' p' => ?_, ?_, hshared⟩
  · rw [hsem]
    by_cases hk : key' = key
    · rw [hk, Function.update_self, hval]
    · rw [Function.update_of_ne hk]
  · rw [hsem]
    by_cases hk : key' = key
    · rw [hk, Function.update_self, hundo]
    · rw [Function.update_of_ne hk]
  · rw [hops, List.countP_append, not_send hop, Nat.add_zero]

/-- In a run without mishaps a system call is what the kernel makes of it. -/
theorem calm.perform {sl₀ : Slot 3} (h : calm w a) (hc : pt.Comes a sl₀ p b sl r) :
    pt.perform sl₀ p b = some (sl, r) := by
  rcases hc with hperf | ⟨rfl, -⟩
  · exact hperf
  · exact h.elim

end Still

/-! ## Stages and points -/

section Stages

variable {v : Version} {u : Server} {cl : Call} {key key' : ℤ} {pc pc' : Pc} {pt pt' : Point}
  {r : Except Errno ℕ} {b b' : Bool} {x : ℤ}

/-- Up to the last `semop` of `sem_create` the server has the set to initialise. -/
theorem making_of_not_endcreate (hpc : ∀ id b, pc ≠ .lib key (.create_endcreate id) b)
    (h : u.making key pc') : u.making key pc := by
  obtain ⟨stage, i, n, file, off, clisem, servsem⟩ := u
  cases stage
  case create1 => exact .inr hpc
  case create2 => exact ⟨h.1, hpc⟩
  all_goals exact h

/-- Falling asleep does not change what there is to do. -/
theorem making_asleep (h : u.making key (.lib key' pt true)) :
    u.making key (.lib key' pt false) := by
  obtain ⟨stage, i, n, file, off, clisem, servsem⟩ := u
  cases stage
  case create1 =>
    rcases h with h | h
    · exact .inl h
    · refine .inr fun id b heq => ?_
      cases heq
      exact h id true rfl
  case create2 =>
    refine ⟨h.1, fun id b heq => ?_⟩
    cases heq
    exact h.2 id true rfl
  all_goals exact h

/-- A routine that returns leaves at most the other set. -/
theorem making_return (hr : u.routine = some cl) (h : (server_return v u x).making key pc') :
    u.making key pc := by
  obtain ⟨stage, i, n, file, off, clisem, servsem⟩ := u
  cases stage <;> first | (cases hr; done) | skip
  case create1 => exact .inl h
  all_goals cases v <;> exact False.elim h

theorem blank_return (hr : u.routine = some cl) : (server_return v u x).blank pc = false := by
  obtain ⟨stage, i, n, file, off, clisem, servsem⟩ := u
  cases stage <;> first | (cases hr; done) | skip
  all_goals cases v <;> rfl

theorem blank_enter (hr : u.routine = some cl) (hs : cl.start = .goto pt) :
    u.blank (.lib cl.key pt b) = u.blank .user := by
  obtain ⟨stage, i, n, file, off, clisem, servsem⟩ := u
  cases stage <;> first | rfl | skip
  case create1 =>
    cases hr
    simp only [Call.start, sem_create, SEMKEY1, IPC_PRIVATE, Int.reduceEq, if_false,
      Next.goto.injEq] at hs
    subst hs
    rfl

/-- A server that has `clisem` to set has it to initialise. -/
theorem blank_of_not_making (h : ¬ u.making SEMKEY1 pc) : u.blank pc = false := by
  obtain ⟨stage, i, n, file, off, clisem, servsem⟩ := u
  cases stage <;> first | rfl | skip
  case shmget => exact absurd trivial h
  case create1 =>
    have hend : ∃ id b, pc = .lib SEMKEY1 (.create_endcreate id) b := by
      by_contra hno
      exact h (.inr fun id b hpc => hno ⟨id, b, hpc⟩)
    obtain ⟨id, b, rfl⟩ := hend
    rfl

theorem blank_asleep : u.blank (.lib key pt true) = u.blank (.lib key pt false) := by
  obtain ⟨stage, i, n, file, off, clisem, servsem⟩ := u
  cases stage <;> first | rfl | (cases pt <;> rfl)

/-- `[0]` is set in one step of `sem_create`, unless the set turns out to be in
use. -/
theorem primed_goto (hr : pt.resume r = .goto pt') (hset : ∀ id v, pt ≠ .create_setval0 id v)
    (huse : ∀ id v, pt = .create_getval id v → pt' ≠ .create_endcreate id) :
    primed (.lib key pt' b') = primed (.lib key pt b) := by
  cases pt with
  | create_setval0 id v => exact absurd rfl (hset id v)
  | create_getval id v =>
    have hne := huse id v rfl
    cases r <;> simp only [Point.resume] at hr
    · cases hr
    · split_ifs at hr <;> cases hr
      · rfl
      · exact absurd rfl hne
  | _ => cases r <;> simp only [Point.resume] at hr <;> (try split_ifs at hr) <;> cases hr <;> rfl

theorem not_endcreate_goto (hr : pt.resume r = .goto pt') (id : ℕ) : pt ≠ .create_endcreate id := by
  rintro rfl
  cases r <;> cases hr

/-- The routine goes on neither to `sem_op`'s array nor from it. -/
theorem not_op_goto (hr : pt.resume r = .goto pt') (id : ℕ) (n : ℤ) : pt ≠ .op_semop id n := by
  rintro rfl
  cases r <;> cases hr

theorem not_rm_goto (hr : pt.resume r = .goto pt') (id : ℕ) : pt ≠ .rm id := by
  rintro rfl
  cases r <;> cases hr

end Stages

/-! ## What has to be shown of a step -/

/-- A step of `Duo` for one of the world, and the kernel's side of what follows. -/
inductive Matched (v : Version) (e : Env) (a : Act User (Option ℕ)) (w' : World Shared User)
    (d : Duo) (pc₀ : Pc) : Prop
  | intro {d' : Duo} {h₀' h₁' : ℤ → Option ℕ} {pc₀' pc₁' : Pc} : d.Step v e a d' →
      Sees w' d' h₀' pc₀' h₁' pc₁' →
      (∀ {key}, d'.server.making key pc₀' → d.server.making key pc₀) →
      (d'.client.stage.opened = true → ∀ key, Ours key → ¬ d'.server.making key pc₀') →
      Undone w' d' → Matched v e a w' d pc₀

section Undone

variable {w w' : World Shared User} {d d' : Duo}

/-- A step changes the adjustments by what it does. -/
theorem Undone.step (h : Undone w d) (hle : d.Le d')
    (hidle : d'.client.stage.late = false →
      ∀ p, (w'.sem SEMKEY2).undo p 0 = (w.sem SEMKEY2).undo p 0)
    (hsent : (w'.sem SEMKEY1).undo 0 0 + d'.sent = (w.sem SEMKEY1).undo 0 0 + d.sent)
    (htaken : (w'.sem SEMKEY1).undo 1 0 - d'.taken = (w.sem SEMKEY1).undo 1 0 - d.taken)
    (hbal : (w'.sem SEMKEY2).undo 0 0 - d'.bal = (w.sem SEMKEY2).undo 0 0 - d.bal)
    (hgiven : (w'.sem SEMKEY2).undo 1 0 + d'.given = (w.sem SEMKEY2).undo 1 0 + d.given) :
    Undone w' d' where
  idle := fun hlate p => (hidle hlate p).trans (h.idle (hle.late hlate) p)
  sent := fun hk hup => by
    have := h.sent (hle.cliKnown hk) (hle.sup hup)
    omega
  taken := fun hk hup => by
    have := h.taken (hle.cliKnown hk) (hle.cup hup)
    omega
  bal := fun hk hup => by
    have := h.bal (hle.servKnown hk) (hle.sup hup)
    omega
  given := fun hk hup => by
    have := h.given (hle.servKnown hk) (hle.cup hup)
    omega

/-- A step that does nothing to a counter leaves them. -/
theorem Undone.still (h : Undone w d) (hle : d.Le d')
    (hundo : ∀ key p, (w'.sem key).undo p 0 = (w.sem key).undo p 0)
    (hsame : d'.sent = d.sent ∧ d'.taken = d.taken ∧ d'.bal = d.bal ∧ d'.given = d.given) :
    Undone w' d' := by
  obtain ⟨hsent, htaken, hbal, hgiven⟩ := hsame
  apply h.step hle (fun _ => hundo SEMKEY2)
  · rw [hundo, hsent]
  · rw [hundo, htaken]
  · rw [hundo, hbal]
  · rw [hundo, hgiven]

end Undone

section Idle

variable {v : Version} {e : Env} {a : Act User (Option ℕ)} {w w' : World Shared User} {d : Duo}
  {h₀ h₁ h₀' h₁' : ℤ → Option ℕ} {pc₀ pc₁ pc₀' pc₁' : Pc}

/-- The processes are elsewhere in their routines, and that is all. -/
theorem Sees.stay (h : Sees w d h₀ pc₀ h₁ pc₁) (hst : Still w w')
    (hprocs : w'.procs = [⟨.server d.server, h₀', pc₀'⟩, ⟨.client d.client, h₁', pc₁'⟩])
    (h0 : (pc₀' != .dead) = (pc₀ != .dead)) (h1 : (pc₁' != .dead) = (pc₁ != .dead))
    (hblank : d.server.blank pc₀' = d.server.blank pc₀) : Sees w' d h₀' pc₀' h₁' pc₁' where
  procs := hprocs
  sup := h.sup.trans h0.symm
  cup := h.cup.trans h1.symm
  cli := by rw [hblank, hst.value]; exact h.cli
  serv := by rw [hst.value]; exact h.serv
  sent := by rw [hst.sent]; exact h.sent
  shared := hst.shared.trans h.shared

theorem Sound.idle (h : Sound w d h₀ pc₀ h₁ pc₁) (hst : Still w w')
    (hprocs : w'.procs = [⟨.server d.server, h₀', pc₀'⟩, ⟨.client d.client, h₁', pc₁'⟩])
    (h0 : (pc₀' != .dead) = (pc₀ != .dead)) (h1 : (pc₁' != .dead) = (pc₁ != .dead))
    (hblank : d.server.blank pc₀' = d.server.blank pc₀)
    (hmaking : ∀ {key}, d.server.making key pc₀' → d.server.making key pc₀) :
    Matched v e a w' d pc₀ := by
  have hidle : d.Step v e a d := .idle
  refine .intro hidle (h.sees.stay hst hprocs h0 h1 hblank) hmaking ?_
    (h.undone.still hidle.le hst.undo ⟨rfl, rfl, rfl, rfl⟩)
  intro hopen key hkey hm
  exact h.opened hopen key hkey (hmaking hm)

end Idle

/-! ## The server -/

section Server

variable {v : Version} {e : Env} {a : Act User (Option ℕ)} {w w' : World Shared User} {d : Duo}
  {h₀ h₁ : ℤ → Option ℕ} {pc₀ pc₁ : Pc} {c : Option ℕ} {key : ℤ} {pt pt' : Point} {sl : Slot 3}
  {r : Except Errno ℕ} {b : Bool} {cl : Call} {x : ℤ}

/-- `GETVAL` on the set the server has open. -/
theorem Sound.getval (h : Sound w d h₀ .user h₁ pc₁) (hw : Sane v e w)
    (hstage : d.server.stage = .poll) :
    semctl_getval (w.sem SEMKEY1) d.server.clisem = d.cli := by
  have hown := h.sees.server_user hw
  have hcli := h.sees.cli
  rw [Server.Own, hstage] at hown
  rw [Server.blank, hstage] at hcli
  have hheld := hown.1.toNat
  obtain ⟨S, hcur⟩ := (h.kept (.inl rfl)).there (h.sees.server_get SEMKEY1) hheld
  have hfind : (w.sem SEMKEY1).find d.server.clisem.toNat = some S := Slot.find_eq_some.2 hcur
  simp only [semctl_getval, hfind]
  rw [hcli, Slot.value_of_cur hcur]
  rfl

/-- A statement of the server. -/
theorem Sound.server_own {u : Server} (h : Sound w d h₀ .user h₁ pc₁) (hw : Sane v e w)
    (ha : a = .user 0 c)
    (hs : server_main v e (semctl_getval (w.sem SEMKEY1) d.server.clisem) w.shared d.server c =
      some (w'.shared, .go u))
    (hsem : w'.sem = w.sem) (hops : w'.semops = w.semops)
    (hprocs : w'.procs = [⟨.server u, h₀, .user⟩, ⟨.client d.client, h₁, pc₁⟩]) :
    Matched v e a w' d .user := by
  have hup : d.sup = true := h.sees.sup
  rw [h.sees.shared] at hs
  have hstep : d.Step v e a { d with server := u, shared := w'.shared } :=
    .server_go ha hup hs fun hstage _ => h.getval hw hstage
  refine .intro hstep ⟨hprocs, hup, h.sees.cup, ?_, ?_, ?_, rfl⟩ ?_ ?_
    (h.undone.still hstep.le (fun _ _ => by rw [hsem]) ⟨rfl, rfl, rfl, rfl⟩)
  · rw [server_go_blank hs, hsem]
    exact h.sees.cli
  · rw [hsem]
    exact h.sees.serv
  · rw [hops]
    exact h.sees.sent
  · exact server_go_making hs
  · intro hopen key hkey hm
    exact h.opened hopen key hkey (server_go_making hs hm)

/-- What an end does to the values. -/
theorem exit_values {p : ℕ} (hsem : w'.sem = fun key => (w.sem key).exit p) (key : ℤ) :
    (w'.sem key).value 0 = clamp ((w.sem key).value 0) ((w.sem key).undo p 0) ∧
      ∀ p', (w'.sem key).undo p' 0 = if p' = p then 0 else (w.sem key).undo p' 0 := by
  rw [hsem]
  exact ⟨Slot.exit_value _ _ _, fun p' => Slot.exit_undo _ _ _ _⟩

/-- With an adjustment of 0 an end leaves the value. -/
theorem exit_zero {p : ℕ} (hsem : w'.sem = fun key => (w.sem key).exit p)
    (hundo : (w.sem key).undo p 0 = 0) : (w'.sem key).value 0 = (w.sem key).value 0 := by
  rw [(exit_values hsem key).1, hundo]
  exact clamp_zero (Slot.value_le _ _)

/-- What the end of the server leaves. -/
theorem Sound.server_gone {d' : Duo} (h : Sound w d h₀ pc₀ h₁ pc₁)
    (hblank : d.server.blank .dead = false)
    (hmaking : ∀ {key}, d.server.making key .dead → d.server.making key pc₀)
    (hsem : w'.sem = fun key => (w.sem key).exit 0) (hops : w'.semops = w.semops)
    (hprocs : w'.procs = [⟨.server d.server, fun _ => none, .dead⟩, ⟨.client d.client, h₁, pc₁⟩])
    (hd : d' = { d with
      sup := false, cli := (w'.sem SEMKEY1).value 0, serv := (w'.sem SEMKEY2).value 0,
      shared := w'.shared })
    (hstep : d.Step v e a d') : Matched v e a w' d pc₀ := by
  have hle := hstep.le
  subst hd
  refine .intro hstep ⟨hprocs, rfl, h.sees.cup, ?_, rfl, ?_, rfl⟩ hmaking ?_
    ⟨fun hl p => ?_, nofun, fun hk hcup => ?_, nofun, fun hk hcup => ?_⟩
  · rw [hblank, if_neg Bool.false_ne_true]
  · rw [hops]
    exact h.sees.sent
  · intro hopen key hkey hm
    exact h.opened hopen key hkey (hmaking hm)
  · rw [(exit_values hsem SEMKEY2).2, h.undone.idle hl]
    exact ite_self 0
  · rw [(exit_values hsem SEMKEY1).2, if_neg (by decide)]
    exact h.undone.taken (hle.cliKnown hk) hcup
  · rw [(exit_values hsem SEMKEY2).2, if_neg (by decide)]
    exact h.undone.given (hle.servKnown hk) hcup

/-- The end of the server gives the client nothing. -/
theorem Sound.server_exit_cli (h : Sound w d h₀ pc₀ h₁ pc₁) (hup : d.sup = true)
    (hblank : d.server.blank pc₀ = false) (hsem : w'.sem = fun key => (w.sem key).exit 0)
    (hk : d.cliKnown) : (w'.sem SEMKEY1).value 0 ≤ d.cli := by
  rw [(exit_values hsem SEMKEY1).1, h.sees.cli, hblank, if_neg Bool.false_ne_true,
    h.undone.sent hk hup]
  exact clamp_le_self (by omega)

/-- Before the client's first signal it changes nothing. -/
theorem Sound.server_exit_serv (h : Sound w d h₀ pc₀ h₁ pc₁)
    (hsem : w'.sem = fun key => (w.sem key).exit 0) (hl : d.client.stage.late = false) :
    (w'.sem SEMKEY2).value 0 = d.serv := by
  rw [exit_zero hsem (h.undone.idle hl 0), h.sees.serv]

/-- The end of the server in its own code. -/
theorem Sound.server_quit {x : Does Server} (h : Sound w d h₀ .user h₁ pc₁) (ha : a = .user 0 c)
    (hs : server_main v e (semctl_getval (w.sem SEMKEY1) d.server.clisem) w.shared d.server c =
      some (w'.shared, x))
    (hx : x = .exit ∨ ∃ msg, x = .err_sys msg)
    (hsem : w'.sem = fun key => (w.sem key).exit 0) (hops : w'.semops = w.semops)
    (hprocs : w'.procs = [⟨.server d.server, fun _ => none, .dead⟩, ⟨.client d.client, h₁, pc₁⟩]) :
    Matched v e a w' d .user := by
  rw [h.sees.shared] at hs
  apply h.server_gone (server_quit_blank hs hx) making_dead hsem hops hprocs rfl
  exact .server_quit ha h.sees.sup hs hx
    (h.server_exit_cli h.sees.sup (server_quit_blank hs hx) hsem) (h.server_exit_serv hsem)

/-- The server calls a routine. -/
theorem Sound.server_enter {u : Server} (h : Sound w d h₀ .user h₁ pc₁)
    (hs : server_main v e (semctl_getval (w.sem SEMKEY1) d.server.clisem) w.shared d.server c =
      some (w'.shared, .call cl u)) (hstart : cl.start = .goto pt)
    (hsem : w'.sem = w.sem) (hops : w'.semops = w.semops)
    (hprocs : w'.procs = [⟨.server u, h₀, .lib cl.key pt false⟩, ⟨.client d.client, h₁, pc₁⟩]) :
    Matched v e a w' d .user := by
  obtain ⟨rfl, hshared, hr⟩ := server_call hs
  apply h.idle (.of_sem hsem hshared hops) hprocs rfl rfl (blank_enter hr hstart)
  exact making_of_not_endcreate fun id b heq => by cases heq

/-- The server falls asleep. -/
theorem Sound.server_sleep (h : Sound w d h₀ (.lib key pt false) h₁ pc₁) (hsem : w'.sem = w.sem)
    (hshared : w'.shared = w.shared) (hops : w'.semops = w.semops)
    (hprocs : w'.procs = [⟨.server d.server, h₀, .lib key pt true⟩, ⟨.client d.client, h₁, pc₁⟩]) :
    Matched v e a w' d (.lib key pt false) :=
  h.idle (.of_sem hsem hshared hops) hprocs rfl rfl blank_asleep making_asleep

/-- The set the server is about to initialise is not in use. -/
theorem Sound.not_in_use {id : ℕ} {n : ℤ}
    (h : Sound w d h₀ (.lib key (.create_getval id n) b) h₁ pc₁)
    (hw : Sane v e w) (hstage : d.server.stage = .create1)
    (hperf : (Point.create_getval id n).perform (w.sem key) 0 b = some (sl, r))
    (hr : (Point.create_getval id n).resume r = .goto pt') : pt' ≠ .create_endcreate id := by
  obtain ⟨cl, hroutine, hkey, -, -⟩ := h.sees.server_lib hw
  obtain rfl : key = SEMKEY1 := by
    rw [Server.routine, hstage] at hroutine
    cases hroutine
    exact hkey.symm
  have hmaking : d.server.making SEMKEY1 (.lib SEMKEY1 (.create_getval id n) b) := by
    rw [Server.making, hstage]
    exact .inr fun id' b' heq => by cases heq
  obtain ⟨-, ⟨S, hcur, rfl⟩ | ⟨-, rfl⟩⟩ := perform_getval rfl hperf
  · have hzero := ((h.made (.inl rfl) hmaking).1 _ _ hcur).val
    simp only [Point.resume] at hr
    rw [if_pos (by exact hzero)] at hr
    cases hr
    simp
  · cases hr

/-- The server gets to the next system call, and has not just set `[0]`. -/
theorem Sound.server_goto (h : Sound w d h₀ (.lib key pt b) h₁ pc₁) (hw : Sane v e w)
    (hcalm : calm w a) (hc : pt.Comes a (w.sem key) 0 b sl r) (hr : pt.resume r = .goto pt')
    (hset : ∀ id n, pt ≠ .create_setval0 id n) (hsem : w'.sem = Function.update w.sem key sl)
    (hshared : w'.shared = w.shared)
    (hops : w'.semops = w.semops ++ (Event.sys 0 key pt.call r).semop?.toList)
    (hprocs : w'.procs = [⟨.server d.server, Function.update h₀ key (pt.heldAt r (h₀ key)),
      .lib key pt' false⟩, ⟨.client d.client, h₁, pc₁⟩]) :
    Matched v e a w' d (.lib key pt b) := by
  refine h.idle (.of_comes hc hset (not_op_goto hr) (not_rm_goto hr) hsem hshared hops) hprocs rfl
    rfl ?_ (making_of_not_endcreate fun id b heq => ?_)
  · by_cases hstage : d.server.stage = .create1
    · simp only [Server.blank, hstage]
      rw [primed_goto hr hset]
      rintro id n rfl
      exact h.not_in_use hw hstage (hcalm.perform hc) hr
    · have hother : ∀ pc, d.server.blank pc = (d.server.stage == .shmget) := by
        intro pc
        unfold Server.blank
        cases hst : d.server.stage <;> first | rfl | exact absurd hst hstage
      rw [hother, hother]
  · cases heq
    exact not_endcreate_goto hr id rfl

/-- The server sets `[0]` of `clisem` to what it counted as before. -/
theorem Sound.clisem_setval0 {id : ℕ} {h₀' : ℤ → Option ℕ}
    (h : Sound w d h₀ (.lib SEMKEY1 (.create_setval0 id 1) b) h₁ pc₁)
    (hstage : d.server.stage = .create1) (hone : sl.value 0 = 1) (hundo : ∀ p, sl.undo p 0 = 0)
    (hsem : w'.sem = Function.update w.sem SEMKEY1 sl) (hshared : w'.shared = w.shared)
    (hsent : w'.semops.countP isSend = w.semops.countP isSend)
    (hprocs : w'.procs = [⟨.server d.server, h₀', .lib SEMKEY1 pt' false⟩,
      ⟨.client d.client, h₁, pc₁⟩]) :
    Matched v e a w' d (.lib SEMKEY1 (.create_setval0 id 1) b) := by
  have hne : SEMKEY2 ≠ SEMKEY1 := by decide
  have hnot : ∀ id' b', Pc.lib SEMKEY1 (.create_setval0 id 1) b ≠
      .lib SEMKEY1 (.create_endcreate id') b' := fun id' b' heq => by cases heq
  have hmaking : d.server.making SEMKEY1 (.lib SEMKEY1 (.create_setval0 id 1) b) := by
    rw [Server.making, hstage]
    exact .inr hnot
  have hclosed : ¬ d.client.stage.opened = true := fun hopen =>
    h.opened hopen SEMKEY1 (.inl rfl) hmaking
  have hcli := h.sees.cli
  rw [Server.blank, hstage] at hcli
  have hidle : d.Step v e a d := .idle
  refine .intro hidle
    ⟨hprocs, h.sees.sup, h.sees.cup, ?_, ?_, ?_, hshared.trans h.sees.shared⟩
    (fun _ => making_of_not_endcreate (fun id' b' heq => by cases heq) ‹_›) ?_
    ⟨?_, fun _ _ => ?_, fun _ _ => ?_, ?_, ?_⟩
  · -- the value is the one that it was taken for
    rw [hsem, Function.update_self, hone, hcli, ite_self]
    rfl
  · rw [hsem, Function.update_of_ne hne]
    exact h.sees.serv
  · rw [hsent]
    exact h.sees.sent
  · exact fun hopen => absurd hopen hclosed
  · rw [hsem, Function.update_of_ne hne]
    exact h.undone.idle
  · -- nothing has been sent
    rw [hsem, Function.update_self, hundo, (h.tally.unsent (by rw [hstage]; rfl)).1]
    rfl
  · -- the client, which has not opened the set, has taken nothing from it
    have hwaited : d.client.stage.waited = false := by
      by_contra hwaited
      exact hclosed (opened_of_waited (by simpa using hwaited))
    rw [hsem, Function.update_self, hundo, h.tally.untaken hwaited]
    rfl
  · rw [hsem, Function.update_of_ne hne]
    exact h.undone.bal
  · rw [hsem, Function.update_of_ne hne]
    exact h.undone.given

/-- And `[0]` of `servsem` to 0, which it was. -/
theorem Sound.servsem_setval0 {id : ℕ} {h₀' : ℤ → Option ℕ}
    (h : Sound w d h₀ (.lib SEMKEY2 (.create_setval0 id 0) b) h₁ pc₁)
    (hstage : d.server.stage = .create2) (hzero : sl.value 0 = 0) (hundo : ∀ p, sl.undo p 0 = 0)
    (hsem : w'.sem = Function.update w.sem SEMKEY2 sl) (hshared : w'.shared = w.shared)
    (hsent : w'.semops.countP isSend = w.semops.countP isSend)
    (hprocs : w'.procs = [⟨.server d.server, h₀', .lib SEMKEY2 pt' false⟩,
      ⟨.client d.client, h₁, pc₁⟩]) :
    Matched v e a w' d (.lib SEMKEY2 (.create_setval0 id 0) b) := by
  have hne : SEMKEY1 ≠ SEMKEY2 := by decide
  have hnot : ∀ id' b', Pc.lib SEMKEY2 (.create_setval0 id 0) b ≠
      .lib SEMKEY2 (.create_endcreate id') b' := fun id' b' heq => by cases heq
  have hmaking : d.server.making SEMKEY2 (.lib SEMKEY2 (.create_setval0 id 0) b) := by
    rw [Server.making, hstage]
    exact ⟨rfl, hnot⟩
  have hclosed : ¬ d.client.stage.opened = true := fun hopen =>
    h.opened hopen SEMKEY2 (.inr rfl) hmaking
  have hlate : d.client.stage.late = false := by
    by_contra hl
    exact hclosed (opened_of_late (by simpa using hl))
  have hidle : d.Step v e a d := .idle
  refine .intro hidle
    ⟨hprocs, h.sees.sup, h.sees.cup, ?_, ?_, ?_, hshared.trans h.sees.shared⟩
    (fun _ => making_of_not_endcreate (fun id' b' heq => by cases heq) ‹_›) ?_
    ⟨fun _ p => ?_, ?_, ?_, fun _ _ => ?_, fun _ _ => ?_⟩
  · have hcli := h.sees.cli
    rw [Server.blank, hstage] at hcli ⊢
    rw [hsem, Function.update_of_ne hne]
    exact hcli
  · rw [hsem, Function.update_self, hzero]
    exact (h.opening.early hlate).2
  · rw [hsent]
    exact h.sees.sent
  · exact fun hopen => absurd hopen hclosed
  · rw [hsem, Function.update_self, hundo]
  · rw [hsem, Function.update_of_ne hne]
    exact h.undone.sent
  · rw [hsem, Function.update_of_ne hne]
    exact h.undone.taken
  · rw [hsem, Function.update_self, hundo, (h.tally.unsent (by rw [hstage]; rfl)).2]
  · rw [hsem, Function.update_self, hundo, h.tally.ungiven hlate]
    rfl

/-- The server sets `[0]` of a set that it makes. -/
theorem Sound.server_setval0 {id : ℕ} {n : ℤ}
    (h : Sound w d h₀ (.lib key (.create_setval0 id n) b) h₁ pc₁) (hw : Sane v e w)
    (hc : (Point.create_setval0 id n).Comes a (w.sem key) 0 b sl r)
    (hr : (Point.create_setval0 id n).resume r = .goto pt')
    (hsem : w'.sem = Function.update w.sem key sl) (hshared : w'.shared = w.shared)
    (hops : w'.semops = w.semops ++
      (Event.sys 0 key (Point.create_setval0 id n).call r).semop?.toList)
    (hprocs : w'.procs = [⟨.server d.server, Function.update h₀ key
      ((Point.create_setval0 id n).heldAt r (h₀ key)), .lib key pt' false⟩,
      ⟨.client d.client, h₁, pc₁⟩]) :
    Matched v e a w' d (.lib key (.create_setval0 id n) b) := by
  obtain ⟨cl, hroutine, hkey, hwithin, -⟩ := h.sees.server_lib hw
  have hsent : w'.semops.countP isSend = w.semops.countP isSend := by
    rw [hops, List.countP_append, not_send (by simp), Nat.add_zero]
  obtain ⟨m, rfl⟩ : ∃ m, r = .ok m := by
    cases r with
    | error e => cases hr
    | ok m => exact ⟨m, rfl⟩
  cases hr
  obtain ⟨hval, hundo⟩ := hc.setval0
  -- only `sem_create` sets `[0]`, and each set has its own initial value
  rcases Server.routine_cases hroutine with ⟨hstage, rfl⟩ | ⟨hstage, rfl⟩ | ⟨-, -, hcl⟩
  · obtain rfl : SEMKEY1 = key := hkey
    obtain rfl : n = 1 := hwithin.1
    exact h.clisem_setval0 hstage (by omega) hundo hsem hshared hsent hprocs
  · obtain rfl : SEMKEY2 = key := hkey
    obtain rfl : n = 0 := hwithin.1
    exact h.servsem_setval0 hstage (by omega) hundo hsem hshared hsent hprocs
  · rcases hcl with ⟨_, rfl⟩ | ⟨_, rfl⟩ | ⟨_, rfl⟩ | ⟨-, _, _, -, rfl⟩ <;> exact hwithin.elim

/-! ### A routine of the server returns -/

/-- What the array of `sem_op` does to its key. -/
theorem op_values {p id m : ℕ} {n : ℤ}
    (hc : (Point.op_semop id n).Comes a (w.sem key) p b sl (.ok m))
    (hsem : w'.sem = Function.update w.sem key sl) :
    ((w'.sem key).value 0 : ℤ) = (w.sem key).value 0 + n ∧
      ∀ p', (w'.sem key).undo p' 0 = (w.sem key).undo p' 0 - if p' = p then n else 0 := by
  rw [hsem, Function.update_self]
  exact hc.op

/-- What has to be shown when a routine of the server returns. -/
theorem Sound.server_back {d' : Duo} {h₀' : ℤ → Option ℕ}
    (h : Sound w d h₀ pc₀ h₁ pc₁) (sent : ℕ) (bal : ℤ) (hroutine : d.server.routine = some cl)
    (hd : d' = { d with
      server := server_return v d.server x, cli := (w'.sem SEMKEY1).value 0,
      serv := (w'.sem SEMKEY2).value 0, sent := sent, bal := bal })
    (hstep : d.Step v e a d') (hsent : sent = w'.semops.countP isSend)
    (hshared : w'.shared = w.shared) (hup : d.sup = true)
    (hprocs : w'.procs = [⟨.server (server_return v d.server x), h₀', .user⟩,
      ⟨.client d.client, h₁, pc₁⟩])
    (hundone : d.Le d' → Undone w' d') : Matched v e a w' d pc₀ := by
  have hundone := hundone hstep.le
  subst hd
  refine .intro hstep ⟨hprocs, hup, h.sees.cup, ?_, rfl, hsent, hshared.trans h.sees.shared⟩
    (making_return hroutine) ?_ hundone
  · rw [blank_return hroutine, if_neg Bool.false_ne_true]
  · intro hopen key hkey hm
    exact h.opened hopen key hkey (making_return hroutine hm)

/-- What the counters are while the server is past `sem_create`. -/
theorem Sees.cli_eq (h : Sees w d h₀ pc₀ h₁ pc₁) (hblank : d.server.blank pc₀ = false) :
    d.cli = (w.sem SEMKEY1).value 0 := by
  rw [h.cli, hblank, if_neg Bool.false_ne_true]

/-- A routine that leaves `[0]` as it was. -/
theorem Sound.server_still {h₀' : ℤ → Option ℕ} (h : Sound w d h₀ pc₀ h₁ pc₁) (hst : Still w w')
    (hroutine : d.server.routine = some cl) (hup : d.sup = true)
    (hprocs : w'.procs = [⟨.server (server_return v d.server x), h₀', .user⟩,
      ⟨.client d.client, h₁, pc₁⟩])
    (hstep : d.Step v e a { d with
      server := server_return v d.server x, cli := (w.sem SEMKEY1).value 0,
      serv := (w.sem SEMKEY2).value 0, sent := d.sent }) : Matched v e a w' d pc₀ := by
  refine h.server_back d.sent d.bal hroutine rfl ?_ (h.sees.sent.trans hst.sent.symm) hst.shared
    hup hprocs fun hle => h.undone.still hle hst.undo ⟨rfl, rfl, rfl, rfl⟩
  rw [hst.value, hst.value]
  exact hstep

/-- Where the array of `sem_op` returns, it has been carried out, and returns 0. -/
theorem ret_of_op {id : ℕ} {n : ℤ} (hr : (Point.op_semop id n).resume r = .ret x) :
    (∃ m, r = .ok m) ∧ x = 0 := by
  cases r with
  | error e => cases hr
  | ok m =>
    cases hr
    exact ⟨⟨m, rfl⟩, rfl⟩

theorem not_early_of_signal {id : ℕ} {u : Server} (hr : u.routine = some (.sem_signal key id)) :
    u.stage.early = false := by
  obtain ⟨stage, i, n, file, off, clisem, servsem⟩ := u
  cases stage <;> first | rfl | cases hr

/-- `sem_create` returns the identifier. -/
theorem Sound.server_created {initval : ℤ} {h₀' : ℤ → Option ℕ}
    (h : Sound w d h₀ (.lib key pt b) h₁ pc₁) (hcalm : calm w a)
    (hc : pt.Comes a (w.sem key) 0 b sl r) (hr : pt.resume r = .ret x)
    (hroutine : d.server.routine = some (.sem_create key initval))
    (hwithin : (Call.sem_create key initval).Within (h₀ key) pt)
    (hsem : w'.sem = Function.update w.sem key sl) (hshared : w'.shared = w.shared)
    (hops : w'.semops = w.semops ++ (Event.sys 0 key pt.call r).semop?.toList)
    (hprocs : w'.procs = [⟨.server (server_return v d.server x), h₀', .user⟩,
      ⟨.client d.client, h₁, pc₁⟩]) :
    Matched v e a w' d (.lib key pt b) := by
  -- of the calls in `sem_create` the last one returns, and a look-up that fails
  obtain ⟨id, m, rfl, rfl, rfl⟩ : ∃ id m, pt = .create_endcreate id ∧ r = .ok m ∧ x = id := by
    cases pt <;> first | exact hwithin.elim | skip
    case create_endcreate id =>
      cases r with
      | error e => cases hr
      | ok m =>
        cases hr
        exact ⟨id, m, rfl, rfl, rfl⟩
    case create_semget n =>
      rcases perform_semget rfl (hcalm.perform hc) with ⟨i, S, -, -, rfl⟩ | ⟨-, -, -, rfl⟩ |
        ⟨-, hcreat, -, -⟩
      · cases hr
      · cases hr
      · cases hcreat
    all_goals cases r <;> simp only [Point.resume] at hr <;> (try split_ifs at hr) <;> cases hr
  have hst : Still w w' :=
    .of_comes hc (by simp) (by simp) (by simp) hsem hshared hops
  have hblank : d.server.blank (.lib key (.create_endcreate id) b) = false := by
    unfold Server.blank
    cases hst : d.server.stage <;>
      first | rfl | (rw [Server.routine, hst] at hroutine; cases hroutine)
  have hup : d.sup = true := h.sees.sup
  apply h.server_still hst hroutine hup hprocs
  exact .server_create hup hroutine (Int.natCast_nonneg id)
    (fun _ => (h.sees.cli_eq hblank).symm) fun _ => h.sees.serv.symm

/-- `sem_wait (servsem)` returns. -/
theorem Sound.server_waited {id m : ℕ} {h₀' : ℤ → Option ℕ}
    (h : Sound w d h₀ (.lib SEMKEY2 (.op_semop id (-1)) b) h₁ pc₁)
    (hc : (Point.op_semop id (-1)).Comes a (w.sem SEMKEY2) 0 b sl (.ok m))
    (hroutine : d.server.routine = some (.sem_wait SEMKEY2 id))
    (hblank : ∀ pc, d.server.blank pc = false)
    (hsem : w'.sem = Function.update w.sem SEMKEY2 sl) (hshared : w'.shared = w.shared)
    (hops : w'.semops = w.semops ++
      (Event.sys 0 SEMKEY2 (Point.op_semop id (-1)).call (.ok m)).semop?.toList)
    (hprocs : w'.procs = [⟨.server (server_return v d.server 0), h₀', .user⟩,
      ⟨.client d.client, h₁, pc₁⟩]) :
    Matched v e a w' d (.lib SEMKEY2 (.op_semop id (-1)) b) := by
  have hne : SEMKEY1 ≠ SEMKEY2 := by decide
  have hpos := hc.wait
  obtain ⟨hval, hundo⟩ := op_values hc hsem
  have hsame : w'.sem SEMKEY1 = w.sem SEMKEY1 := by rw [hsem, Function.update_of_ne hne]
  have hup : d.sup = true := h.sees.sup
  have hserv := h.sees.serv
  refine h.server_back d.sent (d.bal + 1) hroutine rfl ?_ ?_ hshared hup hprocs fun hle => ?_
  · refine .server_wait hup hroutine (by omega) (fun _ => ?_) fun _ => ?_
    · rw [hsame, h.sees.cli_eq (hblank _)]
    · omega
  · rw [hops, List.countP_append, h.sees.sent]
    rfl
  · refine h.undone.step hle (fun hl => ?_) (by rw [hsame]) (by rw [hsame]) ?_ ?_
    · have := (h.opening.early (hle.late hl)).2
      omega
    · rw [hundo, if_pos rfl]
      simp only
      omega
    · rw [hundo, if_neg (by decide), Int.sub_zero]

/-- `sem_signal (clisem)` returns. -/
theorem Sound.server_signalled {id m : ℕ} {h₀' : ℤ → Option ℕ}
    (h : Sound w d h₀ (.lib SEMKEY1 (.op_semop id 1) b) h₁ pc₁)
    (hc : (Point.op_semop id 1).Comes a (w.sem SEMKEY1) 0 b sl (.ok m))
    (hroutine : d.server.routine = some (.sem_signal SEMKEY1 id))
    (hblank : ∀ pc, d.server.blank pc = false)
    (hsem : w'.sem = Function.update w.sem SEMKEY1 sl) (hshared : w'.shared = w.shared)
    (hops : w'.semops = w.semops ++
      (Event.sys 0 SEMKEY1 (Point.op_semop id 1).call (.ok m)).semop?.toList)
    (hprocs : w'.procs = [⟨.server (server_return v d.server 0), h₀', .user⟩,
      ⟨.client d.client, h₁, pc₁⟩]) :
    Matched v e a w' d (.lib SEMKEY1 (.op_semop id 1) b) := by
  have hne : SEMKEY2 ≠ SEMKEY1 := by decide
  obtain ⟨hval, hundo⟩ := op_values hc hsem
  have hsame : w'.sem SEMKEY2 = w.sem SEMKEY2 := by rw [hsem, Function.update_of_ne hne]
  have hup : d.sup = true := h.sees.sup
  have hcli := h.sees.cli_eq (hblank _)
  refine h.server_back (d.sent + 1) d.bal hroutine rfl ?_ ?_ hshared hup hprocs fun hle => ?_
  · refine .server_signal hup hroutine (fun _ => ?_) fun _ => ?_
    · omega
    · rw [hsame, h.sees.serv]
  · rw [hops, List.countP_append, h.sees.sent]
    rfl
  · refine h.undone.step hle (fun _ _ => by rw [hsame]) ?_ ?_ (by rw [hsame]) (by rw [hsame])
    · rw [hundo, if_pos rfl]
      simp only
      omega
    · rw [hundo, if_neg (by decide), Int.sub_zero]

/-- `sem_signal (servsem)` returns, for a buffer that is free. -/
theorem Sound.server_posted {id m : ℕ} {h₀' : ℤ → Option ℕ}
    (h : Sound w d h₀ (.lib SEMKEY2 (.op_semop id 1) b) h₁ pc₁)
    (hc : (Point.op_semop id 1).Comes a (w.sem SEMKEY2) 0 b sl (.ok m))
    (hroutine : d.server.routine = some (.sem_signal SEMKEY2 id))
    (hblank : ∀ pc, d.server.blank pc = false)
    (hsem : w'.sem = Function.update w.sem SEMKEY2 sl) (hshared : w'.shared = w.shared)
    (hops : w'.semops = w.semops ++
      (Event.sys 0 SEMKEY2 (Point.op_semop id 1).call (.ok m)).semop?.toList)
    (hprocs : w'.procs = [⟨.server (server_return v d.server 0), h₀', .user⟩,
      ⟨.client d.client, h₁, pc₁⟩]) :
    Matched v e a w' d (.lib SEMKEY2 (.op_semop id 1) b) := by
  have hne : SEMKEY1 ≠ SEMKEY2 := by decide
  obtain ⟨hval, hundo⟩ := op_values hc hsem
  have hsame : w'.sem SEMKEY1 = w.sem SEMKEY1 := by rw [hsem, Function.update_of_ne hne]
  have hup : d.sup = true := h.sees.sup
  have hserv := h.sees.serv
  refine h.server_back d.sent (d.bal - 1) hroutine rfl ?_ ?_ hshared hup hprocs fun hle => ?_
  · refine .server_post hup hroutine (fun _ => ?_) (fun _ => ?_) (Slot.value_le _ _)
    · rw [hsame, h.sees.cli_eq (hblank _)]
    · omega
  · rw [hops, List.countP_append, h.sees.sent]
    rfl
  · refine h.undone.step hle (fun hl => ?_) (by rw [hsame]) (by rw [hsame]) ?_ ?_
    · have := (h.opening.early (hle.late hl)).1
      rw [not_early_of_signal hroutine] at this
      cases this
    · rw [hundo, if_pos rfl]
      simp only
      omega
    · rw [hundo, if_neg (by decide), Int.sub_zero]

/-- `sem_close` returns, with the set left or removed. -/
theorem Sound.server_closed {id : ℕ} {h₀' : ℤ → Option ℕ}
    (h : Sound w d h₀ (.lib key pt b) h₁ pc₁) (hw : Sane v e w)
    (hc : pt.Comes a (w.sem key) 0 b sl r) (hr : pt.resume r = .ret x)
    (hroutine : d.server.routine = some (.sem_close key id))
    (hwithin : (Call.sem_close key id).Within (h₀ key) pt)
    (hblank : ∀ pc, d.server.blank pc = false)
    (hsem : w'.sem = Function.update w.sem key sl) (hshared : w'.shared = w.shared)
    (hops : w'.semops = w.semops ++ (Event.sys 0 key pt.call r).semop?.toList)
    (hprocs : w'.procs = [⟨.server (server_return v d.server x), h₀', .user⟩,
      ⟨.client d.client, h₁, pc₁⟩]) :
    Matched v e a w' d (.lib key pt b) := by
  have hup : d.sup = true := h.sees.sup
  by_cases hrm : ∃ id', pt = .rm id'
  · obtain ⟨id', rfl⟩ := hrm
    obtain ⟨m, rfl⟩ : ∃ m, r = .ok m := by
      cases r with
      | error e => cases hr
      | ok m => exact ⟨m, rfl⟩
    -- neither counter is spoken of any more
    obtain ⟨hpass, hdone⟩ := h.server_rm hw
    have hlate : d.client.stage.late = true := by
      by_contra hl
      have := not_passed_of_early (h.opening.early (by simpa using hl)).1
      rw [hpass] at this
      cases this
    have hcli : ¬ d.cliKnown := by
      rintro (⟨hcup, hd⟩ | ⟨-, hp⟩)
      · rw [hdone hcup] at hd
        cases hd
      · rw [hpass] at hp
        cases hp
    have hserv : ¬ d.servKnown := by
      rintro (hl | ⟨hcup, -, hd | hp⟩)
      · rw [hlate] at hl
        cases hl
      · rw [hdone hcup] at hd
        cases hd
      · rw [hpass] at hp
        cases hp
    refine h.server_back d.sent d.bal hroutine rfl ?_ ?_ hshared hup hprocs fun hle =>
      ⟨fun hl => ?_, fun hk => absurd (hle.cliKnown hk) hcli,
        fun hk => absurd (hle.cliKnown hk) hcli, fun hk => absurd (hle.servKnown hk) hserv,
        fun hk => absurd (hle.servKnown hk) hserv⟩
    · exact .server_close hup hroutine (fun hk => absurd hk hcli) fun hk => absurd hk hserv
    · rw [hops, List.countP_append, not_send (by simp), h.sees.sent, Nat.add_zero]
    · rw [hle.late hl] at hlate
      cases hlate
  · have hst : Still w w' := by
      refine .of_comes hc ?_ ?_ (fun id' hpt => hrm ⟨id', hpt⟩) hsem hshared hops
      · rintro id' n rfl
        exact hwithin
      · rintro id' n rfl
        exact hwithin
    apply h.server_still hst hroutine hup hprocs
    exact .server_close hup hroutine (fun _ => (h.sees.cli_eq (hblank _)).symm)
      fun _ => h.sees.serv.symm

/-- A routine of the server returns. -/
theorem Sound.server_ret {h₀' : ℤ → Option ℕ} (h : Sound w d h₀ (.lib key pt b) h₁ pc₁)
    (hw : Sane v e w) (hcalm : calm w a) (hc : pt.Comes a (w.sem key) 0 b sl r)
    (hr : pt.resume r = .ret x) (hsem : w'.sem = Function.update w.sem key sl)
    (hshared : w'.shared = w.shared)
    (hops : w'.semops = w.semops ++ (Event.sys 0 key pt.call r).semop?.toList)
    (hprocs : w'.procs = [⟨.server (server_return v d.server x), h₀', .user⟩,
      ⟨.client d.client, h₁, pc₁⟩]) :
    Matched v e a w' d (.lib key pt b) := by
  obtain ⟨cl, hroutine, hkey, hwithin, -⟩ := h.sees.server_lib hw
  rcases Server.routine_cases hroutine with ⟨-, rfl⟩ | ⟨-, rfl⟩ | ⟨hblank, -, ⟨id, rfl⟩ |
    ⟨id, rfl⟩ |
    ⟨id, rfl⟩ | ⟨-, key', id, hours, rfl⟩⟩
  · obtain rfl : SEMKEY1 = key := hkey
    exact h.server_created hcalm hc hr hroutine hwithin hsem hshared hops hprocs
  · obtain rfl : SEMKEY2 = key := hkey
    exact h.server_created hcalm hc hr hroutine hwithin hsem hshared hops hprocs
  · obtain rfl : SEMKEY2 = key := hkey
    cases pt <;> first | exact hwithin.elim | skip
    obtain ⟨rfl, rfl, -⟩ := hwithin
    obtain ⟨⟨m, rfl⟩, rfl⟩ := ret_of_op hr
    exact h.server_waited hc hroutine hblank hsem hshared hops hprocs
  · obtain rfl : SEMKEY1 = key := hkey
    cases pt <;> first | exact hwithin.elim | skip
    obtain ⟨rfl, rfl, -⟩ := hwithin
    obtain ⟨⟨m, rfl⟩, rfl⟩ := ret_of_op hr
    exact h.server_signalled hc hroutine hblank hsem hshared hops hprocs
  · obtain rfl : SEMKEY2 = key := hkey
    cases pt <;> first | exact hwithin.elim | skip
    obtain ⟨rfl, rfl, -⟩ := hwithin
    obtain ⟨⟨m, rfl⟩, rfl⟩ := ret_of_op hr
    exact h.server_posted hc hroutine hblank hsem hshared hops hprocs
  · obtain rfl : key' = key := hkey
    exact h.server_closed hw hc hr hroutine hwithin hblank hsem hshared hops hprocs

/-! ### A routine ends the server -/

theorem Sound.server_at (h : Sound w d h₀ (.lib key pt b) h₁ pc₁) :
    (w.clients key)[0]? = some ⟨h₀ key, .at pt b⟩ := by
  have hget := h.sees.server_get key
  rwa [Pc.view, if_pos rfl] at hget

/-- A `semop` of `sem_op` that does not wait ends the program only at the largest value or the
last adjustment. -/
theorem full_of_fatal {p id : ℕ} {n : ℤ} (hours : Kept (w.sem key) (w.clients key))
    (hget : (w.clients key)[p]? = some ⟨some id, .at (.op_semop id n) b⟩)
    (hperf : (Point.op_semop id n).perform (w.sem key) p b = some (sl, r))
    (hf : ((Point.op_semop id n).resume r).fatal) :
    0 ≤ ((w.sem key).value 0 : ℤ) + n ∧
      ((SEMVMX : ℤ) < (w.sem key).value 0 + n ∨ ¬ UndoFits ((w.sem key).undo p 0 - n)) := by
  by_contra hfit
  refine sem_op_survives hours hget (fun S hcur hlo => ?_) hperf hf
  rw [← Slot.value_of_cur hcur] at hlo ⊢
  rw [← Slot.undo_of_cur hcur]
  by_contra hno
  rw [not_and_or, not_le] at hno
  exact hfit ⟨hlo, hno⟩

/-- Of the routines only `sem_wait` and `sem_signal` end the server. -/
theorem Sound.server_fails (h : Sound w d h₀ (.lib key pt b) h₁ pc₁) (hw : Sane v e w)
    (hcalm : calm w a) (hc : pt.Comes a (w.sem key) 0 b (w.sem key) r) (hf : (pt.resume r).fatal)
    (hsem : w'.sem = fun key => (w.sem key).exit 0) (hshared : w'.shared = w.shared)
    (hops : w'.semops = w.semops)
    (hprocs : w'.procs = [⟨.server d.server, fun _ => none, .dead⟩, ⟨.client d.client, h₁, pc₁⟩]) :
    Matched v e a w' d (.lib key pt b) := by
  have hup : d.sup = true := h.sees.sup
  have hperf := hcalm.perform hc
  have hget := h.server_at
  obtain ⟨cl, hroutine, hkey, hwithin, -⟩ := h.sees.server_lib hw
  have hthere : Ours key → d.server.making key (.lib key pt b) → ∀ id n,
      pt = .create_lock id n → ∃ S, (w.sem key).cur = some (id, S) := by
    rintro hours hm id n rfl
    exact (h.made hours hm).2 id n b rfl
  -- where `Duo` lets the server end
  have hrefused : (∀ pc, d.server.blank pc = false) → (∀ key pc, ¬ d.server.making key pc) →
      d.ServerRefused cl → Matched v e a w' d (.lib key pt b) := by
    intro hblank hmaking hfull
    apply h.server_gone (hblank _) (fun hm => absurd hm (hmaking _ _)) hsem hops hprocs rfl
    rw [hshared, h.sees.shared]
    exact .server_fail hup hroutine hfull (h.server_exit_cli hup (hblank _) hsem)
      (h.server_exit_serv hsem)
  rcases Server.routine_cases hroutine with ⟨hstage, rfl⟩ | ⟨hstage, rfl⟩ | ⟨hblank, hmaking,
    ⟨id, rfl⟩ | ⟨id, rfl⟩ | ⟨id, rfl⟩ | ⟨-, key', id, hours, rfl⟩⟩
  · obtain rfl : SEMKEY1 = key := hkey
    refine absurd hf
      (sem_create_survives (hw.lock _) (hw.count _) hget hwithin (by decide) ?_ hperf)
    rintro id n rfl
    refine hthere (.inl rfl) ?_ id n rfl
    rw [Server.making, hstage]
    exact .inr fun id' b' heq => by cases heq
  · obtain rfl : SEMKEY2 = key := hkey
    refine absurd hf
      (sem_create_survives (hw.lock _) (hw.count _) hget hwithin (by decide) ?_ hperf)
    rintro id n rfl
    refine hthere (.inr rfl) ?_ id n rfl
    rw [Server.making, hstage]
    exact ⟨rfl, fun id' b' heq => by cases heq⟩
  · obtain rfl : SEMKEY2 = key := hkey
    cases pt <;> first | exact hwithin.elim | skip
    obtain ⟨rfl, rfl, hheld⟩ := hwithin
    rw [hheld] at hget
    obtain ⟨hpos, hfull⟩ := full_of_fatal (h.kept (.inr rfl)) hget hperf hf
    have hle := (w.sem SEMKEY2).value_le 0
    have hserv := h.sees.serv
    refine hrefused hblank hmaking ⟨by omega, fun hk => ?_⟩
    rw [h.undone.bal hk hup] at hfull
    exact hfull.resolve_left (by omega)
  · obtain rfl : SEMKEY1 = key := hkey
    cases pt <;> first | exact hwithin.elim | skip
    obtain ⟨rfl, rfl, hheld⟩ := hwithin
    rw [hheld] at hget
    refine hrefused hblank hmaking fun _ hk => ?_
    obtain ⟨-, hfull⟩ := full_of_fatal (h.kept (.inl rfl)) hget hperf hf
    rw [h.undone.sent hk hup] at hfull
    rw [h.sees.cli_eq (hblank _)]
    unfold UndoFits at hfull
    omega
  · exact hrefused hblank hmaking fun heq => absurd heq (by decide)
  · obtain rfl : key' = key := hkey
    exact absurd hf (sem_close_survives (h.kept hours) (hw.lock _) (hw.count _) hget
      hwithin hperf)

end Server

end UnixNetProg.SharedMemory

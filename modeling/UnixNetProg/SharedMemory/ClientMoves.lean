/-
The client's steps, as steps of `Duo`.

The same as for the server, with three differences: the client initialises
nothing, it may look for sets that are not there, and its end gives `clisem`
back what it has taken.
-/
import UnixNetProg.SharedMemory.ServerMoves

set_option autoImplicit false

namespace UnixNetProg.SharedMemory

open UnixNetProg.SysV UnixNetProg.Semaphore UnixNetProg.Runs UnixNetProg.Pool

/-! ## The client -/

section Client

variable {v : Version} {e : Env} {a : Act User (Option ℕ)} {w w' : World Shared User} {d : Duo}
  {h₀ h₁ : ℤ → Option ℕ} {pc₀ pc₁ : Pc} {c : Option ℕ} {key : ℤ} {pt pt' : Point} {sl : Slot 3}
  {r : Except Errno ℕ} {b : Bool} {cl : Call} {x : ℤ}

/-- A set that the client has open has been initialised. -/
theorem Sound.not_making (h : Sound w d h₀ pc₀ h₁ pc₁) (hkey : Ours key) {j : ℕ}
    (hheld : h₁ key = some j) : ¬ d.server.making key pc₀ := by
  intro hm
  obtain ⟨S, hcur⟩ := (h.kept hkey).there (h.sees.client_get key) hheld
  have hclosed := ((h.made hkey hm).1 _ _ hcur).closed
  have := not_of_countP_eq_zero _ hclosed (h.sees.client_get key)
  simp [Client.holds, hheld] at this

/-- The client gets to its first `sem_wait` with both sets open. -/
theorem Sound.client_opens {u : Client} {s : Shared} (h : Sound w d h₀ pc₀ h₁ .user)
    (hw : Sane v e w)
    (hs : client_main v e d.shared d.client c = some (s, .go u)) (hopen : u.stage.opened = true)
    (hkey : Ours key) : ¬ d.server.making key pc₀ := by
  rcases client_go_opened hs hopen with hopen | ⟨hstage, hpos⟩
  · exact h.opened hopen key hkey
  · have hown := h.sees.client_user hw
    rw [Client.Own, hstage] at hown
    rcases hkey with rfl | rfl
    · exact h.not_making (.inl rfl) hown.1.toNat
    · exact h.not_making (.inr rfl) (hown.2.has hpos).toNat

/-- A statement of the client. -/
theorem Sound.client_own {u : Client} (h : Sound w d h₀ pc₀ h₁ .user) (hw : Sane v e w)
    (ha : a = .user 1 c) (hs : client_main v e w.shared d.client c = some (w'.shared, .go u))
    (hsem : w'.sem = w.sem) (hops : w'.semops = w.semops)
    (hprocs : w'.procs = [⟨.server d.server, h₀, pc₀⟩, ⟨.client u, h₁, .user⟩]) :
    Matched v e a w' d pc₀ := by
  have hup : d.cup = true := h.sees.cup
  rw [h.sees.shared] at hs
  have hstep : d.Step v e a { d with client := u, shared := w'.shared } := .client_go ha hup hs
  refine .intro hstep ⟨hprocs, h.sees.sup, hup, ?_, ?_, ?_, rfl⟩ id ?_
    (h.undone.still hstep.le (fun _ _ => by rw [hsem]) ⟨rfl, rfl, rfl, rfl⟩)
  · rw [hsem]
    exact h.sees.cli
  · rw [hsem]
    exact h.sees.serv
  · rw [hops]
    exact h.sees.sent
  · exact fun hopen key hkey => h.client_opens hw hs hopen hkey

/-- What the end of the client leaves. -/
theorem Sound.client_gone {d' : Duo} (h : Sound w d h₀ pc₀ h₁ pc₁)
    (hsem : w'.sem = fun key => (w.sem key).exit 1) (hops : w'.semops = w.semops)
    (hprocs : w'.procs = [⟨.server d.server, h₀, pc₀⟩, ⟨.client d.client, fun _ => none, .dead⟩])
    (hd : d' = { d with
      cup := false, cli := if d.server.blank pc₀ then 1 else (w'.sem SEMKEY1).value 0,
      serv := (w'.sem SEMKEY2).value 0, shared := w'.shared })
    (hstep : d.Step v e a d') : Matched v e a w' d pc₀ := by
  have hle := hstep.le
  subst hd
  refine .intro hstep ⟨hprocs, h.sees.sup, rfl, rfl, rfl, ?_, rfl⟩ id h.opened
    ⟨fun hl p => ?_, fun hk hsup => ?_, nofun, fun hk hsup => ?_, nofun⟩
  · rw [hops]
    exact h.sees.sent
  · rw [(exit_values hsem SEMKEY2).2, h.undone.idle hl]
    exact ite_self 0
  · rw [(exit_values hsem SEMKEY1).2, if_neg (by decide)]
    exact h.undone.sent (hle.cliKnown hk) hsup
  · rw [(exit_values hsem SEMKEY2).2, if_neg (by decide)]
    exact h.undone.bal (hle.servKnown hk) hsup

/-- The end of the client gives back what it has taken. -/
theorem Sound.client_exit_cli (h : Sound w d h₀ pc₀ h₁ pc₁) (hcup : d.cup = true)
    (hsem : w'.sem = fun key => (w.sem key).exit 1) (hl : d.client.stage.late = true)
    (hsup : d.sup = true) (hpass : d.server.stage.passed = false) :
    0 < if d.server.blank pc₀ then 1 else (w'.sem SEMKEY1).value 0 := by
  split_ifs
  · exact Nat.one_pos
  · have hpos := h.tally.taken_pos (waited_of_late hl)
    rw [(exit_values hsem SEMKEY1).1, h.undone.taken (.inr ⟨hsup, hpass⟩) hcup]
    unfold clamp
    have : (0 : ℕ) < SEMVMX := by decide
    omega

theorem Sound.client_exit_serv (h : Sound w d h₀ pc₀ h₁ pc₁)
    (hsem : w'.sem = fun key => (w.sem key).exit 1) (hl : d.client.stage.late = false) :
    (w'.sem SEMKEY2).value 0 = d.serv := by
  rw [exit_zero hsem (h.undone.idle hl 1), h.sees.serv]

/-- And it takes from `servsem` what it has given. -/
theorem Sound.client_exit_serv_le (h : Sound w d h₀ pc₀ h₁ pc₁) (hcup : d.cup = true)
    (hsem : w'.sem = fun key => (w.sem key).exit 1) (hk : d.servKnown) :
    (w'.sem SEMKEY2).value 0 ≤ d.serv := by
  rw [(exit_values hsem SEMKEY2).1, h.sees.serv, h.undone.given hk hcup]
  exact clamp_le_self (by omega)

/-- The end of the client in its own code. -/
theorem Sound.client_quit {x : Does Client} (h : Sound w d h₀ pc₀ h₁ .user) (ha : a = .user 1 c)
    (hs : client_main v e w.shared d.client c = some (w'.shared, x))
    (hx : x = .exit ∨ ∃ msg, x = .err_sys msg)
    (hsem : w'.sem = fun key => (w.sem key).exit 1) (hops : w'.semops = w.semops)
    (hprocs : w'.procs = [⟨.server d.server, h₀, pc₀⟩, ⟨.client d.client, fun _ => none, .dead⟩]) :
    Matched v e a w' d pc₀ := by
  have hcup : d.cup = true := h.sees.cup
  rw [h.sees.shared] at hs
  apply h.client_gone hsem hops hprocs rfl
  exact .client_quit ha hcup hs hx (h.client_exit_serv hsem) (h.client_exit_cli hcup hsem)

/-- The client calls a routine. -/
theorem Sound.client_enter {u : Client} (h : Sound w d h₀ pc₀ h₁ .user)
    (hs : client_main v e w.shared d.client c = some (w'.shared, .call cl u))
    (hsem : w'.sem = w.sem) (hops : w'.semops = w.semops)
    (hprocs : w'.procs = [⟨.server d.server, h₀, pc₀⟩, ⟨.client u, h₁, .lib cl.key pt false⟩]) :
    Matched v e a w' d pc₀ := by
  obtain ⟨rfl, hshared, -⟩ := client_call hs
  exact h.idle (.of_sem hsem hshared hops) hprocs rfl rfl rfl id

/-- The client falls asleep. -/
theorem Sound.client_sleep (h : Sound w d h₀ pc₀ h₁ (.lib key pt false)) (hsem : w'.sem = w.sem)
    (hshared : w'.shared = w.shared) (hops : w'.semops = w.semops)
    (hprocs : w'.procs = [⟨.server d.server, h₀, pc₀⟩, ⟨.client d.client, h₁, .lib key pt true⟩]) :
    Matched v e a w' d pc₀ :=
  h.idle (.of_sem hsem hshared hops) hprocs rfl rfl rfl id

/-- The client initialises nothing. -/
theorem Sound.client_not_create (h : Sound w d h₀ pc₀ h₁ (.lib key pt b)) (hw : Sane v e w) :
    (∀ id n, pt ≠ .create_setval0 id n) ∧ ∀ id, pt ≠ .create_setval1 id := by
  obtain ⟨cl, hroutine, -, hwithin, -⟩ := h.sees.client_lib hw
  constructor
  · rintro id n rfl
    rcases Client.routine_cases hroutine with ⟨-, _, -, rfl⟩ | ⟨_, rfl⟩ | ⟨_, rfl⟩ |
      ⟨-, _, _, -, rfl⟩ <;>
      exact hwithin.elim
  · rintro id rfl
    rcases Client.routine_cases hroutine with ⟨-, _, -, rfl⟩ | ⟨_, rfl⟩ | ⟨_, rfl⟩ |
      ⟨-, _, _, -, rfl⟩ <;>
      exact hwithin.elim

/-- The client gets to the next system call. -/
theorem Sound.client_goto (h : Sound w d h₀ pc₀ h₁ (.lib key pt b)) (hw : Sane v e w)
    (hc : pt.Comes a (w.sem key) 1 b sl r) (hr : pt.resume r = .goto pt')
    (hsem : w'.sem = Function.update w.sem key sl) (hshared : w'.shared = w.shared)
    (hops : w'.semops = w.semops ++ (Event.sys 1 key pt.call r).semop?.toList)
    (hprocs : w'.procs = [⟨.server d.server, h₀, pc₀⟩,
      ⟨.client d.client, Function.update h₁ key (pt.heldAt r (h₁ key)), .lib key pt' false⟩]) :
    Matched v e a w' d pc₀ :=
  h.idle (.of_comes hc (h.client_not_create hw).1 (not_op_goto hr) (not_rm_goto hr) hsem hshared
    hops)
    hprocs rfl rfl rfl id

/-! ### A routine of the client returns -/

theorem client_return_opened {u : Client} (h : (client_return u x).stage.opened = true) :
    u.stage.opened = true := by
  obtain ⟨stage, i, n, clisem, servsem⟩ := u
  cases stage <;> first | rfl | cases h

theorem late_of_signalled {u : Client} {id : ℕ} (hr : u.routine = some (.sem_signal key id)) :
    (client_return u x).stage.late = true := by
  obtain ⟨stage, i, n, clisem, servsem⟩ := u
  cases stage <;> first | rfl | cases hr

/-- What has to be shown when a routine of the client returns. -/
theorem Sound.client_back {d' : Duo} {h₁' : ℤ → Option ℕ} (h : Sound w d h₀ pc₀ h₁ pc₁)
    (taken given : ℕ)
    (hd : d' = { d with
      client := client_return d.client x,
      cli := if d.server.blank pc₀ then 1 else (w'.sem SEMKEY1).value 0,
      serv := (w'.sem SEMKEY2).value 0, taken := taken, given := given })
    (hstep : d.Step v e a d') (hsent : w'.semops.countP isSend = w.semops.countP isSend)
    (hshared : w'.shared = w.shared) (hup : d.cup = true)
    (hprocs : w'.procs = [⟨.server d.server, h₀, pc₀⟩,
      ⟨.client (client_return d.client x), h₁', .user⟩])
    (hundone : d.Le d' → Undone w' d') : Matched v e a w' d pc₀ := by
  have hundone := hundone hstep.le
  subst hd
  refine .intro hstep ⟨hprocs, h.sees.sup, hup, rfl, rfl, ?_, hshared.trans h.sees.shared⟩ id ?_
    hundone
  · rw [hsent]
    exact h.sees.sent
  · exact fun hopen => h.opened (client_return_opened hopen)

/-- A routine that leaves `[0]` as it was. -/
theorem Sound.client_still {h₁' : ℤ → Option ℕ} (h : Sound w d h₀ pc₀ h₁ pc₁) (hst : Still w w')
    (hup : d.cup = true)
    (hprocs : w'.procs = [⟨.server d.server, h₀, pc₀⟩,
      ⟨.client (client_return d.client x), h₁', .user⟩])
    (hstep : d.Step v e a { d with
      client := client_return d.client x, cli := d.cli, serv := d.serv }) :
    Matched v e a w' d pc₀ := by
  refine h.client_back d.taken d.given rfl ?_ hst.sent hst.shared hup hprocs
    fun hle => h.undone.still hle hst.undo ⟨rfl, rfl, rfl, rfl⟩
  rw [hst.value, hst.value, ← h.sees.cli, ← h.sees.serv]
  exact hstep

/-- The other end of a removal: neither counter is spoken of any more. -/
theorem Sound.client_removed {id : ℕ} {h₁' : ℤ → Option ℕ}
    (h : Sound w d h₀ pc₀ h₁ (.lib key (.rm id) b)) (hw : Sane v e w) {m : ℕ}
    (hroutine : d.client.routine = some cl) (hcl : ∃ key id, cl = .sem_close key id)
    (hshared : w'.shared = w.shared)
    (hops : w'.semops = w.semops ++ (Event.sys 1 key (Point.rm id).call (.ok m)).semop?.toList)
    (hprocs : w'.procs = [⟨.server d.server, h₀, pc₀⟩,
      ⟨.client (client_return d.client x), h₁', .user⟩]) :
    Matched v e a w' d pc₀ := by
  have hup : d.cup = true := h.sees.cup
  obtain ⟨hdone, hpass⟩ := h.client_rm hw
  have hlate := late_of_done hdone
  -- nobody is to use the counters any more
  have hcli : ¬ d.cliKnown := by
    rintro (⟨-, hd⟩ | ⟨hsup, hp⟩)
    · rw [hdone] at hd
      cases hd
    · rw [hpass hsup] at hp
      cases hp
  have hserv : ¬ d.servKnown := by
    rintro (hl | ⟨-, hsup, hd | hp⟩)
    · rw [hlate] at hl
      cases hl
    · rw [hdone] at hd
      cases hd
    · rw [hpass hsup] at hp
      cases hp
  obtain ⟨key', id', rfl⟩ := hcl
  refine h.client_back d.taken d.given rfl ?_ ?_ hshared hup hprocs fun hle =>
    ⟨fun hl => ?_, fun hk => absurd (hle.cliKnown hk) hcli,
      fun hk => absurd (hle.cliKnown hk) hcli, fun hk => absurd (hle.servKnown hk) hserv,
      fun hk => absurd (hle.servKnown hk) hserv⟩
  · exact .client_close hup hroutine (fun hk => absurd hk hcli) fun hk => absurd hk hserv
  · rw [hops, List.countP_append, not_send (by simp), Nat.add_zero]
  · rw [hle.late hl] at hlate
    cases hlate

theorem opened_of_wait {u : Client} {id : ℕ} (hr : u.routine = some (.sem_wait key id)) :
    u.stage.opened = true := by
  obtain ⟨stage, i, n, clisem, servsem⟩ := u
  cases stage <;> first | rfl | cases hr

/-- `sem_wait (clisem)` returns. -/
theorem Sound.client_waited {id m : ℕ} {h₁' : ℤ → Option ℕ}
    (h : Sound w d h₀ pc₀ h₁ (.lib SEMKEY1 (.op_semop id (-1)) b))
    (hc : (Point.op_semop id (-1)).Comes a (w.sem SEMKEY1) 1 b sl (.ok m))
    (hroutine : d.client.routine = some (.sem_wait SEMKEY1 id))
    (hopen : d.client.stage.opened = true)
    (hsem : w'.sem = Function.update w.sem SEMKEY1 sl) (hshared : w'.shared = w.shared)
    (hops : w'.semops = w.semops ++
      (Event.sys 1 SEMKEY1 (Point.op_semop id (-1)).call (.ok m)).semop?.toList)
    (hprocs : w'.procs = [⟨.server d.server, h₀, pc₀⟩,
      ⟨.client (client_return d.client 0), h₁', .user⟩]) :
    Matched v e a w' d pc₀ := by
  have hne : SEMKEY2 ≠ SEMKEY1 := by decide
  have hpos := hc.wait
  obtain ⟨hval, hundo⟩ := op_values hc hsem
  -- the other set is as it was
  have hsame : w'.sem SEMKEY2 = w.sem SEMKEY2 := by rw [hsem, Function.update_of_ne hne]
  have hup : d.cup = true := h.sees.cup
  have hblank : d.server.blank pc₀ = false :=
    blank_of_not_making (h.opened hopen SEMKEY1 (.inl rfl))
  have hcli := h.sees.cli_eq hblank
  have hfits := hc.fits (by decide)
  refine h.client_back (d.taken + 1) d.given rfl ?_ ?_ hshared hup hprocs fun hle => ?_
  · refine .client_wait hup hroutine (fun hk => ?_) (fun _ => ?_) fun _ => ?_
    · -- the wait has not been refused
      rw [h.undone.taken hk hup] at hfits
      have := hfits.2
      omega
    · rw [hblank, if_neg Bool.false_ne_true]
      omega
    · rw [hsame, h.sees.serv]
  · rw [hops, List.countP_append]
    rfl
  · refine h.undone.step hle (fun _ _ => by rw [hsame]) ?_ ?_ (by rw [hsame]) (by rw [hsame])
    · rw [hundo, if_neg (by decide), Int.sub_zero]
    · rw [hundo, if_pos rfl]
      simp only
      omega

/-- `sem_signal (servsem)` returns. -/
theorem Sound.client_signalled {id m : ℕ} {h₁' : ℤ → Option ℕ}
    (h : Sound w d h₀ pc₀ h₁ (.lib SEMKEY2 (.op_semop id 1) b))
    (hc : (Point.op_semop id 1).Comes a (w.sem SEMKEY2) 1 b sl (.ok m))
    (hroutine : d.client.routine = some (.sem_signal SEMKEY2 id))
    (hsem : w'.sem = Function.update w.sem SEMKEY2 sl) (hshared : w'.shared = w.shared)
    (hops : w'.semops = w.semops ++
      (Event.sys 1 SEMKEY2 (Point.op_semop id 1).call (.ok m)).semop?.toList)
    (hprocs : w'.procs = [⟨.server d.server, h₀, pc₀⟩,
      ⟨.client (client_return d.client 0), h₁', .user⟩]) :
    Matched v e a w' d pc₀ := by
  have hne : SEMKEY1 ≠ SEMKEY2 := by decide
  obtain ⟨hval, hundo⟩ := op_values hc hsem
  -- the other set is as it was
  have hsame : w'.sem SEMKEY1 = w.sem SEMKEY1 := by rw [hsem, Function.update_of_ne hne]
  have hup : d.cup = true := h.sees.cup
  have hserv := h.sees.serv
  refine h.client_back d.taken (d.given + 1) rfl ?_ ?_ hshared hup hprocs fun hle => ?_
  · refine .client_signal hup hroutine (fun _ => ?_) fun _ => ?_
    · rw [hsame, h.sees.cli]
    · omega
  · rw [hops, List.countP_append]
    rfl
  · refine h.undone.step hle (fun hl => ?_) (by rw [hsame]) (by rw [hsame]) ?_ ?_
    · rw [late_of_signalled hroutine] at hl
      cases hl
    · rw [hundo, if_neg (by decide), Int.sub_zero]
    · rw [hundo, if_pos rfl]
      simp only
      omega

/-- A routine of the client returns. -/
theorem Sound.client_ret {h₁' : ℤ → Option ℕ} (h : Sound w d h₀ pc₀ h₁ (.lib key pt b))
    (hw : Sane v e w) (hc : pt.Comes a (w.sem key) 1 b sl r)
    (hr : pt.resume r = .ret x) (hsem : w'.sem = Function.update w.sem key sl)
    (hshared : w'.shared = w.shared)
    (hops : w'.semops = w.semops ++ (Event.sys 1 key pt.call r).semop?.toList)
    (hprocs : w'.procs = [⟨.server d.server, h₀, pc₀⟩,
      ⟨.client (client_return d.client x), h₁', .user⟩]) :
    Matched v e a w' d pc₀ := by
  have hup : d.cup = true := h.sees.cup
  obtain ⟨cl, hroutine, hkey, hwithin, -⟩ := h.sees.client_lib hw
  have hset := (h.client_not_create hw).1
  rcases Client.routine_cases hroutine with ⟨-, key', -, rfl⟩ | ⟨id, rfl⟩ | ⟨id, rfl⟩ |
    ⟨-, key', id, hours, rfl⟩
  · refine h.client_still (.of_comes hc hset ?_ ?_ hsem hshared hops) hup hprocs
      (.client_open hup hroutine (fun _ => rfl) fun _ => rfl)
    · rintro id n rfl
      exact hwithin
    · rintro id rfl
      exact hwithin
  · obtain rfl : SEMKEY1 = key := hkey
    cases pt <;> first | exact hwithin.elim | skip
    obtain ⟨rfl, rfl, -⟩ := hwithin
    obtain ⟨⟨m, rfl⟩, rfl⟩ := ret_of_op hr
    exact h.client_waited hc hroutine (opened_of_wait hroutine) hsem hshared hops hprocs
  · obtain rfl : SEMKEY2 = key := hkey
    cases pt <;> first | exact hwithin.elim | skip
    obtain ⟨rfl, rfl, -⟩ := hwithin
    obtain ⟨⟨m, rfl⟩, rfl⟩ := ret_of_op hr
    exact h.client_signalled hc hroutine hsem hshared hops hprocs
  · -- the set is removed with the last one that closes it
    by_cases hrm : ∃ id', pt = .rm id'
    · obtain ⟨id', rfl⟩ := hrm
      cases r with
      | error e => cases hr
      | ok m => exact h.client_removed hw hroutine ⟨key', id, rfl⟩ hshared hops hprocs
    · refine h.client_still (.of_comes hc hset ?_ (fun id' hpt => hrm ⟨id', hpt⟩) hsem hshared hops)
        hup hprocs (.client_close hup hroutine (fun _ => rfl) fun _ => rfl)
      rintro id' n rfl
      exact hwithin

/-! ### A routine ends the client -/

theorem Sound.client_at (h : Sound w d h₀ pc₀ h₁ (.lib key pt b)) :
    (w.clients key)[1]? = some ⟨h₁ key, .at pt b⟩ := by
  have hget := h.sees.client_get key
  rwa [Pc.view, if_pos rfl] at hget

/-- Of the routines only `sem_open`, `sem_wait` and `sem_signal` end the client. -/
theorem Sound.client_fails (h : Sound w d h₀ pc₀ h₁ (.lib key pt b)) (hw : Sane v e w)
    (hcalm : calm w a) (hc : pt.Comes a (w.sem key) 1 b (w.sem key) r) (hf : (pt.resume r).fatal)
    (hsem : w'.sem = fun key => (w.sem key).exit 1) (hshared : w'.shared = w.shared)
    (hops : w'.semops = w.semops)
    (hprocs : w'.procs = [⟨.server d.server, h₀, pc₀⟩, ⟨.client d.client, fun _ => none, .dead⟩]) :
    Matched v e a w' d pc₀ := by
  have hcup : d.cup = true := h.sees.cup
  have hperf := hcalm.perform hc
  have hget := h.client_at
  obtain ⟨cl, hroutine, hkey, hwithin, -⟩ := h.sees.client_lib hw
  apply h.client_gone hsem hops hprocs rfl
  rw [hshared, h.sees.shared]
  refine .client_fail hcup ?_ (h.client_exit_serv hsem) (h.client_exit_serv_le hcup hsem)
    (h.client_exit_cli hcup hsem)
  intro hl
  rcases Client.routine_cases hroutine with ⟨hopen, key', -, rfl⟩ | ⟨id, rfl⟩ | ⟨id, rfl⟩ |
    ⟨-, key', id, hours, rfl⟩
  · rw [opened_of_late hl] at hopen
    cases hopen
  · obtain rfl : SEMKEY1 = key := hkey
    cases pt <;> first | exact hwithin.elim | skip
    obtain ⟨rfl, rfl, hheld⟩ := hwithin
    rw [hheld] at hget
    refine ⟨_, hroutine, fun hk => ?_⟩
    obtain ⟨hpos, hfull⟩ := full_of_fatal (h.kept (.inl rfl)) hget hperf hf
    have hblank : d.server.blank pc₀ = false :=
      blank_of_not_making (h.opened (opened_of_late hl) SEMKEY1 (.inl rfl))
    have hcli := h.sees.cli_eq hblank
    have hle := (w.sem SEMKEY1).value_le 0
    rw [h.undone.taken hk hcup] at hfull
    unfold UndoFits at hfull
    omega
  · obtain rfl : SEMKEY2 = key := hkey
    cases pt <;> first | exact hwithin.elim | skip
    obtain ⟨rfl, rfl, hheld⟩ := hwithin
    rw [hheld] at hget
    refine ⟨_, hroutine, fun hk => ?_⟩
    obtain ⟨-, hfull⟩ := full_of_fatal (h.kept (.inr rfl)) hget hperf hf
    rw [h.undone.given hk hcup] at hfull
    rw [h.sees.serv]
    unfold UndoFits at hfull
    omega
  · obtain rfl : key' = key := hkey
    exact absurd hf (sem_close_survives (h.kept hours) (hw.lock _) (hw.count _) hget
      hwithin hperf)

end Client

end UnixNetProg.SharedMemory

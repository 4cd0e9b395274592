/-
The system of the two programs is `Duo`.

`Sound` ties a state of the world to one of `Duo`, with what the kernel's side
of it needs: the sets that are open are there, the server alone initialises
them, and a process's adjustments are such that its end does not give the other
one a signal that was never made. `Sound.step` is the refinement: a step of the
world in which no process is killed and no call fails for want of resources is
a step of `Duo`. In particular no routine ends a program, but for `sem_wait` and
`sem_signal` at the largest value or the last adjustment, and the client's look for
semaphores that are not there.
-/
import UnixNetProg.SharedMemory.Tally

set_option autoImplicit false

namespace UnixNetProg.SharedMemory

open UnixNetProg.SysV UnixNetProg.Semaphore UnixNetProg.Runs UnixNetProg.Pool

/-! ## What the world is in `Duo` -/

/-- The process has set `[0]` and is still in `sem_create`. -/
def primed : Pc → Bool
  | .lib _ (.create_setval1 _) _ | .lib _ (.create_endcreate _) _ => true
  | _ => false

/-- The server has not yet set `[0]` of `clisem`. -/
def Server.blank (u : Server) (pc : Pc) : Bool :=
  match u.stage with
  | .shmget => true
  | .create1 => !primed pc
  | _ => false

/-- The server has yet to initialise the set of `key`, one of its two keys. -/
def Server.making (key : ℤ) (u : Server) (pc : Pc) : Prop :=
  match u.stage with
  | .shmget => True
  | .create1 => key = SEMKEY2 ∨ ∀ id b, pc ≠ .lib key (.create_endcreate id) b
  | .check1 => key = SEMKEY2
  | .create2 => key = SEMKEY2 ∧ ∀ id b, pc ≠ .lib key (.create_endcreate id) b
  | _ => False

/-- A `sem_signal (clisem)` of the server. -/
def isSend (o : Semop) : Bool := o.proc == 0 && o.key == SEMKEY1 && o.ops == op_op 1

/-- The state of `Duo` in a state of the world; `h` and `pc` are what `Duo`
leaves out of the two processes. -/
structure Sees (w : World Shared User) (d : Duo) (h₀ : ℤ → Option ℕ) (pc₀ : Pc)
    (h₁ : ℤ → Option ℕ) (pc₁ : Pc) : Prop where
  procs : w.procs = [⟨.server d.server, h₀, pc₀⟩, ⟨.client d.client, h₁, pc₁⟩]
  sup : d.sup = (pc₀ != .dead)
  cup : d.cup = (pc₁ != .dead)
  cli : d.cli = if d.server.blank pc₀ then 1 else (w.sem SEMKEY1).value 0
  serv : d.serv = (w.sem SEMKEY2).value 0
  sent : d.sent = w.semops.countP isSend
  shared : w.shared = d.shared

/-- While the server has yet to initialise a set, nobody else does, and the set
it has looked up stays. -/
def Made (key : ℤ) (w : World Shared User) (u : Server) (pc : Pc) : Prop :=
  u.making key pc →
    (∀ i T, (w.sem key).cur = some (i, T) → Unset i T (w.clients key)) ∧
    ∀ id x b, pc = .lib key (.create_lock id x) b → ∃ T, (w.sem key).cur = some (id, T)

/-- One of the two keys. -/
def Ours (key : ℤ) : Prop := key = SEMKEY1 ∨ key = SEMKEY2

/-- The adjustments are what the two have done to the counters, as far as these mean
something. -/
structure Undone (w : World Shared User) (d : Duo) : Prop where
  idle : d.client.stage.late = false → ∀ p, (w.sem SEMKEY2).undo p 0 = 0
  sent : d.cliKnown → d.sup = true → (w.sem SEMKEY1).undo 0 0 = -d.sent
  taken : d.cliKnown → d.cup = true → (w.sem SEMKEY1).undo 1 0 = d.taken
  bal : d.servKnown → d.sup = true → (w.sem SEMKEY2).undo 0 0 = d.bal
  given : d.servKnown → d.cup = true → (w.sem SEMKEY2).undo 1 0 = -d.given

/-- The state of `Duo`, and the kernel's side of it. -/
structure Sound (w : World Shared User) (d : Duo) (h₀ : ℤ → Option ℕ) (pc₀ : Pc)
    (h₁ : ℤ → Option ℕ) (pc₁ : Pc) : Prop where
  sees : Sees w d h₀ pc₀ h₁ pc₁
  opening : d.Opening
  tally : d.Tally
  kept : ∀ {key}, Ours key → Kept (w.sem key) (w.clients key)
  made : ∀ {key}, Ours key → Made key w d.server pc₀
  opened : d.client.stage.opened = true → ∀ key, Ours key → ¬ d.server.making key pc₀
  undone : Undone w d

/-- What holds of the routines and of their callers in every run. -/
structure Sane (v : Version) (e : Env) (w : World Shared User) : Prop where
  lock : ∀ key, LockInv (w.sem key) (w.clients key)
  count : ∀ key, CountInv (w.sem key) (w.clients key)
  ok : ∀ q ∈ w.procs, (pair v e).Ok q

/-- The steps of a run without mishaps: no process is killed, and no call fails
for want of resources or because a `read` or `write` fails. -/
def calm (_ : World Shared User) (a : Act User (Option ℕ)) : Prop :=
  match a with
  | .user _ c => c ≠ none
  | .sys _ => True
  | _ => False

instance (w : World Shared User) (a : Act User (Option ℕ)) : Decidable (calm w a) := by
  cases a <;> unfold calm <;> infer_instance

/-! ## The two processes, inside and outside of the routines -/

section Facts

variable {v : Version} {e : Env} {g : ℤ} {s s' : Shared} {c : Option ℕ} {key : ℤ}
  {w : World Shared User} {d : Duo} {h₀ h₁ : ℤ → Option ℕ} {pc₀ pc₁ pc pc' : Pc} {pt : Point}
  {b : Bool} {cl : Call}

/-- Two processes. -/
theorem two {α : Type} {x y q : α} {p : ℕ} (h : [x, y][p]? = some q) :
    (p = 0 ∧ x = q) ∨ (p = 1 ∧ y = q) := by
  match p with
  | 0 => exact .inl ⟨rfl, Option.some.inj h⟩
  | 1 => exact .inr ⟨rfl, Option.some.inj h⟩
  | _ + 2 => cases h

/-- A value moved downwards. -/
theorem clamp_le_self {x : ℕ} {d : ℤ} (hd : d ≤ 0) : clamp x d ≤ x := by
  unfold clamp
  omega

theorem Does.ends {U : Type} {x : Does U} (hgo : ∀ u, x ≠ .go u)
    (hcall : ∀ cl u, x ≠ .call cl u) : x = .exit ∨ ∃ msg, x = .err_sys msg := by
  cases x with
  | go u => exact absurd rfl (hgo u)
  | call cl u => exact absurd rfl (hcall cl u)
  | exit => exact .inl rfl
  | err_sys msg => exact .inr ⟨msg, rfl⟩

theorem server_go_blank {u u' : Server} (hs : server_main v e g s u c = some (s', .go u')) :
    u'.blank .user = u.blank .user := by
  obtain ⟨stage, i, n, file, off, clisem, servsem⟩ := u
  cases stage <;> simp only [server_main] at hs
  case create1 => cases hs
  all_goals
    cases v <;> (try simp only [server, single_server, multi_server] at hs) <;>
      (try split at hs) <;> (try split_ifs at hs) <;> cases hs <;> rfl

theorem server_go_making {u u' : Server} (hs : server_main v e g s u c = some (s', .go u'))
    (h : u'.making key .user) : u.making key .user := by
  obtain ⟨stage, i, n, file, off, clisem, servsem⟩ := u
  cases stage <;> simp only [server_main] at hs
  case shmget => trivial
  case check1 =>
    split_ifs at hs <;> cases hs
    exact h.1
  all_goals
    cases v <;> (try simp only [server, single_server, multi_server] at hs) <;>
      (try split at hs) <;> (try split_ifs at hs) <;> cases hs <;> exact h.elim

/-- The server does not end before it has called `sem_create`. -/
theorem server_quit_blank {u : Server} {x : Does Server}
    (hs : server_main v e g s u c = some (s', x)) (hx : x = .exit ∨ ∃ msg, x = .err_sys msg) :
    u.blank pc = false := by
  obtain ⟨stage, i, n, file, off, clisem, servsem⟩ := u
  cases stage <;> first | rfl | skip
  all_goals
    simp only [server_main] at hs
    (try split_ifs at hs) <;> cases hs <;> rcases hx with hx | ⟨msg, hx⟩ <;> cases hx

/-- Where the server ends, it is in no routine. -/
theorem making_dead {u : Server} (h : u.making key .dead) : u.making key .user := by
  obtain ⟨stage, i, n, file, off, clisem, servsem⟩ := u
  cases stage
  case create1 => exact .inr nofun
  case create2 => exact ⟨h.1, nofun⟩
  all_goals exact h

/-- What the server is doing in a routine. -/
theorem Sees.server_lib (h : Sees w d h₀ (.lib key pt b) h₁ pc₁) (hw : Sane v e w) :
    ∃ cl, d.server.routine = some cl ∧ cl.key = key ∧ cl.Within (h₀ key) pt ∧
      ∀ x h', cl.Returns h' x → (server_return v d.server x).Own (Function.update h₀ key h') :=
  hw.ok ⟨.server d.server, h₀, .lib key pt b⟩ (by simp [h.procs])

theorem Sees.client_lib (h : Sees w d h₀ pc₀ h₁ (.lib key pt b)) (hw : Sane v e w) :
    ∃ cl, d.client.routine = some cl ∧ cl.key = key ∧ cl.Within (h₁ key) pt ∧
      ∀ x h', cl.Returns h' x → (client_return d.client x).Own (Function.update h₁ key h') :=
  hw.ok ⟨.client d.client, h₁, .lib key pt b⟩ (by simp [h.procs])

theorem Sees.server_user (h : Sees w d h₀ .user h₁ pc₁) (hw : Sane v e w) : d.server.Own h₀ :=
  hw.ok ⟨.server d.server, h₀, .user⟩ (by simp [h.procs])

theorem Sees.client_user (h : Sees w d h₀ pc₀ h₁ .user) (hw : Sane v e w) : d.client.Own h₁ :=
  hw.ok ⟨.client d.client, h₁, .user⟩ (by simp [h.procs])

theorem Sees.server_get (h : Sees w d h₀ pc₀ h₁ pc₁) (key : ℤ) :
    (w.clients key)[0]? = some ⟨h₀ key, pc₀.view key⟩ :=
  clients_getElem? (q := ⟨.server d.server, h₀, pc₀⟩) key (by simp [h.procs])

theorem Sees.client_get (h : Sees w d h₀ pc₀ h₁ pc₁) (key : ℤ) :
    (w.clients key)[1]? = some ⟨h₁ key, pc₁.view key⟩ :=
  clients_getElem? (q := ⟨.client d.client, h₁, pc₁⟩) key (by simp [h.procs])

/-- The routines the server calls. -/
theorem Server.routine_cases {u : Server} (h : u.routine = some cl) :
    (u.stage = .create1 ∧ cl = .sem_create SEMKEY1 1) ∨
    (u.stage = .create2 ∧ cl = .sem_create SEMKEY2 0) ∨
    ((∀ pc, u.blank pc = false) ∧ (∀ key pc, ¬ u.making key pc) ∧
      ((∃ id, cl = .sem_wait SEMKEY2 id) ∨ (∃ id, cl = .sem_signal SEMKEY1 id) ∨
        (∃ id, cl = .sem_signal SEMKEY2 id) ∨
        (u.stage.passed = true ∧ ∃ key id, Ours key ∧ cl = .sem_close key id))) := by
  obtain ⟨stage, i, n, file, off, clisem, servsem⟩ := u
  cases stage <;> first | (cases h; done) | skip
  case create1 => cases h; exact .inl ⟨rfl, rfl⟩
  case create2 => cases h; exact .inr (.inl ⟨rfl, rfl⟩)
  all_goals refine .inr (.inr ⟨fun _ => rfl, fun _ _ => id, ?_⟩)
  case close1 => cases h; exact .inr (.inr (.inr ⟨rfl, _, _, .inl rfl, rfl⟩))
  case close2 => cases h; exact .inr (.inr (.inr ⟨rfl, _, _, .inr rfl, rfl⟩))
  case post => cases h; exact .inr (.inr (.inl ⟨_, rfl⟩))
  case errsend | lastsend | send => cases h; exact .inr (.inl ⟨_, rfl⟩)
  all_goals cases h; exact .inl ⟨_, rfl⟩

/-- The routines the client calls. -/
theorem Client.routine_cases {u : Client} (h : u.routine = some cl) :
    (u.stage.opened = false ∧ ∃ key, Ours key ∧ cl = .sem_open key) ∨
    (∃ id, cl = .sem_wait SEMKEY1 id) ∨ (∃ id, cl = .sem_signal SEMKEY2 id) ∨
    (u.stage.done = true ∧ ∃ key id, Ours key ∧ cl = .sem_close key id) := by
  obtain ⟨stage, i, n, clisem, servsem⟩ := u
  cases stage <;> first | (cases h; done) | skip
  case open1 => cases h; exact .inl ⟨rfl, _, .inl rfl, rfl⟩
  case open2 => cases h; exact .inl ⟨rfl, _, .inr rfl, rfl⟩
  case close1 => cases h; exact .inr (.inr (.inr ⟨rfl, _, _, .inl rfl, rfl⟩))
  case close2 => cases h; exact .inr (.inr (.inr ⟨rfl, _, _, .inr rfl, rfl⟩))
  case send | signal => cases h; exact .inr (.inr (.inl ⟨_, rfl⟩))
  all_goals cases h; exact .inr (.inl ⟨_, rfl⟩)

end Facts

/-! ## What the two have open -/

section Open

variable {v : Version} {e : Env} {w : World Shared User} {d : Duo} {h₀ h₁ : ℤ → Option ℕ}
  {pc₀ pc₁ : Pc} {key : ℤ} {pt : Point} {b : Bool}

/-- Between the opening and the end of the program the server has both sets
open, but for the moment in which it is about to count itself into the second. -/
theorem Sound.server_has (h : Sound w d h₀ pc₀ h₁ pc₁) (hw : Sane v e w) (hup : d.sup = true)
    (hopen : d.client.stage.opened = true) (hpass : d.server.stage.passed = false) :
    (∃ j, h₀ SEMKEY1 = some j) ∧
      ((∃ j, h₀ SEMKEY2 = some j) ∨ ∃ id b, pc₀ = .lib SEMKEY2 (.create_endcreate id) b) := by
  have hmk := h.opened hopen
  have hlive : pc₀ ≠ .dead := by
    have := h.sees.sup
    rw [hup] at this
    simpa using this.symm
  have hhas : ∀ {x : ℤ} {o : Option ℕ}, Has x o → ∃ j, o = some j := fun hx => ⟨_, hx.toNat⟩
  -- by stages: at those before the opening the client could not have opened the sets
  cases pc₀ with
  | dead => exact absurd rfl hlive
  | user =>
    have hown := h.sees.server_user hw
    have hopening := h.opening
    revert hpass hmk hown hopening
    obtain ⟨⟨stage, i, n, file, off, clisem, servsem⟩, _⟩ := d
    cases stage <;> intro hpass hmk hown hopening
    case shmget => exact absurd trivial (hmk SEMKEY1 (.inl rfl))
    case create1 => exact absurd (.inl rfl) (hmk SEMKEY2 (.inr rfl))
    case check1 => exact absurd rfl (hmk SEMKEY2 (.inr rfl))
    case create2 => exact absurd ⟨rfl, nofun⟩ (hmk SEMKEY2 (.inr rfl))
    case check2 =>
      exact ⟨hhas hown.1, .inl (hhas (hown.2.has (Int.not_lt.2 (hopening.check2 rfl))))⟩
    all_goals first | exact ⟨hhas hown.1, .inl (hhas hown.2)⟩ | exact Bool.noConfusion hpass
  | lib key pt b =>
    obtain ⟨cl, hr, hkey, hwithin, hret⟩ := h.sees.server_lib hw
    have hne : SEMKEY1 ≠ SEMKEY2 := by decide
    revert hpass hmk hr hret
    obtain ⟨⟨stage, i, n, file, off, clisem, servsem⟩, _⟩ := d
    cases stage <;> intro hpass hmk hr hret <;> first | (cases hr; done) | skip
    case create1 => exact absurd (.inl rfl) (hmk SEMKEY2 (.inr rfl))
    case create2 =>
      cases hr
      cases hkey
      -- what `sem_create` would return to says what is open already
      have hown := (hret (-1) none (.inl ⟨rfl, rfl⟩)).1
      rw [Call.key, Function.update_of_ne hne] at hown
      refine ⟨hhas hown, .inr ?_⟩
      by_contra hno
      exact hmk SEMKEY2 (.inr rfl) ⟨rfl, fun id b hpc => hno ⟨id, b, hpc⟩⟩
    case close1 | close2 => exact Bool.noConfusion hpass
    all_goals
      cases hr
      cases hkey
      have hheld : h₀ _ = some _ := (by cases pt <;> first | exact hwithin.elim | exact hwithin.2.2)
      have hown := hret 0 _ hheld
      rw [Call.key, Function.update_eq_self] at hown
      cases v <;> exact ⟨hhas hown.1, .inl (hhas hown.2)⟩

/-- Between the opening and the end of its loop the client has both sets open. -/
theorem Sound.client_has (h : Sound w d h₀ pc₀ h₁ pc₁) (hw : Sane v e w) (hup : d.cup = true)
    (hopen : d.client.stage.opened = true) (hdone : d.client.stage.done = false)
    (hkey : Ours key) : ∃ j, h₁ key = some j := by
  have hlive : pc₁ ≠ .dead := by
    have := h.sees.cup
    rw [hup] at this
    simpa using this.symm
  -- in its own code and in any routine it has the identifiers, and they are those of the sets
  have hboth : Has d.client.clisem (h₁ SEMKEY1) ∧ Has d.client.servsem (h₁ SEMKEY2) := by
    cases pc₁ with
    | dead => exact absurd rfl hlive
    | user =>
      have hown := h.sees.client_user hw
      revert hopen hdone hown
      obtain ⟨_, ⟨stage, i, n, clisem, servsem⟩, _⟩ := d
      cases stage <;> intro hopen hdone hown <;>
        first | exact hown | exact Bool.noConfusion hopen | exact Bool.noConfusion hdone
    | lib key pt b =>
      obtain ⟨cl, hr, hkey, hwithin, hret⟩ := h.sees.client_lib hw
      revert hopen hdone hr hret
      obtain ⟨_, ⟨stage, i, n, clisem, servsem⟩, _⟩ := d
      cases stage <;> intro hopen hdone hr hret <;>
        first
          | exact Bool.noConfusion hopen
          | exact Bool.noConfusion hdone
          | (cases hr; done)
          | skip
      all_goals
        cases hr
        cases hkey
        have hheld : h₁ _ = some _ := (by
          cases pt <;> first | exact hwithin.elim | exact hwithin.2.2)
        have hown := hret 0 _ hheld
        rw [Call.key, Function.update_eq_self] at hown
        exact hown
  rcases hkey with rfl | rfl
  · exact ⟨_, hboth.1.toNat⟩
  · exact ⟨_, hboth.2.toNat⟩

/-- A removal waits for the other process: the server removes no set the client
still works with. -/
theorem Sound.server_rm {id : ℕ} (h : Sound w d h₀ (.lib key (.rm id) b) h₁ pc₁)
    (hw : Sane v e w) :
    d.server.stage.passed = true ∧ (d.cup = true → d.client.stage.done = true) := by
  obtain ⟨cl, hr, hkey, hwithin, -⟩ := h.sees.server_lib hw
  rcases Server.routine_cases hr with ⟨-, rfl⟩ | ⟨-, rfl⟩ | ⟨-, -, ⟨_, rfl⟩ | ⟨_, rfl⟩ | ⟨_, rfl⟩ |
    ⟨hpass, key', _, hours, rfl⟩⟩ <;> first | exact hwithin.elim | skip
  obtain rfl : key' = key := hkey
  refine ⟨hpass, fun hup => ?_⟩
  by_contra hdone
  have hlate : d.client.stage.late = true := by
    by_contra hlate
    have := not_passed_of_early (h.opening.early (by simpa using hlate)).1
    rw [hpass] at this
    cases this
  obtain ⟨j, hj⟩ := h.client_has hw hup (opened_of_late hlate) (by simpa using hdone) hours
  -- both the set the client has open and the set about to be removed are there
  have hplace : (Pc.lib key' (.rm id) b).view key' = .at (.rm id) b := by simp [Pc.view]
  have hzero := (h.kept hours).last (h.sees.server_get key') hplace
  obtain ⟨S, hS⟩ := (h.kept hours).there (h.sees.client_get key') hj
  obtain ⟨T, hT⟩ := (hw.lock key').there (h.sees.server_get key') (i := id)
    (by simp [Pc.view, Semaphore.Client.lockId, Point.lockId])
  obtain rfl : j = id := by
    rw [hS] at hT
    cases hT
    rfl
  have := not_of_countP_eq_zero _ hzero (h.sees.client_get key')
  simp [Client.holds, hj] at this

/-- And the client removes no set the server still works with. -/
theorem Sound.client_rm {id : ℕ} (h : Sound w d h₀ pc₀ h₁ (.lib key (.rm id) b))
    (hw : Sane v e w) :
    d.client.stage.done = true ∧ (d.sup = true → d.server.stage.passed = true) := by
  obtain ⟨cl, hr, hkey, hwithin, -⟩ := h.sees.client_lib hw
  rcases Client.routine_cases hr with ⟨-, _, -, rfl⟩ | ⟨_, rfl⟩ | ⟨_, rfl⟩ |
    ⟨hdone, key', _, hours, rfl⟩ <;> first | exact hwithin.elim | skip
  obtain rfl : key' = key := hkey
  refine ⟨hdone, fun hup => ?_⟩
  by_contra hpass
  have hopen : d.client.stage.opened = true := by
    by_contra hopen
    revert hdone hopen
    cases d.client.stage <;> simp [ClientStage.done, ClientStage.opened]
  obtain ⟨⟨j₁, hj₁⟩, h2⟩ := h.server_has hw hup hopen (by simpa using hpass)
  have hlocks : (⟨h₁ key', (Pc.lib key' (.rm id) b).view key'⟩ : Semaphore.Client).lockId
      = some id := by simp [Pc.view, Semaphore.Client.lockId, Point.lockId]
  have hplace : (Pc.lib key' (.rm id) b).view key' = .at (.rm id) b := by simp [Pc.view]
  have hzero := (h.kept hours).last (h.sees.client_get key') hplace
  obtain ⟨T, hT⟩ := (hw.lock key').there (h.sees.client_get key') hlocks
  have hno : ∀ j, h₀ key' ≠ some j := by
    intro j hj
    obtain ⟨S, hS⟩ := (h.kept hours).there (h.sees.server_get key') hj
    obtain rfl : j = id := by
      rw [hS] at hT
      cases hT
      rfl
    have := not_of_countP_eq_zero _ hzero (h.sees.server_get key')
    simp [Client.holds, hj] at this
  rcases hours with rfl | rfl
  · exact hno j₁ hj₁
  · rcases h2 with ⟨j, hj⟩ | ⟨id', b', rfl⟩
    · exact hno j hj
    · -- the server would have the lock of the set about to be removed
      have hlock : (⟨h₀ SEMKEY2, (Pc.lib SEMKEY2 (.create_endcreate id') b').view SEMKEY2⟩ :
          Semaphore.Client).lockId = some id' := by
        simp [Pc.view, Semaphore.Client.lockId, Point.lockId]
      obtain ⟨S, hS⟩ := (hw.lock SEMKEY2).there (h.sees.server_get SEMKEY2) hlock
      obtain rfl : id' = id := by
        rw [hS] at hT
        cases hT
        rfl
      have := (hw.lock SEMKEY2).unique (h.sees.server_get SEMKEY2) (h.sees.client_get SEMKEY2)
        hlock hlocks
      cases this

end Open

end UnixNetProg.SharedMemory

/-
The two programs and the routines of `semaphore.c`.

`Server.Own` and `Client.Own` say which of the two sets the process has open at
each stage, under the identifier it keeps in `clisem` and `servsem`; `pair` is
the discipline the two programs keep. What it is worth is said in
`Semaphore.Discipline`.
-/
import UnixNetProg.Semaphore.Discipline
import UnixNetProg.Semaphore.Value
import UnixNetProg.SharedMemory.Code

set_option autoImplicit false

namespace UnixNetProg.SharedMemory

open UnixNetProg.SysV UnixNetProg.Semaphore UnixNetProg.Runs

/-- The identifier is that of the set the process has open. -/
def Has (x : ℤ) (held : Option ℕ) : Prop := ∃ j : ℕ, x = j ∧ held = some j

/-- The identifier has been returned by `sem_create` or `sem_open`, and not yet
been looked at. -/
def Unchecked (x : ℤ) (held : Option ℕ) : Prop := (x < 0 ∧ held = none) ∨ Has x held

/-- What the server has open in its own code. -/
def Server.Own (u : Server) (held : ℤ → Option ℕ) : Prop :=
  match u.stage with
  | .shmget | .create1 => held SEMKEY1 = none ∧ held SEMKEY2 = none
  | .check1 => Unchecked u.clisem (held SEMKEY1) ∧ held SEMKEY2 = none
  | .create2 => Has u.clisem (held SEMKEY1) ∧ held SEMKEY2 = none
  | .check2 => Has u.clisem (held SEMKEY1) ∧ Unchecked u.servsem (held SEMKEY2)
  | .close2 => held SEMKEY1 = none ∧ Has u.servsem (held SEMKEY2)
  | .exit => held SEMKEY1 = none ∧ held SEMKEY2 = none
  | _ => Has u.clisem (held SEMKEY1) ∧ Has u.servsem (held SEMKEY2)

/-- What the client has open in its own code. -/
def Client.Own (u : Client) (held : ℤ → Option ℕ) : Prop :=
  match u.stage with
  | .shmget | .open1 => held SEMKEY1 = none ∧ held SEMKEY2 = none
  | .check1 => Unchecked u.clisem (held SEMKEY1) ∧ held SEMKEY2 = none
  | .open2 => Has u.clisem (held SEMKEY1) ∧ held SEMKEY2 = none
  | .check2 => Has u.clisem (held SEMKEY1) ∧ Unchecked u.servsem (held SEMKEY2)
  | .close2 => held SEMKEY1 = none ∧ Has u.servsem (held SEMKEY2)
  | .exit => held SEMKEY1 = none ∧ held SEMKEY2 = none
  | _ => Has u.clisem (held SEMKEY1) ∧ Has u.servsem (held SEMKEY2)

/-- The routine the server calls at a stage. -/
def Server.routine (u : Server) : Option Call :=
  match u.stage with
  | .create1 => some (.sem_create SEMKEY1 1)
  | .create2 => some (.sem_create SEMKEY2 0)
  | .start | .errwait | .wait => some (.sem_wait SEMKEY2 u.servsem.toNat)
  | .errsend | .lastsend | .send => some (.sem_signal SEMKEY1 u.clisem.toNat)
  | .post => some (.sem_signal SEMKEY2 u.servsem.toNat)
  | .close1 => some (.sem_close SEMKEY1 u.clisem.toNat)
  | .close2 => some (.sem_close SEMKEY2 u.servsem.toNat)
  | _ => none

/-- The routine the client calls at a stage. -/
def Client.routine (u : Client) : Option Call :=
  match u.stage with
  | .open1 => some (.sem_open SEMKEY1)
  | .open2 => some (.sem_open SEMKEY2)
  | .start | .wait => some (.sem_wait SEMKEY1 u.clisem.toNat)
  | .send | .signal => some (.sem_signal SEMKEY2 u.servsem.toNat)
  | .close1 => some (.sem_close SEMKEY1 u.clisem.toNat)
  | .close2 => some (.sem_close SEMKEY2 u.servsem.toNat)
  | _ => none

section Interface

variable {v : Version} {e : Env} {g : ℤ} {s s' : Shared} {c : Option ℕ} {held : ℤ → Option ℕ}
  {cl : Call}

theorem Unchecked.has {x : ℤ} {h : Option ℕ} (hu : Unchecked x h) (hx : ¬ x < 0) : Has x h :=
  hu.resolve_left fun hl => hx hl.1

/-- What `sem_create` and `sem_open` return has to be looked at. -/
theorem unchecked_of_returns {x : ℤ} {h : Option ℕ}
    (hret : (x = -1 ∧ h = none) ∨ ∃ id : ℕ, x = id ∧ h = some id) : Unchecked x h := by
  rcases hret with ⟨rfl, rfl⟩ | hid
  · exact .inl ⟨by decide, rfl⟩
  · exact .inr hid

/-- An identifier that is kept as an `int`. -/
theorem Has.toNat {x : ℤ} {h : Option ℕ} (hx : Has x h) : h = some x.toNat := by
  obtain ⟨j, rfl, rfl⟩ := hx
  rfl

/-- A statement of the server that stays in its own code. -/
theorem Server.Own.go {u u' : Server} (h : u.Own held)
    (hs : server_main v e g s u c = some (s', .go u')) : u'.Own held := by
  obtain ⟨stage, i, n, file, off, clisem, servsem⟩ := u
  cases stage <;> simp only [server_main] at hs
  case check1 =>
    split_ifs at hs with hneg
    · cases hs
    · cases hs
      exact ⟨h.1.has hneg, h.2⟩
  case check2 =>
    split_ifs at hs with hneg
    · cases hs
    · cases hs
      exact ⟨h.1, h.2.has hneg⟩
  all_goals
    cases v <;> (try simp only [server, single_server, multi_server] at hs) <;>
      (try split at hs) <;> (try split_ifs at hs) <;> cases hs <;> exact h

/-- A statement of the client that stays in its own code. -/
theorem Client.Own.go {u u' : Client} (h : u.Own held)
    (hs : client_main v e s u c = some (s', .go u')) : u'.Own held := by
  obtain ⟨stage, i, n, clisem, servsem⟩ := u
  cases stage <;> simp only [client_main] at hs
  case check1 =>
    split_ifs at hs with hneg
    · cases hs
    · cases hs
      exact ⟨h.1.has hneg, h.2⟩
  case check2 =>
    split_ifs at hs with hneg
    · cases hs
    · cases hs
      exact ⟨h.1, h.2.has hneg⟩
  case len =>
    cases hs
    unfold Client.Own
    simp only
    split_ifs <;> exact h
  all_goals
    (try split at hs) <;> (try split_ifs at hs) <;> cases hs <;> exact h

/-- A statement of the server that calls a routine is the one its stage names. -/
theorem server_call {u u' : Server} (hs : server_main v e g s u c = some (s', .call cl u')) :
    u' = u ∧ s' = s ∧ u.routine = some cl := by
  obtain ⟨stage, i, n, file, off, clisem, servsem⟩ := u
  cases stage <;> simp only [server_main] at hs <;> cases v <;>
    (try simp only [server, single_server, multi_server] at hs) <;> (try split at hs) <;>
    (try split_ifs at hs) <;> cases hs <;> exact ⟨rfl, rfl, rfl⟩

/-- A statement of the client that calls a routine is the one its stage names. -/
theorem client_call {u u' : Client} (hs : client_main v e s u c = some (s', .call cl u')) :
    u' = u ∧ s' = s ∧ u.routine = some cl := by
  obtain ⟨stage, i, n, clisem, servsem⟩ := u
  cases stage <;> simp only [client_main] at hs <;> (try split at hs) <;> (try split_ifs at hs) <;>
    cases hs <;> exact ⟨rfl, rfl, rfl⟩

/-- The routine at a stage is called with the identifier the server has, and
what it returns is taken accordingly. -/
theorem Server.Own.call {u : Server} (h : u.Own held) (hr : u.routine = some cl) :
    cl.Ready (held cl.key) ∧
      ∀ x h', cl.Returns h' x → (server_return v u x).Own (Function.update held cl.key h') := by
  have hne : SEMKEY2 ≠ SEMKEY1 := by decide
  have hne' : SEMKEY1 ≠ SEMKEY2 := by decide
  have hkey1 : SEMKEY1 ≠ IPC_PRIVATE ∧ SEMKEY1 ≠ -1 := by decide
  have hkey2 : SEMKEY2 ≠ IPC_PRIVATE ∧ SEMKEY2 ≠ -1 := by decide
  obtain ⟨stage, i, n, file, off, clisem, servsem⟩ := u
  cases stage <;> simp only [Server.routine, Option.some.injEq, reduceCtorEq] at hr <;> subst hr
  case create1 =>
    refine ⟨⟨hkey1.1, hkey1.2, h.1⟩, fun x h' hret => ⟨?_, ?_⟩⟩
    · rw [Call.key, Function.update_self]
      exact unchecked_of_returns hret
    · rw [Call.key, Function.update_of_ne hne]
      exact h.2
  case create2 =>
    refine ⟨⟨hkey2.1, hkey2.2, h.2⟩, fun x h' hret => ⟨?_, ?_⟩⟩
    · rw [Call.key, Function.update_of_ne hne']
      exact h.1
    · rw [Call.key, Function.update_self]
      exact unchecked_of_returns hret
  case close1 =>
    refine ⟨h.1.toNat, fun x h' hret => ⟨?_, ?_⟩⟩
    · rw [Call.key, Function.update_self]
      exact hret
    · rw [Call.key, Function.update_of_ne hne]
      exact h.2
  case close2 =>
    refine ⟨h.2.toNat, fun x h' hret => ⟨?_, ?_⟩⟩
    · rw [Call.key, Function.update_of_ne hne']
      exact h.1
    · rw [Call.key, Function.update_self]
      exact hret
  case errsend | lastsend | send =>
    refine ⟨h.1.toNat, fun x h' hret => ?_⟩
    obtain rfl : h' = held SEMKEY1 := hret.trans h.1.toNat.symm
    rw [Call.key, Function.update_eq_self]
    cases v <;> exact h
  case start | errwait | wait | post =>
    refine ⟨h.2.toNat, fun x h' hret => ?_⟩
    obtain rfl : h' = held SEMKEY2 := hret.trans h.2.toNat.symm
    rw [Call.key, Function.update_eq_self]
    cases v <;> exact h

/-- The same for the client. -/
theorem Client.Own.call {u : Client} (h : u.Own held) (hr : u.routine = some cl) :
    cl.Ready (held cl.key) ∧
      ∀ x h', cl.Returns h' x → (client_return u x).Own (Function.update held cl.key h') := by
  have hne : SEMKEY2 ≠ SEMKEY1 := by decide
  have hne' : SEMKEY1 ≠ SEMKEY2 := by decide
  have hkey1 : SEMKEY1 ≠ IPC_PRIVATE ∧ SEMKEY1 ≠ -1 := by decide
  have hkey2 : SEMKEY2 ≠ IPC_PRIVATE ∧ SEMKEY2 ≠ -1 := by decide
  obtain ⟨stage, i, n, clisem, servsem⟩ := u
  cases stage <;> simp only [Client.routine, Option.some.injEq, reduceCtorEq] at hr <;> subst hr
  case open1 =>
    refine ⟨⟨hkey1.1, hkey1.2, h.1⟩, fun x h' hret => ⟨?_, ?_⟩⟩
    · rw [Call.key, Function.update_self]
      exact unchecked_of_returns hret
    · rw [Call.key, Function.update_of_ne hne]
      exact h.2
  case open2 =>
    refine ⟨⟨hkey2.1, hkey2.2, h.2⟩, fun x h' hret => ⟨?_, ?_⟩⟩
    · rw [Call.key, Function.update_of_ne hne']
      exact h.1
    · rw [Call.key, Function.update_self]
      exact unchecked_of_returns hret
  case close1 =>
    refine ⟨h.1.toNat, fun x h' hret => ⟨?_, ?_⟩⟩
    · rw [Call.key, Function.update_self]
      exact hret
    · rw [Call.key, Function.update_of_ne hne]
      exact h.2
  case close2 =>
    refine ⟨h.2.toNat, fun x h' hret => ⟨?_, ?_⟩⟩
    · rw [Call.key, Function.update_of_ne hne']
      exact h.1
    · rw [Call.key, Function.update_self]
      exact hret
  case start | wait =>
    refine ⟨h.1.toNat, fun x h' hret => ?_⟩
    obtain rfl : h' = held SEMKEY1 := hret.trans h.1.toNat.symm
    rw [Call.key, Function.update_eq_self]
    exact h
  case send | signal =>
    refine ⟨h.2.toNat, fun x h' hret => ?_⟩
    obtain rfl : h' = held SEMKEY2 := hret.trans h.2.toNat.symm
    rw [Call.key, Function.update_eq_self]
    exact h

/-! ## The two programs as one -/

/-- What a process has open in its own code. -/
def User.Own (u : User) (held : ℤ → Option ℕ) : Prop :=
  match u with
  | .server u => u.Own held
  | .client u => u.Own held

/-- The routine a process calls at a stage. -/
def User.routine (u : User) : Option Call :=
  match u with
  | .server u => u.routine
  | .client u => u.routine

/-- A piece of the server's code. -/
theorem program_server {sem : ℤ → Slot 3} {u : Server} {d : Does User} :
    (program v e).step sem s (.server u) c = some (s', d) ↔
      ∃ d', server_main v e (semctl_getval (sem SEMKEY1) u.clisem) s u c = some (s', d') ∧
        d = d'.map .server := by
  simp only [program, Option.map_eq_some_iff, Prod.mk.injEq]
  constructor
  · rintro ⟨⟨s₁, d'⟩, h, rfl, rfl⟩
    exact ⟨d', h, rfl⟩
  · rintro ⟨d', h, rfl⟩
    exact ⟨(s', d'), h, rfl, rfl⟩

/-- A piece of the client's code. -/
theorem program_client {sem : ℤ → Slot 3} {u : Client} {d : Does User} :
    (program v e).step sem s (.client u) c = some (s', d) ↔
      ∃ d', client_main v e s u c = some (s', d') ∧ d = d'.map .client := by
  simp only [program, Option.map_eq_some_iff, Prod.mk.injEq]
  constructor
  · rintro ⟨⟨s₁, d'⟩, h, rfl, rfl⟩
    exact ⟨d', h, rfl⟩
  · rintro ⟨d', h, rfl⟩
    exact ⟨(s', d'), h, rfl, rfl⟩

/-- What ends a process is no statement of its own and no call. -/
theorem Does.of_quit {U : Type} {x : Does U} (hx : x = .exit ∨ ∃ msg, x = .err_sys msg) :
    (∀ u, x ≠ .go u) ∧ ∀ cl u, x ≠ .call cl u := by
  constructor
  · rintro u rfl
    rcases hx with hx | ⟨msg, hx⟩ <;> cases hx
  · rintro cl u rfl
    rcases hx with hx | ⟨msg, hx⟩ <;> cases hx

theorem Does.map_go {U V : Type} {f : U → V} {d : Does U} {u' : V} (h : .go u' = Does.map f d) :
    ∃ u, d = .go u ∧ u' = f u := by
  cases d <;> cases h
  exact ⟨_, rfl, rfl⟩

theorem Does.map_call {U V : Type} {f : U → V} {d : Does U} {u' : V} {cl : Call}
    (h : .call cl u' = Does.map f d) : ∃ u, d = .call cl u ∧ u' = f u := by
  cases d <;> cases h
  exact ⟨_, rfl, rfl⟩

end Interface

/-- **The two programs keep to the interface.** -/
def pair (v : Version) (e : Env) : Discipline (program v e) where
  Own := User.Own
  routine := User.routine
  entry := fun h => by cases h
  go := fun {sem s s' u u' c held} hown hs => by
    cases u with
    | server u =>
      obtain ⟨d, hs', hd⟩ := program_server.1 hs
      obtain ⟨u₁, rfl, rfl⟩ := Does.map_go hd
      exact Server.Own.go hown hs'
    | client u =>
      obtain ⟨d, hs', hd⟩ := program_client.1 hs
      obtain ⟨u₁, rfl, rfl⟩ := Does.map_go hd
      exact Client.Own.go hown hs'
  call := fun {sem s s' u u' c held cl} hown hs => by
    cases u with
    | server u =>
      obtain ⟨d, hs', hd⟩ := program_server.1 hs
      obtain ⟨u₁, rfl, rfl⟩ := Does.map_call hd
      obtain ⟨rfl, -, hr⟩ := server_call hs'
      obtain ⟨hready, hret⟩ := Server.Own.call hown hr
      exact ⟨hready, hr, hret⟩
    | client u =>
      obtain ⟨d, hs', hd⟩ := program_client.1 hs
      obtain ⟨u₁, rfl, rfl⟩ := Does.map_call hd
      obtain ⟨rfl, -, hr⟩ := client_call hs'
      obtain ⟨hready, hret⟩ := Client.Own.call hown hr
      exact ⟨hready, hr, hret⟩

end UnixNetProg.SharedMemory

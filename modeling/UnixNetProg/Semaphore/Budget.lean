/-
A semaphore that counts: `sem_create(key, n)` and any number of units out.

A program may take and give several units at a time (`sem_op`), use other keys
and other sets, and run in any number of processes, any of which may die. What
it has to do is written down once, as a `Budget` over its `Discipline`: how
many units of the key a process has at each point, that its calls move this
number by the amount given to the routine, that the set is made with `n`, and
that nobody closes the set with units of it. Then the units out and the value
of the semaphore make up `n` in every state, through crashes, removal and
re-creation (`units_out`).
-/
import UnixNetProg.Lib.Account
import UnixNetProg.Semaphore.Discipline

set_option autoImplicit false

namespace UnixNetProg.Semaphore

open UnixNetProg.SysV UnixNetProg.Runs UnixNetProg.Pool

/-! ## When `[0]` counts -/

/-- The client has set `[0]` of set `i` and is about to set `[1]`. -/
def Client.half (i : ℕ) (c : Client) : Bool :=
  match c.place with
  | .at (.create_setval1 id) _ => id == i
  | _ => false

/-- `[0]` of set `i` has been given its first value. -/
def Ready (i : ℕ) (T : SemSet 3) (cs : List Client) : Prop :=
  Counted i T cs ∨ ∃ c ∈ cs, c.half i = true

/-- The client has the lock of the set it is initialising. -/
theorem Client.lockId_of_half {c : Client} {i : ℕ} (h : c.half i = true) : c.lockId = some i := by
  obtain ⟨held, place⟩ := c
  cases place with
  | «at» pt asleep => cases pt <;> simp_all [Client.half, Client.lockId, Point.lockId]
  | _ => cases h

/-- Only `SETVAL` on `[0]`, the array of `sem_op` and a death touch `[0]`. -/
theorem Trans.zero_same {good : Prop} {p i : ℕ} {l : Option Point} {sl sl' : Slot 3}
    {c c' : Client} {T T' : SemSet 3} (ht : Trans good p l sl c sl' c')
    (hcur : sl.cur = some (i, T)) (hcur' : sl'.cur = some (i, T')) (hdead : c'.place ≠ .dead)
    (hset : ∀ id v, l ≠ some (.create_setval0 id v)) (hop : ∀ id n, l ≠ some (.op_semop id n)) :
    T'.val 0 = T.val 0 ∧ ∀ p', T'.adj p' 0 = T.adj p' 0 := by
  cases ht with
  | die => exact absurd rfl hdead
  | create_new hnone => rw [hnone] at hcur; cases hcur
  | lock hj | unlock hj | opened hj | endcreate hj | close hj | setval1 hj =>
    -- the other members of the set change
    obtain ⟨rfl, rfl⟩ := Slot.cur_unique hcur hj
    obtain ⟨-, rfl⟩ := Slot.cur_unique (Slot.put_cur _ _ _) hcur'
    exact ⟨by simp, fun _ => by simp⟩
  | setval0 hj => exact absurd rfl (hset _ _)
  | removed hj => cases hcur'
  | op_none => exact absurd rfl (hop _ _)
  | op hj => exact absurd rfl (hop _ _)
  | _ =>
    obtain ⟨-, rfl⟩ := Slot.cur_unique hcur hcur'
    exact ⟨rfl, fun _ => rfl⟩

/-! ## The budget of a program -/

/-- What a call adds to `[0]` of the set under `key`. -/
def Call.amount (key : ℤ) : Call → ℤ
  | .sem_wait k _ => if k = key then -1 else 0
  | .sem_signal k _ => if k = key then 1 else 0
  | .sem_op k _ value => if k = key then short value else 0
  | _ => 0

/-- A process with `units` of the set under `key` may make the call: the set is
made with `n`, and opened and closed without units of it. -/
def Call.Fits (key : ℤ) (n units : ℕ) : Call → Prop
  | .sem_create k v => k = key → v = n ∧ units = 0
  | .sem_open k | .sem_close k _ => k = key → units = 0
  | _ => True

theorem Call.amount_of_ne {key : ℤ} {cl : Call} (h : cl.key ≠ key) : cl.amount key = 0 := by
  cases cl <;> first
    | rfl
    | exact if_neg h

/-- How many units of the set under `key` a process has: `own` in its own code,
`out` while it is inside a routine, in both cases by its own state. -/
structure Budget {S U C : Type} {P : Program S U C} (D : Discipline P) (key : ℤ) (n : ℕ) where
  own : U → ℕ
  out : U → ℕ
  entry : ∀ {u}, P.entry u = true → own u = 0
  held : ∀ {u held}, D.Own u held → 0 < own u → ∃ i, held key = some i
  go : ∀ {sem s s' u u' c held}, D.Own u held → P.step sem s u c = some (s', .go u') →
    own u' = own u
  call : ∀ {sem s s' u u' c held cl}, D.Own u held → P.step sem s u c = some (s', .call cl u') →
    out u' = own u ∧ cl.Fits key n (own u) ∧ ∀ v, (own (P.ret u' v) : ℤ) + cl.amount key = own u

namespace Budget

variable {S U C : Type} {P : Program S U C} {D : Discipline P} {key : ℤ} {n : ℕ}
  {w w' : World S U} {a : Act U C} {p i : ℕ} {q q' : Proc U} {T T' : SemSet 3}

/-- The units a process has; a dead one has none. -/
def units (B : Budget D key n) (q : Proc U) : ℕ :=
  match q.pc with
  | .user => B.own q.user
  | .lib .. => B.out q.user
  | .dead => 0

/-- The units all processes have. -/
def total (B : Budget D key n) (w : World S U) : ℕ := (w.procs.map B.units).sum

/-- A process inside a routine still knows what the call was. -/
def Ok (B : Budget D key n) (q : Proc U) : Prop :=
  match q.pc with
  | .lib .. => ∀ cl, D.routine q.user = some cl → cl.Fits key n (B.out q.user) ∧
      (∀ k id value, cl = .sem_op k id value → short value ≠ 0) ∧
      ∀ v, (B.own (P.ret q.user v) : ℤ) + cl.amount key = B.out q.user
  | _ => True

/-- **Every process of every run keeps its budget.** -/
theorem step (B : Budget D key n) (hD : ∀ q ∈ w.procs, D.Ok q) (h : ∀ q ∈ w.procs, B.Ok q)
    (hs : w.step P a = some w') : ∀ q ∈ w'.procs, B.Ok q := by
  have hset : ∀ {p q'}, w'.procs = w.procs.set p q' → B.Ok q' → ∀ q ∈ w'.procs, B.Ok q := by
    intro p q' hp hq' q₁ hq₁
    rw [hp] at hq₁
    rcases List.mem_or_eq_of_mem_set hq₁ with hq₁ | rfl
    · exact h _ hq₁
    · exact hq'
  cases World.step_moves hs with
  | spawn u _ _ _ hp =>
    intro q₁ hq₁
    rw [hp] at hq₁
    rcases List.mem_append.1 hq₁ with hq₁ | hq₁
    · exact h _ hq₁
    · rw [List.mem_singleton] at hq₁
      subst hq₁
      trivial
  | die p q _ _ _ _ _ hp => exact hset hp trivial
  | quit p q c d _ _ _ _ _ _ _ hp => exact hset hp trivial
  | fails p q key pt asleep r _ _ _ _ _ _ _ hp => exact hset hp trivial
  | own p q c u _ _ hpc _ _ hp => exact hset hp (by simp only [Ok, hpc])
  | ret p q key pt asleep sl r v _ _ _ _ _ _ _ hp => exact hset hp trivial
  | straight p q c call u v _ _ hpc _ _ _ hp => exact hset hp (by simp only [Ok, hpc])
  | sleep p q key pt _ hq hpc _ _ _ hp =>
    have hq := h _ (List.mem_of_getElem? hq)
    simp only [Ok, hpc] at hq
    exact hset hp hq
  | goto p q key pt pt' asleep sl r _ hq hpc _ _ _ _ hp =>
    have hq := h _ (List.mem_of_getElem? hq)
    simp only [Ok, hpc] at hq
    exact hset hp hq
  | enter p q c call u pt _ hq hpc hstep _ _ hp =>
    -- what the program promises of the call is what is remembered
    have hown := hD _ (List.mem_of_getElem? hq)
    simp only [Discipline.Ok, hpc] at hown
    obtain ⟨hready, hmemo, -⟩ := D.call hown hstep
    obtain ⟨hout, hfits, hret⟩ := B.call hown hstep
    refine hset hp ?_
    intro cl hcl
    obtain rfl : call = cl := Option.some.inj (hmemo.symm.trans hcl)
    refine ⟨hout ▸ hfits, ?_, fun v => hout ▸ hret v⟩
    rintro k id value rfl
    exact hready.1

/-- The budget in every run. -/
theorem ok_of_reach (B : Budget D key n) {s : S} {ok : World S U → Act U C → Prop}
    (h : (machine P s []).Reach ok w) : ∀ q ∈ w.procs, B.Ok q := by
  apply h.invariant (I := fun w => ∀ q ∈ w.procs, B.Ok q)
  · rintro w rfl q hq
    cases hq
  · intro w a w' hw hB _ hs
    exact B.step (D.reach (fun _ hu => by cases hu) hw) hB hs

/-- A process with units has the set open. -/
theorem held_of_units (B : Budget D key n) (hD : D.Ok q) (hB : B.Ok q) (h : 0 < B.units q) :
    ∃ i, q.held key = some i := by
  obtain ⟨u, held, pc⟩ := q
  cases pc with
  | user => exact B.held hD h
  | dead => cases h
  | lib key' pt asleep =>
    obtain ⟨cl, hmemo, rfl, hwithin, hown⟩ := hD
    obtain ⟨hfits, -, hret⟩ := hB cl hmemo
    have hpos : 0 < B.out u := h
    by_cases hkey : cl.key = key
    · -- on the key itself, only `sem_op` is called with units
      obtain rfl := hkey
      cases cl with
      | sem_create k v => exact absurd (hfits rfl).2 hpos.ne'
      | sem_open k => exact absurd (hfits rfl) hpos.ne'
      | sem_close k id => exact absurd (hfits rfl) hpos.ne'
      | sem_rm k id => cases pt <;> exact hwithin.elim
      | sem_wait k id | sem_signal k id | sem_op k id value =>
        cases pt <;> first
          | exact hwithin.elim
          | exact ⟨_, hwithin.2.2⟩
    · -- on another key, the routine returns to a process that has as much
      obtain ⟨v, h', hreturns⟩ : ∃ v h', cl.Returns h' v := by
        cases cl with
        | sem_create | sem_open => exact ⟨-1, none, .inl ⟨rfl, rfl⟩⟩
        | sem_close => exact ⟨0, none, rfl⟩
        | sem_wait k id | sem_signal k id | sem_op k id value => exact ⟨0, some id, rfl⟩
        | sem_rm => cases pt <;> exact hwithin.elim
      have hmany : (B.own (P.ret u v) : ℤ) + cl.amount key = B.out u := hret v
      rw [Call.amount_of_ne hkey] at hmany
      have hmuch : 0 < B.own (P.ret u v) := by omega
      obtain ⟨i, hi⟩ := B.held (hown v h' hreturns) hmuch
      rw [Function.update_of_ne fun e => hkey e.symm] at hi
      exact ⟨i, hi⟩

/-! ## The account of `[0]` -/

/-- The value of `[0]` and the units out make up `n`, once `[0]` has been set. -/
def Balanced (B : Budget D key n) (w : World S U) : Prop :=
  ∀ ⦃i T⦄, (w.sem key).cur = some (i, T) → Ready i T (w.clients key) →
    n ≤ SEMVMX ∧ Account T 0 n B.units w.procs

/-- Whoever is about to set `[1]` was, or has just set `[0]`. -/
theorem half_of_set (hp : w'.procs = w.procs.set p q')
    (h : ∃ c ∈ w'.clients key, c.half i = true) :
    (∃ c ∈ w.clients key, c.half i = true) ∨ (q'.view key).half i = true := by
  obtain ⟨c, hc, hhalf⟩ := h
  rw [World.clients, hp, List.map_set] at hc
  rcases List.mem_or_eq_of_mem_set hc with hc | rfl
  · exact .inl ⟨c, hc, hhalf⟩
  · exact .inr hhalf

/-- A set whose `[0]` has been set was there before the step, and its `[0]` had
been set, unless this step has set it. -/
theorem ready_before (hcount : CountInv (w.sem key) (w.clients key))
    (hlock : LockInv (w.sem key) (w.clients key)) (hkeep : w.keeps P a)
    (hs : w.step P a = some w') (hcur' : (w'.sem key).cur = some (i, T'))
    (hready : Ready i T' (w'.clients key))
    (hhalf : (∃ c ∈ w'.clients key, c.half i = true) → ∃ c ∈ w.clients key, c.half i = true) :
    ∃ T, (w.sem key).cur = some (i, T) ∧ Ready i T (w.clients key) := by
  have hk := World.step_key hs hkeep.spares key
  rcases hready with hc | hh
  · obtain ⟨T, hcur⟩ : ∃ T, (w.sem key).cur = some (i, T) := by
      by_cases hi : i < (w.sem key).next
      · exact hk.cur_old hcur' hi
      · exact (hk.fresh_not_counted hcount hlock hcur' hi hc).elim
    refine ⟨T, hcur, ?_⟩
    rcases hcount.phase hcur with hu | hc₀
    · -- the step has set `[1]`, so the process was about to
      obtain ⟨p, q, asleep, -, hq, hpc, -⟩ :=
        World.step_unset hcount hlock hkeep hs hcur hu hcur' hc
      refine .inr ⟨_, List.mem_of_getElem? (clients_getElem? key hq), ?_⟩
      simp [Client.half, Proc.view, Pc.view, hpc]
    · exact .inl hc₀
  · obtain ⟨c, hc, hci⟩ := hhalf hh
    obtain ⟨p, hp⟩ := List.mem_iff_getElem?.1 hc
    obtain ⟨T, hcur⟩ := hlock.there hp (Client.lockId_of_half hci)
    exact ⟨T, hcur, .inr ⟨c, hc, hci⟩⟩

/-- A set that some process has open has been initialised. -/
theorem ready_of_held (hcount : CountInv (w.sem key) (w.clients key))
    (hkept : Kept (w.sem key) (w.clients key)) (hq : w.procs[p]? = some q)
    (hheld : q.held key = some i) :
    ∃ T, (w.sem key).cur = some (i, T) ∧ Ready i T (w.clients key) := by
  have hc := clients_getElem? key hq
  obtain ⟨T, hcur⟩ := hkept.there hc hheld
  refine ⟨T, hcur, (hcount.phase hcur).elim (fun hu => ?_) .inl⟩
  have := not_of_countP_eq_zero _ hu.closed hc
  simp [Client.holds, Proc.view, hheld] at this

/-- A call that has returned `0` from `semop`, or nothing else to do with `[0]`,
leaves a process with the units it returns to. -/
theorem units_ret (B : Budget D key n) (hB : B.Ok q) {cl : Call} {pt : Point} {asleep : Bool}
    (hpc : q.pc = .lib cl.key pt asleep) (hmemo : D.routine q.user = some cl) (v : ℤ) :
    (B.own (P.ret q.user v) : ℤ) = B.units q - cl.amount key := by
  simp only [Ok, hpc] at hB
  have := (hB cl hmemo).2.2 v
  simp only [units, hpc]
  omega

/-- The amount of a `semop` on `[0]` is that of the call. -/
theorem amount_of_within {cl : Call} {held : Option ℕ} {id : ℕ} {d : ℤ}
    (h : cl.Within held (.op_semop id d)) : d = cl.amount cl.key ∧ held = some id := by
  cases cl <;> first
    | exact h.elim
    | (obtain ⟨rfl, rfl, hheld⟩ := h
       exact ⟨by simp [Call.amount, Call.key], hheld⟩)

/-- A routine that does not operate on `[0]` returns with what the process had. -/
theorem amount_of_other {cl : Call} {held : Option ℕ} {pt : Point} (h : cl.Within held pt)
    (hpt : ∀ id d, pt ≠ .op_semop id d) : cl.amount key = 0 := by
  cases cl with
  | sem_wait k id | sem_signal k id | sem_op k id value =>
    cases pt <;> first
      | exact h.elim
      | exact absurd rfl (hpt _ _)
  | _ => rfl

/-- The set is made with `n`. -/
theorem initval_eq (B : Budget D key n) (hD : D.Ok q) (hB : B.Ok q) {id : ℕ} {v : ℤ}
    {asleep : Bool} (hpc : q.pc = .lib key (.create_setval0 id v) asleep) : v = n := by
  simp only [Discipline.Ok, hpc] at hD
  simp only [Ok, hpc] at hB
  obtain ⟨cl, hmemo, hkey, hwithin, -⟩ := hD
  have hfits := (hB cl hmemo).1
  cases cl <;> first
    | exact hwithin.elim
    | exact hwithin.1.trans (hfits hkey).1

/-- Nobody has units of a set that has not been initialised. -/
theorem units_of_unset (B : Budget D key n) (hD : ∀ q ∈ w.procs, D.Ok q)
    (hB : ∀ q ∈ w.procs, B.Ok q) (hkept : Kept (w.sem key) (w.clients key))
    (hcur : (w.sem key).cur = some (i, T)) (hunset : Unset i T (w.clients key)) :
    ∀ q ∈ w.procs, B.units q = 0 := by
  intro q hq
  by_contra hpos
  obtain ⟨j, hj⟩ := B.held_of_units (hD q hq) (hB q hq) (Nat.pos_of_ne_zero hpos)
  obtain ⟨p, hp⟩ := List.mem_iff_getElem?.1 hq
  have hc := clients_getElem? key hp
  obtain ⟨S', hS'⟩ := hkept.there hc hj
  obtain ⟨rfl, -⟩ := Slot.cur_unique hcur hS'
  have := not_of_countP_eq_zero _ hunset.closed hc
  simp [Client.holds, Proc.view, hj] at this

/-- The account holds after a step in which a process keeps its units and `[0]` is left alone. -/
theorem Balanced.quiet {B : Budget D key n} (h : B.Balanced w) (hq : w.procs[p]? = some q)
    (hp : w'.procs = w.procs.set p q') (hcur : (w.sem key).cur = some (i, T))
    (hready : Ready i T (w.clients key)) (hunits : B.units q' = B.units q)
    (hval : T'.val 0 = T.val 0) (hadj : ∀ p', T'.adj p' 0 = T.adj p' 0) :
    n ≤ SEMVMX ∧ Account T' 0 n B.units w'.procs := by
  obtain ⟨hn, hacc⟩ := h hcur hready
  rw [hp]
  exact ⟨hn, hacc.same hq hunits hval hadj⟩

/-- `[0]` gets its first value while nobody has the set open. -/
theorem account_first {B : Budget D key n} (hD : ∀ q ∈ w.procs, D.Ok q)
    (hB : ∀ q ∈ w.procs, B.Ok q) (hcount : CountInv (w.sem key) (w.clients key))
    (hkept : Kept (w.sem key) (w.clients key)) (hq : w.procs[p]? = some q) {v : ℤ} {asleep : Bool}
    (hpc : q.pc = .lib key (.create_setval0 i v) asleep) (hcur : (w.sem key).cur = some (i, T))
    (hle : v ≤ SEMVMX) : n ≤ SEMVMX ∧ Account (T.setval 0 v) 0 n B.units w.procs := by
  have hmem := List.mem_of_getElem? hq
  obtain rfl := B.initval_eq (hD q hmem) (hB q hmem) hpc
  have hclient := clients_getElem? key hq
  rw [Proc.view, hpc, Pc.view, if_pos rfl] at hclient
  have hunset : Unset i T (w.clients key) := by
    refine (hcount.phase hcur).resolve_right fun hcounted => ?_
    have := hcounted.after hclient
    simp [Client.initing, Point.initing] at this
  have hn : n ≤ SEMVMX := by omega
  exact ⟨hn, Account.of_setval hn (B.units_of_unset hD hB hkept hcur hunset)⟩

/-- A routine goes on to its next system call. -/
theorem Balanced.goto {B : Budget D key n} (h : B.Balanced w) (hD : ∀ q ∈ w.procs, D.Ok q)
    (hB : ∀ q ∈ w.procs, B.Ok q) (hcount : CountInv (w.sem key) (w.clients key))
    (hkept : Kept (w.sem key) (w.clients key)) {pt pt' : Point} {asleep : Bool} {sl : Slot 3}
    {r : Except Errno ℕ} (hq : w.procs[p]? = some q) (hpc : q.pc = .lib key pt asleep)
    (hc : pt.Comes a (w.sem key) p asleep sl r) (hr : pt.resume r = .goto pt')
    (hp : w'.procs = w.procs.set p q') (hpc' : q'.pc = .lib key pt' false)
    (hunits : B.units q' = B.units q) (hcur' : sl.cur = some (i, T'))
    (hback : ((∃ c ∈ w'.clients key, c.half i = true) → ∃ c ∈ w.clients key, c.half i = true) →
      ∃ T, (w.sem key).cur = some (i, T) ∧ Ready i T (w.clients key)) :
    n ≤ SEMVMX ∧ Account T' 0 n B.units w'.procs := by
  by_cases hset : ∃ id v, pt = .create_setval0 id v
  · obtain ⟨id, v, rfl⟩ := hset
    cases r with
    | error e => cases hr
    | ok m =>
      rcases hc with hperf | ⟨-, hpt, -⟩
      · obtain ⟨S, hcur, -, hle, rfl, -⟩ | ⟨-, e, he⟩ := perform_setval rfl hperf
        · obtain ⟨rfl, rfl⟩ : id = i ∧ S.setval 0 v = T' := by simpa using hcur'
          obtain ⟨hn, hacc⟩ := account_first hD hB hcount hkept hq hpc hcur hle
          rw [hp]
          exact ⟨hn, hacc.same hq hunits rfl fun _ => rfl⟩
        · cases he
      · cases hpt
  · have hf := hc.follows True (q.held key)
    rw [hr] at hf
    obtain ⟨T, hcur, hready⟩ := hback fun hh => (half_of_set hp hh).resolve_right fun he => by
      simp only [Client.half, Proc.view, Pc.view, hpc', if_true] at he
      cases pt' with
      | create_setval1 id =>
        obtain ⟨v, m, rfl, -⟩ := resume_setval1 hr
        exact hset ⟨id, v, rfl⟩
      | _ => cases he
    have hop : ∀ id d, pt ≠ .op_semop id d := by
      rintro id d rfl
      cases r <;> cases hr
    obtain ⟨hval, hadj⟩ := Trans.zero_same hf hcur hcur' (by simp)
      (fun id v he => hset ⟨id, v, Option.some.inj he⟩) fun id d he => hop id d (Option.some.inj he)
    exact h.quiet hq hp hcur hready hunits hval hadj

/-- A routine returns: the units that `sem_op` has moved are the caller's. -/
theorem Balanced.ret {cl : Call} {B : Budget D cl.key n} (h : B.Balanced w) {pt : Point}
    {asleep : Bool} {sl : Slot 3} {r : Except Errno ℕ} {v : ℤ} (hq : w.procs[p]? = some q)
    (hc : pt.Comes a (w.sem cl.key) p asleep sl r) (hr : pt.resume r = .ret v)
    (hwithin : cl.Within (q.held cl.key) pt) (hp : w'.procs = w.procs.set p q')
    (hret : (B.units q' : ℤ) = B.units q - cl.amount cl.key)
    (hcur : (w.sem cl.key).cur = some (i, T)) (hready : Ready i T (w.clients cl.key))
    (hcur' : sl.cur = some (i, T')) : n ≤ SEMVMX ∧ Account T' 0 n B.units w'.procs := by
  have hf := hc.follows True (q.held cl.key)
  rw [hr] at hf
  by_cases hop : ∃ id d, pt = .op_semop id d
  · -- the process takes or gives back some units
    obtain ⟨id, d, rfl⟩ := hop
    obtain ⟨rfl, -⟩ := amount_of_within hwithin
    cases r with
    | error e => cases hr
    | ok m => ?_
    have hf : Trans True p (some (.op_semop id (cl.amount cl.key))) (w.sem cl.key)
        ⟨q.held cl.key, .at (.op_semop id (cl.amount cl.key)) asleep⟩ sl
        ⟨q.held cl.key, .away⟩ := hf
    generalize hd : cl.amount cl.key = d at hf hret
    cases hf with
    | no_set hpt => cases hpt
    | op_none =>
      rw [hcur] at hcur'
      cases hcur'
      exact h.quiet hq hp hcur hready (by omega) rfl fun _ => rfl
    | op hj hlo hhi =>
      rw [hcur] at hj
      cases hj
      cases hcur'
      obtain ⟨hn, hacc⟩ := h hcur hready
      rw [hp]
      exact ⟨hn, hacc.shift hn hq hret hlo⟩
  · have hpt : ∀ id d, pt ≠ .op_semop id d := fun id d he => hop ⟨id, d, he⟩
    obtain ⟨hval, hadj⟩ := Trans.zero_same hf hcur hcur' (by simp)
      (fun id v he => by
        obtain rfl := Option.some.inj he
        cases r <;> cases hr) fun id d he => hpt id d (Option.some.inj he)
    rw [amount_of_other hwithin hpt] at hret
    exact h.quiet hq hp hcur hready (by omega) hval hadj

/-- **A step keeps the account of `[0]`.** -/
theorem Balanced.step {B : Budget D key n} (h : B.Balanced w) (hD : ∀ q ∈ w.procs, D.Ok q)
    (hB : ∀ q ∈ w.procs, B.Ok q) (hlock : LockInv (w.sem key) (w.clients key))
    (hcount : CountInv (w.sem key) (w.clients key)) (hkept : Kept (w.sem key) (w.clients key))
    (hs : w.step P a = some w') : B.Balanced w' := by
  intro i T' hcur' hready'
  have hback := ready_before hcount hlock (D.keeps hD hs) hs hcur' hready'
  have hget : ∀ {p q}, w.procs[p]? = some q → D.Ok q := fun hq => hD _ (List.mem_of_getElem? hq)
  have hgetB : ∀ {p q}, w.procs[p]? = some q → B.Ok q := fun hq =>
    hB _ (List.mem_of_getElem? hq)
  -- where the slot stays, so does the set
  have hsame : ∀ {T}, w'.sem key = w.sem key → (w.sem key).cur = some (i, T) → T' = T := by
    intro T hsem hcur
    rw [hsem, hcur] at hcur'
    cases hcur'
    rfl
  -- a death gives back what was taken
  have hexit : ∀ {p q}, w.procs[p]? = some q → w'.sem = (fun key => (w.sem key).exit p) →
      w'.procs = w.procs.set p q.gone → n ≤ SEMVMX ∧ Account T' 0 n B.units w'.procs := by
    intro p q hq hsem hp
    obtain ⟨T, hcur, hready⟩ := hback fun hh =>
      (half_of_set hp hh).resolve_right (by intro he; cases he)
    obtain ⟨hn, hacc⟩ := h hcur hready
    rw [hsem, Slot.exit_cur, hcur] at hcur'
    cases hcur'
    rw [hp]
    exact ⟨hn, hacc.exit hn hq rfl⟩
  cases World.step_moves hs with
  | die p q _ hq _ hsem _ hp => exact hexit hq hsem hp
  | fails p q key' pt asleep r _ hq _ _ _ hsem _ hp => exact hexit hq hsem hp
  | quit p q c d _ hq _ _ _ _ hsem hp => exact hexit hq hsem hp
  | spawn u hu hsem _ hp =>
    obtain ⟨T, hcur, hready⟩ := hback fun ⟨c, hc, hhalf⟩ => by
      rw [World.clients, hp, List.map_append] at hc
      rcases List.mem_append.1 hc with hc | hc
      · exact ⟨c, hc, hhalf⟩
      · rw [List.map_singleton, List.mem_singleton] at hc
        subst hc
        cases hhalf
    obtain ⟨hn, hacc⟩ := h hcur hready
    rw [hsame (by rw [hsem]) hcur, hp]
    exact ⟨hn, hacc.append (B.entry hu)⟩
  | own p q c u _ hq hpc hstep hsem hp =>
    obtain ⟨T, hcur, hready⟩ := hback fun hh => (half_of_set hp hh).resolve_right (by
      simp [Client.half, Proc.view, Pc.view, hpc])
    obtain rfl := hsame (by rw [hsem]) hcur
    have hown := hget hq
    simp only [Discipline.Ok, hpc] at hown
    refine h.quiet hq hp hcur hready ?_ rfl fun _ => rfl
    simp only [units, hpc]
    exact B.go hown hstep
  | enter p q c call u pt _ hq hpc hstep hstart hsem hp =>
    obtain ⟨T, hcur, hready⟩ := hback fun hh => (half_of_set hp hh).resolve_right (by
      cases call <;> simp only [Call.start, sem_create, sem_open, sem_rm, sem_close, sem_op,
        sem_wait, sem_signal] at hstart <;> (try split_ifs at hstart) <;> cases hstart <;>
        simp only [Client.half, Proc.view, Pc.view] <;> split_ifs <;> simp)
    obtain rfl := hsame (by rw [hsem]) hcur
    have hown := hget hq
    simp only [Discipline.Ok, hpc] at hown
    refine h.quiet hq hp hcur hready ?_ rfl fun _ => rfl
    simp only [units, hpc]
    exact (B.call hown hstep).1
  | straight p q c call u v _ hq hpc hstep hstart _ hp =>
    have hown := hget hq
    simp only [Discipline.Ok, hpc] at hown
    obtain ⟨pt', hstart', -⟩ := (D.call hown hstep).1.start
    rw [hstart'] at hstart
    cases hstart
  | sleep p q key' pt _ hq hpc _ hsem _ hp =>
    obtain ⟨T, hcur, hready⟩ := hback fun hh => (half_of_set hp hh).elim id fun he =>
      ⟨_, List.mem_of_getElem? (clients_getElem? _ hq), by
        simp only [Client.half, Proc.view, Pc.view, hpc] at he ⊢
        split_ifs at he ⊢ with hkey
        cases pt <;> exact he⟩
    obtain rfl := hsame (by rw [hsem]) hcur
    refine h.quiet hq hp hcur hready ?_ rfl fun _ => rfl
    simp only [units, hpc]
  | goto p q key' pt pt' asleep sl r _ hq hpc hc hr hsem _ hp =>
    have hunits : B.units { q with
        held := Function.update q.held key' (pt.heldAt r (q.held key'))
        pc := .lib key' pt' false } = B.units q := by
      simp only [units, hpc]
    by_cases hkey : key' = key
    · subst hkey
      rw [hsem, Function.update_self] at hcur'
      exact h.goto hD hB hcount hkept hq hpc hc hr hp rfl hunits hcur' hback
    · -- a system call on another key
      have hsl : w'.sem key = w.sem key := by
        rw [hsem, Function.update_of_ne fun e => hkey e.symm]
      obtain ⟨T, hcur, hready⟩ := hback fun hh => (half_of_set hp hh).resolve_right (by
        simp [Client.half, Proc.view, Pc.view, hkey])
      obtain rfl := hsame hsl hcur
      exact h.quiet hq hp hcur hready hunits rfl fun _ => rfl
  | ret p q key' pt asleep sl r v _ hq hpc hc hr hsem _ hp =>
    have hq' := hget hq
    simp only [Discipline.Ok, hpc] at hq'
    obtain ⟨cl, hmemo, rfl, hwithin, -⟩ := hq'
    have hret := B.units_ret (hgetB hq) hpc hmemo v
    obtain ⟨T, hcur, hready⟩ := hback fun hh => (half_of_set hp hh).resolve_right (by
      simp [Client.half, Proc.view, Pc.view])
    by_cases hkey : cl.key = key
    · subst hkey
      rw [hsem, Function.update_self] at hcur'
      exact h.ret hq hc hr hwithin hp hret hcur hready hcur'
    · have hsl : w'.sem key = w.sem key := by
        rw [hsem, Function.update_of_ne fun e => hkey e.symm]
      obtain rfl := hsame hsl hcur
      rw [Call.amount_of_ne hkey] at hret
      refine h.quiet hq hp hcur hready ?_ rfl fun _ => rfl
      show B.own (P.ret q.user v) = B.units q
      omega

/-! ## In every run -/

/-- Fewer than `BIGCOUNT` processes are alive, and nobody opens a set between
its closer's reading of the counter and its removal. -/
def Steady (key : ℤ) (w : World S U) (a : Act U C) : Prop := w.alive < BIGCOUNT ∧ w.timely key a

instance (key : ℤ) (w : World S U) (a : Act U C) : Decidable (Steady key w a) :=
  inferInstanceAs (Decidable (_ ∧ _))

section Runs

variable {s : S}

/-- The program keeps its promise, so the routines keep theirs. -/
theorem orderly_of_steady (D : Discipline P) (h : (machine P s []).Reach (Steady key) w) :
    (machine P s []).Reach (fun w a => Orderly P w a ∧ w.timely key a) w :=
  h.strengthen fun _ _ _ hw ha hs =>
    ⟨⟨D.keeps (D.reach (fun _ hu => by cases hu) hw) hs, ha.1⟩, ha.2⟩

theorem kept_of_steady (D : Discipline P) (h : (machine P s []).Reach (Steady key) w) :
    Kept (w.sem key) (w.clients key) := by
  refine kept_of_reach (fun _ _ h => h) ((orderly_of_steady D h).strengthen
    fun w a w' hw ha _ => ⟨ha.1.1, ?_, ha.2⟩)
  exact orderly_roomy (hw.mono fun _ _ h => h.1) ha.1 key

theorem countInv_of_steady (D : Discipline P) (h : (machine P s []).Reach (Steady key) w) :
    CountInv (w.sem key) (w.clients key) :=
  countInv_of_orderly ((orderly_of_steady D h).mono fun _ _ h => h.1) key

theorem balanced_of_reach (B : Budget D key n) (h : (machine P s []).Reach (Steady key) w) :
    B.Balanced w := by
  apply h.invariant (I := B.Balanced)
  · rintro w rfl i T hcur
    cases hcur
  · intro w a w' hw hbal _ hs
    have hord := (orderly_of_steady D hw).mono fun _ _ h => h.1
    exact hbal.step (D.reach (fun _ hu => by cases hu) hw) (B.ok_of_reach hw)
      (lockInv_of_reach (fun _ _ h => h.1.spares) hord key) (countInv_of_orderly hord key)
      (kept_of_steady D hw) hs

/-- A set that has been initialised: the value and the units out make up `n`. -/
theorem val_of_set (B : Budget D key n) (h : (machine P s []).Reach (Steady key) w)
    (hcur : (w.sem key).cur = some (i, T)) (hset : Set1 key i w.log) :
    T.val 0 + B.total w = n := by
  have hord := (orderly_of_steady D h).mono fun _ _ h => h.1
  have hcounted := ((logInv_of_orderly hord key).late (.inl hset)).2 T hcur
  exact (balanced_of_reach B h hcur (.inl hcounted)).2.val

/-- What a process in `sem_op` finds: the set is there, and the units that are
not out are free. -/
theorem account_of_held (B : Budget D key n) (h : (machine P s []).Reach (Steady key) w)
    (hq : w.procs[p]? = some q) (hheld : q.held key = some i) :
    ∃ T, (w.sem key).cur = some (i, T) ∧ n ≤ SEMVMX ∧ Account T 0 n B.units w.procs := by
  obtain ⟨T, hcur, hready⟩ :=
    ready_of_held (countInv_of_steady D h) (kept_of_steady D h) hq hheld
  exact ⟨T, hcur, balanced_of_reach B h hcur hready⟩

/-- There are never more than `n` units out. -/
theorem total_le (B : Budget D key n) (h : (machine P s []).Reach (Steady key) w) :
    B.total w ≤ n := by
  by_contra hmore
  -- somebody has some, so the set is there
  obtain ⟨q, hq, hpos⟩ : ∃ q ∈ w.procs, 0 < B.units q := by
    by_contra hnone
    have hzero : B.total w = 0 * w.procs.length :=
      sum_map_const B.units fun q hq => by
        by_contra hne
        exact hnone ⟨q, hq, Nat.pos_of_ne_zero hne⟩
    omega
  obtain ⟨i, hi⟩ := B.held_of_units (D.reach (fun _ hu => by cases hu) h q hq)
    (B.ok_of_reach h q hq) hpos
  obtain ⟨p, hp⟩ := List.mem_iff_getElem?.1 hq
  obtain ⟨T, -, -, hacc⟩ := B.account_of_held h hp hi
  have := hacc.val
  simp only [total] at hmore
  omega

/-- The `semop` of a process in `sem_op`: it is carried out when enough units
are free, waits when not, and never fails. -/
theorem perform_op (B : Budget D key n) (h : (machine P s []).Reach (Steady key) w)
    (hq : w.procs[p]? = some q) {id : ℕ} {d : ℤ} {asleep : Bool}
    (hpc : q.pc = .lib key (.op_semop id d) asleep) :
    if (B.total w : ℤ) ≤ n + d then
      ∃ sl, (Point.op_semop id d).perform (w.sem key) p asleep = some (sl, .ok 0)
    else (Point.op_semop id d).perform (w.sem key) p asleep = none := by
  have hD := D.reach (fun _ hu => by cases hu) h q (List.mem_of_getElem? hq)
  have hB := B.ok_of_reach h q (List.mem_of_getElem? hq)
  simp only [Discipline.Ok, hpc] at hD
  obtain ⟨cl, hmemo, rfl, hwithin, -⟩ := hD
  have hret := B.units_ret hB hpc hmemo 0
  obtain ⟨rfl, hheld⟩ := amount_of_within hwithin
  -- no call has the amount 0
  have hd : cl.amount cl.key ≠ 0 := by
    simp only [Ok, hpc] at hB
    have hvalue := (hB cl hmemo).2.1
    cases cl with
    | sem_op k j value => simpa [Call.amount, Call.key] using hvalue k j value rfl
    | sem_wait | sem_signal => simp [Call.amount, Call.key]
    | _ => exact hwithin.elim
  obtain ⟨T, hcur, hn, hacc⟩ := B.account_of_held h hq hheld
  have htotal : T.val 0 + B.total w = n := hacc.val
  have hone : B.units q ≤ B.total w := le_sum_of_get B.units hq
  -- what is given back was out, so the value does not pass `n`
  have hfit : (T.val 0 : ℤ) + cl.amount cl.key ≤ SEMVMX := by omega
  -- and the adjustment is what the process has, of the `n`
  have hundo : 0 ≤ (T.val 0 : ℤ) + cl.amount cl.key →
      UndoFits (T.adj p 0 - cl.amount cl.key) := by
    intro hfree
    rw [hacc.adj, owned_of_get B.units hq]
    constructor <;> simp only [SEMAEM, SEMVMX] at * <;> omega
  have hop : T.semop p (op_op (cl.amount cl.key)) =
      if (T.val 0 : ℤ) + cl.amount cl.key < 0 then .block
      else .done (T.shift p 0 (cl.amount cl.key)) := by
    unfold op_op
    simp only [SemSet.semop, SemSet.apply1, hd, if_false, not_lt.2 hfit, if_true]
    split_ifs with hlow hundo'
    · rfl
    · rfl
    · exact absurd (hundo (not_lt.1 hlow)) hundo'
  simp only [Point.perform, Point.call, Slot.call, Slot.find_eq_some.2 hcur, hop]
  split_ifs with hfree hlow hlow
  · omega
  · exact ⟨_, rfl⟩
  · rfl
  · omega

end Runs

end Budget

/-- The key of `main.c`. -/
def SEMKEY : ℤ := 23456

/-- The set the process has open, the units it has, and the routine it is in. -/
structure User where
  id : Option ℕ
  units : ℕ
  inside : Option Call
  deriving DecidableEq, Repr

/-- What a user does next. -/
inductive Wish
  | create
  | open
  | take (k : ℕ)
  | give (k : ℕ)
  | close
  | exit
  deriving DecidableEq, Repr

/-- The call a user makes. It takes or gives at least one unit, what fits in a
`short`, and gives back no more than it has; it closes with none. -/
def User.call (n : ℕ) (u : User) : Wish → Option Call
  | .create => if u.id = none then some (.sem_create SEMKEY n) else none
  | .open => if u.id = none then some (.sem_open SEMKEY) else none
  | .take k => u.id.bind fun id =>
    if 0 < k ∧ k < 2 ^ 15 then some (.sem_op SEMKEY id (-k)) else none
  | .give k => u.id.bind fun id =>
    if 0 < k ∧ k < 2 ^ 15 ∧ k ≤ u.units then some (.sem_op SEMKEY id k) else none
  | .close => u.id.bind fun id => if u.units = 0 then some (.sem_close SEMKEY id) else none
  | .exit => none

/-- What a user has after the routine has returned `v`. -/
def User.ret (u : User) (v : ℤ) : User :=
  match u.inside with
  | some (.sem_create ..) | some (.sem_open _) => ⟨if v < 0 then none else some v.toNat, 0, none⟩
  | some (.sem_op _ _ value) => ⟨u.id, (u.units - short value).toNat, none⟩
  | some (.sem_close ..) => ⟨none, 0, none⟩
  | _ => u

/-- Users of one semaphore, made with `n`. -/
def user (n : ℕ) : Program Unit User Wish where
  entry := fun u => u == ⟨none, 0, none⟩
  step := fun _ _ u wish =>
    match wish with
    | .exit => some ((), .exit)
    | _ => (u.call n wish).map fun cl => ((), .call cl { u with inside := some cl })
  ret := User.ret

/-- A user has units only of a set that it has open. -/
def User.Own (u : User) (held : ℤ → Option ℕ) : Prop :=
  held SEMKEY = u.id ∧ (u.id = none → u.units = 0)

section User

variable {n : ℕ} {u u' : User} {s s' : Unit} {sem : ℤ → Slot 3} {wish : Wish} {cl : Call}

/-- A user never stays in its own code. -/
theorem user_go (h : (user n).step sem s u wish = some (s', .go u')) : False := by
  cases wish <;> simp [user] at h

theorem user_call (h : (user n).step sem s u wish = some (s', .call cl u')) :
    u.call n wish = some cl ∧ u' = { u with inside := some cl } := by
  cases wish <;> simp [user] at h <;> exact ⟨by simp [h], by simp [h]⟩

/-- The amounts are those of the call. -/
theorem short_of_lt {k : ℤ} (h : -2 ^ 15 < k ∧ k < 2 ^ 15) : short k = k := by
  unfold short
  rw [Int.bmod_eq_of_le] <;> omega

/-- The discipline of the users. -/
def user_discipline (n : ℕ) : Discipline (user n) where
  Own := User.Own
  routine := User.inside
  entry := fun {u} hu => by
    obtain rfl : u = ⟨none, 0, none⟩ := by simpa [user] using hu
    exact ⟨rfl, fun _ => rfl⟩
  go := fun _ hs => (user_go hs).elim
  call := fun {sem s s' u u' wish held cl} hown hs => by
    obtain ⟨hcall, rfl⟩ := user_call hs
    obtain ⟨id, units, inside⟩ := u
    obtain ⟨hheld, hnone⟩ := hown
    have hkey : SEMKEY ≠ IPC_PRIVATE ∧ SEMKEY ≠ -1 := by decide
    simp only at hheld hnone
    cases wish with
    | create =>
      simp only [User.call] at hcall
      split_ifs at hcall with hid
      cases hcall
      refine ⟨⟨hkey.1, hkey.2, hheld.trans hid⟩, rfl, fun v h hret => ?_⟩
      rcases hret with ⟨rfl, rfl⟩ | ⟨i, rfl, rfl⟩
      · exact ⟨Function.update_self .., fun _ => rfl⟩
      · exact ⟨(Function.update_self ..).trans (by simp [user, User.ret]), fun _ => rfl⟩
    | «open» =>
      simp only [User.call] at hcall
      split_ifs at hcall with hid
      cases hcall
      refine ⟨⟨hkey.1, hkey.2, hheld.trans hid⟩, rfl, fun v h hret => ?_⟩
      rcases hret with ⟨rfl, rfl⟩ | ⟨i, rfl, rfl⟩
      · exact ⟨Function.update_self .., fun _ => rfl⟩
      · exact ⟨(Function.update_self ..).trans (by simp [user, User.ret]), fun _ => rfl⟩
    | take k =>
      obtain ⟨i, rfl, hk⟩ := Option.bind_eq_some_iff.1 hcall
      split_ifs at hk with hrange
      cases hk
      refine ⟨⟨?_, hheld⟩, rfl, fun v h hret => ⟨?_, fun he => nomatch he⟩⟩
      · rw [short_of_lt (by omega)]
        omega
      · exact (Function.update_self ..).trans hret
    | give k =>
      obtain ⟨i, rfl, hk⟩ := Option.bind_eq_some_iff.1 hcall
      split_ifs at hk with hrange
      cases hk
      refine ⟨⟨?_, hheld⟩, rfl, fun v h hret => ⟨?_, fun he => nomatch he⟩⟩
      · rw [short_of_lt (by omega)]
        omega
      · exact (Function.update_self ..).trans hret
    | close =>
      obtain ⟨i, rfl, hk⟩ := Option.bind_eq_some_iff.1 hcall
      split_ifs at hk with hzero
      cases hk
      exact ⟨hheld, rfl, fun v h hret => ⟨(Function.update_self ..).trans hret, fun _ => rfl⟩⟩
    | exit => cases hcall

/-- The budget of the users. -/
def user_budget (n : ℕ) : Budget (user_discipline n) SEMKEY n where
  own := User.units
  out := User.units
  entry := fun {u} hu => by
    obtain rfl : u = ⟨none, 0, none⟩ := by simpa [user] using hu
    rfl
  held := fun {u held} hown hpos => by
    obtain ⟨hheld, hnone⟩ := hown
    cases hid : u.id with
    | none => exact absurd (hnone hid) hpos.ne'
    | some i => exact ⟨i, hheld.trans hid⟩
  go := fun _ hs => (user_go hs).elim
  call := fun {sem s s' u u' wish held cl} hown hs => by
    obtain ⟨hcall, rfl⟩ := user_call hs
    obtain ⟨id, units, inside⟩ := u
    refine ⟨rfl, ?_⟩
    cases wish with
    | create =>
      simp only [User.call] at hcall
      split_ifs at hcall with hid
      cases hcall
      have hzero : units = 0 := hown.2 hid
      exact ⟨fun _ => ⟨rfl, hzero⟩, fun v => by simp [user, User.ret, Call.amount, hzero]⟩
    | «open» =>
      simp only [User.call] at hcall
      split_ifs at hcall with hid
      cases hcall
      have hzero : units = 0 := hown.2 hid
      exact ⟨fun _ => hzero, fun v => by simp [user, User.ret, Call.amount, hzero]⟩
    | take k =>
      obtain ⟨i, rfl, hk⟩ := Option.bind_eq_some_iff.1 hcall
      split_ifs at hk with hrange
      cases hk
      refine ⟨trivial, fun v => ?_⟩
      simp only [user, User.ret, Call.amount, if_true, short_of_lt (k := -(k : ℤ)) (by omega)]
      omega
    | give k =>
      obtain ⟨i, rfl, hk⟩ := Option.bind_eq_some_iff.1 hcall
      split_ifs at hk with hrange
      cases hk
      refine ⟨trivial, fun v => ?_⟩
      simp only at hrange
      simp only [user, User.ret, Call.amount, if_true, short_of_lt (k := (k : ℤ)) (by omega)]
      omega
    | close =>
      obtain ⟨i, rfl, hk⟩ := Option.bind_eq_some_iff.1 hcall
      split_ifs at hk with hzero
      cases hk
      exact ⟨fun _ => hzero, fun v => by
        simp only at hzero
        simp [user, User.ret, Call.amount, hzero]⟩
    | exit => cases hcall

end User

end UnixNetProg.Semaphore

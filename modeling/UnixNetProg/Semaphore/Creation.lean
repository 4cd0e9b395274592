/-
Creation and counting: what the users of `semaphore.c` may rely on.

`sem_create_race_free` reads the log of a run: before anybody gets an
identifier back, both `SETVAL`s have been made on that set, and after that none
ever is. `user_count_exact` reads the state: `[1]` of an initialised set is
`BIGCOUNT` less the number of its users, whatever has died in between.
-/
import UnixNetProg.Semaphore.History

set_option autoImplicit false

namespace UnixNetProg.Semaphore

open UnixNetProg.SysV UnixNetProg.Runs UnixNetProg.Pool

/-! ## Initialised first, and never again -/

/-- In this log every identifier returned for `key` is that of a set whose `[0]`
and `[1]` were set before, and no `SETVAL` on it follows. -/
def SetBeforeUse (key : ℤ) (log : List Event) : Prop :=
  ∀ pre post p i, log = pre ++ .opened p key i :: post →
    Set0 key i pre ∧ Set1 key i pre ∧ ∀ q m v r, .sys q key (.setval i m v) r ∉ post

section Creation

variable {S U C : Type} {P : Program S U C} {s : S} {us : List U} {w w' : World S U}
  {a : Act U C} {key : ℤ} {i : ℕ}

/-- Whoever is about to make a `SETVAL` is initialising the set. -/
theorem initing_of_logged {q : ℕ} {m : Fin 3} {v : ℤ} {r : Except Errno ℕ}
    (hl : Logged P w a (.sys q key (.setval i m v) r)) :
    ∃ c, (w.clients key)[q]? = some c ∧ c.initing i = true := by
  generalize he : Event.sys q key (.setval i m v) r = e at hl
  cases hl with
  | @sys p₀ q₀ key₀ pt asleep r₀ _ hq hpc _ =>
    obtain ⟨rfl, rfl, hcall, -⟩ :
        q = p₀ ∧ key = key₀ ∧ Syscall.setval i m v = pt.call ∧ r = r₀ := by
      simpa using he
    refine ⟨_, clients_getElem? _ hq, ?_⟩
    have hini : pt.initing i = true := by
      cases pt <;> simp_all [Point.call, Point.initing]
    simpa only [Client.initing, Proc.view, Pc.view, hpc, if_true] using hini
  | _ => cases he

/-- No `SETVAL` is made on a set whose identifier somebody has been given: the
set is there, because the caller has its lock, and it is counted. -/
theorem no_setval_after_opened (hlog : LogInv key w)
    (hlock : LockInv (w.sem key) (w.clients key)) {p : ℕ} (hopen : .opened p key i ∈ w.log)
    {q : ℕ} {m : Fin 3} {v : ℤ} {r : Except Errno ℕ} :
    ¬ Logged P w a (.sys q key (.setval i m v) r) := by
  intro hl
  obtain ⟨c, hc, hini⟩ := initing_of_logged hl
  obtain ⟨T, hcur⟩ := hlock.there hc (Client.lockId_of_initing hini)
  have hcounted := (hlog.late (.inr ⟨p, hopen⟩)).2 T hcur
  rw [hcounted.after hc] at hini
  cases hini

/-- A step of an orderly run keeps the log in order. -/
theorem SetBeforeUse.step (h : SetBeforeUse key w.log) (hlog : LogInv key w)
    (hcount : CountInv (w.sem key) (w.clients key))
    (hlock : LockInv (w.sem key) (w.clients key)) (hs : w.step P a = some w') :
    SetBeforeUse key w'.log := by
  obtain ⟨es, hes, hlogged, hsilent⟩ := World.step_log hs
  intro pre post p i hsplit
  rw [hes, List.append_eq_append_iff] at hsplit
  rcases hsplit with ⟨pre', rfl, hes'⟩ | ⟨post', hold, hnew⟩
  · -- the identifier is returned in this step
    have hopened : Logged P w a (.opened p key i) := hlogged _ (by rw [hes']; simp)
    obtain ⟨T, hcur, hc⟩ := counted_of_logged hcount hopened
    obtain ⟨h0, h1⟩ := hlog.done hcur hc
    refine ⟨h0.mono fun e he => List.mem_append_left _ he,
      h1.mono fun e he => List.mem_append_left _ he, ?_⟩
    intro q m v r hmem
    rw [hes', List.pairwise_append] at hsilent
    have hlast := List.pairwise_cons.1 hsilent.2.1
    exact hlast.1 _ hmem
  · cases post' with
    | nil =>
      -- the same, at the very start of what this step records
      rw [List.append_nil] at hold
      rw [List.nil_append] at hnew
      have hopened : Logged P w a (.opened p key i) := hlogged _ (by rw [← hnew]; simp)
      obtain ⟨T, hcur, hc⟩ := counted_of_logged hcount hopened
      obtain ⟨h0, h1⟩ := hlog.done hcur hc
      rw [hold] at h0 h1
      refine ⟨h0, h1, ?_⟩
      intro q m v r hmem
      rw [← hnew] at hsilent
      exact (List.pairwise_cons.1 hsilent).1 _ hmem
    | cons e post' =>
      -- the identifier was returned before
      rw [List.cons_append, List.cons.injEq] at hnew
      obtain ⟨rfl, rfl⟩ := hnew
      obtain ⟨h0, h1, hno⟩ := h pre post' p i hold
      refine ⟨h0, h1, ?_⟩
      intro q m v r hmem
      rcases List.mem_append.1 hmem with hmem | hmem
      · exact hno q m v r hmem
      · have hopen : .opened p key i ∈ w.log := by rw [hold]; simp
        exact no_setval_after_opened hlog hlock hopen (hlogged _ hmem)

/-- **Initialisation is free of races.** In every orderly run, with any deaths,
any removals and any interleaving: before `sem_create` or `sem_open` returns
the identifier of a set, its `[0]` has been set to the `initval` of some
`sem_create` call and its `[1]` to `BIGCOUNT`; and afterwards no `SETVAL` is
executed on that set. -/
theorem sem_create_race_free (h : (machine P s us).Reach (Orderly P) w) (key : ℤ) :
    SetBeforeUse key w.log := by
  apply h.invariant (I := fun w => SetBeforeUse key w.log)
  · rintro w rfl pre post p i hsplit
    have hlen := congrArg List.length hsplit
    simp [World.start] at hlen
  · intro w a w' hw hinv ha hstep
    exact hinv.step (logInv_of_orderly hw key) (countInv_of_orderly hw key)
      (lockInv_of_reach (fun _ _ h => h.1.spares) hw key) hstep

end Creation

/-- One process creates a set while another one opens it: `sem_open` finds the
set before it is initialised, and sleeps. -/
theorem sem_create_race_free_run :
    ∃ w, (machine script () [[.sem_create 5 7], [.sem_open 5]]).Reach (Orderly script) w ∧
      .opened 1 5 0 ∈ w.log ∧ SetBeforeUse 5 w.log := by
  have hrun := Machine.Reach.run
    (machine script () [[.sem_create 5 7], [.sem_open 5]])
    (Orderly script) rfl [.user 0 (), .sys 0, .sys 0, .user 1 (), .sys 0,
      .sys 1, .sys 0, .sys 1, .sys 0, .sys 0, .sys 1] (by decide +kernel)
  exact ⟨_, hrun, by decide +kernel, sem_create_race_free hrun 5⟩

/-! ## The number of users -/

/-- How many live processes have counted themselves into set `i`, by
`op_endcreate` or `op_open`, and not out of it by `op_close`. -/
def World.users {S U : Type} (w : World S U) (key : ℤ) (i : ℕ) : ℕ :=
  w.procs.countP fun q => q.pc != .dead && q.held key == some i

/-- Some live process has taken the lock of set `i` and not released it. -/
def World.locked {S U : Type} (w : World S U) (key : ℤ) (i : ℕ) : Prop :=
  ∃ q ∈ w.procs, ∃ pt asleep, q.pc = .lib key pt asleep ∧ pt.lockId = some i

section Counting

variable {S U C : Type} {P : Program S U C} {s : S} {us : List U} {w w' : World S U}
  {a : Act U C} {key : ℤ} {i : ℕ} {T : SemSet 3}

/-- The users are the clients that have the set open: a dead process has none. -/
theorem users_eq_countP (hcount : CountInv (w.sem key) (w.clients key)) :
    w.users key i = (w.clients key).countP (Client.holds i) := by
  rw [World.clients, List.countP_map, World.users]
  refine List.countP_congr fun q hq => ?_
  obtain ⟨p, hp⟩ := List.mem_iff_getElem?.1 hq
  have hwf := hcount.wf (clients_getElem? key hp)
  cases hpc : q.pc with
  | dead =>
    have hheld : q.held key = none := by
      simpa only [Client.Wf, Proc.view, hpc, Pc.view] using hwf
    simp [Client.holds, Proc.view, hheld]
  | user => simp [Client.holds, Proc.view]
  | lib key' pt asleep => simp [Client.holds, Proc.view]

/-- The counter of an initialised set, in an orderly run. -/
theorem user_count (h : (machine P s us).Reach (Orderly P) w)
    (hcur : (w.sem key).cur = some (i, T)) (hset : Set1 key i w.log) :
    T.val 1 + w.users key i = BIGCOUNT := by
  have hcounted := ((logInv_of_orderly h key).late (.inl hset)).2 T hcur
  rw [users_eq_countP (countInv_of_orderly h key)]
  exact hcounted.val

/-- When nobody is between taking and releasing the lock, the lock is free. -/
theorem lock_free (hlock : LockInv (w.sem key) (w.clients key))
    (hcur : (w.sem key).cur = some (i, T)) (hfree : ¬ w.locked key i) : T.val 2 = 0 := by
  rw [hlock.val hcur]
  refine countP_eq_zero_of_forall _ fun p c hc => ?_
  by_contra hlocks
  apply hfree
  have hid : c.lockId = some i := locks_iff.1 (by simpa using hlocks)
  obtain ⟨held, place⟩ := c
  cases place with
  | «at» pt asleep =>
    obtain ⟨q, hq, hpc, -⟩ := clients_at hc
    exact ⟨q, List.mem_of_getElem? hq, pt, asleep, hpc, hid⟩
  | _ => cases hid

/-- `sem_close` reads at most `BIGCOUNT`. -/
theorem not_logged_err_dump (hcount : ∀ key, CountInv (w.sem key) (w.clients key)) {p : ℕ}
    {msg : String} : ¬ Logged P w a (.err_dump p msg) := by
  intro hl
  cases hl with
  | @err_dump _ q key id asleep n _ hq hpc hy hn =>
    have hclient := clients_getElem? key hq
    rw [Proc.view, hpc, Pc.view, if_pos rfl] at hclient
    rcases hy with ⟨sl', hperf⟩ | ⟨-, hr⟩
    · obtain ⟨-, ⟨T, hcur, hr⟩ | ⟨-, hr⟩⟩ := perform_getval rfl hperf
      · rcases (hcount key).phase hcur with hu | hc
        · -- nobody closes a set that has not been initialised
          have := hu.before hclient
          simp [Client.past, Point.past] at this
        · have hval := hc.val
          obtain rfl : n = T.val 1 := by simpa using hr
          omega
      · cases hr
    · cases hr

/-- **Reference counting is exact, crashes included.** In every orderly run the
`[1]` of an initialised set is `BIGCOUNT` less the number of its users, so it
never exceeds `BIGCOUNT`; `sem_close` never gets to its `err_dump`; and `[2]` is
0 whenever no live process is between taking and releasing the lock. -/
theorem user_count_exact (h : (machine P s us).Reach (Orderly P) w) (key : ℤ) :
    (∀ i T, (w.sem key).cur = some (i, T) → Set1 key i w.log →
      T.val 1 = BIGCOUNT - w.users key i ∧ w.users key i ≤ BIGCOUNT ∧ T.val 1 ≤ BIGCOUNT) ∧
    (∀ p msg, .err_dump p msg ∉ w.log) ∧
    (∀ i T, (w.sem key).cur = some (i, T) → ¬ w.locked key i → T.val 2 = 0) := by
  refine ⟨fun i T hcur hset => ?_, ?_, fun i T hcur hfree => ?_⟩
  · have hsum := user_count h hcur hset
    omega
  · apply h.invariant (I := fun w => ∀ p msg, .err_dump p msg ∉ w.log)
    · rintro w rfl p msg hmem
      cases hmem
    · intro w a w' hw hinv ha hstep p msg hmem
      obtain ⟨es, hes, hlogged, -⟩ := World.step_log hstep
      rw [hes] at hmem
      rcases List.mem_append.1 hmem with hmem | hmem
      · exact hinv p msg hmem
      · exact not_logged_err_dump (countInv_of_orderly hw) (hlogged _ hmem)
  · exact lock_free (lockInv_of_reach (fun _ _ h => h.1.spares) h key) hcur hfree

end Counting

/-- Three processes have the set open and one of them dies: the kernel counts
it out. -/
theorem user_count_exact_run :
    ∃ w, (machine script () [[.sem_create 5 1], [.sem_create 5 1], [.sem_open 5]]).Reach
        (Orderly script) w ∧
      ((w.sem 5).cur.map fun c => (c.1, c.2.val 1)) = some (0, BIGCOUNT - 2) ∧
      w.users 5 0 = 2 ∧ ∀ p msg, .err_dump p msg ∉ w.log := by
  have hrun := Machine.Reach.run
    (machine script () [[.sem_create 5 1], [.sem_create 5 1], [.sem_open 5]])
    (Orderly script) rfl [.user 0 (), .user 1 (), .user 2 (), .sys 0, .sys 0, .sys 0,
      .sys 0, .sys 0, .sys 0, .sys 1, .sys 1, .sys 1, .sys 1, .sys 2, .sys 2, .die 1]
    (by decide +kernel)
  exact ⟨_, hrun, by decide +kernel, by decide +kernel, (user_count_exact hrun 5).2.1⟩

end UnixNetProg.Semaphore

/-
Programs that keep to the interface of `semaphore.c`.

A `Discipline` says of a program what each of its processes has open at every
point of its own code, and that the routines are called and their results taken
accordingly: a set is opened when the process has none, operated on and closed
under the identifier it was opened with. The discipline of a program is checked
statement by statement, each statement on its own; `Discipline.step` then gives
for every run what a process is doing inside a routine, and `Discipline.keeps`
that the program keeps the promise the routines ask for.

The last part says when a routine does not end the program: on a set that is
there, `sem_close` never does, and `sem_wait` and `sem_signal` only if the value
cannot grow any more or the caller has come to the limit of its adjustment.
-/
import UnixNetProg.Semaphore.Moves
import UnixNetProg.Semaphore.Removal

set_option autoImplicit false

namespace UnixNetProg.Semaphore

open UnixNetProg.SysV UnixNetProg.Runs UnixNetProg.Pool

/-! ## One call -/

/-- What the caller has open when it makes the call. -/
def Call.Ready (held : Option ℕ) : Call → Prop
  | .sem_create key _ | .sem_open key => key ≠ IPC_PRIVATE ∧ key ≠ -1 ∧ held = none
  | .sem_close _ id | .sem_wait _ id | .sem_signal _ id => held = some id
  | .sem_op _ id value => short value ≠ 0 ∧ held = some id
  | .sem_rm _ _ => False

/-- The points of a call, and what the caller has open there. -/
def Call.Within (held : Option ℕ) : Call → Point → Prop
  | .sem_create _ v, .create_semget v' | .sem_create _ v, .create_lock _ v'
  | .sem_create _ v, .create_getval _ v' | .sem_create _ v, .create_setval0 _ v' =>
    v' = v ∧ held = none
  | .sem_create _ _, .create_setval1 _ | .sem_create _ _, .create_endcreate _ => held = none
  | .sem_open _, .open_semget | .sem_open _, .open_op _ => held = none
  | .sem_close _ id, .close_op id' => id' = id ∧ held = some id
  | .sem_close _ _, .close_getval _ | .sem_close _ _, .close_unlock _ | .sem_close _ _, .rm _ =>
    held = none
  | .sem_wait _ id, .op_semop id' n => id' = id ∧ n = -1 ∧ held = some id
  | .sem_signal _ id, .op_semop id' n => id' = id ∧ n = 1 ∧ held = some id
  | .sem_op _ id value, .op_semop id' n => id' = id ∧ n = short value ∧ held = some id
  | _, _ => False

/-- What the caller has open when the call returns `v`. -/
def Call.Returns (held : Option ℕ) (v : ℤ) : Call → Prop
  | .sem_create _ _ | .sem_open _ => (v = -1 ∧ held = none) ∨ ∃ id : ℕ, v = id ∧ held = some id
  | .sem_close _ _ => held = none
  | .sem_wait _ id | .sem_signal _ id | .sem_op _ id _ => held = some id
  | .sem_rm _ _ => False

section Calls

variable {c : Call} {held : Option ℕ} {pt pt' : Point} {r : Except Errno ℕ} {v : ℤ}

/-- A call that is ready gets to its first system call. -/
theorem Call.Ready.start (h : c.Ready held) : ∃ pt, c.start = .goto pt ∧ c.Within held pt := by
  cases c with
  | sem_create key initval =>
    obtain ⟨h0, h1, hnone⟩ := h
    exact ⟨.create_semget initval, by simp [Call.start, Semaphore.sem_create, h0, h1], rfl, hnone⟩
  | sem_open key =>
    obtain ⟨h0, h1, hnone⟩ := h
    exact ⟨.open_semget, by simp [Call.start, Semaphore.sem_open, h0, h1], hnone⟩
  | sem_rm key id => exact h.elim
  | sem_close key id => exact ⟨.close_op id, rfl, rfl, h⟩
  | sem_wait key id => exact ⟨.op_semop id (-1), sem_wait_eq id, rfl, rfl, h⟩
  | sem_signal key id => exact ⟨.op_semop id 1, sem_signal_eq id, rfl, rfl, h⟩
  | sem_op key id value =>
    obtain ⟨h0, hheld⟩ := h
    exact ⟨.op_semop id (short value), by simp [Call.start, Semaphore.sem_op, h0], rfl, rfl, hheld⟩

/-- A call that is ready is one the routines allow. -/
theorem Call.Ready.allowed {held : ℤ → Option ℕ} (h : c.Ready (held c.key)) : c.allowed held := by
  cases c with
  | sem_create key initval => exact h.2.2
  | sem_open key => exact h.2.2
  | sem_rm key id => exact h.elim
  | sem_close key id => exact h
  | _ => trivial

/-- A call that goes on to another system call. -/
theorem Call.Within.goto (h : c.Within held pt) (hr : pt.resume r = .goto pt') :
    c.Within (pt.heldAt r held) pt' := by
  cases c <;> cases pt <;> first
    | exact h.elim
    | (cases r <;> simp only [Point.resume] at hr <;> (try split_ifs at hr) <;> cases hr <;>
        first | exact h | exact h.2 | rfl)

/-- A call that returns. -/
theorem Call.Within.ret (h : c.Within held pt) (hr : pt.resume r = .ret v) :
    c.Returns (pt.heldAt r held) v := by
  cases c <;> cases pt <;> first
    | exact h.elim
    | (cases r <;> simp only [Point.resume] at hr <;> (try split_ifs at hr) <;> cases hr <;>
        first
          | exact h
          | exact h.2.2
          | exact .inl ⟨rfl, h⟩
          | exact .inl ⟨rfl, h.2⟩
          | exact .inr ⟨_, rfl, rfl⟩)

end Calls

/-! ## The discipline of a program -/

/-- What the processes of a program have open in their own code, and how they
call the routines. `routine` tells the call a process is in from its own state. -/
structure Discipline {S U C : Type} (P : Program S U C) where
  Own : U → (ℤ → Option ℕ) → Prop
  routine : U → Option Call
  entry : ∀ {u}, P.entry u = true → Own u fun _ => none
  go : ∀ {sem s s' u u' c held}, Own u held → P.step sem s u c = some (s', .go u') → Own u' held
  call : ∀ {sem s s' u u' c held cl}, Own u held → P.step sem s u c = some (s', .call cl u') →
    cl.Ready (held cl.key) ∧ routine u' = some cl ∧
      ∀ v h, cl.Returns h v → Own (P.ret u' v) (Function.update held cl.key h)

namespace Discipline

variable {S U C : Type} {P : Program S U C} {w w' : World S U} {a : Act U C} {q q' : Proc U}

/-- A process that keeps the discipline. -/
def Ok (D : Discipline P) (q : Proc U) : Prop :=
  match q.pc with
  | .user => D.Own q.user q.held
  | .lib key pt _ => ∃ cl, D.routine q.user = some cl ∧ cl.key = key ∧
    cl.Within (q.held key) pt ∧
      ∀ v h, cl.Returns h v → D.Own (P.ret q.user v) (Function.update q.held key h)
  | .dead => q.held = fun _ => none

/-- **Every process of every run keeps the discipline.** -/
theorem step (D : Discipline P) (h : ∀ q ∈ w.procs, D.Ok q) (hs : w.step P a = some w') :
    ∀ q ∈ w'.procs, D.Ok q := by
  have hget : ∀ {p q}, w.procs[p]? = some q → D.Ok q := fun hq => h _ (List.mem_of_getElem? hq)
  -- one process changes
  have hset : ∀ {p q'}, w'.procs = w.procs.set p q' → D.Ok q' → ∀ q ∈ w'.procs, D.Ok q := by
    intro p q' hp hq' q₁ hq₁
    rw [hp] at hq₁
    rcases List.mem_or_eq_of_mem_set hq₁ with hq₁ | rfl
    · exact h _ hq₁
    · exact hq'
  cases World.step_moves hs with
  | spawn u hu _ _ hp =>
    intro q₁ hq₁
    rw [hp] at hq₁
    rcases List.mem_append.1 hq₁ with hq₁ | hq₁
    · exact h _ hq₁
    · rw [List.mem_singleton] at hq₁
      subst hq₁
      exact D.entry hu
  | die p q _ hq _ _ _ hp => exact hset hp rfl
  | quit p q c d _ hq _ _ _ _ _ hp => exact hset hp rfl
  | fails p q key pt asleep r _ hq _ _ _ _ _ hp => exact hset hp rfl
  | own p q c u _ hq hpc hstep _ hp =>
    have hown := hget hq
    simp only [Ok, hpc] at hown
    apply hset hp
    simp only [Ok, hpc]
    exact D.go hown hstep
  | enter p q c call u pt _ hq hpc hstep hstart _ hp =>
    have hown := hget hq
    simp only [Ok, hpc] at hown
    obtain ⟨hready, hmemo, hret⟩ := D.call hown hstep
    obtain ⟨pt', hstart', hwithin⟩ := hready.start
    rw [hstart'] at hstart
    cases hstart
    exact hset hp ⟨call, hmemo, rfl, hwithin, hret⟩
  | straight p q c call u v _ hq hpc hstep hstart _ hp =>
    have hown := hget hq
    simp only [Ok, hpc] at hown
    obtain ⟨pt', hstart', -⟩ := (D.call hown hstep).1.start
    rw [hstart'] at hstart
    cases hstart
  | sleep p q key pt _ hq hpc _ _ _ hp =>
    have hown := hget hq
    simp only [Ok, hpc] at hown
    exact hset hp hown
  | goto p q key pt pt' asleep sl r _ hq hpc _ hr _ _ hp =>
    have hown := hget hq
    simp only [Ok, hpc] at hown
    obtain ⟨cl, hmemo, hkey, hwithin, hret⟩ := hown
    refine hset hp ⟨cl, hmemo, hkey, ?_, ?_⟩
    · simp only [Function.update_self]
      exact hwithin.goto hr
    · simp only [Function.update_idem]
      exact hret
  | ret p q key pt asleep sl r v _ hq hpc _ hr _ _ hp =>
    have hown := hget hq
    simp only [Ok, hpc] at hown
    obtain ⟨cl, -, -, hwithin, hret⟩ := hown
    exact hset hp (hret v _ (hwithin.ret hr))

/-- A program with a discipline keeps its promise to the routines. -/
theorem keeps (D : Discipline P) (h : ∀ q ∈ w.procs, D.Ok q) (hs : w.step P a = some w') :
    w.keeps P a := by
  intro held call hc
  cases a with
  | user p c =>
    simp only [World.calls] at hc
    split at hc
    · rename_i q hq
      split at hc
      · rename_i s call' u hstep
        obtain ⟨rfl, rfl⟩ : q.held = held ∧ call' = call := by simpa using hc
        -- the step is possible, so the process is in its own code
        have hpc : q.pc = .user := by
          simp only [World.step, hq] at hs
          split_ifs at hs with hpc
          exact hpc
        have hown := h q (List.mem_of_getElem? hq)
        simp only [Ok, hpc] at hown
        exact (D.call hown hstep).1.allowed
      · cases hc
    · cases hc
  | _ => cases hc

/-- The discipline in every run. -/
theorem reach (D : Discipline P) {s : S} {us : List U} {ok : World S U → Act U C → Prop}
    (hus : ∀ u ∈ us, D.Own u fun _ => none) (h : (machine P s us).Reach ok w) :
    ∀ q ∈ w.procs, D.Ok q := by
  apply h.invariant (I := fun w => ∀ q ∈ w.procs, D.Ok q)
  · rintro w rfl q hq
    obtain ⟨u, hu, rfl⟩ := List.mem_map.1 hq
    exact hus u hu
  · intro w a w' _ hD _ hs
    exact D.step hD hs

end Discipline

/-! ## Routines that do not end the program -/

section Survives

variable {sl sl' : Slot 3} {cs : List Client} {p : ℕ} {pt : Point} {asleep : Bool}
  {r : Except Errno ℕ} {held : Option ℕ} {id : ℕ} {S : SemSet 3}

/-- A `semop` on a set that is there, whose array cannot fail. -/
theorem perform_semop_ok {ops : List (Sembuf 3)} (hpt : pt.call = .semop id ops)
    (hcur : sl.cur = some (id, S)) (hok : ∀ e, S.semop p ops ≠ .fail e)
    (h : pt.perform sl p asleep = some (sl', r)) : r = .ok 0 := by
  rw [Point.perform, hpt] at h
  cases hop : S.semop p ops with
  | done S' =>
    simp only [Slot.call, Slot.find_eq_some.2 hcur, hop, Option.some.injEq, Prod.mk.injEq] at h
    exact h.2.symm
  | block => simp [Slot.call, Slot.find_eq_some.2 hcur, hop] at h
  | fail e => exact absurd hop (hok e)

/-- `sem_op` ends the program only if the value would pass `SEMVMX`, or the adjustment its
limit. -/
theorem sem_op_survives {n : ℤ} (hkept : Kept sl cs)
    (hc : cs[p]? = some ⟨some id, .at (.op_semop id n) asleep⟩)
    (hfit : ∀ S, sl.cur = some (id, S) → 0 ≤ (S.val 0 : ℤ) + n →
      (S.val 0 : ℤ) + n ≤ SEMVMX ∧ UndoFits (S.adj p 0 - n))
    (h : (Point.op_semop id n).perform sl p asleep = some (sl', r)) :
    ¬ ((Point.op_semop id n).resume r).fatal := by
  obtain ⟨S, hcur⟩ := hkept.there hc rfl
  have hok : r = .ok 0 := by
    refine perform_semop_ok rfl hcur (fun e he => ?_) h
    unfold op_op at he
    by_cases hlo : (S.val 0 : ℤ) + n < 0
    · simp only [SemSet.semop, SemSet.apply1, hlo, if_true] at he
      split_ifs at he
    · obtain ⟨hle, hundo⟩ := hfit S hcur (not_lt.1 hlo)
      simp only [SemSet.semop, SemSet.apply1, hlo, hundo, not_lt.2 hle, if_true, if_false] at he
      split_ifs at he
  rw [hok]
  exact not_false

/-- `sem_close` on a set that the caller has open never ends the program. -/
theorem sem_close_survives (hkept : Kept sl cs) (hlock : LockInv sl cs) (hcount : CountInv sl cs)
    {key : ℤ} (hc : cs[p]? = some ⟨held, .at pt asleep⟩)
    (hwithin : (Call.sem_close key id).Within held pt)
    (h : pt.perform sl p asleep = some (sl', r)) : ¬ (pt.resume r).fatal := by
  -- the counter of a set that somebody has, or has just had, open
  have hcounted : ∀ {i S}, sl.cur = some (i, S) →
      (held = some i ∨ Client.past i ⟨held, .at pt asleep⟩ = true) → Counted i S cs := by
    intro i S hcur hwhy
    refine (hcount.phase hcur).resolve_left fun hu => ?_
    rcases hwhy with rfl | hpast
    · have := not_of_countP_eq_zero _ hu.closed hc
      simp [Client.holds] at this
    · rw [hu.before hc] at hpast
      cases hpast
  cases pt with
  | close_op id' =>
    obtain ⟨rfl, rfl⟩ := hwithin
    obtain ⟨S, hcur⟩ := hkept.there hc rfl
    have hcount := hcounted hcur (.inl rfl)
    have hval := hcount.val
    have hok : r = .ok 0 := by
      refine perform_semop_ok rfl hcur (fun e he => ?_) h
      have hlock := (hlock.ledger hcur).undoFits (.inl rfl) p (d := -1) (by decide) (by decide)
      have hundo := hcount.ledger.undoFits (.inr rfl) p (d := -1) (by decide) (by decide)
      have hlt : S.val 1 < SEMVMX := by
        simp only [SEMVMX, BIGCOUNT] at hval ⊢
        omega
      rw [semop_close] at he
      split_ifs at he with hfree hfit
      exact hfit ⟨hlock, hlt, hundo⟩
    rw [hok]
    exact not_false
  | close_getval id' =>
    obtain ⟨S, hcur⟩ := hlock.there hc (i := id') rfl
    have hval := (hcounted hcur (.inr (by simp [Client.past, Point.past]))).val
    obtain ⟨-, ⟨S', hcur', rfl⟩ | ⟨hnone, -⟩⟩ := perform_getval rfl h
    · rw [hcur] at hcur'
      cases hcur'
      simp only [Point.resume]
      rw [if_neg (by omega)]
      split_ifs <;> exact not_false
    · exact absurd hcur (Slot.find_eq_none.1 hnone S)
  | rm id' =>
    obtain ⟨S, hcur⟩ := hlock.there hc (i := id') rfl
    rw [Point.perform] at h
    simp only [Point.call, Slot.call, Slot.find_eq_some.2 hcur, Option.some.injEq,
      Prod.mk.injEq] at h
    obtain ⟨-, rfl⟩ := h
    exact not_false
  | close_unlock id' =>
    obtain ⟨S, hcur⟩ := hlock.there hc (i := id') rfl
    have hok : r = .ok 0 := by
      refine perform_semop_ok rfl hcur (fun e he => ?_) h
      rw [semop_unlock] at he
      split_ifs at he with _ hfit
      exact hfit ((hlock.ledger hcur).undoFits (.inl rfl) p (by decide) (by decide))
    rw [hok]
    exact not_false
  | _ => exact hwithin.elim

/-- `sem_create` ends the program only if the set is gone when it asks for the
lock, or the initial value is out of range. -/
theorem sem_create_survives (hlock : LockInv sl cs) (hcount : CountInv sl cs) {key v : ℤ}
    (hc : cs[p]? = some ⟨held, .at pt asleep⟩)
    (hwithin : (Call.sem_create key v).Within held pt) (hv : 0 ≤ v ∧ v ≤ SEMVMX)
    (hthere : ∀ id v, pt = .create_lock id v → ∃ S, sl.cur = some (id, S))
    (h : pt.perform sl p asleep = some (sl', r)) : ¬ (pt.resume r).fatal := by
  -- the lock keeps the set there at every point behind the lock operation
  cases pt with
  | create_semget v' => cases r <;> exact not_false
  | create_lock id' v' =>
    obtain ⟨S, hcur⟩ := hthere id' v' rfl
    have hok : r = .ok 0 := by
      refine perform_semop_ok rfl hcur (fun e he => ?_) h
      rw [semop_lock] at he
      split_ifs at he with _ hfit
      exact hfit ((hlock.ledger hcur).undoFits (.inl rfl) p (d := -1) (by decide) (by decide))
    rw [hok]
    exact not_false
  | create_getval id' v' =>
    obtain ⟨S, hcur⟩ := hlock.there hc (i := id') rfl
    obtain ⟨-, ⟨S', -, rfl⟩ | ⟨hnone, -⟩⟩ := perform_getval rfl h
    · simp only [Point.resume]
      split_ifs <;> exact not_false
    · exact absurd hcur (Slot.find_eq_none.1 hnone S)
  | create_setval0 id' v' =>
    obtain ⟨rfl, -⟩ := hwithin
    obtain ⟨S, hcur⟩ := hlock.there hc (i := id') rfl
    rw [Point.perform] at h
    simp only [Point.call, Slot.call, Slot.find_eq_some.2 hcur] at h
    rw [if_neg (by omega)] at h
    obtain ⟨-, rfl⟩ : _ ∧ _ = r := by simpa using h
    exact not_false
  | create_setval1 id' =>
    obtain ⟨S, hcur⟩ := hlock.there hc (i := id') rfl
    rw [Point.perform] at h
    simp only [Point.call, Slot.call, Slot.find_eq_some.2 hcur] at h
    rw [if_neg (by decide)] at h
    obtain ⟨-, rfl⟩ : _ ∧ _ = r := by simpa using h
    exact not_false
  | create_endcreate id' =>
    obtain ⟨S, hcur⟩ := hlock.there hc (i := id') rfl
    have hok : r = .ok 0 := by
      refine perform_semop_ok rfl hcur (fun e he => ?_) h
      have hundo1 : UndoFits (S.adj p 1 + 1) := by
        rcases hcount.phase hcur with hu | hc
        · exact hu.ledger.undoFits (.inr rfl) p (by decide) (by decide)
        · exact hc.ledger.undoFits (.inr rfl) p (by decide) (by decide)
      have hundo2 := (hlock.ledger hcur).undoFits (.inl rfl) p (d := 1) (by decide) (by decide)
      rw [semop_endcreate, if_pos hundo1, if_pos hundo2] at he
      split_ifs at he
    rw [hok]
    exact not_false
  | _ => exact hwithin.elim

end Survives

end UnixNetProg.Semaphore

/-
`pitfall_1/lock_unlock.c`: the same lock without `SEM_UNDO`.

As long as nobody dies the two locks are the same: `forget` takes the adjustments out of a
state, and every run of this lock is a run of the other one with the adjustments forgotten
(`undone_of_reach`). So it excludes as the other one does.

For a process that dies the kernel has nothing to undo here (`exit_nothing`), so a death is
a crash that leaves everything as it is. `lock_again_iff` says what becomes of the others:
one that waits for the lock can still get it if and only if nobody has died with it.
-/
import UnixNetProg.Lib.Crashes
import UnixNetProg.UndoLock.Lock

set_option autoImplicit false

namespace UnixNetProg.UndoLock.NoUndo

open UnixNetProg.Pool UnixNetProg.Runs UnixNetProg.Runs.Machine UnixNetProg.SysV

/-! ## The program -/

/-- Wait for 0, then add 1 (`pitfalls/pitfall_1/lock_unlock.c:18-21`). -/
def op_lock : List (Sembuf 1) := [⟨sem, 0, false⟩, ⟨sem, 1, false⟩]

/-- Subtract 1; the flag is `IPC_NOWAIT` (`pitfall_1/lock_unlock.c:23-25`). -/
def op_unlock : List (Sembuf 1) := [⟨sem, -1, false⟩]

/-- The call that process `p` is in, of `my_lock` or `my_unlock`
(`pitfall_1/lock_unlock.c:29-66`). -/
def go (w : World) (p : ℕ) (q : Proc) : Option World :=
  match q.pc, q.semid with
  | .semget, _ =>
    match w.slot.call p false (.semget true) with
    | .done (slot, id) => some { slot := slot, procs := w.procs.set p ⟨some id, .lock false⟩ }
    | .block | .fail _ => some (w.exit p q (some "semget error"))
  | .lock asleep, some id =>
    some (w.semop p q id asleep op_lock .inside (some (.lock true)) "semop lock error")
  | .unlock, some id => some (w.semop p q id false op_unlock .outside none "semop unlock error")
  | .outside, _ | .inside, _ | .ended _, _ | .lock _, none | .unlock, none => none

/-- A step that is not a death. -/
def step (w : World) : Act → Option World
  | .spawn => w.step .spawn
  | .fork p => w.step (.fork p)
  | .lock p => w.step (.lock p)
  | .unlock p => w.step (.unlock p)
  | .go p => w.procs[p]?.bind fun q => go w p q
  | .die _ => none

def machine : Machine World Act where
  init := UndoLock.machine.init
  step := step

/-- The process that takes the step. -/
def actor : Act → Option ℕ
  | .spawn => none
  | .fork p | .lock p | .unlock p | .go p | .die p => some p

/-! ## Forgetting the adjustments -/

/-- A set without adjustments. -/
def forgetSet (S : SemSet 1) : SemSet 1 := { S with adj := fun _ _ => 0 }

def forgetSlot (sl : Slot 1) : Slot 1 :=
  { sl with cur := sl.cur.map fun c => (c.1, forgetSet c.2) }

def forget (w : World) : World := { w with slot := forgetSlot w.slot }

section Forget

variable {S : SemSet 1} {sl : Slot 1} {w : World} {p id : ℕ} {q : Proc}

/-- There are no other members than `sem`. -/
theorem forgetSet_eq (h : ∀ p, S.adj p sem = 0) : forgetSet S = S := by
  apply SemSet.ext
  · rfl
  · funext p m
    obtain rfl : m = sem := Subsingleton.elim m sem
    exact (h p).symm

theorem forgetSlot_eq (h : ∀ id S, sl.cur = some (id, S) → ∀ p, S.adj p sem = 0) :
    forgetSlot sl = sl := by
  obtain ⟨next, cur⟩ := sl
  cases cur with
  | none => rfl
  | some c =>
    have hset : forgetSet c.2 = c.2 := forgetSet_eq (h c.1 c.2 rfl)
    simp only [forgetSlot, Option.map_some, hset]

theorem forget_find : (forgetSlot sl).find id = (sl.find id).map forgetSet := by
  obtain ⟨next, cur⟩ := sl
  cases cur with
  | none => rfl
  | some c =>
    simp only [forgetSlot, Option.map_some, Slot.find]
    split_ifs <;> rfl

/-- What an array with undo does to the values, the one without does as well. -/
theorem semop_op_lock : (forgetSet S).semop p op_lock =
    if S.val sem = 0 then .done (forgetSet (S.shift p sem 1)) else .block := by
  have hval : (forgetSet S).val = S.val := rfl
  simp only [op_lock, SemSet.semop, SemSet.apply1_zero, hval]
  by_cases h : S.val sem = 0
  · have hfit : ¬ (SEMVMX : ℤ) < (S.val sem : ℤ) + 1 := by
      rw [h]
      decide
    have hwait : ¬ (S.val sem : ℤ) + 1 < 0 := by omega
    simp only [if_pos h, SemSet.apply1, hval, if_neg hfit, if_neg hwait, one_ne_zero, if_false,
      Bool.false_eq_true]
    rfl
  · simp only [if_neg h]

theorem semop_op_unlock : (forgetSet S).semop p op_unlock =
    if S.val sem = 0 then .block else .done (forgetSet (S.shift p sem (-1))) := by
  have hval : (forgetSet S).val = S.val := rfl
  have hle := S.val_le sem
  have hfit : ¬ (SEMVMX : ℤ) < (S.val sem : ℤ) + -1 := by omega
  simp only [op_unlock, SemSet.semop, SemSet.apply1, hval, if_neg hfit]
  by_cases h : S.val sem = 0
  · have hwait : (S.val sem : ℤ) + -1 < 0 := by omega
    simp only [if_pos h, if_pos hwait]
    simp
  · have hwait : ¬ (S.val sem : ℤ) + -1 < 0 := by omega
    simp only [if_neg h, if_neg hwait]
    rfl

theorem forget_put (S : SemSet 1) :
    forgetSlot (sl.put id S) = (forgetSlot sl).put id (forgetSet S) :=
  rfl

/-- `semget` does not look at the adjustments, and does not fail. -/
theorem forget_semget (sl : Slot 1) (p : ℕ) : ∃ sl' id,
    sl.call p false (.semget true) = .done (sl', id) ∧
      (forgetSlot sl).call p false (.semget true) = .done (forgetSlot sl', id) := by
  obtain ⟨next, cur⟩ := sl
  cases cur with
  | none => exact ⟨_, _, rfl, rfl⟩
  | some c => exact ⟨_, _, rfl, rfl⟩

/-- **The calls of the two locks correspond**, where nobody unlocks that has not locked. -/
theorem forget_go (h : LockInv w) (hq : w.procs[p]? = some q) :
    go (forget w) p q = (w.go p q).map forget := by
  cases hpc : q.pc with
  | semget =>
    obtain ⟨sl', id, hcall, hforget⟩ := forget_semget w.slot p
    simp only [go, World.go, hpc, forget, hcall, hforget, Option.map_some]
  | lock asleep =>
    obtain ⟨id, S, hid, hcur⟩ := h.find hq (named_of_lock hpc)
    have hfind : (forgetSlot w.slot).find id = some (forgetSet S) := by
      rw [forget_find, Slot.find_eq_some.2 hcur, Option.map_some]
    rw [go_lock h hpc hid hcur]
    simp only [go, hpc, hid, World.semop, Slot.call, forget, hfind, semop_op_lock]
    by_cases hzero : S.val sem = 0
    · simp only [if_pos hzero, Option.map_some]
      rfl
    · simp only [if_neg hzero, Option.map_some, World.put]
      rfl
  | unlock =>
    have hin : q.holds = true := by rw [Proc.holds, hpc]
    obtain ⟨id, S, hid, hcur⟩ := h.find hq (named_of_holds hin)
    have hval := h.val_of_holds hq hin hcur
    have hne : S.val sem ≠ 0 := by omega
    have hfind : (forgetSlot w.slot).find id = some (forgetSet S) := by
      rw [forget_find, Slot.find_eq_some.2 hcur, Option.map_some]
    rw [go_unlock h hpc hid hcur hne]
    simp only [go, hpc, hid, World.semop, Slot.call, forget, hfind, semop_op_unlock, if_neg hne,
      Option.map_some, forget_put]
  | outside | inside | ended msg => simp only [go, World.go, hpc, Option.map_none]

/-- **A step of this lock is a step of the other one.** -/
theorem forget_step (h : LockInv w) {a : Act} (ha : ∀ p, a ≠ .die p) :
    step (forget w) a = (w.step a).map forget := by
  cases a with
  | spawn => rfl
  | fork p | lock p | unlock p =>
    simp only [step, World.step, forget]
    cases w.procs[p]? with
    | none => rfl
    | some q =>
      simp only [Option.bind_some]
      split_ifs <;> rfl
  | go p =>
    simp only [step, World.step]
    cases hq : w.procs[p]? with
    | none => simp only [forget, hq, Option.bind_none, Option.map_none]
    | some q =>
      have hq' : (forget w).procs[p]? = some q := hq
      simp only [hq', Option.bind_some]
      exact forget_go h hq
  | die p => exact absurd rfl (ha p)

end Forget

/-! ## Runs without deaths -/

section Runs

variable {w : World}

/-- **Without deaths the two locks are the same.** -/
theorem undone_of_reach (h : machine.Reach (fun _ _ => True) w) :
    ∃ v, UndoLock.machine.Reach (fun _ _ => True) v ∧ w = forget v := by
  induction h with
  | @init w hw =>
    refine ⟨w, .init hw, ?_⟩
    rw [forget, forgetSlot_eq fun id S hcur => (hw.2 id S hcur).2]
  | @step w w' a _ _ hstep ih =>
    obtain ⟨v, hv, rfl⟩ := ih
    have ha : ∀ p, a ≠ .die p := by
      rintro p rfl
      cases hstep
    have hstep : step (forget v) a = some w' := hstep
    rw [forget_step (lockInv_of_reach hv) ha] at hstep
    obtain ⟨v', hv', rfl⟩ := Option.map_eq_some_iff.1 hstep
    exact ⟨v', .step hv trivial hv', rfl⟩

/-- The kernel has nothing to take back when a process dies. -/
theorem exit_nothing (h : machine.Reach (fun _ _ => True) w) (p : ℕ) : w.slot.exit p = w.slot := by
  obtain ⟨v, -, rfl⟩ := undone_of_reach h
  obtain ⟨⟨next, cur⟩, procs⟩ := v
  cases cur with
  | none => rfl
  | some c =>
    have hset : (forgetSet c.2).exit p = forgetSet c.2 := by
      apply SemSet.ext
      · funext m
        exact clamp_zero ((forgetSet c.2).val_le m)
      · funext p' m
        rw [SemSet.exit_adj]
        exact ite_self _
    simp only [forget, forgetSlot, Slot.exit, Option.map_some, hset]

end Runs

/-! ## Runs with deaths -/

/-- Any process may die, and leaves the semaphore as it is. -/
def deaths : Machine (World × List ℕ) (Act ⊕ ℕ) := machine.crashing actor

/-- Process `p` is between `my_lock` and `my_unlock`, or has died there. -/
def Has (w : World) (p : ℕ) : Prop := ∃ q, w.procs[p]? = some q ∧ q.holds = true

instance (w : World) (p : ℕ) : Decidable (Has w p) :=
  decidable_of_iff (w.procs[p]?.map Proc.holds = some true) Option.map_eq_some_iff

section Deaths

variable {w w' v v' : World} {x y : World × List ℕ} {p i : ℕ} {q : Proc} {a : Act}

theorem Has.unique (h : LockInv w) {j : ℕ} (hi : Has w i) (hj : Has w j) : i = j := by
  obtain ⟨q, hq, hholds⟩ := hi
  obtain ⟨q', hq', hholds'⟩ := hj
  exact eq_of_countP_le_one _ h.one hq hq' hholds hholds'

/-- A call changes the set, and the process that is in it. -/
theorem go_procs (hs : v.go p q = some v') : ∃ slot q', v' = ⟨slot, v.procs.set p q'⟩ := by
  have hsemop : ∀ {id asleep ops next wait msg},
      some (v.semop p q id asleep ops next wait msg) = some v' →
        ∃ slot q', v' = ⟨slot, v.procs.set p q'⟩ := by
    intro id asleep ops next wait msg hs
    obtain rfl := Option.some.inj hs
    unfold World.semop
    split
    · exact ⟨_, _, rfl⟩
    · split <;> exact ⟨_, _, rfl⟩
    · exact ⟨_, _, rfl⟩
  unfold World.go at hs
  split at hs
  · split at hs <;> cases hs <;> exact ⟨_, _, rfl⟩
  · exact hsemop hs
  · exact hsemop hs
  all_goals cases hs

/-- A step of another process does not change what this one has. -/
theorem has_of_step (hs : v.step a = some v') (ha : ∀ p, a ≠ .die p) (hne : actor a ≠ some p)
    (h : Has v p) : Has v' p := by
  obtain ⟨q, hq, hholds⟩ := h
  have hlt := (List.getElem?_eq_some_iff.1 hq).1
  have hset : ∀ {p' : ℕ} (q' : Proc), some p' ≠ some p → (v.procs.set p' q')[p]? = some q := by
    intro p' q' hne
    rw [List.getElem?_set_ne fun e => hne (congrArg some e)]
    exact hq
  cases a with
  | spawn =>
    obtain rfl := Option.some.inj hs
    exact ⟨q, (List.getElem?_append_left hlt).trans hq, hholds⟩
  | fork p' =>
    obtain ⟨q', -, hs⟩ := Option.bind_eq_some_iff.1 hs
    split_ifs at hs
    obtain rfl := Option.some.inj hs
    exact ⟨q, (List.getElem?_append_left hlt).trans hq, hholds⟩
  | lock p' | unlock p' =>
    obtain ⟨q', -, hs⟩ := Option.bind_eq_some_iff.1 hs
    split_ifs at hs
    obtain rfl := Option.some.inj hs
    exact ⟨q, hset _ hne, hholds⟩
  | go p' =>
    obtain ⟨q', -, hs⟩ := Option.bind_eq_some_iff.1 hs
    obtain ⟨slot, q'', rfl⟩ := go_procs hs
    exact ⟨q, hset _ hne, hholds⟩
  | die p' => exact absurd rfl (ha p')

/-- And so it is in this one. -/
theorem has_stays (hw : machine.Reach (fun _ _ => True) w) (hstep : machine.step w a = some w')
    (hne : actor a ≠ some i) (hi : Has w i) : Has w' i := by
  obtain ⟨v, hv, rfl⟩ := undone_of_reach hw
  have hdie : ∀ p, a ≠ .die p := by
    rintro p rfl
    cases hstep
  have hstep : step (forget v) a = some w' := hstep
  rw [forget_step (lockInv_of_reach hv) hdie] at hstep
  obtain ⟨v', hv', rfl⟩ := Option.map_eq_some_iff.1 hstep
  have hstays : Has v' i := has_of_step hv' hdie hne hi
  exact hstays

/-- The steps that are left between `my_lock` and the end of `my_unlock`. -/
def giveBack (i : ℕ) (_ : World) (a : Act) : Prop := a = .unlock i ∨ a = .go i

theorem given_back (h : LockInv v) (hq : v.procs[i]? = some q) (hpc : q.pc = .unlock) :
    ∃ v', v.step (.go i) = some v' ∧ v'.slot.value sem = 0 ∧
      ∀ j, j ≠ i → v'.procs[j]? = v.procs[j]? := by
  have hin : q.holds = true := by rw [Proc.holds, hpc]
  obtain ⟨id, S, hid, hcur⟩ := h.find hq (named_of_holds hin)
  have hval := h.val_of_holds hq hin hcur
  have hgo := go_unlock (p := i) h hpc hid hcur (by omega)
  have hstep : v.step (.go i) = some _ := Option.bind_eq_some_iff.2 ⟨q, hq, hgo⟩
  refine ⟨_, hstep, ?_, fun j hj => List.getElem?_set_ne (Ne.symm hj)⟩
  rw [Slot.value_of_cur (Slot.put_cur _ _ _), SemSet.shift_val, hval]
  rfl

/-- **Whoever has the lock can give it back on its own.** -/
theorem can_give_back (h : LockInv v) (hi : Has v i) :
    ∃ v', (UndoLock.machine.startedAt v).Reach (giveBack i) v' ∧ v'.slot.value sem = 0 ∧
      ∀ j, j ≠ i → v'.procs[j]? = v.procs[j]? := by
  obtain ⟨q, hq, hholds⟩ := hi
  have hlt := (List.getElem?_eq_some_iff.1 hq).1
  have hstart : (UndoLock.machine.startedAt v).Reach (giveBack i) v := .init rfl
  cases hpc : q.pc with
  | unlock =>
    obtain ⟨v', hstep, hzero, hsame⟩ := given_back h hq hpc
    exact ⟨v', hstart.step (.inr rfl) hstep, hzero, hsame⟩
  | inside =>
    have hfirst : v.step (.unlock i) = some (v.put i { q with pc := .unlock }) := by
      simp only [World.step, hq, Option.bind_some, if_pos hpc]
    obtain ⟨v', hstep, hzero, hsame⟩ :=
      given_back (h.step hfirst) (List.getElem?_set_self hlt) rfl
    refine ⟨v', (hstart.step (.inl rfl) hfirst).step (.inr rfl) hstep, hzero, fun j hj => ?_⟩
    exact (hsame j hj).trans (List.getElem?_set_ne (Ne.symm hj))
  | outside | semget | lock asleep | ended msg =>
    rw [Proc.holds, hpc] at hholds
    cases hholds

/-- What the living can do with undo, they can do without. -/
theorem reach_of_undo {d : List ℕ} {ok : World → Act → Prop} (h : LockInv v)
    (hok : ∀ w a, ok w a → (∀ p, a ≠ .die p) ∧ ∀ i ∈ d, actor a ≠ some i)
    (hv : (UndoLock.machine.startedAt v).Reach ok v') :
    LockInv v' ∧ (deaths.startedAt (forget v, d)).Reach noCrash (forget v', d) := by
  induction hv with
  | init hs =>
    obtain rfl := hs
    exact ⟨h, .init rfl⟩
  | @step u u' a _ hu hstep ih =>
    have hstep : u.step a = some u' := hstep
    obtain ⟨hdie, hlive⟩ := hok u a hu
    have hundone : machine.step (forget u) a = some (forget u') := by
      rw [show machine.step (forget u) a = step (forget u) a from rfl, forget_step ih.1 hdie, hstep]
      rfl
    refine ⟨ih.1.step hstep, ih.2.step (a := .inl a) trivial ?_⟩
    exact crashing_inl (x := (forget u, d)) hundone hlive

/-- **As long as nobody has died with the lock, one that waits can get it.** -/
theorem can_lock (h : LockInv v) {d : List ℕ} (hclean : ∀ i ∈ d, ¬ Has v i)
    (hq : v.procs[p]? = some q) {asleep : Bool} (hpc : q.pc = .lock asleep) (hlive : p ∉ d) :
    ∃ v', (deaths.startedAt (forget v, d)).Reach noCrash (forget v', d) ∧ Has v' p := by
  have hnot : ¬ Has v p := by
    rintro ⟨q', hq', hholds⟩
    obtain rfl : q = q' := Option.some.inj (hq.symm.trans hq')
    rw [Proc.holds, hpc] at hholds
    cases hholds
  -- the lock is free, or is given back first
  obtain ⟨u, hu, hzero, hsame⟩ : ∃ u, LockInv u ∧ u.slot.value sem = 0 ∧
      u.procs[p]? = some q ∧
      (deaths.startedAt (forget v, d)).Reach noCrash (forget u, d) := by
    by_cases hany : ∃ i, Has v i
    · obtain ⟨i, hi⟩ := hany
      obtain ⟨u, hu, hzero, hsame⟩ := can_give_back h hi
      have hne : p ≠ i := fun e => hnot (e ▸ hi)
      have hback : ∀ w a, giveBack i w a → (∀ p, a ≠ .die p) ∧ ∀ j ∈ d, actor a ≠ some j := by
        intro w a ha
        have hother : ∀ j ∈ d, some i ≠ some j := fun j hj e =>
          hclean j hj (Option.some.inj e ▸ hi)
        rcases ha with rfl | rfl
        · exact ⟨fun p e => (by cases e), hother⟩
        · exact ⟨fun p e => (by cases e), hother⟩
      obtain ⟨hinv, hreach⟩ := reach_of_undo h hback hu
      exact ⟨u, hinv, hzero, (hsame p hne).trans hq, hreach⟩
    · refine ⟨v, h, ?_, hq, .init rfl⟩
      have hnone : v.procs.any Proc.holds = false := by
        by_contra hholds
        obtain ⟨r, hmem, hr⟩ := List.any_eq_true.1 (by simpa using hholds)
        obtain ⟨i, hi⟩ := List.mem_iff_getElem?.1 hmem
        exact hany ⟨i, r, hi, hr⟩
      rw [h.value_eq, hnone]
      rfl
  obtain ⟨hq, hreach⟩ := hsame
  obtain ⟨v', hstep, hin⟩ := hu.proceeds hzero hq hpc
  have hundone : machine.step (forget u) (.go p) = some (forget v') := by
    rw [show machine.step (forget u) (.go p) = step (forget u) (.go p) from rfl,
      forget_step hu (fun p e => by cases e), hstep]
    rfl
  refine ⟨v', hreach.step (a := .inl (.go p)) trivial ?_, _, hin, rfl⟩
  exact crashing_inl (x := (forget u, d)) hundone fun i hi e => hlive (Option.some.inj e ▸ hi)

/-- **Nobody gets the lock that one has died with.** -/
theorem never_again (h : deaths.Reach (orCrash fun _ _ => True) x) (hi : i ∈ x.2)
    (hhas : Has x.1 i) (hy : (deaths.startedAt x).Reach (orCrash fun _ _ => True) y)
    (hp : Has y.1 p) : p = i := by
  have hone : ∀ s i j, machine.Reach (fun _ _ => True) s → Has s i → Has s j → i = j := by
    intro s i j hs hi hj
    obtain ⟨v, hv, rfl⟩ := undone_of_reach hs
    exact Has.unique (lockInv_of_reach hv) hi hj
  have hstay : ∀ s a t i, machine.Reach (fun _ _ => True) s → True → machine.step s a = some t →
      actor a ≠ some i → Has s i → Has t i := by
    intro s a t j hs _ hstep hne hj
    exact has_stays hs hstep hne hj
  exact (h.abandoned hone hstay hi hhas hy).2 p hp

end Deaths

end UnixNetProg.UndoLock.NoUndo

/-
Removal by the last closer.

`sem_close` removes the set after reading `BIGCOUNT` from `[1]`, in a system
call of its own. The lock keeps other closers and `sem_create` out from the
read to the removal, but `sem_open` takes no lock: one that falls in between is
counted too late, and its caller is left with the identifier of a removed set
(`set_in_use_removed`). That is the only way it can happen
(`set_in_use_not_removed`).

`sem_create` looks the set up and asks for its lock in two system calls, and
goes back to the start when the set has been removed in between. It recognises
that by `EINVAL`, which is what a caller that was not asleep sees. A caller
that was asleep sees `EIDRM`, and dies (`sleeping_creator_dies`); nothing else
about a removal kills a caller of `sem_create` (`creator_survives_removal`).
-/
import UnixNetProg.Semaphore.Creation

set_option autoImplicit false

namespace UnixNetProg.Semaphore

open UnixNetProg.SysV UnixNetProg.Runs UnixNetProg.Pool

/-! ## A set in use -/

/-- The client is about to remove set `i`: `[1]` was `BIGCOUNT`. -/
def Client.removes (i : ℕ) (c : Client) : Bool :=
  match c.place with
  | .at (.rm id) _ => id == i
  | _ => false

/-- A system call that opens a set does not fall between a closer's reading of
the counter and its removal of the set. -/
def Point.timely (cs : List Client) : Point → Prop
  | .open_op i => ∀ c ∈ cs, c.removes i = false
  | _ => True

/-- The system call made on `key` in this step, if any, is `timely`. -/
def World.timely {S U C : Type} (key : ℤ) (w : World S U) (a : Act U C) : Prop :=
  ∀ pt ∈ w.sysAt key a, pt.timely (w.clients key)

instance (cs : List Client) : ∀ pt : Point, Decidable (pt.timely cs)
  | .open_op i => inferInstanceAs (Decidable (∀ c ∈ cs, c.removes i = false))
  | .create_semget _ | .create_lock .. | .create_getval .. | .create_setval0 .. | .create_setval1 _
  | .create_endcreate _ | .open_semget | .rm _ | .close_op _ | .close_getval _ | .close_unlock _
  | .op_semop .. => isTrue trivial

instance {S U C : Type} (key : ℤ) (w : World S U) (a : Act U C) : Decidable (w.timely key a) :=
  inferInstanceAs (Decidable (∀ pt ∈ w.sysAt key a, pt.timely (w.clients key)))

/-- Whoever has a set open has one that is there, and nobody has it open while
its closer is about to remove it. -/
structure Kept (sl : Slot 3) (cs : List Client) : Prop where
  there : ∀ {p : ℕ} {c : Client} {i : ℕ}, cs[p]? = some c → c.held = some i →
    ∃ S, sl.cur = some (i, S)
  last : ∀ {p : ℕ} {c : Client} {i : ℕ} {asleep : Bool}, cs[p]? = some c →
    c.place = .at (.rm i) asleep → cs.countP (Client.holds i) = 0

namespace Kept

variable {good : Prop} {sl sl' : Slot 3} {cs : List Client} {p i : ℕ} {c c' : Client}
  {S S' : SemSet 3} {l : Option Point}

/-- A client that opens nothing and does not get to the removal. -/
theorem quiet (h : Kept sl cs) (hq : cs[p]? = some c) (hheld : c'.held = c.held ∨ c'.held = none)
    (hplace : ∀ i asleep, c'.place = .at (.rm i) asleep → ∃ asleep', c.place = .at (.rm i) asleep')
    (hstays : sl.Stays sl') :
    Kept sl' (cs.set p c') where
  there := fun {p' c'' i} hp hi => by
    have hold : ∃ S, sl.cur = some (i, S) := by
      rcases getElem?_set_cases hp with ⟨-, rfl, -⟩ | ⟨-, hp⟩
      · rcases hheld with hh | hh
        · exact h.there hq (hh ▸ hi)
        · rw [hh] at hi
          cases hi
      · exact h.there hp hi
    obtain ⟨S, hS⟩ := hold
    exact hstays i S hS
  last := fun {p' c'' i asleep} hp hi => by
    have hzero : cs.countP (Client.holds i) = 0 := by
      rcases getElem?_set_cases hp with ⟨-, rfl, -⟩ | ⟨-, hp⟩
      · obtain ⟨asleep', hc⟩ := hplace i asleep hi
        exact h.last hq hc
      · exact h.last hp hi
    have hcount := countP_set_add (Client.holds i) hq c'
    have hc' : c'.holds i = false := by
      rcases hheld with hh | hh
      · have := not_of_countP_eq_zero _ hzero hq
        simpa [Client.holds, hh] using this
      · simp [Client.holds, hh]
    rw [hc', Bool.toNat_false] at hcount
    omega

/-- A client opens the set, while nobody is about to remove it. -/
theorem enter (h : Kept sl cs) (hq : cs[p]? = some c) (hcur : sl.cur = some (i, S))
    (hno : ∀ {p' : ℕ} {c'' : Client} {asleep : Bool}, cs[p']? = some c'' →
      c''.place ≠ .at (.rm i) asleep) :
    Kept (sl.put i S') (cs.set p ⟨some i, .away⟩) where
  there := fun {p' c'' j} hp hj => by
    have hij : j = i := by
      rcases getElem?_set_cases hp with ⟨-, rfl, -⟩ | ⟨-, hp⟩
      · exact (Option.some.inj hj).symm
      · obtain ⟨T, hT⟩ := h.there hp hj
        exact (Slot.cur_unique hcur hT).1.symm
    rw [hij]
    exact ⟨S', rfl⟩
  last := fun {p' c'' j asleep} hp hj => by
    rcases getElem?_set_cases hp with ⟨-, rfl, -⟩ | ⟨-, hp⟩
    · cases hj
    · have hzero := h.last hp hj
      have hne : i ≠ j := by
        rintro rfl
        exact hno hp hj
      have hcount := countP_set_add (Client.holds j) hq ⟨some i, .away⟩
      have hf : Client.holds j ⟨some i, .away⟩ = false := by simpa [Client.holds] using hne
      rw [hf, Bool.toNat_false] at hcount
      omega

/-- **Every line of the table keeps sets in use where they are**, provided
`op_open` is timely. -/
theorem trans (h : Kept sl cs) (hlock : LockInv sl cs) (hcount : CountInv sl cs)
    (hq : cs[p]? = some c) (ht : Trans good p l sl c sl' c')
    (htime : ∀ pt ∈ l, pt.timely cs) : Kept sl' (cs.set p c') := by
  cases ht with
  | die =>
    exact h.quiet hq (.inr rfl) (fun i asleep hi => by cases hi) (.exit sl p)
  | enter_create | enter_open | enter_op | enter_close | no_set | create_found | again
  | getval_zero | getval_pos | open_found | close_more | op_none =>
    exact h.quiet hq (.inl rfl) (fun i asleep hi => by cases hi) (.refl sl)
  | sleep =>
    refine h.quiet hq (.inl rfl) (fun i asleep hi => ?_) (.refl sl)
    cases hi
    exact ⟨_, rfl⟩
  | create_new hnone =>
    exact h.quiet hq (.inl rfl) (fun i asleep hi => by cases hi) (.of_none hnone _)
  | lock hj | setval0 hj | setval1 hj | unlock hj | op hj =>
    exact h.quiet hq (.inl rfl) (fun i asleep hi => by cases hi) (.put hj _)
  | @endcreate _ held i S asleep hj =>
    -- the closer about to remove the set would have the lock of the creator
    refine h.enter hq hj fun {p' c'' asleep'} hp hi => ?_
    have hlocked : c''.lockId = some i := by rw [Client.lockId, hi]; rfl
    obtain rfl := hlock.unique hp hq hlocked rfl
    rw [hq] at hp
    cases hp
    cases hi
  | @opened _ held i S asleep hj =>
    refine h.enter hq hj fun {p' c'' asleep'} hp hi => ?_
    have hno := htime _ rfl c'' (List.mem_of_getElem? hp)
    simp [Client.removes, hi] at hno
  | close hj => exact h.quiet hq (.inr rfl) (fun i asleep hi => by cases hi) (.put hj _)
  | @close_last _ held i S asleep hj hlast =>
    -- the counter says that nobody has the set open
    have hpast : Client.past i ⟨held, .at (.close_getval i) asleep⟩ = true := by
      simp [Client.past, Point.past]
    have hzero : cs.countP (Client.holds i) = 0 := by
      rcases hcount.phase hj with hu | hc
      · rw [hu.before hq] at hpast
        cases hpast
      · have := hc.val
        omega
    refine ⟨fun {p' c'' j} hp hi => ?_, fun {p' c'' j asleep'} hp hi => ?_⟩
    · rcases getElem?_set_cases hp with ⟨-, rfl, -⟩ | ⟨-, hp⟩
      · exact h.there hq hi
      · exact h.there hp hi
    · have hold : cs.countP (Client.holds j) = 0 := by
        rcases getElem?_set_cases hp with ⟨-, rfl, -⟩ | ⟨-, hp⟩
        · cases hi
          exact hzero
        · exact h.last hp hi
      have hmove := countP_set_add (Client.holds j) hq ⟨held, .at (.rm i) false⟩
      have hsame : Client.holds j ⟨held, .at (.rm i) false⟩
          = Client.holds j ⟨held, .at (.close_getval i) asleep⟩ := rfl
      rw [hsame] at hmove
      omega
  | @removed _ held i S asleep hj =>
    have hzero := h.last hq rfl
    refine ⟨fun {p' c'' j} hp hi => ?_, fun {p' c'' j asleep'} hp hi => ?_⟩
    · -- whoever has a set open has this one, and nobody has
      have hopen : ∃ (p₀ : ℕ) (c₀ : Client), cs[p₀]? = some c₀ ∧ c₀.held = some j := by
        rcases getElem?_set_cases hp with ⟨-, rfl, -⟩ | ⟨-, hp⟩
        · exact ⟨p, _, hq, hi⟩
        · exact ⟨p', _, hp, hi⟩
      obtain ⟨p₀, c₀, hp₀, hi₀⟩ := hopen
      obtain ⟨T, hT⟩ := h.there hp₀ hi₀
      obtain ⟨rfl, -⟩ := Slot.cur_unique hj hT
      have := not_of_countP_eq_zero _ hzero hp₀
      simp [Client.holds, hi₀] at this
    · rcases getElem?_set_cases hp with ⟨-, rfl, -⟩ | ⟨hne, hp⟩
      · cases hi
      · have hlocked : c''.lockId = some j := by rw [Client.lockId, hi]; rfl
        obtain ⟨T, hT⟩ := hlock.there hp hlocked
        obtain ⟨rfl, -⟩ := Slot.cur_unique hj hT
        exact absurd (hlock.unique hp hq hlocked rfl) hne

/-- A new client has nothing open. -/
theorem append (h : Kept sl cs) : Kept sl (cs ++ [⟨none, .away⟩]) where
  there := fun hp hi => by
    rcases getElem?_append_cases hp with ⟨-, rfl⟩ | hp
    · cases hi
    · exact h.there hp hi
  last := fun hp hi => by
    rcases getElem?_append_cases hp with ⟨-, rfl⟩ | hp
    · cases hi
    · rw [List.countP_append, h.last hp hi]
      rfl

end Kept

/-- The removals of sets of `key` are safe: a set about to be removed has no
users, and no live process has the identifier of a set that is not there. -/
structure SafeRemoval {S U : Type} (key : ℤ) (w : World S U) : Prop where
  unused : ∀ (p : ℕ) (q : Proc U) (i : ℕ) (asleep : Bool), w.procs[p]? = some q →
    q.pc = .lib key (.rm i) asleep →
    w.users key i = 0
  noStale : ∀ q ∈ w.procs, ∀ i : ℕ, q.pc ≠ .dead → q.held key = some i →
    ∃ T, (w.sem key).cur = some (i, T)

section InUse

variable {S U C : Type} {P : Program S U C} {s : S} {us : List U} {w w' : World S U}
  {a : Act U C} {key : ℤ}

/-- Sets in use are kept by a step that is timely. -/
theorem Kept.step (h : Kept (w.sem key) (w.clients key))
    (hlock : LockInv (w.sem key) (w.clients key)) (hcount : CountInv (w.sem key) (w.clients key))
    (hkeep : w.keeps P a) (htimely : w.timely key a) (hs : w.step P a = some w') :
    Kept (w'.sem key) (w'.clients key) := by
  have hk := World.step_key hs hkeep.spares key
  generalize w'.sem key = sl' at hk ⊢
  generalize w'.clients key = cs' at hk ⊢
  cases hk with
  | idle => exact h
  | spawn => exact h.append
  | proc hq ht hact =>
    refine h.trans hlock hcount hq ht fun pt hpt => ?_
    obtain rfl := hpt
    exact htimely pt (sysAt_of_trans hq ht (hact (by simp)))

theorem Kept.start (key : ℤ) (s : S) (us : List U) :
    Kept ((World.start s us).sem key) ((World.start s us).clients key) where
  there := fun hc hi => by
    rw [clients_start_get hc] at hi
    cases hi
  last := fun hc hi => by
    rw [clients_start_get hc] at hi
    cases hi

/-- Sets in use are kept, in every run whose steps are timely. -/
theorem kept_of_reach {ok : World S U → Act U C → Prop}
    (hok : ∀ w a, ok w a → w.keeps P a ∧ w.roomy key a ∧ w.timely key a)
    (h : (machine P s us).Reach ok w) : Kept (w.sem key) (w.clients key) := by
  apply h.invariant (I := fun w => Kept (w.sem key) (w.clients key))
  · rintro w rfl
    exact Kept.start key s us
  · intro w a w' hw hinv hwa hstep
    obtain ⟨hkeep, hroomy, htimely⟩ := hok w a hwa
    have hlock := lockInv_of_reach (fun w a h => (hok w a h).1.spares) hw key
    have hcount : CountInv (w.sem key) (w.clients key) :=
      countInv_of_reach (fun w a h => ⟨(hok w a h).1, (hok w a h).2.1⟩) hw
    exact hinv.step hlock hcount hkeep htimely hstep

/-- **A set in use is removed only if somebody opens it between the closer's
reading of the counter and its removal of the set.** In every run in which no
`op_open` falls there, the callers keep their promise and no `sem_create` reads
a counter that `BIGCOUNT` users have taken to 0: whenever `sem_close` is about
to remove the set it has no users, and no live process ever has the identifier
of a removed set. -/
theorem set_in_use_not_removed
    (h : (machine P s us).Reach
      (fun w a => w.keeps P a ∧ w.roomy key a ∧ w.timely key a) w) :
    SafeRemoval key w := by
  have hkept : Kept (w.sem key) (w.clients key) := kept_of_reach (fun _ _ h => h) h
  have hcount : CountInv (w.sem key) (w.clients key) :=
    countInv_of_reach (fun _ _ h => ⟨h.1, h.2.1⟩) h
  refine ⟨fun p q i asleep hq hpc => ?_, fun q hq i _ hi => ?_⟩
  · rw [users_eq_countP hcount]
    have hclient := clients_getElem? key hq
    rw [Proc.view, hpc, Pc.view, if_pos rfl] at hclient
    exact hkept.last hclient rfl
  · obtain ⟨p, hp⟩ := List.mem_iff_getElem?.1 hq
    exact hkept.there (clients_getElem? _ hp) hi

end InUse

/-- Two processes share the set and close it, one after the other. -/
theorem set_in_use_not_removed_run :
    ∃ w, (machine script ()
      [[.sem_create 5 1, .sem_close 5 0], [.sem_open 5, .sem_close 5 0]]).Reach
        (fun w a => w.keeps script a ∧ w.roomy 5 a ∧ w.timely 5 a) w ∧
      .sys 1 5 (.rmid 0) (.ok 0) ∈ w.log ∧ SafeRemoval 5 w := by
  have hrun := Machine.Reach.run
    (machine script () [[.sem_create 5 1, .sem_close 5 0], [.sem_open 5, .sem_close 5 0]])
    (fun w a => w.keeps script a ∧ w.roomy 5 a ∧ w.timely 5 a) rfl
    [.user 0 (), .sys 0, .sys 0, .sys 0, .sys 0, .sys 0, .sys 0, .user 1 (), .sys 1, .sys 1,
      .user 0 (), .sys 0, .sys 0, .sys 0, .user 1 (), .sys 1, .sys 1, .sys 1] (by decide +kernel)
  exact ⟨_, hrun, by decide +kernel, set_in_use_not_removed hrun⟩

/-- **A set in use is removed.** The closer reads `BIGCOUNT`, another process
opens the set, the closer removes it: the opener has the identifier of a set
that is gone. -/
theorem set_in_use_removed :
    ¬ ∀ w, (machine script () [[.sem_create 5 1, .sem_close 5 0], [.sem_open 5]]).Reach
        (Orderly script) w → SafeRemoval 5 w := by
  intro hall
  have hrun := Machine.Reach.run
    (machine script () [[.sem_create 5 1, .sem_close 5 0], [.sem_open 5]])
    (Orderly script) rfl
    [.user 0 (), .sys 0, .sys 0, .sys 0, .sys 0, .sys 0, .sys 0, .user 1 (), .sys 1,
      .user 0 (), .sys 0, .sys 0, .sys 1, .sys 0] (by decide +kernel)
  obtain ⟨w, hw, hopener, hgone⟩ : ∃ w,
      (machine script () [[.sem_create 5 1, .sem_close 5 0], [.sem_open 5]]).Reach
        (Orderly script) w ∧
      (w.procs[1]?.map fun q => (q.pc, q.held 5)) = some (.user, some 0) ∧
      (w.sem 5).cur.isNone = true :=
    ⟨_, hrun, by decide +kernel, by decide +kernel⟩
  obtain ⟨q, hq, hv⟩ := Option.map_eq_some_iff.1 hopener
  obtain ⟨hpc, hheld⟩ : q.pc = .user ∧ q.held 5 = some 0 := by simpa using hv
  obtain ⟨T, hT⟩ := (hall w hw).noStale q (List.mem_of_getElem? hq) 0 (by simp [hpc]) hheld
  simp [hT] at hgone

/-! ## A `sem_create` that finds the set gone -/

/-- The points of `sem_create`. -/
def Point.creates : Point → Bool
  | .create_semget _ | .create_lock _ _ | .create_getval _ _ | .create_setval0 _ _
  | .create_setval1 _ | .create_endcreate _ => true
  | _ => false

/-- The client is asleep in `sem_create`, waiting for the lock of set `i`. -/
def Client.dozes (i : ℕ) (c : Client) : Bool :=
  match c.place with
  | .at (.create_lock id _) true => id == i
  | _ => false

/-- A system call that removes a set does so while nobody is asleep in
`sem_create` waiting for its lock. -/
def Point.gentle (cs : List Client) : Point → Prop
  | .rm i => ∀ c ∈ cs, c.dozes i = false
  | _ => True

/-- The system call made on `key` in this step, if any, is `gentle`. -/
def World.gentle {S U C : Type} (key : ℤ) (w : World S U) (a : Act U C) : Prop :=
  ∀ pt ∈ w.sysAt key a, pt.gentle (w.clients key)

instance (cs : List Client) : ∀ pt : Point, Decidable (pt.gentle cs)
  | .rm i => inferInstanceAs (Decidable (∀ c ∈ cs, c.dozes i = false))
  | .create_semget _ | .create_lock .. | .create_getval .. | .create_setval0 .. | .create_setval1 _
  | .create_endcreate _ | .open_semget | .open_op _ | .close_op _ | .close_getval _
  | .close_unlock _
  | .op_semop .. => isTrue trivial

instance {S U C : Type} (key : ℤ) (w : World S U) (a : Act U C) : Decidable (w.gentle key a) :=
  inferInstanceAs (Decidable (∀ pt ∈ w.sysAt key a, pt.gentle (w.clients key)))

/-- A removed set does not end `sem_create`: the only call of it that meets
`EINVAL` or `EIDRM` is the lock operation, and its next step is `semget`. -/
def CreatorSurvives {S U : Type} (key : ℤ) (w : World S U) : Prop :=
  ∀ (p : ℕ) (q : Proc U) (pt : Point) (asleep : Bool) (sl : Slot 3) (e : Errno),
    w.procs[p]? = some q → q.pc = .lib key pt asleep → pt.creates = true →
    pt.perform (w.sem key) p asleep = some (sl, .error e) → e = .EINVAL ∨ e = .EIDRM →
    ∃ i initval, pt = .create_lock i initval ∧
      pt.resume (.error e) = .goto (.create_semget initval)

/-- Whoever sleeps in `sem_create` sleeps on a set that is there. -/
def Dozing (sl : Slot 3) (cs : List Client) : Prop :=
  ∀ (p : ℕ) (c : Client) (i : ℕ), cs[p]? = some c → c.dozes i = true → ∃ S, sl.cur = some (i, S)

namespace Dozing

variable {good : Prop} {sl sl' : Slot 3} {cs : List Client} {p i : ℕ} {c c' : Client}
  {S S' : SemSet 3} {l : Option Point}

/-- A client that is not asleep afterwards, and no removal. -/
theorem quiet (h : Dozing sl cs) (hc' : ∀ i, c'.dozes i = false)
    (hstays : sl.Stays sl') :
    Dozing sl' (cs.set p c') := by
  intro p' c'' i hp hi
  rcases getElem?_set_cases hp with ⟨-, rfl, -⟩ | ⟨-, hp⟩
  · rw [hc'] at hi
    cases hi
  · obtain ⟨S, hS⟩ := h _ _ _ hp hi
    exact hstays i S hS

/-- **Every line of the table leaves sleepers their set**, provided the removal
is gentle. -/
theorem trans (h : Dozing sl cs) (hq : cs[p]? = some c) (ht : Trans good p l sl c sl' c')
    (hgentle : ∀ pt ∈ l, pt.gentle cs) : Dozing sl' (cs.set p c') := by
  cases ht with
  | die =>
    exact h.quiet (fun _ => rfl) (.exit sl p)
  | @sleep _ held pt hwait =>
    -- it went to sleep because the set is there
    intro p' c'' i hp hi
    rcases getElem?_set_cases hp with ⟨-, rfl, -⟩ | ⟨-, hp⟩
    · cases pt with
      | create_lock id initval =>
        obtain rfl : id = i := by simpa [Client.dozes] using hi
        have hblock : sl.call p false (Point.create_lock id initval).call = .block := by
          unfold Point.perform at hwait
          split at hwait
          · cases hwait
          · cases hwait
          · assumption
        obtain ⟨j, S, hj, hfind⟩ := Slot.find_of_call_block hblock
        obtain rfl : id = j := Option.some.inj hj
        exact ⟨S, Slot.find_eq_some.1 hfind⟩
      | _ => simp [Client.dozes] at hi
    · exact h _ _ _ hp hi
  | create_new hnone =>
    exact h.quiet (fun _ => rfl) (.of_none hnone _)
  | @removed _ held i S asleep hj =>
    intro p' c'' j hp hi
    rcases getElem?_set_cases hp with ⟨-, rfl, -⟩ | ⟨-, hp⟩
    · cases hi
    · -- the sleeper would sleep on the set that is removed
      obtain ⟨T, hT⟩ := h _ _ _ hp hi
      obtain ⟨rfl, -⟩ := Slot.cur_unique hj hT
      have hno := hgentle _ rfl c'' (List.mem_of_getElem? hp)
      rw [hi] at hno
      cases hno
  | lock hj | setval0 hj | setval1 hj | endcreate hj | opened hj | close hj | unlock hj | op hj =>
    exact h.quiet (fun _ => rfl) (.put hj _)
  | _ => exact h.quiet (fun _ => rfl) (.refl sl)

/-- A new client is not asleep. -/
theorem append (h : Dozing sl cs) : Dozing sl (cs ++ [⟨none, .away⟩]) := by
  intro p c i hp hi
  rcases getElem?_append_cases hp with ⟨-, rfl⟩ | hp
  · cases hi
  · exact h _ _ _ hp hi

end Dozing

section Creators

variable {S U C : Type} {P : Program S U C} {s : S} {us : List U} {w w' : World S U}
  {a : Act U C} {key : ℤ}

/-- Sleepers keep their set in every run whose removals are gentle. -/
theorem dozing_of_reach
    (h : (machine P s us).Reach (fun w a => w.spares P a ∧ w.gentle key a) w) :
    Dozing (w.sem key) (w.clients key) := by
  apply h.invariant (I := fun w => Dozing (w.sem key) (w.clients key))
  · rintro w rfl p c i hc hi
    rw [clients_start_get hc] at hi
    cases hi
  · intro w a w' hw hinv ha hstep
    have hk := World.step_key hstep ha.1 key
    generalize w'.sem key = sl' at hk ⊢
    generalize w'.clients key = cs' at hk ⊢
    cases hk with
    | idle => exact hinv
    | spawn => exact hinv.append
    | proc hq ht hact =>
      refine hinv.trans hq ht fun pt hpt => ?_
      obtain rfl := hpt
      exact ha.2 pt (sysAt_of_trans hq ht (hact (by simp)))

/-- A point of `sem_create` after its lock operation has the lock. -/
theorem Point.lockId_of_creates {pt : Point} (hpt : pt.creates = true)
    (hget : pt.isSemget = false) (hlock : ∀ i v, pt ≠ .create_lock i v) :
    ∃ i, pt.lockId = some i ∧ pt.call.id? = some i := by
  cases pt <;>
    first
      | exact ⟨_, rfl, rfl⟩
      | exact (hlock _ _ rfl).elim
      | (cases hpt; done)
      | cases hget

/-- What the kernel says to a call that fails. -/
theorem perform_error {pt : Point} {sl sl' : Slot 3} {p : ℕ} {asleep : Bool} {e : Errno}
    (h : pt.perform sl p asleep = some (sl', .error e)) : sl.call p asleep pt.call = .fail e := by
  unfold Point.perform at h
  split at h
  · cases h
  · rename_i hfail
    rw [hfail]
    cases h
    rfl
  · cases h

/-- **A removal kills a caller of `sem_create` only in its sleep.** In every run
in which nobody removes a set while a `sem_create` sleeps waiting for its lock,
for any number of processes: a set that is gone shows only in the lock
operation, as `EINVAL`, and `sem_create` goes on with a fresh `semget`. -/
theorem creator_survives_removal
    (h : (machine P s us).Reach (fun w a => w.spares P a ∧ w.gentle key a) w) :
    CreatorSurvives key w := by
  intro p q pt asleep sl e hq hpc hpt hperf he
  have hfail := perform_error hperf
  have hlock := lockInv_of_reach (fun _ _ h => h.1) h key
  have hclient := clients_getElem? key hq
  rw [Proc.view, hpc, Pc.view, if_pos rfl] at hclient
  -- a set that is there gives no such error
  have hgone : ∀ {i S}, pt.call.id? = some i → (w.sem key).cur ≠ some (i, S) := by
    intro i S hid hcur
    have hrange := Slot.call_fail_of_find hid (Slot.find_eq_some.2 hcur) hfail
    subst hrange
    rcases he with he | he <;> cases he
  by_cases hat : ∃ i v, pt = .create_lock i v
  · obtain ⟨i, v, rfl⟩ := hat
    refine ⟨i, v, rfl, ?_⟩
    rcases perform_semop rfl hperf with ⟨S, T, hcur, -⟩ | ⟨-, e', he', hnone, -⟩
    · exact absurd hcur (hgone rfl)
    · obtain rfl : e = e' := by simpa using he'
      have hfind : (w.sem key).find i = none := Slot.find_eq_none.2 fun S => hgone rfl
      have hawake : asleep = false := by
        cases asleep with
        | false => rfl
        | true =>
          obtain ⟨S, hcur⟩ := dozing_of_reach h p _ i hclient (by simp [Client.dozes])
          exact absurd hcur (hgone rfl)
      have hinval := hnone hfind
      rw [hawake] at hinval
      rw [hinval]
      rfl
  · exfalso
    cases hget : pt.isSemget with
    | true =>
      -- with `IPC_CREAT` the look-up finds the set or makes it
      cases pt with
      | create_semget v =>
        rcases perform_semget rfl hperf with ⟨i, S, -, -, hr⟩ | ⟨-, -, -, hr⟩ | ⟨-, hc, -⟩
        · cases hr
        · cases hr
        · cases hc
      | _ => first | (cases hget; done) | cases hpt
    | false =>
      obtain ⟨i, hi, hid⟩ := pt.lockId_of_creates hpt hget fun i v hpt' => hat ⟨i, v, hpt'⟩
      obtain ⟨S, hcur⟩ := hlock.there hclient (i := i) hi
      exact hgone hid hcur

end Creators

/-- A `sem_create` that looked the set up before its removal makes a new one. -/
theorem creator_survives_removal_run :
    ∃ w, (machine script () [[.sem_create 5 1, .sem_close 5 0], [.sem_create 5 1]]).Reach
        (fun w a => w.spares script a ∧ w.gentle 5 a) w ∧
      .sys 1 5 (.semop 0 op_lock) (.error .EINVAL) ∈ w.log ∧ .opened 1 5 1 ∈ w.log ∧
      CreatorSurvives 5 w := by
  have hrun := Machine.Reach.run
    (machine script () [[.sem_create 5 1, .sem_close 5 0], [.sem_create 5 1]])
    (fun w a => w.spares script a ∧ w.gentle 5 a) rfl
    [.user 0 (), .sys 0, .sys 0, .sys 0, .sys 0, .sys 0, .sys 0, .user 1 (), .sys 1,
      .user 0 (), .sys 0, .sys 0, .sys 0, .sys 1, .sys 1, .sys 1, .sys 1, .sys 1, .sys 1, .sys 1]
    (by decide +kernel)
  exact ⟨_, hrun, by decide +kernel, by decide +kernel, creator_survives_removal hrun⟩

/-- **A sleeping `sem_create` dies.** It waits for the lock that the last closer
has, the closer removes the set, and the sleeper wakes with `EIDRM`. -/
theorem sleeping_creator_dies :
    ¬ ∀ w, (machine script () [[.sem_create 5 1, .sem_close 5 0], [.sem_create 5 1]]).Reach
        (Orderly script) w → CreatorSurvives 5 w := by
  intro hall
  have hrun := Machine.Reach.run
    (machine script () [[.sem_create 5 1, .sem_close 5 0], [.sem_create 5 1]])
    (Orderly script) rfl
    [.user 0 (), .sys 0, .sys 0, .sys 0, .sys 0, .sys 0, .sys 0, .user 1 (), .sys 1,
      .user 0 (), .sys 0, .sys 1, .sys 0, .sys 0] (by decide +kernel)
  obtain ⟨w, hw, hsleeper, hperf⟩ : ∃ w,
      (machine script () [[.sem_create 5 1, .sem_close 5 0], [.sem_create 5 1]]).Reach
        (Orderly script) w ∧
      (w.procs[1]?.map Proc.pc) = some (.lib 5 (.create_lock 0 1) true) ∧
      (((Point.create_lock 0 1).perform (w.sem 5) 1 true).map Prod.snd) =
        some (.error .EIDRM) :=
    ⟨_, hrun, by decide +kernel, by decide +kernel⟩
  obtain ⟨q, hq, hpc⟩ := Option.map_eq_some_iff.1 hsleeper
  obtain ⟨⟨sl, r⟩, hr, rfl⟩ := Option.map_eq_some_iff.1 hperf
  obtain ⟨i, v, -, hres⟩ := hall w hw 1 q _ _ sl _ hq hpc rfl hr (.inr rfl)
  simp [Point.resume] at hres

end UnixNetProg.Semaphore

/-
Member `[2]` is a lock.

`LockInv` ties the value of `[2]` and its adjustments to the clients that are
between taking and releasing it: the value is their number, the number is at
most one, and the adjustments are a `Ledger`, so a death in between releases
the lock. It also says that the set a client has locked is there, which is why
a removal by `sem_close` cannot pull the set away from a `sem_create` that is
initialising it.

Nothing is assumed about how many processes there are.
-/
import UnixNetProg.Semaphore.Protocol

set_option autoImplicit false

namespace UnixNetProg.Semaphore

open UnixNetProg.SysV UnixNetProg.Runs UnixNetProg.Pool

/-- What holds of the lock of one key in every reachable state. -/
structure LockInv (sl : Slot 3) (cs : List Client) : Prop where
  lt_next : ∀ {i S}, sl.cur = some (i, S) → i < sl.next
  there : ∀ {p : ℕ} {c : Client} {i : ℕ}, cs[p]? = some c → c.lockId = some i →
    ∃ S, sl.cur = some (i, S)
  ledger : ∀ {i S}, sl.cur = some (i, S) → Ledger S 2 0 1 (Client.locks i) cs
  one : ∀ {i S}, sl.cur = some (i, S) → cs.countP (Client.locks i) ≤ 1

namespace LockInv

variable {good : Prop} {sl sl' : Slot 3} {cs : List Client} {p i : ℕ} {c c' : Client}
  {S S' : SemSet 3}

/-- Nobody has used the key yet. -/
theorem start (cs : List Client) (hcs : ∀ (p : ℕ) (c : Client), cs[p]? = some c → c.lockId = none) :
    LockInv Slot.empty cs where
  lt_next := fun h => by cases h
  there := fun hc hi => by rw [hcs _ _ hc] at hi; cases hi
  ledger := fun h => by cases h
  one := fun h => by cases h

/-- The value of `[2]` is the number of clients that have the lock. -/
theorem val (h : LockInv sl cs) (hcur : sl.cur = some (i, S)) :
    S.val 2 = cs.countP (Client.locks i) := by
  have := (h.ledger hcur).val
  omega

/-- Two clients that have the lock are one. -/
theorem unique (h : LockInv sl cs) {p' : ℕ} (hc : cs[p]? = some c) (hc' : cs[p']? = some c')
    (hi : c.lockId = some i) (hi' : c'.lockId = some i) : p = p' := by
  obtain ⟨S, hcur⟩ := h.there hc hi
  exact eq_of_countP_le_one _ (h.one hcur) hc hc' (locks_iff.2 hi) (locks_iff.2 hi')

/-- A new client has no lock. -/
theorem append (h : LockInv sl cs) (hc : c.lockId = none) : LockInv sl (cs ++ [c]) where
  lt_next := h.lt_next
  there := fun hp hi => by
    rcases getElem?_append_cases hp with ⟨-, rfl⟩ | hp
    · rw [hc] at hi
      cases hi
    · exact h.there hp hi
  ledger := fun hcur => (h.ledger hcur).append (by simp [Client.locks, hc])
  one := fun {i S} hcur => by
    rw [List.countP_append, List.countP_singleton, if_neg (by simp [hc])]
    exact h.one hcur

/-- A change of one client that neither takes nor releases the lock, on the
set as it is or with other members changed. -/
theorem keep (h : LockInv sl cs) (hq : cs[p]? = some c) (hlock : c'.lockId = c.lockId)
    (hnext : sl'.next = sl.next)
    (hcur : ∀ {i S'}, sl'.cur = some (i, S') → ∃ S, sl.cur = some (i, S) ∧
      Ledger S' 2 0 1 (Client.locks i) cs)
    (hthere : ∀ {i S}, sl.cur = some (i, S) → ∃ S', sl'.cur = some (i, S')) :
    LockInv sl' (cs.set p c') where
  lt_next := fun hi => by
    obtain ⟨S, hS, -⟩ := hcur hi
    rw [hnext]
    exact h.lt_next hS
  there := fun {p' c'' j} hp hi => by
    have : ∃ S, sl.cur = some (j, S) := by
      rcases getElem?_set_cases hp with ⟨-, rfl, -⟩ | ⟨-, hp⟩
      · exact h.there hq (hlock ▸ hi)
      · exact h.there hp hi
    obtain ⟨S, hS⟩ := this
    exact hthere hS
  ledger := fun {i S'} hi => by
    obtain ⟨S, -, hl⟩ := hcur hi
    exact hl.same hq (by simp [Client.locks, hlock]) rfl fun _ => rfl
  one := fun {i S'} hi => by
    obtain ⟨S, hS, -⟩ := hcur hi
    have hcount := countP_set_add (Client.locks i) hq c'
    have hsame : c'.locks i = c.locks i := by simp [Client.locks, hlock]
    rw [hsame] at hcount
    have := h.one hS
    omega

/-- The slot does not change, and neither does who has the lock. -/
theorem same (h : LockInv sl cs) (hq : cs[p]? = some c) (hlock : c'.lockId = c.lockId) :
    LockInv sl (cs.set p c') :=
  h.keep hq hlock rfl (fun hi => ⟨_, hi, h.ledger hi⟩) fun hi => ⟨_, hi⟩

/-- Members other than `[2]` change. -/
theorem put (h : LockInv sl cs) (hq : cs[p]? = some c) (hlock : c'.lockId = c.lockId)
    (hcur : sl.cur = some (i, S)) (hl : Ledger S' 2 0 1 (Client.locks i) cs) :
    LockInv (sl.put i S') (cs.set p c') := by
  refine h.keep hq hlock rfl (fun {j T} hj => ?_) (fun {j T} hj => ?_)
  · obtain ⟨rfl, rfl⟩ : i = j ∧ S' = T := by simpa using hj
    exact ⟨S, hcur, hl⟩
  · obtain ⟨rfl, rfl⟩ := Slot.cur_unique hcur hj
    exact ⟨S', rfl⟩

/-- The lock changes hands: the client takes it, or gives it back. -/
theorem move (h : LockInv sl cs) (hcur : sl.cur = some (i, S))
    (hl : Ledger S' 2 0 1 (Client.locks i) (cs.set p c'))
    (hone : (cs.set p c').countP (Client.locks i) ≤ 1)
    (hlock : ∀ j, c'.lockId = some j → j = i) :
    LockInv (sl.put i S') (cs.set p c') where
  lt_next := fun {j T} hj => by
    obtain ⟨rfl, rfl⟩ : i = j ∧ S' = T := by simpa using hj
    exact h.lt_next hcur
  there := fun {p' c'' j} hp hj => by
    rcases getElem?_set_cases hp with ⟨-, rfl, -⟩ | ⟨-, hp⟩
    · rw [hlock j hj]
      exact ⟨S', rfl⟩
    · obtain ⟨T, hT⟩ := h.there hp hj
      obtain ⟨rfl, -⟩ := Slot.cur_unique hcur hT
      exact ⟨S', rfl⟩
  ledger := fun {j T} hj => by
    obtain ⟨rfl, rfl⟩ : i = j ∧ S' = T := by simpa using hj
    exact hl
  one := fun {j T} hj => by
    obtain ⟨rfl, rfl⟩ : i = j ∧ S' = T := by simpa using hj
    exact hone

/-- Taking the lock of a set whose `[2]` is 0: `S'` is the set after the part
of the array that works on other members. -/
theorem take (h : LockInv sl cs) (hq : cs[p]? = some c) (hcur : sl.cur = some (i, S))
    (h0 : S.val 2 = 0) (hi : c'.lockId = some i)
    (hval : S'.val 2 = (S.shift p 2 1).val 2)
    (hadj : ∀ p', S'.adj p' 2 = (S.shift p 2 1).adj p' 2) :
    LockInv (sl.put i S') (cs.set p c') := by
  have hnone : cs.countP (Client.locks i) = 0 := (h.val hcur).symm.trans h0
  have hc : c.locks i = false := not_of_countP_eq_zero _ hnone hq
  have hc' : c'.locks i = true := locks_iff.2 hi
  have hcount := countP_set_add (Client.locks i) hq c'
  rw [hc, hc', Bool.toNat_false, Bool.toNat_true] at hcount
  have hl : Ledger (S.shift p 2 1) 2 0 1 (Client.locks i) (cs.set p c') :=
    (h.ledger hcur).shift hq (by simp [hc, hc']) (by omega) (by rw [h0]; decide)
  refine h.move hcur ⟨?_, ?_⟩ (by omega) fun j hj => ?_
  · rw [hval, hl.val]
  · intro p'
    rw [hadj, hl.adj]
  · rw [hi] at hj
    exact (Option.some.inj hj).symm

/-- Releasing the lock. -/
theorem release (h : LockInv sl cs) (hq : cs[p]? = some c) (hcur : sl.cur = some (i, S))
    (hi : c.lockId = some i) (hi' : c'.lockId = none)
    (hval : S'.val 2 = (S.shift p 2 (-1)).val 2)
    (hadj : ∀ p', S'.adj p' 2 = (S.shift p 2 (-1)).adj p' 2) :
    LockInv (sl.put i S') (cs.set p c') := by
  have hc : c.locks i = true := locks_iff.2 hi
  have hc' : c'.locks i = false := by simp [Client.locks, hi']
  have hpos : 0 < cs.countP (Client.locks i) := countP_pos_of_get _ hq hc
  have hone := h.one hcur
  have h1 := h.val hcur
  have hcount := countP_set_add (Client.locks i) hq c'
  rw [hc, hc', Bool.toNat_false, Bool.toNat_true] at hcount
  have hl : Ledger (S.shift p 2 (-1)) 2 0 1 (Client.locks i) (cs.set p c') :=
    (h.ledger hcur).shift hq (by simp [hc, hc']) (by omega) (by simp only [SEMVMX]; omega)
  refine h.move hcur ⟨?_, ?_⟩ (by omega) fun j hj => ?_
  · rw [hval, hl.val]
  · intro p'
    rw [hadj, hl.adj]
  · rw [hi'] at hj
    cases hj

/-- A client dies, with the lock or without. -/
theorem exit (h : LockInv sl cs) (hq : cs[p]? = some c) (hlock : c'.lockId = none) :
    LockInv (sl.exit p) (cs.set p c') := by
  have hcount : ∀ i, (cs.set p c').countP (Client.locks i) ≤ cs.countP (Client.locks i) := by
    intro i
    have hcount := countP_set_add (Client.locks i) hq c'
    have hc' : c'.locks i = false := by simp [Client.locks, hlock]
    rw [hc', Bool.toNat_false] at hcount
    omega
  -- the current set before, for the current set after
  have hback : ∀ {i T}, (sl.exit p).cur = some (i, T) →
      ∃ S, sl.cur = some (i, S) ∧ T = S.exit p := by
    intro i T hT
    rw [Slot.exit_cur] at hT
    cases hcur : sl.cur with
    | none => simp [hcur] at hT
    | some d =>
      simp only [hcur, Option.map_some, Option.some.injEq, Prod.mk.injEq] at hT
      exact ⟨d.2, by rw [← hT.1], hT.2.symm⟩
  refine ⟨fun hi => ?_, fun hp hi => ?_, fun {i T} hi => ?_, fun {i T} hi => ?_⟩
  · obtain ⟨S, hS, -⟩ := hback hi
    exact h.lt_next hS
  · rcases getElem?_set_cases hp with ⟨-, rfl, -⟩ | ⟨-, hp⟩
    · rw [hlock] at hi
      cases hi
    · obtain ⟨S, hS⟩ := h.there hp hi
      exact ⟨S.exit p, by rw [Slot.exit_cur, hS]; rfl⟩
  · obtain ⟨S, hS, rfl⟩ := hback hi
    have := h.one hS
    have := hcount i
    exact (h.ledger hS).exit hq (by simp [Client.locks, hlock]) (by omega)
      (by simp only [SEMVMX]; omega)
  · obtain ⟨S, hS, rfl⟩ := hback hi
    exact (hcount i).trans (h.one hS)

/-- **The lock invariant is kept by every line of the table.** -/
theorem trans {l : Option Point} (h : LockInv sl cs) (hq : cs[p]? = some c)
    (ht : Trans good p l sl c sl' c') : LockInv sl' (cs.set p c') := by
  cases ht with
  | die => exact h.exit hq rfl
  | enter_create => exact h.same hq rfl
  | enter_open => exact h.same hq rfl
  | enter_op => exact h.same hq rfl
  | enter_close => exact h.same hq rfl
  | sleep => exact h.same hq rfl
  | @no_set _ _ pt _ hpt =>
    apply h.same hq
    cases pt <;> first | rfl | cases hpt
  | create_found => exact h.same hq rfl
  | create_new hcur =>
    -- no set, so nobody has a lock
    have hnone : ∀ {p : ℕ} {c : Client} {i : ℕ}, cs[p]? = some c → c.lockId ≠ some i :=
      fun hp hi => by
      obtain ⟨S, hS⟩ := h.there hp hi
      rw [hcur] at hS
      cases hS
    have hzero : ∀ i (c' : Client), c'.lockId = none →
        (cs.set p c').countP (Client.locks i) = 0 := fun i c' hc' => by
      refine countP_eq_zero_of_forall _ fun p' c'' hp => ?_
      rcases getElem?_set_cases hp with ⟨-, rfl, -⟩ | ⟨-, hp⟩
      · simp [Client.locks, hc']
      · have := hnone (i := i) hp
        simpa [Client.locks] using this
    refine ⟨fun {i S} hi => ?_, fun {p' c'' i} hp hi => ?_, fun {i S} hi => ?_, fun {i S} hi => ?_⟩
    · obtain ⟨rfl, rfl⟩ : sl.next = i ∧ SemSet.fresh = S := by simpa using hi
      exact Nat.lt_succ_self _
    · rcases getElem?_set_cases hp with ⟨-, rfl, -⟩ | ⟨-, hp⟩
      · cases hi
      · exact absurd hi (hnone hp)
    · obtain ⟨rfl, rfl⟩ : sl.next = i ∧ SemSet.fresh = S := by simpa using hi
      exact Ledger.of_fresh (hzero _ _ rfl)
    · rw [hzero _ _ rfl]
      exact Nat.zero_le _
  | lock hcur h2 => exact h.take hq hcur h2 rfl rfl fun _ => rfl
  | again => exact h.same hq rfl
  | getval_zero => exact h.same hq rfl
  | getval_pos => exact h.same hq rfl
  | setval0 hcur =>
    exact h.put hq rfl hcur ((h.ledger hcur).setval_ne (by decide) _)
  | setval1 hcur =>
    exact h.put hq rfl hcur ((h.ledger hcur).setval_ne (by decide) _)
  | endcreate hcur =>
    refine h.release hq hcur rfl rfl ?_ fun p' => ?_
    · simp
    · simp
  | open_found => exact h.same hq rfl
  | opened hcur =>
    exact h.put hq rfl hcur ((h.ledger hcur).shift_ne p (by decide) _)
  | close hcur h2 =>
    refine h.take hq hcur h2 rfl ?_ fun p' => ?_
    · simp
    · simp
  | close_last => exact h.same hq rfl
  | close_more => exact h.same hq rfl
  | @removed _ held i S asleep hcur =>
    -- whoever else had a lock would have had this one
    refine ⟨fun hi => (by cases hi), fun {p' c'' j} hp hi => ?_, fun hi => (by cases hi),
      fun hi => (by cases hi)⟩
    rcases getElem?_set_cases hp with ⟨-, rfl, -⟩ | ⟨hne, hp⟩
    · cases hi
    · obtain ⟨T, hT⟩ := h.there hp hi
      obtain ⟨rfl, -⟩ := Slot.cur_unique hcur hT
      exact absurd (h.unique hp hq hi rfl) hne
  | unlock hcur => exact h.release hq hcur rfl rfl rfl fun _ => rfl
  | op_none => exact h.same hq rfl
  | op hcur => exact h.put hq rfl hcur ((h.ledger hcur).shift_ne p (by decide) _)

/-- A step of the world keeps the lock invariant of every key. -/
theorem kstep {actor : Option ℕ} {cs' : List Client} (h : LockInv sl cs)
    (hs : KStep good actor sl cs sl' cs') : LockInv sl' cs' := by
  cases hs with
  | idle => exact h
  | spawn => exact h.append rfl
  | proc hq ht _ => exact h.trans hq ht

end LockInv

/-! ## In every run -/

section Runs

variable {S U C : Type} {P : Program S U C} {s : S} {us : List U} {w : World S U}

theorem clients_start (key : ℤ) (s : S) (us : List U) :
    (World.start s us).clients key = us.map fun _ => ⟨none, .away⟩ := by
  simp [World.clients, World.start, Function.comp_def, Proc.view, Pc.view]

/-- A client of a system just started is away and holds nothing. -/
theorem clients_start_get {key : ℤ} {p : ℕ} {c : Client}
    (hc : ((World.start s us).clients key)[p]? = some c) : c = ⟨none, .away⟩ := by
  rw [clients_start, List.getElem?_map] at hc
  cases hu : us[p]? with
  | none => simp [hu] at hc
  | some u => simpa [hu, eq_comm] using hc

/-- **The lock works**, for any programs that leave removal to `sem_close`, any
number of processes, any interleaving and any deaths. -/
theorem lockInv_of_reach {ok : World S U → Act U C → Prop}
    (hok : ∀ w a, ok w a → w.spares P a) (h : (machine P s us).Reach ok w) (key : ℤ) :
    LockInv (w.sem key) (w.clients key) := by
  apply h.invariant (I := fun w => LockInv (w.sem key) (w.clients key))
  · rintro w rfl
    exact LockInv.start _ fun p c hc => by rw [clients_start_get hc]; rfl
  · intro w a w' _ hinv hwa hstep
    exact hinv.kstep (World.step_key hstep (hok w a hwa) key)

end Runs

end UnixNetProg.Semaphore

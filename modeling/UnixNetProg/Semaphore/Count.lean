/-
Member `[1]` counts the processes that have the set open.

In the life of one set `[1]` goes through two phases. `Unset`: `[1]` is 0, no
client has the set open and none is past the initialisation. `Counted`: `[1]`
plus the number of clients that have the set open is `BIGCOUNT`, no client is
about to initialise, and the adjustments are a `Ledger`, so a client that dies
without closing is counted out by the kernel. The only way from the first phase
to the second is `SETVAL` on `[1]`, and there is no way back.

What could lead back is a `sem_create` that reads 0 from an initialised `[1]`,
which takes `BIGCOUNT` clients that have the set open: that is the one
condition on runs here.
-/
import UnixNetProg.Semaphore.Lock

set_option autoImplicit false

namespace UnixNetProg.Semaphore

open UnixNetProg.SysV UnixNetProg.Runs UnixNetProg.Pool

/-! ## The two phases -/

/-- What a client has open at each point of the routines. -/
def Point.heldOk : Point → Option ℕ → Prop
  | .close_op id, h => h = some id
  | .op_semop _ _, _ => True
  | _, h => h = none

/-- A client has open what its place says. -/
def Client.Wf (c : Client) : Prop :=
  match c.place with
  | .at pt _ => pt.heldOk c.held
  | .dead => c.held = none
  | .away => True

/-- The points between reading 0 from `[1]` and setting it. -/
def Point.initing (i : ℕ) : Point → Bool
  | .create_setval0 id _ | .create_setval1 id => id == i
  | _ => false

/-- The points that only an initialised set is at. -/
def Point.past (i : ℕ) : Point → Bool
  | .create_endcreate id | .rm id | .close_getval id | .close_unlock id => id == i
  | _ => false

/-- The client is about to initialise set `i`. -/
def Client.initing (i : ℕ) (c : Client) : Bool :=
  match c.place with
  | .at pt _ => pt.initing i
  | _ => false

/-- The client is past the initialisation of set `i`. -/
def Client.past (i : ℕ) (c : Client) : Bool :=
  match c.place with
  | .at pt _ => pt.past i
  | _ => false

/-- The phase before `SETVAL` on `[1]`. -/
structure Unset (i : ℕ) (S : SemSet 3) (cs : List Client) : Prop where
  ledger : Ledger S 1 0 (-1) (Client.holds i) cs
  closed : cs.countP (Client.holds i) = 0
  before : ∀ {p : ℕ} {c : Client}, cs[p]? = some c → c.past i = false

/-- The phase after it. -/
structure Counted (i : ℕ) (S : SemSet 3) (cs : List Client) : Prop where
  ledger : Ledger S 1 BIGCOUNT (-1) (Client.holds i) cs
  after : ∀ {p : ℕ} {c : Client}, cs[p]? = some c → c.initing i = false

/-- What holds of the counter of one key in every reachable state. -/
structure CountInv (sl : Slot 3) (cs : List Client) : Prop where
  wf : ∀ {p : ℕ} {c : Client}, cs[p]? = some c → c.Wf
  held_lt : ∀ {p : ℕ} {c : Client} {i : ℕ}, cs[p]? = some c → c.held = some i → i < sl.next
  phase : ∀ {i S}, sl.cur = some (i, S) → Unset i S cs ∨ Counted i S cs

variable {good : Prop} {sl sl' : Slot 3} {cs : List Client} {p i : ℕ} {c c' : Client}
    {S S' : SemSet 3}
  {l : Option Point}

/-- A client changes into one that has open what its place says. -/
theorem Client.Wf.trans (h : c.Wf) (hgood : good) (ht : Trans good p l sl c sl' c') :
    c'.Wf := by
  cases ht with
  | die => rfl
  | enter_create hnone => exact hnone hgood
  | enter_open hnone => exact hnone hgood
  | enter_close hsome => exact hsome hgood
  | sleep => exact h
  | _ => first | rfl | trivial

/-- A client that is about to initialise a set has its lock. -/
theorem Client.lockId_of_initing (h : c.initing i = true) : c.lockId = some i := by
  obtain ⟨held, place⟩ := c
  cases place with
  | «at» pt asleep =>
    cases pt <;> simp_all [Client.initing, Point.initing, Client.lockId, Point.lockId]
  | _ => cases h

/-- A client past the initialisation of a set has its lock. -/
theorem Client.lockId_of_past (h : c.past i = true) : c.lockId = some i := by
  obtain ⟨held, place⟩ := c
  cases place with
  | «at» pt asleep => cases pt <;> simp_all [Client.past, Point.past, Client.lockId, Point.lockId]
  | _ => cases h

/-- A client opens no other set than the one that is there. -/
theorem Trans.held (ht : Trans good p l sl c sl' c') (hh : c'.held = some i) :
    c.held = some i ∨ ∃ S, sl.cur = some (i, S) := by
  cases ht <;> simp_all

/-- Where there was no set, the new one is fresh, and its creator is about to
ask for its lock. -/
theorem Trans.new (ht : Trans good p l sl c sl' c') (hcur : sl.cur = none)
    (hcur' : sl'.cur = some (i, S')) :
    i = sl.next ∧ S' = SemSet.fresh ∧ c'.held = c.held ∧ c'.lockId = none := by
  cases ht <;> simp_all [Slot.exit_cur, Client.lockId, Point.lockId]

/-- While a set is there, it keeps its identifier. -/
theorem Trans.id_eq (ht : Trans good p l sl c sl' c') (hcur : sl.cur = some (i, S)) {j : ℕ}
    (hcur' : sl'.cur = some (j, S')) : j = i := by
  cases ht <;> simp_all [Slot.exit_cur]

/-- A set stays where it is unless it is removed. -/
theorem Trans.stays (ht : Trans good p l sl c sl' c') (hcur : sl.cur = some (i, S)) :
    (∃ S', sl'.cur = some (i, S')) ∨ c.past i = true := by
  cases ht <;> simp_all [Slot.exit_cur, Client.past, Point.past]

/-- Identifiers given out stay given out. -/
theorem Trans.next_le (ht : Trans good p l sl c sl' c') : sl.next ≤ sl'.next := by
  cases ht <;> simp

/-! ## After the initialisation -/

namespace Counted

/-- The counter in plain numbers. -/
theorem val (h : Counted i S cs) : S.val 1 + cs.countP (Client.holds i) = BIGCOUNT := by
  have := h.ledger.val
  omega

/-- One client changes, and the ledger follows. -/
theorem set (h : Counted i S cs) (hl : Ledger S' 1 BIGCOUNT (-1) (Client.holds i) (cs.set p c'))
    (hc' : c'.initing i = false) : Counted i S' (cs.set p c') where
  ledger := hl
  after := fun hp => by
    rcases getElem?_set_cases hp with ⟨-, rfl, -⟩ | ⟨-, hp⟩
    · exact hc'
    · exact h.after hp

/-- One client changes and has the set open as before. -/
theorem same (h : Counted i S cs) (hq : cs[p]? = some c) (hh : c'.held = c.held)
    (hc' : c'.initing i = false) (hl : Ledger S' 1 BIGCOUNT (-1) (Client.holds i) cs) :
    Counted i S' (cs.set p c') :=
  h.set (hl.same hq (by simp [Client.holds, hh]) rfl fun _ => rfl) hc'

/-- A client counts itself in. -/
theorem enter (h : Counted i S cs) (hq : cs[p]? = some c) (hc : c.held = none)
    (h1 : 1 ≤ S.val 1) (hc' : c'.held = some i) (hi : c'.initing i = false) :
    Counted i (S.shift p 1 (-1)) (cs.set p c') := by
  have hle := S.val_le 1
  exact h.set (h.ledger.shift hq (by simp [Client.holds, hc, hc']) (by omega) (by omega)) hi

/-- A client counts itself out. -/
theorem leave (h : Counted i S cs) (hq : cs[p]? = some c) (hc : c.held = some i)
    (h1 : S.val 1 < SEMVMX) (hc' : c'.held = none) (hi : c'.initing i = false) :
    Counted i (S.shift p 1 1) (cs.set p c') :=
  h.set (h.ledger.shift hq (by simp [Client.holds, hc, hc']) (by omega) (by omega)) hi

/-- A client dies: the kernel counts it out. -/
theorem exit (h : Counted i S cs) (hq : cs[p]? = some c) (hc' : c'.held = none)
    (hi : c'.initing i = false) : Counted i (S.exit p) (cs.set p c') := by
  have hf : c'.holds i = false := by simp [Client.holds, hc']
  have hcount := countP_set_add (Client.holds i) hq c'
  rw [hf, Bool.toNat_false] at hcount
  have hval := h.val
  have hbig : (BIGCOUNT : ℤ) ≤ SEMVMX := by decide
  exact h.set (h.ledger.exit hq hf (by omega) (by omega)) hi

/-- **Once initialised, the set is counted until it is removed**, provided no
`sem_create` reads the counter while `BIGCOUNT` clients have the set open. -/
theorem trans (h : Counted i S cs) (hwf : c.Wf) (hcur : sl.cur = some (i, S))
    (hq : cs[p]? = some c) (ht : Trans good p l sl c sl' c')
    (hfew : ∀ v, l = some (.create_getval i v) → cs.countP (Client.holds i) < BIGCOUNT)
    (hcur' : sl'.cur = some (i, S')) : Counted i S' (cs.set p c') := by
  cases ht with
  | die =>
    rw [Slot.exit_cur, hcur] at hcur'
    obtain rfl : S.exit p = S' := by simpa using hcur'
    exact h.exit hq rfl rfl
  | enter_create | enter_open | enter_op | enter_close | no_set | create_found | again
  | getval_pos | open_found | close_last | close_more | op_none =>
    -- the slot is left as it is, and so is the set
    obtain ⟨-, rfl⟩ := Slot.cur_unique hcur hcur'
    exact h.same hq rfl rfl h.ledger
  | sleep =>
    have hafter := h.after hq
    obtain ⟨-, rfl⟩ := Slot.cur_unique hcur hcur'
    exact h.same hq rfl hafter h.ledger
  | create_new hnone => rw [hnone] at hcur; cases hcur
  | lock hj =>
    obtain ⟨rfl, rfl⟩ := Slot.cur_unique hcur hj
    obtain ⟨-, rfl⟩ := Slot.cur_unique (Slot.put_cur _ _ _) hcur'
    exact h.same hq rfl rfl (h.ledger.shift_ne p (by decide) _)
  | getval_zero hj h0 =>
    obtain ⟨rfl, rfl⟩ := Slot.cur_unique hcur hj
    have := hfew _ rfl
    have := h.val
    omega
  | setval0 hj =>
    obtain ⟨rfl, rfl⟩ := Slot.cur_unique hcur hj
    have := h.after hq
    simp [Client.initing, Point.initing] at this
  | setval1 hj =>
    obtain ⟨rfl, rfl⟩ := Slot.cur_unique hcur hj
    have := h.after hq
    simp [Client.initing, Point.initing] at this
  | endcreate hj h1 =>
    obtain ⟨rfl, rfl⟩ := Slot.cur_unique hcur hj
    obtain ⟨-, rfl⟩ := Slot.cur_unique (Slot.put_cur _ _ _) hcur'
    have hin : Counted i (S.shift p 1 (-1)) (cs.set p ⟨some i, .away⟩) := h.enter hq hwf h1 rfl rfl
    exact ⟨hin.ledger.shift_ne p (by decide) _, hin.after⟩
  | opened hj h1 =>
    obtain ⟨rfl, rfl⟩ := Slot.cur_unique hcur hj
    obtain ⟨-, rfl⟩ := Slot.cur_unique (Slot.put_cur _ _ _) hcur'
    exact h.enter hq hwf h1 rfl rfl
  | close hj h2 h1 =>
    obtain ⟨rfl, rfl⟩ := Slot.cur_unique hcur hj
    obtain ⟨-, rfl⟩ := Slot.cur_unique (Slot.put_cur _ _ _) hcur'
    have hlock : Counted i (S.shift p 2 1) cs := ⟨h.ledger.shift_ne p (by decide) _, h.after⟩
    exact hlock.leave hq hwf (by simpa using h1) rfl rfl
  | removed => cases hcur'
  | unlock hj =>
    obtain ⟨rfl, rfl⟩ := Slot.cur_unique hcur hj
    obtain ⟨-, rfl⟩ := Slot.cur_unique (Slot.put_cur _ _ _) hcur'
    exact h.same hq rfl rfl (h.ledger.shift_ne p (by decide) _)
  | op hj =>
    obtain ⟨rfl, rfl⟩ := Slot.cur_unique hcur hj
    obtain ⟨-, rfl⟩ := Slot.cur_unique (Slot.put_cur _ _ _) hcur'
    exact h.same hq rfl rfl (h.ledger.shift_ne p (by decide) _)

end Counted

/-! ## Before the initialisation -/

namespace Unset

/-- `[1]` is 0. -/
theorem val (h : Unset i S cs) : S.val 1 = 0 := by
  have := h.ledger.val
  rw [h.closed] at this
  omega

/-- One client changes and still does not have the set open. -/
theorem set (h : Unset i S cs) (hq : cs[p]? = some c) (hh : c'.held ≠ some i)
    (hc' : c'.past i = false) (hl : Ledger S' 1 0 (-1) (Client.holds i) cs) :
    Unset i S' (cs.set p c') := by
  have hc : c.holds i = false := not_of_countP_eq_zero _ h.closed hq
  have hf : c'.holds i = false := by simpa [Client.holds] using hh
  have hcount := countP_set_add (Client.holds i) hq c'
  rw [hc, hf] at hcount
  refine ⟨hl.same hq (by rw [hc, hf]) rfl fun _ => rfl, ?_, fun hp => ?_⟩
  · rw [← h.closed]
    omega
  · rcases getElem?_set_cases hp with ⟨-, rfl, -⟩ | ⟨-, hp⟩
    · exact hc'
    · exact h.before hp

/-- A client dies: nothing was contributed, so nothing is taken back. -/
theorem exit (h : Unset i S cs) (hq : cs[p]? = some c) (hc' : c' = ⟨none, .dead⟩) :
    Unset i (S.exit p) (cs.set p c') := by
  subst hc'
  have hset : Unset i S (cs.set p ⟨none, .dead⟩) := h.set hq (by simp) rfl h.ledger
  refine ⟨h.ledger.exit hq rfl ?_ ?_, hset.closed, hset.before⟩
  · rw [hset.closed]
    simp
  · rw [hset.closed]
    simp

/-- The client that sets `[1]` opens the second phase: the lock is its own, so
nobody else is about to initialise. -/
theorem setval1 (h : Unset i S cs) (hlock : LockInv sl cs) {held : Option ℕ} {asleep : Bool}
    (hq : cs[p]? = some ⟨held, .at (.create_setval1 i) asleep⟩) :
    Counted i (S.setval 1 BIGCOUNT) (cs.set p ⟨held, .at (.create_endcreate i) false⟩) := by
  have hled : Ledger (S.setval 1 BIGCOUNT) 1 BIGCOUNT (-1) (Client.holds i) cs :=
    Ledger.of_setval (v := BIGCOUNT) (by decide) h.closed
  refine ⟨hled.same hq rfl rfl fun _ => rfl, fun {p' c''} hp => ?_⟩
  rcases getElem?_set_cases hp with ⟨-, rfl, -⟩ | ⟨hne, hp⟩
  · rfl
  · by_contra hini
    -- another client about to initialise would have the same lock
    have hi : c''.lockId = some i := Client.lockId_of_initing (by simpa using hini)
    exact hne (hlock.unique hp hq hi rfl)

/-- **Before the initialisation nothing but `SETVAL` on `[1]` opens the set**:
every other line of the table stays in the first phase. -/
theorem trans (h : Unset i S cs) (hlock : LockInv sl cs) (hwf : c.Wf)
    (hcur : sl.cur = some (i, S)) (hq : cs[p]? = some c) (ht : Trans good p l sl c sl' c')
    (hcur' : sl'.cur = some (i, S')) :
    if l = some (.create_setval1 i) then Counted i S' (cs.set p c') else
      Unset i S' (cs.set p c') := by
  have hopen : c.held ≠ some i := by
    have := not_of_countP_eq_zero _ h.closed hq
    simpa [Client.holds] using this
  have hzero := h.val
  have hpast := h.before hq
  cases ht with
  | die =>
    rw [Slot.exit_cur, hcur] at hcur'
    obtain rfl : S.exit p = S' := by simpa using hcur'
    exact h.exit hq rfl
  | enter_create | enter_open | enter_op | enter_close | create_found | again | getval_zero
  | open_found | op_none =>
    -- the slot is left as it is, and so is the set
    obtain ⟨-, rfl⟩ := Slot.cur_unique hcur hcur'
    exact h.set hq hopen rfl h.ledger
  | sleep =>
    obtain ⟨-, rfl⟩ := Slot.cur_unique hcur hcur'
    exact h.set hq hopen hpast h.ledger
  | @no_set _ _ pt _ hpt =>
    obtain ⟨-, rfl⟩ := Slot.cur_unique hcur hcur'
    cases pt <;> first | exact h.set hq hopen rfl h.ledger | cases hpt
  | create_new hnone => rw [hnone] at hcur; cases hcur
  | lock hj =>
    obtain ⟨rfl, rfl⟩ := Slot.cur_unique hcur hj
    obtain ⟨-, rfl⟩ := Slot.cur_unique (Slot.put_cur _ _ _) hcur'
    exact h.set hq hopen rfl (h.ledger.shift_ne p (by decide) _)
  | getval_pos hj h1 =>
    obtain ⟨rfl, rfl⟩ := Slot.cur_unique hcur hj
    exact absurd hzero h1
  | setval0 hj =>
    obtain ⟨rfl, rfl⟩ := Slot.cur_unique hcur hj
    obtain ⟨-, rfl⟩ := Slot.cur_unique (Slot.put_cur _ _ _) hcur'
    exact h.set hq hopen rfl (h.ledger.setval_ne (by decide) _)
  | setval1 hj =>
    obtain ⟨rfl, rfl⟩ := Slot.cur_unique hcur hj
    obtain ⟨-, rfl⟩ := Slot.cur_unique (Slot.put_cur _ _ _) hcur'
    rw [if_pos rfl]
    exact h.setval1 hlock hq
  | endcreate hj h1 =>
    obtain ⟨rfl, rfl⟩ := Slot.cur_unique hcur hj
    omega
  | opened hj h1 =>
    obtain ⟨rfl, rfl⟩ := Slot.cur_unique hcur hj
    omega
  | close hj =>
    obtain ⟨rfl, rfl⟩ := Slot.cur_unique hcur hj
    exact absurd hwf hopen
  | close_last hj hlast =>
    obtain ⟨rfl, rfl⟩ := Slot.cur_unique hcur hj
    rw [hzero] at hlast
    cases hlast
  | close_more hj =>
    obtain ⟨rfl, rfl⟩ := Slot.cur_unique hcur hj
    simp [Client.past, Point.past] at hpast
  | removed => cases hcur'
  | unlock hj =>
    obtain ⟨rfl, rfl⟩ := Slot.cur_unique hcur hj
    simp [Client.past, Point.past] at hpast
  | op hj =>
    obtain ⟨rfl, rfl⟩ := Slot.cur_unique hcur hj
    obtain ⟨-, rfl⟩ := Slot.cur_unique (Slot.put_cur _ _ _) hcur'
    exact h.set hq hopen rfl (h.ledger.shift_ne p (by decide) _)

end Unset

/-! ## Both phases, over every step -/

namespace CountInv

/-- Nobody has used the key yet. -/
theorem start (cs : List Client)
    (hcs : ∀ (p : ℕ) (c : Client), cs[p]? = some c → c = ⟨none, .away⟩) :
    CountInv Slot.empty cs where
  wf := fun hc => by rw [hcs _ _ hc]; trivial
  held_lt := fun hc hi => by rw [hcs _ _ hc] at hi; cases hi
  phase := fun h => by cases h

/-- A set nobody has open yet is in its first phase when it is created. -/
theorem fresh (h : CountInv sl cs) (hlock : LockInv sl cs) (hq : cs[p]? = some c)
    (hcur : sl.cur = none) (hh : c'.held = c.held) (hl : c'.lockId = none) :
    Unset sl.next SemSet.fresh (cs.set p c') := by
  -- identifiers in use are below `next`, and no set means no lock
  have hopen : ∀ {p : ℕ} {c : Client}, cs[p]? = some c → c.held ≠ some sl.next := fun hp he =>
    absurd (h.held_lt hp he) (Nat.lt_irrefl _)
  have hget : ∀ {p' : ℕ} {c'' : Client}, (cs.set p c')[p']? = some c'' →
      c''.held ≠ some sl.next ∧ c''.past sl.next = false := by
    intro p' c'' hp
    rcases getElem?_set_cases hp with ⟨-, rfl, -⟩ | ⟨-, hp⟩
    · refine ⟨by rw [hh]; exact hopen hq, ?_⟩
      by_contra hpast
      have := Client.lockId_of_past (c := c'') (by simpa using hpast)
      rw [hl] at this
      cases this
    · refine ⟨hopen hp, ?_⟩
      by_contra hpast
      obtain ⟨T, hT⟩ := hlock.there hp (Client.lockId_of_past (by simpa using hpast))
      rw [hcur] at hT
      cases hT
  have hzero : (cs.set p c').countP (Client.holds sl.next) = 0 :=
    countP_eq_zero_of_forall _ fun p' c'' hp => by simpa [Client.holds] using (hget hp).1
  exact ⟨Ledger.of_fresh hzero, hzero, fun hp => (hget hp).2⟩

/-- Every line of the table keeps the invariant, provided no `sem_create` reads
the counter while `BIGCOUNT` clients have the set open. -/
theorem trans (h : CountInv sl cs) (hlock : LockInv sl cs) (hgood : good) (hq : cs[p]? = some c)
    (ht : Trans good p l sl c sl' c')
    (hfew : ∀ i v, l = some (.create_getval i v) → cs.countP (Client.holds i) < BIGCOUNT) :
    CountInv sl' (cs.set p c') where
  wf := fun hp => by
    rcases getElem?_set_cases hp with ⟨-, rfl, -⟩ | ⟨-, hp⟩
    · exact (h.wf hq).trans hgood ht
    · exact h.wf hp
  held_lt := fun hp hi => by
    refine Nat.lt_of_lt_of_le ?_ ht.next_le
    rcases getElem?_set_cases hp with ⟨-, rfl, -⟩ | ⟨-, hp⟩
    · rcases ht.held hi with hc | ⟨S, hS⟩
      · exact h.held_lt hq hc
      · exact hlock.lt_next hS
    · exact h.held_lt hp hi
  phase := fun {i S'} hi => by
    cases hcur : sl.cur with
    | none =>
      obtain ⟨rfl, rfl, hh, hl⟩ := ht.new hcur hi
      exact .inl (h.fresh hlock hq hcur hh hl)
    | some d =>
      obtain ⟨j, S⟩ := d
      obtain rfl := ht.id_eq hcur hi
      rcases h.phase hcur with hu | hc
      · have := hu.trans hlock (h.wf hq) hcur hq ht hi
        split at this
        · exact .inr this
        · exact .inl this
      · exact .inr (hc.trans (h.wf hq) hcur hq ht (hfew i) hi)

/-- A new client has nothing open. -/
theorem append (h : CountInv sl cs) : CountInv sl (cs ++ [⟨none, .away⟩]) where
  wf := fun hp => by
    rcases getElem?_append_cases hp with ⟨-, rfl⟩ | hp
    · trivial
    · exact h.wf hp
  held_lt := fun hp hi => by
    rcases getElem?_append_cases hp with ⟨-, rfl⟩ | hp
    · cases hi
    · exact h.held_lt hp hi
  phase := fun hi => by
    rcases h.phase hi with hu | hc
    · refine .inl ⟨hu.ledger.append rfl, ?_, fun hp => ?_⟩
      · rw [List.countP_append, hu.closed]
        rfl
      · rcases getElem?_append_cases hp with ⟨-, rfl⟩ | hp
        · rfl
        · exact hu.before hp
    · refine .inr ⟨hc.ledger.append rfl, fun hp => ?_⟩
      rcases getElem?_append_cases hp with ⟨-, rfl⟩ | hp
      · rfl
      · exact hc.after hp

end CountInv

/-! ## In every run -/

section Runs

variable {S U C : Type} {P : Program S U C} {s : S} {us : List U} {w w' : World S U}
  {a : Act U C} {key : ℤ}

/-- A client at a point is a process at that point of a routine on the key. -/
theorem clients_at {held : Option ℕ} {pt : Point} {asleep : Bool}
    (h : (w.clients key)[p]? = some ⟨held, .at pt asleep⟩) :
    ∃ q, w.procs[p]? = some q ∧ q.pc = .lib key pt asleep ∧ q.held key = held := by
  rw [World.clients, List.getElem?_map, Option.map_eq_some_iff] at h
  obtain ⟨q, hq, hv⟩ := h
  obtain ⟨u, hd, pc⟩ := q
  cases pc with
  | lib key' pt' asl =>
    simp only [Proc.view, Pc.view, Client.mk.injEq] at hv
    obtain ⟨hh, hp⟩ := hv
    split_ifs at hp with hk
    obtain ⟨rfl, rfl⟩ : pt' = pt ∧ asl = asleep := by simpa using hp
    exact ⟨_, hq, by rw [hk], hh⟩
  | _ => simp [Proc.view, Pc.view] at hv

/-- The label of a line that carries out a system call is the point the client
is at. -/
theorem Trans.label {pt : Point} (ht : Trans good p (some pt) sl c sl' c') :
    ∃ asleep, c.place = .at pt asleep := by
  cases ht <;> exact ⟨_, rfl⟩

/-- The label of the line of the table taken is the system call of the step. -/
theorem sysAt_of_trans {pt : Point} (hq : (w.clients key)[p]? = some c)
    (ht : Trans good p (some pt) sl c sl' c') (hact : a.actor = some p) :
    w.sysAt key a = some pt := by
  obtain ⟨asleep, hpl⟩ := ht.label
  obtain ⟨held, place⟩ := c
  subst hpl
  obtain ⟨q, hq', hpc, -⟩ := clients_at hq
  simp [World.sysAt, hact, hq', hpc, Pc.at?]

/-- A system call that reads the counter to see whether the set has been
initialised does so while fewer than `BIGCOUNT` clients have the set open. -/
def Point.roomy (cs : List Client) : Point → Prop
  | .create_getval i _ => cs.countP (Client.holds i) < BIGCOUNT
  | _ => True

/-- The system call made on `key` in this step, if any, is `roomy`. -/
def World.roomy (key : ℤ) (w : World S U) (a : Act U C) : Prop :=
  ∀ pt ∈ w.sysAt key a, pt.roomy (w.clients key)

instance (cs : List Client) : ∀ pt : Point, Decidable (pt.roomy cs)
  | .create_getval i _ => inferInstanceAs (Decidable (cs.countP (Client.holds i) < BIGCOUNT))
  | .create_semget _ | .create_lock .. | .create_setval0 .. | .create_setval1 _
  | .create_endcreate _ | .open_semget | .open_op _ | .rm _ | .close_op _ | .close_getval _
  | .close_unlock _ | .op_semop .. => isTrue trivial

instance (w : World S U) (a : Act U C) : Decidable (w.roomy key a) :=
  inferInstanceAs (Decidable (∀ pt ∈ w.sysAt key a, pt.roomy (w.clients key)))

/-- What `roomy` says of the line of the table taken. -/
theorem World.roomy.few (hr : w.roomy key a) (hq : (w.clients key)[p]? = some c)
    (ht : Trans good p l sl c sl' c') (hact : l ≠ none → a.actor = some p) (i : ℕ) (v : ℤ)
    (hl : l = some (.create_getval i v)) :
    (w.clients key).countP (Client.holds i) < BIGCOUNT := by
  subst hl
  exact hr _ (sysAt_of_trans hq ht (hact (by simp)))

/-- A step of the world keeps the counter invariant. -/
theorem CountInv.step (h : CountInv (w.sem key) (w.clients key))
    (hlock : LockInv (w.sem key) (w.clients key)) (hkeep : w.keeps P a) (hr : w.roomy key a)
    (hs : w.step P a = some w') : CountInv (w'.sem key) (w'.clients key) := by
  have hk := World.step_key hs hkeep.spares key
  generalize hsl : w'.sem key = sl' at hk ⊢
  generalize hcs : w'.clients key = cs' at hk ⊢
  cases hk with
  | idle => exact h
  | spawn => exact h.append
  | proc hq ht hact => exact h.trans hlock hkeep hq ht (hr.few hq ht hact)

/-- In every run each client has open what its place says. -/
theorem wf_of_reach {ok : World S U → Act U C → Prop} (hok : ∀ w a, ok w a → w.keeps P a)
    (h : (machine P s us).Reach ok w) (key : ℤ) {p : ℕ} {c : Client}
    (hc : (w.clients key)[p]? = some c) : c.Wf := by
  refine h.invariant
    (I := fun w => ∀ (p : ℕ) (c : Client), (w.clients key)[p]? = some c → c.Wf) ?_ ?_ p c hc
  · rintro w rfl p c hc
    rw [clients_start_get hc]
    trivial
  · intro w a w' _ hinv hwa hstep p c hc
    have hk := World.step_key hstep (hok w a hwa).spares key
    generalize w'.sem key = sl' at hk
    generalize w'.clients key = cs' at hk hc
    cases hk with
    | idle => exact hinv p c hc
    | spawn =>
      rcases getElem?_append_cases hc with ⟨-, rfl⟩ | hp
      · trivial
      · exact hinv p c hp
    | proc hq ht _ =>
      rcases getElem?_set_cases hc with ⟨-, rfl, -⟩ | ⟨-, hp⟩
      · exact (hinv _ _ hq).trans (hok w a hwa) ht
      · exact hinv _ _ hp

/-- How many processes are alive. -/
def World.alive (w : World S U) : ℕ := w.procs.countP fun q => q.pc != .dead

/-- The steps of the runs the routines are meant for: the callers keep their
promise, and fewer than `BIGCOUNT` processes are alive. -/
def Orderly (P : Program S U C) (w : World S U) (a : Act U C) : Prop :=
  w.keeps P a ∧ w.alive < BIGCOUNT

instance (P : Program S U C) (w : World S U) (a : Act U C) : Decidable (Orderly P w a) :=
  inferInstanceAs (Decidable (_ ∧ _))

/-- Whoever has a set open is alive. -/
theorem countP_holds_le_alive
    (hwf : ∀ (p : ℕ) (c : Client), (w.clients key)[p]? = some c → c.Wf) (i : ℕ) :
    (w.clients key).countP (Client.holds i) ≤ w.alive := by
  rw [World.clients, List.countP_map, World.alive]
  refine List.countP_mono_left fun q hq hh => ?_
  obtain ⟨p, hp⟩ := List.mem_iff_getElem?.1 hq
  have hc := hwf p _ (clients_getElem? _ hp)
  by_contra hdead
  have hpc : q.pc = .dead := by simpa using hdead
  simp only [Client.Wf, Proc.view, hpc, Pc.view] at hc
  simp [Client.holds, Proc.view, hc] at hh

/-- In an orderly run there is always room. -/
theorem orderly_roomy (h : (machine P s us).Reach (Orderly P) w) (ha : Orderly P w a) (key : ℤ) :
    w.roomy key a := by
  intro pt _
  cases pt with
  | create_getval i v =>
    have hle := countP_holds_le_alive
      (fun p c hc => wf_of_reach (fun w a h => h.1) h key (p := p) hc) i
    exact Nat.lt_of_le_of_lt hle ha.2
  | _ => trivial

/-- **The counter works**, for any programs that keep their promise, any
interleaving and any deaths. -/
theorem countInv_of_reach {ok : World S U → Act U C → Prop}
    (hok : ∀ w a, ok w a → w.keeps P a ∧ w.roomy key a) (h : (machine P s us).Reach ok w) :
    CountInv (w.sem key) (w.clients key) := by
  apply h.invariant (I := fun w => CountInv (w.sem key) (w.clients key))
  · rintro w rfl
    exact CountInv.start _ fun p c hc => clients_start_get hc
  · intro w a w' hw hinv hwa hstep
    have hlock := lockInv_of_reach (fun w a h => (hok w a h).1.spares) hw key
    exact hinv.step hlock (hok w a hwa).1 (hok w a hwa).2 hstep

/-- The counter invariant in orderly runs. -/
theorem countInv_of_orderly (h : (machine P s us).Reach (Orderly P) w) (key : ℤ) :
    CountInv (w.sem key) (w.clients key) := by
  have hroomy : (machine P s us).Reach (fun w a => w.keeps P a ∧ w.roomy key a) w :=
    h.strengthen fun _ _ _ hw ha _ => ⟨ha.1, orderly_roomy hw ha key⟩
  exact countInv_of_reach (fun _ _ h => h) hroomy

end Runs

end UnixNetProg.Semaphore

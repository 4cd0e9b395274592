/-
What the semaphore routines do to one key.

Seen from one key, a process is a `Client`: away (in its own code, or busy with
another key), at a point of a routine on this key, or dead; and it holds the
set open or not. `Trans` lists every change a client can make, with the guard
under which it makes it and what becomes of the slot: it is the protocol of
`semaphore.c` as a transition table. `World.step_key` says that a step of the
world, whatever programs are running, is for every key no change at all, a new
client, or one line of that table. The invariants of the following modules are
proved from the table and never look at `World.step` again.
-/
import UnixNetProg.Lib.Ledger
import UnixNetProg.Semaphore.World

set_option autoImplicit false

namespace UnixNetProg.Semaphore

open UnixNetProg.SysV UnixNetProg.Runs UnixNetProg.Pool

/-! ## Clients -/

/-- Where a process is, seen from one key. -/
inductive Place
  | away
  | at (pt : Point) (asleep : Bool)
  | dead
  deriving DecidableEq, Repr

/-- A process, seen from one key. -/
structure Client where
  held : Option ℕ
  place : Place
  deriving DecidableEq, Repr

/-- A point of a routine on `key`, seen from that key; `away` from any other. -/
def Pc.view (key : ℤ) : Pc → Place
  | .user => .away
  | .lib key' pt asleep => if key' = key then .at pt asleep else .away
  | .dead => .dead

/-- A process, seen from `key`. -/
def Proc.view {U : Type} (key : ℤ) (q : Proc U) : Client := ⟨q.held key, q.pc.view key⟩

/-- The processes, seen from `key`. -/
def World.clients {S U : Type} (w : World S U) (key : ℤ) : List Client :=
  w.procs.map (Proc.view key)

/-- The points at which a process has the lock of the set. -/
def Point.lockId : Point → Option ℕ
  | .create_getval id _ | .create_setval0 id _ | .create_setval1 id | .create_endcreate id
  | .rm id | .close_getval id | .close_unlock id => some id
  | _ => none

/-- The set whose lock a client has: it is between `op_lock` or `op_close` and
`op_endcreate`, `op_unlock` or the removal. -/
def Client.lockId (c : Client) : Option ℕ :=
  match c.place with
  | .at pt _ => pt.lockId
  | _ => none

/-- The client has the lock of set `i`. -/
def Client.locks (i : ℕ) (c : Client) : Bool := c.lockId == some i

/-- The client has set `i` open. -/
def Client.holds (i : ℕ) (c : Client) : Bool := c.held == some i

/-- The client is alive. -/
def Client.live (c : Client) : Bool := c.place != .dead

@[simp] theorem locks_iff {i : ℕ} {c : Client} : c.locks i = true ↔ c.lockId = some i := by
  simp [Client.locks]

@[simp] theorem holds_iff {i : ℕ} {c : Client} : c.holds i = true ↔ c.held = some i := by
  simp [Client.holds]

/-! ## The table -/

/-- The changes a client `p` makes. The label is the point whose system call is
carried out, `none` where there is none. `good` says that the caller keeps its
promise to the routines: most of what follows needs it, the lock does not. -/
inductive Trans (good : Prop) (p : ℕ) : Option Point → Slot 3 → Client → Slot 3 → Client → Prop
  | die {sl c} : Trans good p none sl c (sl.exit p) ⟨none, .dead⟩
  | enter_create {sl held initval} : (good → held = none) →
      Trans good p none sl ⟨held, .away⟩ sl ⟨held, .at (.create_semget initval) false⟩
  | enter_open {sl held} : (good → held = none) →
      Trans good p none sl ⟨held, .away⟩ sl ⟨held, .at .open_semget false⟩
  | enter_op {sl held id amount} :
      Trans good p none sl ⟨held, .away⟩ sl ⟨held, .at (.op_semop id amount) false⟩
  | enter_close {sl held id} : (good → held = some id) →
      Trans good p none sl ⟨held, .away⟩ sl ⟨held, .at (.close_op id) false⟩
  | sleep {sl held pt} : pt.perform sl p false = none →
      Trans good p none sl ⟨held, .at pt false⟩ sl ⟨held, .at pt true⟩
  | no_set {sl held pt asleep} : pt.isSemget = true →
      Trans good p (some pt) sl ⟨held, .at pt asleep⟩ sl ⟨held, .away⟩
  | create_found {sl held i S initval asleep} : sl.cur = some (i, S) →
      Trans good p (some (.create_semget initval)) sl ⟨held, .at (.create_semget initval) asleep⟩
        sl ⟨held, .at (.create_lock i initval) false⟩
  | create_new {sl held initval asleep} : sl.cur = none →
      Trans good p (some (.create_semget initval)) sl ⟨held, .at (.create_semget initval) asleep⟩
        ⟨sl.next + 1, some (sl.next, .fresh)⟩ ⟨held, .at (.create_lock sl.next initval) false⟩
  | lock {sl held i S initval asleep} : sl.cur = some (i, S) → S.val 2 = 0 →
      Trans good p (some (.create_lock i initval)) sl ⟨held, .at (.create_lock i initval) asleep⟩
        (sl.put i (S.shift p 2 1)) ⟨held, .at (.create_getval i initval) false⟩
  | again {sl held i initval} : sl.find i = none →
      Trans good p (some (.create_lock i initval)) sl ⟨held, .at (.create_lock i initval) false⟩
        sl ⟨held, .at (.create_semget initval) false⟩
  | getval_zero {sl held i S initval asleep} : sl.cur = some (i, S) → S.val 1 = 0 →
      Trans good p (some (.create_getval i initval)) sl
        ⟨held, .at (.create_getval i initval) asleep⟩
        sl ⟨held, .at (.create_setval0 i initval) false⟩
  | getval_pos {sl held i S initval asleep} : sl.cur = some (i, S) → S.val 1 ≠ 0 →
      Trans good p (some (.create_getval i initval)) sl
        ⟨held, .at (.create_getval i initval) asleep⟩
        sl ⟨held, .at (.create_endcreate i) false⟩
  | setval0 {sl held i S asleep} {initval : ℤ} : sl.cur = some (i, S) → 0 ≤ initval →
      initval ≤ SEMVMX →
      Trans good p (some (.create_setval0 i initval)) sl
        ⟨held, .at (.create_setval0 i initval) asleep⟩
        (sl.put i (S.setval 0 initval)) ⟨held, .at (.create_setval1 i) false⟩
  | setval1 {sl held i S asleep} : sl.cur = some (i, S) →
      Trans good p (some (.create_setval1 i)) sl ⟨held, .at (.create_setval1 i) asleep⟩
        (sl.put i (S.setval 1 BIGCOUNT)) ⟨held, .at (.create_endcreate i) false⟩
  | endcreate {sl held i S asleep} : sl.cur = some (i, S) → 1 ≤ S.val 1 → 1 ≤ S.val 2 →
      Trans good p (some (.create_endcreate i)) sl ⟨held, .at (.create_endcreate i) asleep⟩
        (sl.put i ((S.shift p 1 (-1)).shift p 2 (-1))) ⟨some i, .away⟩
  | open_found {sl held i S asleep} : sl.cur = some (i, S) →
      Trans good p (some .open_semget) sl ⟨held, .at .open_semget asleep⟩
        sl ⟨held, .at (.open_op i) false⟩
  | opened {sl held i S asleep} : sl.cur = some (i, S) → 1 ≤ S.val 1 →
      Trans good p (some (.open_op i)) sl ⟨held, .at (.open_op i) asleep⟩
        (sl.put i (S.shift p 1 (-1))) ⟨some i, .away⟩
  | close {sl held i S asleep} : sl.cur = some (i, S) → S.val 2 = 0 → S.val 1 < SEMVMX →
      Trans good p (some (.close_op i)) sl ⟨held, .at (.close_op i) asleep⟩
        (sl.put i ((S.shift p 2 1).shift p 1 1)) ⟨none, .at (.close_getval i) false⟩
  | close_last {sl held i S asleep} : sl.cur = some (i, S) → S.val 1 = BIGCOUNT →
      Trans good p (some (.close_getval i)) sl ⟨held, .at (.close_getval i) asleep⟩
        sl ⟨held, .at (.rm i) false⟩
  | close_more {sl held i S asleep} : sl.cur = some (i, S) → S.val 1 < BIGCOUNT →
      Trans good p (some (.close_getval i)) sl ⟨held, .at (.close_getval i) asleep⟩
        sl ⟨held, .at (.close_unlock i) false⟩
  | removed {sl held i S asleep} : sl.cur = some (i, S) →
      Trans good p (some (.rm i)) sl ⟨held, .at (.rm i) asleep⟩
        { sl with cur := none } ⟨held, .away⟩
  | unlock {sl held i S asleep} : sl.cur = some (i, S) → 1 ≤ S.val 2 →
      Trans good p (some (.close_unlock i)) sl ⟨held, .at (.close_unlock i) asleep⟩
        (sl.put i (S.shift p 2 (-1))) ⟨held, .away⟩
  | op_none {sl held i asleep} :
      Trans good p (some (.op_semop i 0)) sl ⟨held, .at (.op_semop i 0) asleep⟩ sl ⟨held, .away⟩
  | op {sl held i S amount asleep} : sl.cur = some (i, S) → 0 ≤ (S.val 0 : ℤ) + amount →
      (S.val 0 : ℤ) + amount ≤ SEMVMX →
      Trans good p (some (.op_semop i amount)) sl ⟨held, .at (.op_semop i amount) asleep⟩
        (sl.put i (S.shift p 0 amount)) ⟨held, .away⟩

/-- What one step of the world is for one key. The label is the process whose
system call is carried out in the step, if it is a step of that kind. -/
inductive KStep (good : Prop) (actor : Option ℕ) : Slot 3 → List Client → Slot 3 → List Client →
    Prop
  | idle {sl cs} : KStep good actor sl cs sl cs
  | spawn {sl cs} : KStep good actor sl cs sl (cs ++ [⟨none, .away⟩])
  | proc {sl cs sl' p c c' l} : cs[p]? = some c → Trans good p l sl c sl' c' →
      (l ≠ none → actor = some p) → KStep good actor sl cs sl' (cs.set p c')

/-! ## One system call

Each point's system call, as a line of the table. The errors that reach
`err_sys` leave the slot as it was: what follows is the death of the process. -/

/-- What a system call that returned does to a client, by what the routine does
next. -/
def Next.Follows (good : Prop) (nx : Next) (p : ℕ) (pt : Point) (sl : Slot 3) (c : Client)
    (sl' : Slot 3)
    (held : Option ℕ) : Prop :=
  match nx with
  | .goto pt' => Trans good p (some pt) sl c sl' ⟨held, .at pt' false⟩
  | .ret _ => Trans good p (some pt) sl c sl' ⟨held, .away⟩
  | .err_sys _ => sl' = sl
  | .err_dump _ => sl' = sl

section Perform

variable {good : Prop} {sl sl' : Slot 3} {p : ℕ} {asleep : Bool} {r : Except Errno ℕ}

theorem perform_semget {pt : Point} {creat : Bool} (hpt : pt.call = .semget creat)
    (h : pt.perform sl p asleep = some (sl', r)) :
    (∃ i S, sl.cur = some (i, S) ∧ sl' = sl ∧ r = .ok i) ∨
      (sl.cur = none ∧ creat = true ∧ sl' = ⟨sl.next + 1, some (sl.next, .fresh)⟩ ∧
        r = .ok sl.next) ∨
      (sl.cur = none ∧ creat = false ∧ sl' = sl ∧ r = .error .ENOENT) := by
  rw [Point.perform, hpt] at h
  cases hcur : sl.cur with
  | none =>
    cases creat with
    | false => simp_all [Slot.call, eq_comm]
    | true => simp_all [Slot.call, eq_comm]
  | some c =>
    obtain ⟨i, S⟩ := c
    simp only [Slot.call, hcur, Option.some.injEq, Prod.mk.injEq] at h
    exact .inl ⟨i, S, rfl, h.1.symm, h.2.symm⟩

theorem perform_semop {pt : Point} {id : ℕ} {ops : List (Sembuf 3)}
    (hpt : pt.call = .semop id ops) (h : pt.perform sl p asleep = some (sl', r)) :
    (∃ S S', sl.cur = some (id, S) ∧ S.semop p ops = .done S' ∧ sl' = sl.put id S' ∧
        r = .ok 0) ∨
      (sl' = sl ∧ ∃ e, r = .error e ∧
        (sl.find id = none → e = if asleep then .EIDRM else .EINVAL) ∧
        (∀ S, sl.cur = some (id, S) → e = .ERANGE)) := by
  rw [Point.perform, hpt] at h
  cases hfind : sl.find id with
  | none =>
    simp only [Slot.call, hfind, Option.some.injEq, Prod.mk.injEq] at h
    refine .inr ⟨h.1.symm, _, h.2.symm, fun _ => rfl, fun S hS => ?_⟩
    exact absurd hS (Slot.find_eq_none.1 hfind S)
  | some S =>
    cases hop : S.semop p ops with
    | done S' =>
      simp only [Slot.call, hfind, hop, Option.some.injEq, Prod.mk.injEq] at h
      exact .inl ⟨S, S', Slot.find_eq_some.1 hfind, hop, h.1.symm, h.2.symm⟩
    | block => simp [Slot.call, hfind, hop] at h
    | fail e =>
      have he := SemSet.semop_fail hop
      simp only [Slot.call, hfind, hop, Option.some.injEq, Prod.mk.injEq] at h
      exact .inr ⟨h.1.symm, e, h.2.symm, fun h' => by simp at h', fun _ _ => he⟩

theorem perform_getval {pt : Point} {id : ℕ} {m : Fin 3} (hpt : pt.call = .getval id m)
    (h : pt.perform sl p asleep = some (sl', r)) :
    sl' = sl ∧ ((∃ S, sl.cur = some (id, S) ∧ r = .ok (S.val m)) ∨
      (sl.find id = none ∧ r = .error .EINVAL)) := by
  rw [Point.perform, hpt] at h
  cases hfind : sl.find id with
  | none => simp_all [Slot.call, eq_comm]
  | some S =>
    simp only [Slot.call, hfind, Option.some.injEq, Prod.mk.injEq] at h
    exact ⟨h.1.symm, .inl ⟨S, Slot.find_eq_some.1 hfind, h.2.symm⟩⟩

theorem perform_setval {pt : Point} {id : ℕ} {m : Fin 3} {v : ℤ}
    (hpt : pt.call = .setval id m v) (h : pt.perform sl p asleep = some (sl', r)) :
    (∃ S, sl.cur = some (id, S) ∧ 0 ≤ v ∧ v ≤ SEMVMX ∧ sl' = sl.put id (S.setval m v) ∧
        r = .ok 0) ∨
      (sl' = sl ∧ ∃ e, r = .error e) := by
  rw [Point.perform, hpt] at h
  cases hfind : sl.find id with
  | none =>
    simp only [Slot.call, hfind, Option.some.injEq, Prod.mk.injEq] at h
    exact .inr ⟨h.1.symm, _, h.2.symm⟩
  | some S =>
    by_cases hv : v < 0 ∨ (SEMVMX : ℤ) < v
    · simp only [Slot.call, hfind, hv, if_true, Option.some.injEq, Prod.mk.injEq] at h
      exact .inr ⟨h.1.symm, _, h.2.symm⟩
    · simp only [Slot.call, hfind, hv, if_false, Option.some.injEq, Prod.mk.injEq] at h
      exact .inl ⟨S, Slot.find_eq_some.1 hfind, by omega, by omega, h.1.symm, h.2.symm⟩

theorem perform_rmid {pt : Point} {id : ℕ} (hpt : pt.call = .rmid id)
    (h : pt.perform sl p asleep = some (sl', r)) :
    (∃ S, sl.cur = some (id, S) ∧ sl' = { sl with cur := none } ∧ r = .ok 0) ∨
      (sl' = sl ∧ ∃ e, r = .error e) := by
  rw [Point.perform, hpt] at h
  cases hfind : sl.find id with
  | none =>
    simp only [Slot.call, hfind, Option.some.injEq, Prod.mk.injEq] at h
    exact .inr ⟨h.1.symm, _, h.2.symm⟩
  | some S =>
    simp only [Slot.call, hfind, Option.some.injEq, Prod.mk.injEq] at h
    exact .inl ⟨S, Slot.find_eq_some.1 hfind, h.1.symm, h.2.symm⟩

/-- **Every system call of the routines is a line of the table.** -/
theorem Point.follows (pt : Point) (held : Option ℕ)
    (h : pt.perform sl p asleep = some (sl', r)) :
    (pt.resume r).Follows good p pt sl ⟨held, .at pt asleep⟩ sl' (pt.heldAt r held) := by
  cases pt with
  | create_semget initval =>
    rcases perform_semget rfl h with ⟨i, S, hcur, rfl, rfl⟩ | ⟨hcur, -, rfl, rfl⟩ | ⟨-, hc, -, -⟩
    · exact Trans.create_found hcur
    · exact Trans.create_new hcur
    · cases hc
  | create_lock id initval =>
    rcases perform_semop rfl h with ⟨S, T, hcur, hop, rfl, rfl⟩ | ⟨rfl, e, rfl, hgone, hhere⟩
    · obtain ⟨h2, rfl⟩ := of_semop_lock S p hop
      exact Trans.lock hcur h2
    · simp only [Point.resume]
      split
      · rename_i he
        have hfind : sl'.find id = none := by
          cases hf : sl'.find id with
          | none => rfl
          | some S => rw [hhere S (Slot.find_eq_some.1 hf)] at he; cases he
        -- `EINVAL` is what a caller that was not asleep sees
        have hawake : asleep = false := by
          have := hgone hfind
          rw [he] at this
          cases asleep
          · rfl
          · simp at this
        subst hawake
        exact Trans.again hfind
      · rfl
  | create_getval id initval =>
    obtain ⟨rfl, ⟨S, hcur, rfl⟩ | ⟨-, rfl⟩⟩ := perform_getval rfl h
    · simp only [Point.resume]
      split
      · rename_i h0
        exact Trans.getval_zero hcur h0
      · rename_i h0
        exact Trans.getval_pos hcur h0
    · rfl
  | create_setval0 id initval =>
    rcases perform_setval rfl h with ⟨S, hcur, hlo, hhi, rfl, rfl⟩ | ⟨rfl, e, rfl⟩
    · exact Trans.setval0 hcur hlo hhi
    · rfl
  | create_setval1 id =>
    rcases perform_setval rfl h with ⟨S, hcur, -, -, rfl, rfl⟩ | ⟨rfl, e, rfl⟩
    · exact Trans.setval1 hcur
    · rfl
  | create_endcreate id =>
    rcases perform_semop rfl h with ⟨S, T, hcur, hop, rfl, rfl⟩ | ⟨rfl, e, rfl, -, -⟩
    · obtain ⟨h1, h2, rfl⟩ := of_semop_endcreate S p hop
      exact Trans.endcreate hcur h1 h2
    · rfl
  | open_semget =>
    rcases perform_semget rfl h with ⟨i, S, hcur, rfl, rfl⟩ | ⟨-, hc, -, -⟩ | ⟨-, -, rfl, rfl⟩
    · exact Trans.open_found hcur
    · cases hc
    · exact Trans.no_set rfl
  | open_op id =>
    rcases perform_semop rfl h with ⟨S, T, hcur, hop, rfl, rfl⟩ | ⟨rfl, e, rfl, -, -⟩
    · obtain ⟨h1, rfl⟩ := of_semop_open S p hop
      exact Trans.opened hcur h1
    · rfl
  | rm id =>
    rcases perform_rmid rfl h with ⟨S, hcur, rfl, rfl⟩ | ⟨rfl, e, rfl⟩
    · exact Trans.removed hcur
    · rfl
  | close_op id =>
    rcases perform_semop rfl h with ⟨S, T, hcur, hop, rfl, rfl⟩ | ⟨rfl, e, rfl, -, -⟩
    · obtain ⟨h2, h1, rfl⟩ := of_semop_close S p hop
      exact Trans.close hcur h2 h1
    · rfl
  | close_getval id =>
    obtain ⟨rfl, ⟨S, hcur, rfl⟩ | ⟨-, rfl⟩⟩ := perform_getval rfl h
    · simp only [Point.resume]
      split
      · rfl
      · split
        · rename_i hlast
          exact Trans.close_last hcur hlast
        · exact Trans.close_more hcur (by omega)
    · rfl
  | close_unlock id =>
    rcases perform_semop rfl h with ⟨S, T, hcur, hop, rfl, rfl⟩ | ⟨rfl, e, rfl, -, -⟩
    · obtain ⟨h2, rfl⟩ := of_semop_unlock S p hop
      exact Trans.unlock hcur h2
    · rfl
  | op_semop id amount =>
    rcases perform_semop rfl h with ⟨S, T, hcur, hop, rfl, rfl⟩ | ⟨rfl, e, rfl, -, -⟩
    · rcases semop_op S p hop with ⟨rfl, rfl⟩ | ⟨hlo, hhi, -, rfl⟩
      · have hput : sl.put id T = sl := by rw [Slot.put, ← hcur]
        rw [hput]
        exact Trans.op_none
      · exact Trans.op hcur hlo hhi
    · rfl

/-- A `semget` that finds the tables full is one that finds nothing. -/
theorem Point.follows_nospace {pt : Point} (hpt : pt.isSemget = true) (held : Option ℕ) :
    (pt.resume (.error .ENOSPC)).Follows good p pt sl ⟨held, .at pt asleep⟩ sl held := by
  cases pt with
  | create_semget initval => exact Trans.no_set rfl
  | open_semget => exact Trans.no_set rfl
  | _ => cases hpt

end Perform

/-! ## Steps of the world -/

/-- What a caller of the routines promises: it opens a set it does not have
open, closes the set it has open, and does not remove sets itself. -/
def Call.allowed (held : ℤ → Option ℕ) : Call → Prop
  | .sem_create key _ | .sem_open key => held key = none
  | .sem_close key id => held key = some id
  | .sem_rm _ _ => False
  | _ => True

/-- The call removes a set whoever may be using it. -/
def Call.isRm : Call → Bool
  | .sem_rm _ _ => true
  | _ => false

instance (held : ℤ → Option ℕ) (c : Call) : Decidable (c.allowed held) := by
  cases c <;> unfold Call.allowed <;> infer_instance

/-- The routine a step calls, with what the caller has open at that moment. -/
def World.calls {S U C : Type} (P : Program S U C) (w : World S U) :
    Act U C → Option ((ℤ → Option ℕ) × Call)
  | .user p c =>
    match w.procs[p]? with
    | some q =>
      match P.step w.sem w.shared q.user c with
      | some (_, .call call _) => some (q.held, call)
      | _ => none
    | none => none
  | _ => none

/-- The call made in the step, if any, is of this kind. -/
def World.callsOnly {S U C : Type} (φ : (ℤ → Option ℕ) → Call → Prop) (P : Program S U C)
    (w : World S U) (a : Act U C) : Prop :=
  ∀ held call, w.calls P a = some (held, call) → φ held call

instance {S U C : Type} (φ : (ℤ → Option ℕ) → Call → Prop) [∀ held c, Decidable (φ held c)]
    (P : Program S U C) (w : World S U) (a : Act U C) : Decidable (w.callsOnly φ P a) :=
  match h : w.calls P a with
  | none => .isTrue fun held call hc => by rw [h] at hc; cases hc
  | some (held, call) =>
    decidable_of_iff (φ held call) ⟨fun ha held' call' hc => by
      rw [h] at hc
      cases hc
      exact ha, fun hk => hk held call h⟩

/-- The step is not a call that breaks the promise. -/
def World.keeps {S U C : Type} (P : Program S U C) (w : World S U) (a : Act U C) : Prop :=
  w.callsOnly Call.allowed P a

/-- The step is not a call of `sem_rm` from outside: removal is left to
`sem_close`. -/
def World.spares {S U C : Type} (P : Program S U C) (w : World S U) (a : Act U C) : Prop :=
  w.callsOnly (fun _ c => c.isRm = false) P a

instance {S U C : Type} (P : Program S U C) (w : World S U) (a : Act U C) :
    Decidable (w.keeps P a) :=
  inferInstanceAs (Decidable (w.callsOnly _ P a))

instance {S U C : Type} (P : Program S U C) (w : World S U) (a : Act U C) :
    Decidable (w.spares P a) :=
  inferInstanceAs (Decidable (w.callsOnly _ P a))

section Promise

variable {S U C : Type} {P : Program S U C} {w : World S U} {p : ℕ} {c : C}

/-- What a step's call is, from the program. -/
theorem World.calls_user {q : Proc U} (hq : w.procs[p]? = some q) {s : S} {call : Call} {u : U}
    (hs : P.step w.sem w.shared q.user c = some (s, .call call u)) :
    w.calls P (.user p c) = some (q.held, call) := by
  simp only [World.calls, hq, hs]

/-- Keeping the promise includes leaving removal to `sem_close`. -/
theorem World.keeps.spares {a : Act U C} (h : w.keeps P a) : w.spares P a := by
  intro held call hc
  have hallowed := h held call hc
  cases call <;> first | rfl | exact hallowed.elim

end Promise

/-- The process whose system call the step carries out. -/
def Act.actor {U C : Type} : Act U C → Option ℕ
  | .sys p | .nospace p => some p
  | _ => none

/-- The point at which a process is in a routine on `key`. -/
def Pc.at? (key : ℤ) : Pc → Option Point
  | .lib key' pt _ => if key' = key then some pt else none
  | _ => none

/-- The point on `key` whose system call the step carries out, if any. -/
def World.sysAt {S U C : Type} (w : World S U) (key : ℤ) (a : Act U C) : Option Point :=
  a.actor.bind fun p => w.procs[p]?.bind fun q => q.pc.at? key

section Steps

variable {S U C : Type} {w w' : World S U} {p : ℕ} {q q' : Proc U} {key : ℤ}
  {good : Prop} {actor : Option ℕ}

theorem clients_getElem? (key : ℤ) (hq : w.procs[p]? = some q) :
    (w.clients key)[p]? = some (q.view key) := by
  rw [World.clients, List.getElem?_map, hq]
  rfl

/-- A process that looks the same from a key changes nothing there. -/
theorem kstep_idle (hq : w.procs[p]? = some q) (hv : q'.view key = q.view key) :
    KStep good actor (w.sem key) (w.clients key) (w.sem key)
      ((w.procs.set p q').map (Proc.view key)) := by
  have hsame : (w.procs.set p q').map (Proc.view key) = w.clients key := by
    rw [List.map_set, hv, World.clients]
    refine List.ext_getElem? fun i => ?_
    rw [List.getElem?_set]
    split
    · rename_i hi
      subst hi
      have := clients_getElem? key hq
      rw [World.clients] at this
      rw [this]
      simp [List.getElem?_eq_some_iff.1 hq |>.1]
    · rfl
  rw [hsame]
  exact .idle

/-- A line of the table for one process. -/
theorem kstep_proc {sl' : Slot 3} {l : Option Point} (hq : w.procs[p]? = some q)
    (ht : Trans good p l (w.sem key) (q.view key) sl' (q'.view key))
    (hl : l ≠ none → actor = some p) :
    KStep good actor (w.sem key) (w.clients key) sl' ((w.procs.set p q').map (Proc.view key)) := by
  rw [List.map_set]
  exact .proc (clients_getElem? _ hq) ht hl

/-- The death of a process, seen from any key. -/
theorem kstep_kill (hq : w.procs[p]? = some q) :
    KStep good actor (w.sem key) (w.clients key) ((w.kill p q').sem key)
      ((w.kill p q').clients key) :=
  kstep_proc hq .die (fun h => absurd rfl h)

theorem view_of_ne {key' : ℤ} {pt : Point} {asleep : Bool} (hk : key' ≠ key)
    (u : U) (held : ℤ → Option ℕ) :
    (⟨u, held, .lib key' pt asleep⟩ : Proc U).view key = ⟨held key, .away⟩ := by
  simp [Proc.view, Pc.view, hk]

theorem view_of_eq {pt : Point} {asleep : Bool} (u : U) (held : ℤ → Option ℕ) :
    (⟨u, held, .lib key pt asleep⟩ : Proc U).view key = ⟨held key, .at pt asleep⟩ := by
  simp [Proc.view, Pc.view]

theorem view_of_user (u : U) (held : ℤ → Option ℕ) :
    (⟨u, held, .user⟩ : Proc U).view key = ⟨held key, .away⟩ := rfl

/-- A system call that returned, seen from any key. -/
theorem kstep_complete (P : Program S U C) {key' : ℤ} {pt : Point} {asleep : Bool} {sl : Slot 3}
    {r : Except Errno ℕ} (hq : w.procs[p]? = some q) (hpc : q.pc = .lib key' pt asleep)
    (hf : (pt.resume r).Follows good p pt (w.sem key') ⟨q.held key', .at pt asleep⟩ sl
      (pt.heldAt r (q.held key'))) :
    KStep good (some p) (w.sem key) (w.clients key) ((w.complete P p q key' pt sl r).sem key)
      ((w.complete P p q key' pt sl r).clients key) := by
  obtain ⟨u, held, pc⟩ := q
  subst hpc
  unfold World.complete
  -- for its own key it is a line of the table, for any other one nothing, or a death
  by_cases hk : key' = key
  · subst hk
    cases hnx : pt.resume r with
    | goto pt' =>
      rw [hnx] at hf
      simp only [World.setProc, World.note, World.clients, Function.update_self]
      refine kstep_proc hq (l := some pt) ?_ fun _ => rfl
      rw [view_of_eq, view_of_eq, Function.update_self]
      exact hf
    | ret v =>
      rw [hnx] at hf
      simp only [World.setProc, World.note, World.clients, Function.update_self]
      refine kstep_proc hq (l := some pt) ?_ fun _ => rfl
      rw [view_of_eq, view_of_user, Function.update_self]
      exact hf
    | err_sys msg =>
      rw [hnx] at hf
      obtain rfl : sl = w.sem key' := hf
      simp only [Function.update_eq_self]
      exact kstep_kill hq
    | err_dump msg =>
      rw [hnx] at hf
      obtain rfl : sl = w.sem key' := hf
      simp only [Function.update_eq_self]
      exact kstep_kill hq
  · have hk' : key ≠ key' := fun e => hk e.symm
    cases hnx : pt.resume r with
    | goto pt' =>
      simp only [World.setProc, World.note, World.clients, Function.update_of_ne hk']
      apply kstep_idle hq
      rw [view_of_ne hk, view_of_ne hk, Function.update_of_ne hk']
    | ret v =>
      simp only [World.setProc, World.note, World.clients, Function.update_of_ne hk']
      apply kstep_idle hq
      rw [view_of_ne hk, view_of_user, Function.update_of_ne hk']
    | err_sys msg =>
      simp only [World.kill, World.note, World.clients, Function.update_of_ne hk']
      exact kstep_proc hq .die fun h => absurd rfl h
    | err_dump msg =>
      simp only [World.kill, World.note, World.clients, Function.update_of_ne hk']
      exact kstep_proc hq .die fun h => absurd rfl h

/-- A piece of a process's own code, seen from any key. -/
theorem kstep_does (P : Program S U C) (hq : w.procs[p]? = some q) (hpc : q.pc = .user)
    (d : Does U)
    (hd : ∀ c u, d = .call c u → c.isRm = false ∧ (good → c.allowed q.held)) :
    KStep good actor (w.sem key) (w.clients key) ((w.does P p q d).sem key)
      ((w.does P p q d).clients key) := by
  obtain ⟨u₀, held, pc⟩ := q
  subst hpc
  cases d with
  | go u => exact kstep_idle hq rfl
  | exit => exact kstep_kill hq
  | err_sys msg => exact kstep_kill hq
  | call c u =>
    obtain ⟨hrm, hc⟩ := hd c u rfl
    cases hs : c.start with
    | ret v =>
      simp only [World.does, hs]
      exact kstep_idle hq rfl
    | err_sys msg =>
      simp only [World.does, hs]
      exact kstep_kill hq
    | err_dump msg =>
      simp only [World.does, hs]
      exact kstep_kill hq
    | goto pt =>
      simp only [World.does, hs, World.setProc, World.note]
      by_cases hk : c.key = key
      · subst hk
        refine kstep_proc hq (l := none) ?_ fun h => absurd rfl h
        rw [view_of_eq, view_of_user]
        -- which routine was called decides which line of the table this is
        cases c with
        | sem_create k v =>
          simp only [Call.start, sem_create] at hs
          split_ifs at hs
          cases hs
          exact .enter_create hc
        | sem_open k =>
          simp only [Call.start, sem_open] at hs
          split_ifs at hs
          cases hs
          exact .enter_open hc
        | sem_rm k id => cases hrm
        | sem_close k id =>
          cases hs
          exact .enter_close hc
        | sem_wait k id =>
          simp only [Call.start, sem_wait_eq, Next.goto.injEq] at hs
          subst hs
          exact .enter_op
        | sem_signal k id =>
          simp only [Call.start, sem_signal_eq, Next.goto.injEq] at hs
          subst hs
          exact .enter_op
        | sem_op k id value =>
          simp only [Call.start, sem_op] at hs
          split_ifs at hs
          cases hs
          exact .enter_op
      · apply kstep_idle hq
        rw [view_of_ne hk]
        rfl

/-- **A step of the world is, for every key, at most one line of the table.** -/
theorem World.step_key {P : Program S U C} {a : Act U C} (h : w.step P a = some w')
    (hk : w.spares P a) (key : ℤ) :
    KStep (w.keeps P a) a.actor (w.sem key) (w.clients key) (w'.sem key) (w'.clients key) := by
  cases a with
  | spawn u =>
    obtain ⟨-, rfl⟩ := World.of_step_spawn h
    simp only [World.clients, List.map_append]
    exact .spawn
  | die p =>
    obtain ⟨q, hq, -, rfl⟩ := World.of_step_die h
    exact kstep_kill hq
  | user p c =>
    obtain ⟨q, s, d, hq, hpc, hstep, rfl⟩ := World.of_step_user h
    exact kstep_does P (w := { w with shared := s }) hq hpc d
      fun call u hd => ⟨hk _ _ (World.calls_user hq (hd ▸ hstep)),
        fun hgood => hgood _ _ (World.calls_user hq (hd ▸ hstep))⟩
  | sys p =>
    obtain ⟨q, key', pt, asleep, hq, hpc, ⟨sl, r, hperf, rfl⟩ | ⟨hwait, rfl, rfl⟩⟩ :=
      World.of_step_sys h
    · exact kstep_complete P hq hpc (pt.follows (q.held key') hperf)
    · -- the process goes to sleep
      obtain ⟨u, held, pc⟩ := q
      subst hpc
      by_cases hkey : key' = key
      · subst hkey
        refine kstep_proc hq (l := none) ?_ fun e => absurd rfl e
        rw [view_of_eq, view_of_eq]
        exact .sleep hwait
      · apply kstep_idle hq
        rw [view_of_ne hkey, view_of_ne hkey]
  | nospace p =>
    obtain ⟨q, key', pt, asleep, hq, hpc, hpt, rfl⟩ := World.of_step_nospace h
    exact kstep_complete P hq hpc (Point.follows_nospace hpt (q.held key'))

end Steps

end UnixNetProg.Semaphore

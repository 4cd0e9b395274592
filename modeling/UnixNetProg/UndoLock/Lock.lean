/-
`lock_unlock_2.c`: a lock that is a semaphore of value 0 when it is free, taken and given
back with `SEM_UNDO`.

Each process calls `my_lock` and then `my_unlock`, as often as it likes, may fork
while it is outside, and may die at any point; `err_sys` is one way to die. The lock is
taken by two operations in one `semop`, which waits, and given back by one, which does
not: with `IPC_NOWAIT` a `semop` that would wait fails.

The value is a ledger of the processes that are inside: their number, and each
one's adjustment is what takes its own unit back.
-/
import UnixNetProg.Lib.Ledger
import UnixNetProg.Lib.Runs

set_option autoImplicit false

namespace UnixNetProg.UndoLock

open UnixNetProg.Pool UnixNetProg.Runs UnixNetProg.SysV

/-! ## The program -/

/-- Semaphore number 0, the only one of the set. -/
def sem : Fin 1 := ⟨0, Nat.one_pos⟩

/-- Wait for 0, then add 1 (`pitfalls/pitfall_2/lock_unlock_2.c:21-24`). -/
def op_lock : List (Sembuf 1) := [⟨sem, 0, false⟩, ⟨sem, 1, true⟩]

/-- Subtract 1; the flags are `IPC_NOWAIT | SEM_UNDO` (`pitfall_2/lock_unlock_2.c:26-28`). -/
def op_unlock : List (Sembuf 1) := [⟨sem, -1, true⟩]

/-- Where a process is: outside, in the two calls of `my_lock`, between `my_lock` and
`my_unlock`, in the call of `my_unlock`, or gone. -/
inductive At
  | outside
  | semget
  | lock (asleep : Bool)
  | inside
  | unlock
  | ended (msg : Option String)
  deriving DecidableEq, Repr

/-- A process; `semid` is `none` as long as it is -1. -/
structure Proc where
  semid : Option ℕ
  pc : At
  deriving DecidableEq, Repr

/-- Between the end of `my_lock` and that of `my_unlock`. -/
def Proc.holds (q : Proc) : Bool :=
  match q.pc with
  | .inside | .unlock => true
  | .outside | .semget | .lock _ | .ended _ => false

/-- It has an identifier: it has left `semget`. -/
def Proc.named (q : Proc) : Bool :=
  match q.pc with
  | .lock _ | .inside | .unlock => true
  | .outside | .semget | .ended _ => false

def Proc.live (q : Proc) : Bool :=
  match q.pc with
  | .ended _ => false
  | .outside | .semget | .lock _ | .inside | .unlock => true

/-- The key `SEMKEY`, and the processes. -/
structure World where
  slot : Slot 1
  procs : List Proc

/-- Process `p` has become `q`. -/
def World.put (w : World) (p : ℕ) (q : Proc) : World := { w with procs := w.procs.set p q }

/-- Process `p` exits, or is killed. -/
def World.exit (w : World) (p : ℕ) (q : Proc) (msg : Option String) : World :=
  { slot := w.slot.exit p, procs := w.procs.set p { q with pc := .ended msg } }

/-- `my_lock` (`pitfall_2/lock_unlock_2.c:32-55`) is entered. -/
def Proc.my_lock (q : Proc) : Proc :=
  { q with pc := if q.semid.isNone then .semget else .lock false }

/-- `semop`, or what follows when it cannot be done: it sleeps if it may, and `err_sys`
otherwise. -/
def World.semop (w : World) (p : ℕ) (q : Proc) (id : ℕ) (asleep : Bool) (ops : List (Sembuf 1))
    (next : At) (wait : Option At) (msg : String) : World :=
  match w.slot.call p asleep (.semop id ops) with
  | .done (slot, _) => { slot := slot, procs := w.procs.set p { q with pc := next } }
  | .block =>
    match wait with
    | some pc => w.put p { q with pc := pc }
    | none => w.exit p q (some msg)
  | .fail _ => w.exit p q (some msg)

/-- The call that process `p` is in, of `my_lock` or `my_unlock`
(`pitfall_2/lock_unlock_2.c:32-62`). -/
def World.go (w : World) (p : ℕ) (q : Proc) : Option World :=
  match q.pc, q.semid with
  | .semget, _ =>
    match w.slot.call p false (.semget true) with
    | .done (slot, id) => some { slot := slot, procs := w.procs.set p ⟨some id, .lock false⟩ }
    | .block | .fail _ => some (w.exit p q (some "semget error"))
  | .lock asleep, some id =>
    some (w.semop p q id asleep op_lock .inside (some (.lock true)) "semop lock error")
  | .unlock, some id => some (w.semop p q id false op_unlock .outside none "semop unlock error")
  | .outside, _ | .inside, _ | .ended _, _ | .lock _, none | .unlock, none => none

/-- A process starts, forks outside, calls one of the routines, goes on in it, or dies. -/
inductive Act
  | spawn
  | fork (p : ℕ)
  | lock (p : ℕ)
  | unlock (p : ℕ)
  | go (p : ℕ)
  | die (p : ℕ)

def World.step (w : World) : Act → Option World
  | .spawn => some { w with procs := w.procs ++ [⟨none, .outside⟩] }
  | .fork p => w.procs[p]?.bind fun q =>
    if q.pc = .outside then some { w with procs := w.procs ++ [q] } else none
  | .lock p => w.procs[p]?.bind fun q =>
    if q.pc = .outside then some (w.put p q.my_lock) else none
  | .unlock p => w.procs[p]?.bind fun q =>
    if q.pc = .inside then some (w.put p { q with pc := .unlock }) else none
  | .go p => w.procs[p]?.bind fun q => w.go p q
  | .die p => w.procs[p]?.bind fun q => if q.live then some (w.exit p q none) else none

/-- At first there is no process, and a set that earlier ones have left behind is as they
left it: of value 0, with nothing to take back. -/
def machine : Machine World Act where
  init := fun w => w.procs = [] ∧
    ∀ id S, w.slot.cur = some (id, S) → S.val sem = 0 ∧ ∀ p, S.adj p sem = 0
  step := World.step

/-! ## What the two arrays do -/

section Arrays

variable (S : SemSet 1) (p : ℕ)

theorem semop_op_lock (hundo : UndoFits (S.adj p sem - 1)) :
    S.semop p op_lock = if S.val sem = 0 then .done (S.shift p sem 1) else .block := by
  simp only [op_lock, SemSet.semop, SemSet.apply1_zero]
  by_cases h : S.val sem = 0
  · have hfit : ¬ (SEMVMX : ℤ) < (S.val sem : ℤ) + 1 := by
      rw [h]
      decide
    simp only [if_pos h, SemSet.apply1_pos S p sem (d := 1) Int.one_pos, if_neg hfit, if_pos hundo]
  · simp only [if_neg h]

theorem semop_op_unlock (hundo : UndoFits (S.adj p sem + 1)) :
    S.semop p op_unlock = if S.val sem = 0 then .block else .done (S.shift p sem (-1)) := by
  simp only [op_unlock, SemSet.semop, SemSet.apply1_neg S p sem (d := -1) (by decide),
    sub_neg_eq_add, if_pos hundo]
  by_cases h : S.val sem = 0
  · rw [if_pos h, if_pos (by rw [h]; decide)]
  · rw [if_neg h, if_neg (by omega)]

end Arrays

/-! ## The invariant -/

/-- The set is there for whoever knows it, its value is the ledger of the processes
inside, and there is at most one. -/
structure LockInv (w : World) : Prop where
  there : ∀ {p : ℕ} {q : Proc} {id : ℕ}, w.procs[p]? = some q → q.semid = some id →
    ∃ S, w.slot.cur = some (id, S)
  knows : ∀ {p : ℕ} {q : Proc}, w.procs[p]? = some q → q.named = true → q.semid.isSome = true
  ledger : ∀ {id : ℕ} {S : SemSet 1}, w.slot.cur = some (id, S) →
    Ledger S sem 0 1 Proc.holds w.procs
  one : w.procs.countP Proc.holds ≤ 1

theorem named_of_holds {q : Proc} (h : q.holds = true) : q.named = true := by
  obtain ⟨semid, pc⟩ := q
  cases pc <;> first | rfl | cases h

theorem named_of_lock {q : Proc} {asleep : Bool} (h : q.pc = .lock asleep) : q.named = true := by
  rw [Proc.named, h]

theorem holds_my_lock (q : Proc) : q.my_lock.holds = false := by
  rw [Proc.my_lock, Proc.holds]
  by_cases h : q.semid.isNone
  · rw [if_pos h]
  · rw [if_neg h]

/-- `my_lock` gets an identifier first, if it has none. -/
theorem named_my_lock {q : Proc} (h : q.my_lock.named = true) : q.my_lock.semid.isSome = true := by
  rw [Proc.my_lock, Proc.named] at h
  by_cases hnone : q.semid.isNone
  · rw [if_pos hnone] at h
    cases h
  · simpa [Proc.my_lock, Option.isSome_iff_ne_none] using hnone

namespace LockInv

variable {w w' : World} {p : ℕ} {q q' : Proc}

theorem start (hprocs : w.procs = [])
    (hset : ∀ id S, w.slot.cur = some (id, S) → S.val sem = 0 ∧ ∀ p, S.adj p sem = 0) :
    LockInv w where
  there := fun hp => by
    rw [hprocs] at hp
    cases hp
  knows := fun hp => by
    rw [hprocs] at hp
    cases hp
  ledger := fun {id S} hcur => by
    obtain ⟨hval, hadj⟩ := hset id S hcur
    refine ⟨?_, fun p => ?_⟩
    · rw [hval, hprocs]
      rfl
    · rw [hadj, hprocs]
      rfl
  one := by
    rw [hprocs]
    exact Nat.zero_le _

/-- A new process, outside, that knows no other set than those before it. -/
theorem append (h : LockInv w) (hout : q.pc = .outside)
    (hsemid : ∀ id, q.semid = some id → ∃ S, w.slot.cur = some (id, S)) :
    LockInv { w with procs := w.procs ++ [q] } := by
  have hholds : q.holds = false := by rw [Proc.holds, hout]
  refine ⟨?_, ?_, fun hcur => (h.ledger hcur).append hholds, ?_⟩
  · intro p r id hp hid
    rcases getElem?_append_cases hp with ⟨-, rfl⟩ | hp
    · exact hsemid id hid
    · exact h.there hp hid
  · intro p r hp hnamed
    rcases getElem?_append_cases hp with ⟨-, rfl⟩ | hp
    · rw [Proc.named, hout] at hnamed
      cases hnamed
    · exact h.knows hp hnamed
  · have hone := h.one
    rw [List.countP_append, List.countP_singleton, if_neg (by simp [hholds])]
    exact hone

/-- A step of one process, whatever it does to the set. -/
theorem set (h : LockInv w) {slot : Slot 1}
    (hthere : ∀ id S, w.slot.cur = some (id, S) → ∃ S', slot.cur = some (id, S'))
    (hsemid : ∀ id, q'.semid = some id → ∃ S', slot.cur = some (id, S'))
    (hnamed : q'.named = true → q'.semid.isSome = true)
    (hledger : ∀ id S', slot.cur = some (id, S') → Ledger S' sem 0 1 Proc.holds (w.procs.set p q'))
    (hone : (w.procs.set p q').countP Proc.holds ≤ 1) :
    LockInv ⟨slot, w.procs.set p q'⟩ := by
  refine ⟨?_, ?_, fun {id S'} hcur => hledger id S' hcur, hone⟩
  · intro r c id hr hid
    rcases getElem?_set_cases hr with ⟨-, rfl, -⟩ | ⟨-, hr⟩
    · exact hsemid id hid
    · obtain ⟨S, hS⟩ := h.there hr hid
      exact hthere id S hS
  · intro r c hr hn
    rcases getElem?_set_cases hr with ⟨-, rfl, -⟩ | ⟨-, hr⟩
    · exact hnamed hn
    · exact h.knows hr hn

/-- A process that goes on in its program, and holds as much as before. -/
theorem put (h : LockInv w) (hq : w.procs[p]? = some q) (hsemid : q'.semid = q.semid)
    (hholds : q'.holds = q.holds) (hnamed : q'.named = true → q'.semid.isSome = true) :
    LockInv (w.put p q') := by
  have hcount := countP_set_add Proc.holds hq q'
  have hone := h.one
  rw [hholds] at hcount
  refine h.set (fun _ S hS => ⟨S, hS⟩) (fun id hid => ?_) hnamed (fun id S hS => ?_) (by omega)
  · rw [hsemid] at hid
    exact h.there hq hid
  · exact (h.ledger hS).same hq hholds rfl fun _ => rfl

/-- Whoever exits gives back what it holds. -/
theorem exit (h : LockInv w) (hq : w.procs[p]? = some q) (msg : Option String) :
    LockInv (w.exit p q msg) := by
  have hcount := countP_set_add Proc.holds hq { q with pc := .ended msg }
  have hone := h.one
  have hout : Proc.holds { q with pc := .ended msg } = false := rfl
  rw [hout, Bool.toNat_false, Nat.add_zero] at hcount
  have hle : (w.procs.set p { q with pc := .ended msg }).countP Proc.holds ≤ 1 := by omega
  refine h.set (fun id S hS => ?_) (fun id hid => ?_) (fun hn => ?_) (fun id S hS => ?_) hle
  · exact ⟨S.exit p, by rw [Slot.exit_cur, hS]; rfl⟩
  · obtain ⟨S, hS⟩ := h.there hq hid
    exact ⟨S.exit p, by rw [Slot.exit_cur, hS]; rfl⟩
  · cases hn
  · rw [Slot.exit_cur] at hS
    obtain ⟨⟨id', S'⟩, hcur, hpair⟩ := Option.map_eq_some_iff.1 hS
    cases hpair
    apply (h.ledger hcur).exit hq hout (by omega)
    have hmax : (1 : ℤ) ≤ SEMVMX := by decide
    omega

/-- An adjustment is 0 or -1, far from its limits. -/
theorem undoFits {id : ℕ} {S : SemSet 1} (h : LockInv w) (hcur : w.slot.cur = some (id, S))
    (p : ℕ) : UndoFits (S.adj p sem - 1) ∧ UndoFits (S.adj p sem + 1) :=
  ⟨(h.ledger hcur).undoFits (.inl rfl) p (d := -1) (by decide) (by decide),
    (h.ledger hcur).undoFits (.inl rfl) p (by decide) (by decide)⟩

/-- The value is the number of processes inside. -/
theorem val {id : ℕ} {S : SemSet 1} (h : LockInv w) (hcur : w.slot.cur = some (id, S)) :
    S.val sem = w.procs.countP Proc.holds := by
  have hval := (h.ledger hcur).val
  omega

/-- Without a set there is nobody inside. -/
theorem value (h : LockInv w) : w.slot.value sem = w.procs.countP Proc.holds := by
  cases hcur : w.slot.cur with
  | none =>
    have hnone : w.procs.countP Proc.holds = 0 := by
      refine countP_eq_zero_of_forall _ fun p q hq => ?_
      by_contra hholds
      obtain ⟨id, hid⟩ := Option.isSome_iff_exists.1
        (h.knows hq (named_of_holds (by simpa using hholds)))
      obtain ⟨S, hS⟩ := h.there hq hid
      rw [hcur] at hS
      cases hS
    rw [hnone, Slot.value, hcur]
  | some c =>
    rw [Slot.value_of_cur hcur, h.val hcur]

/-- A `semop` of `d` with undo on the set the process knows. -/
theorem shift (h : LockInv w) (d : ℤ) (hq : w.procs[p]? = some q) {id : ℕ} {S : SemSet 1}
    (hcur : w.slot.cur = some (id, S)) (hid : q'.semid = some id)
    (hd : d = (q'.holds.toNat : ℤ) - q.holds.toNat) (hlo : 0 ≤ (S.val sem : ℤ) + d)
    (hhi : (S.val sem : ℤ) + d ≤ 1) :
    LockInv ⟨w.slot.put id (S.shift p sem d), w.procs.set p q'⟩ := by
  have hcount := countP_set_add Proc.holds hq q'
  have hval := h.val hcur
  have hmax : (1 : ℤ) ≤ SEMVMX := by decide
  have hmax' : (S.val sem : ℤ) + d ≤ SEMVMX := by omega
  -- the set is there still, and so are the ones the processes know
  refine h.set (fun id' S' hS => ?_) (fun id' hid' => ?_) (fun _ => ?_) (fun id' S' hS => ?_) ?_
  · rw [hcur] at hS
    cases hS
    exact ⟨_, Slot.put_cur _ _ _⟩
  · rw [hid] at hid'
    cases hid'
    exact ⟨_, Slot.put_cur _ _ _⟩
  · rw [hid]
    rfl
  · rw [Slot.put_cur] at hS
    cases hS
    -- the adjustment of the process goes along with the value
    exact (h.ledger hcur).shift hq (by rw [hd, one_mul]) hlo hmax'
  · omega

end LockInv

/-! ## The calls -/

section Calls

variable {w : World} {p id : ℕ} {q : Proc} {S : SemSet 1} {asleep : Bool} {ops : List (Sembuf 1)}
  {next : At} {wait : Option At} {msg : String}

theorem semop_done (hcur : w.slot.cur = some (id, S)) {S' : SemSet 1}
    (h : S.semop p ops = .done S') :
    w.semop p q id asleep ops next wait msg =
      ⟨w.slot.put id S', w.procs.set p { q with pc := next }⟩ := by
  simp only [World.semop, Slot.call, Slot.find_eq_some.2 hcur, h]

theorem semop_sleep (hcur : w.slot.cur = some (id, S)) (h : S.semop p ops = .block) {pc : At} :
    w.semop p q id asleep ops next (some pc) msg = w.put p { q with pc := pc } := by
  simp only [World.semop, Slot.call, Slot.find_eq_some.2 hcur, h]

/-- Taking the lock: it is free, or the process sleeps. -/
theorem go_lock (h : LockInv w) (hpc : q.pc = .lock asleep) (hid : q.semid = some id)
    (hcur : w.slot.cur = some (id, S)) :
    w.go p q = some (if S.val sem = 0 then
        ⟨w.slot.put id (S.shift p sem 1), w.procs.set p { q with pc := .inside }⟩
      else w.put p { q with pc := .lock true }) := by
  have hop := semop_op_lock S p (h.undoFits hcur p).1
  simp only [World.go, hpc, hid]
  by_cases hzero : S.val sem = 0
  · rw [if_pos hzero, semop_done hcur (by rw [hop, if_pos hzero]), hid]
  · rw [if_neg hzero, semop_sleep hcur (by rw [hop, if_neg hzero]), hid]

/-- Giving it back: there is a unit to subtract. -/
theorem go_unlock (h : LockInv w) (hpc : q.pc = .unlock) (hid : q.semid = some id)
    (hcur : w.slot.cur = some (id, S)) (hval : S.val sem ≠ 0) :
    w.go p q = some
      ⟨w.slot.put id (S.shift p sem (-1)), w.procs.set p { q with pc := .outside }⟩ := by
  simp only [World.go, hpc, hid]
  rw [semop_done hcur (by rw [semop_op_unlock S p (h.undoFits hcur p).2, if_neg hval]), hid]

end Calls

namespace LockInv

variable {w w' : World} {p : ℕ} {q : Proc}

/-- The set of a process that has an identifier. -/
theorem find (h : LockInv w) (hq : w.procs[p]? = some q) (hnamed : q.named = true) :
    ∃ id S, q.semid = some id ∧ w.slot.cur = some (id, S) := by
  obtain ⟨id, hid⟩ := Option.isSome_iff_exists.1 (h.knows hq hnamed)
  obtain ⟨S, hS⟩ := h.there hq hid
  exact ⟨id, S, hid, hS⟩

theorem val_of_holds (h : LockInv w) (hq : w.procs[p]? = some q) (hholds : q.holds = true)
    {id : ℕ} {S : SemSet 1} (hcur : w.slot.cur = some (id, S)) : S.val sem = 1 := by
  have hpos := countP_pos_of_get Proc.holds hq hholds
  have hone := h.one
  have hval := h.val hcur
  omega

/-- `semget` finds the set, or makes one of value 0 while nobody is inside. -/
theorem semget (h : LockInv w) (hq : w.procs[p]? = some q) (hpc : q.pc = .semget)
    (hs : w.go p q = some w') : LockInv w' := by
  have hholds : q.holds = false := by rw [Proc.holds, hpc]
  simp only [World.go, hpc, Slot.call] at hs
  have hset : ∀ id, Proc.holds ⟨some id, .lock false⟩ = q.holds := fun _ => hholds.symm
  cases hcur : w.slot.cur with
  | some c =>
    obtain ⟨id, S⟩ := c
    simp only [hcur] at hs
    obtain rfl := Option.some.inj hs
    have hcount := countP_set_add Proc.holds hq ⟨some id, .lock false⟩
    -- the set is there already
    have hone := h.one
    rw [hset id] at hcount
    refine h.set (fun _ S hS => ⟨S, hS⟩) (fun id' hid' => ?_) (fun _ => rfl) (fun id' S' hS => ?_)
      (by omega)
    · cases hid'
      exact ⟨S, hcur⟩
    · exact (h.ledger hS).same hq (hset id) rfl fun _ => rfl
  | none =>
    simp only [hcur, if_true] at hs
    obtain rfl := Option.some.inj hs
    have hcount := countP_set_add Proc.holds hq ⟨some w.slot.next, .lock false⟩
    -- a set is created, and nobody holds the lock
    have hvalue := h.value
    rw [Slot.value, hcur] at hvalue
    rw [hset] at hcount
    have hnobody : (w.procs.set p ⟨some w.slot.next, .lock false⟩).countP Proc.holds = 0 := by
      simp only at hvalue
      omega
    refine h.set (fun id S hS => ?_) (fun id' hid' => ?_) (fun _ => rfl) (fun id' S' hS => ?_)
      (by omega)
    · rw [hcur] at hS
      cases hS
    · cases hid'
      exact ⟨_, rfl⟩
    · cases hS
      exact Ledger.of_fresh hnobody

/-- What a call preserves. -/
theorem go (h : LockInv w) (hq : w.procs[p]? = some q) (hs : w.go p q = some w') : LockInv w' := by
  cases hpc : q.pc with
  | semget => exact h.semget hq hpc hs
  | lock asleep =>
    obtain ⟨id, S, hid, hcur⟩ := h.find hq (named_of_lock hpc)
    have hout : q.holds = false := by rw [Proc.holds, hpc]
    rw [go_lock h hpc hid hcur] at hs
    obtain rfl := Option.some.inj hs
    split
    · -- the value is 0: both operations are done
      rename_i hzero
      refine h.shift 1 hq hcur hid ?_ (by omega) (by omega)
      rw [hout]
      rfl
    · -- the process sleeps
      refine h.put hq rfl hout.symm fun _ => ?_
      simp [hid]
  | unlock =>
    have hin : q.holds = true := by rw [Proc.holds, hpc]
    obtain ⟨id, S, hid, hcur⟩ := h.find hq (named_of_holds hin)
    have hval := h.val_of_holds hq hin hcur
    rw [go_unlock h hpc hid hcur (by omega)] at hs
    obtain rfl := Option.some.inj hs
    refine h.shift (-1) hq hcur hid ?_ (by omega) (by omega)
    rw [hin]
    rfl
  | outside | inside | ended msg =>
    rw [World.go, hpc] at hs
    cases hs

/-- What one step preserves. -/
theorem step (h : LockInv w) {a : Act} (hs : w.step a = some w') : LockInv w' := by
  cases a with
  | spawn =>
    obtain rfl := Option.some.inj hs
    exact h.append rfl fun id hid => by cases hid
  | fork p =>
    obtain ⟨q, hq, hs⟩ := Option.bind_eq_some_iff.1 hs
    split_ifs at hs with hpc
    obtain rfl := Option.some.inj hs
    -- a child knows the set its parent knows
    exact h.append hpc fun id hid => h.there hq hid
  | lock p =>
    obtain ⟨q, hq, hs⟩ := Option.bind_eq_some_iff.1 hs
    split_ifs at hs with hpc
    obtain rfl := Option.some.inj hs
    refine h.put hq rfl ?_ named_my_lock
    rw [holds_my_lock, Proc.holds, hpc]
  | unlock p =>
    obtain ⟨q, hq, hs⟩ := Option.bind_eq_some_iff.1 hs
    split_ifs at hs with hpc
    obtain rfl := Option.some.inj hs
    have hholds : q.holds = true := by rw [Proc.holds, hpc]
    have hsemid := h.knows hq (named_of_holds hholds)
    exact h.put hq rfl hholds.symm fun _ => hsemid
  | go p =>
    obtain ⟨q, hq, hs⟩ := Option.bind_eq_some_iff.1 hs
    exact h.go hq hs
  | die p =>
    obtain ⟨q, hq, hs⟩ := Option.bind_eq_some_iff.1 hs
    split_ifs at hs with hlive
    obtain rfl := Option.some.inj hs
    -- the system undoes its operations
    exact h.exit hq none

end LockInv

/-- The invariant holds in every state of a run. -/
theorem lockInv_of_reach {w : World} (h : machine.Reach (fun _ _ => True) w) : LockInv w := by
  apply h.invariant (I := LockInv)
  · intro s hs
    exact .start hs.1 hs.2
  · intro s a t _ hs _ hstep
    exact hs.step hstep

/-! ## What the lock is for -/

namespace LockInv

variable {w w' : World} {p : ℕ} {q : Proc}

theorem value_eq (h : LockInv w) : w.slot.value sem = (w.procs.any Proc.holds).toNat := by
  have hone := h.one
  rw [h.value]
  by_cases hany : w.procs.any Proc.holds = true
  · obtain ⟨q, hmem, hholds⟩ := List.any_eq_true.1 hany
    have hpos : 0 < w.procs.countP Proc.holds := List.countP_pos_iff.2 ⟨q, hmem, hholds⟩
    rw [hany, Bool.toNat_true]
    omega
  · rw [Bool.not_eq_true] at hany
    have hnone : w.procs.countP Proc.holds = 0 :=
      List.countP_eq_zero.2 fun q hmem hholds => by
        rw [List.any_eq_true.2 ⟨q, hmem, hholds⟩] at hany
        cases hany
    rw [hnone, hany, Bool.toNat_false]

/-- A process that waits while nobody is inside can take the lock. -/
theorem proceeds (h : LockInv w) (hfree : w.slot.value sem = 0) (hq : w.procs[p]? = some q)
    {asleep : Bool} (hpc : q.pc = .lock asleep) :
    ∃ w', w.step (.go p) = some w' ∧ w'.procs[p]? = some { q with pc := .inside } := by
  obtain ⟨id, S, hid, hcur⟩ := h.find hq (named_of_lock hpc)
  have hzero : S.val sem = 0 := by rw [← Slot.value_of_cur hcur, hfree]
  obtain ⟨hlt, -⟩ := List.getElem?_eq_some_iff.1 hq
  have hgo := go_lock (p := p) h hpc hid hcur
  rw [if_pos hzero] at hgo
  exact ⟨_, Option.bind_eq_some_iff.2 ⟨q, hq, hgo⟩, List.getElem?_set_self hlt⟩

theorem releases (h : LockInv w) (hq : w.procs[p]? = some q) (hpc : q.pc = .unlock) :
    ∃ w', w.step (.go p) = some w' ∧ w'.procs[p]? = some { q with pc := .outside } := by
  have hin : q.holds = true := by rw [Proc.holds, hpc]
  obtain ⟨id, S, hid, hcur⟩ := h.find hq (named_of_holds hin)
  have hval := h.val_of_holds hq hin hcur
  obtain ⟨hlt, -⟩ := List.getElem?_eq_some_iff.1 hq
  have hgo := go_unlock (p := p) h hpc hid hcur (by omega)
  exact ⟨_, Option.bind_eq_some_iff.2 ⟨q, hq, hgo⟩, List.getElem?_set_self hlt⟩

/-- The unit of a process that dies inside is taken back. -/
theorem value_of_die (h : LockInv w) (hq : w.procs[p]? = some q) (hholds : q.holds = true)
    (hs : w.step (.die p) = some w') : w'.slot.value sem = 0 := by
  have hstep := h.step hs
  have hone := h.one
  obtain ⟨r, hr, hs⟩ := Option.bind_eq_some_iff.1 hs
  obtain rfl : q = r := Option.some.inj (hq.symm.trans hr)
  split_ifs at hs with hlive
  obtain rfl := Option.some.inj hs
  have hcount := countP_set_add Proc.holds hq { q with pc := .ended none }
  have hout : Proc.holds { q with pc := .ended none } = false := rfl
  rw [hholds, hout, Bool.toNat_true, Bool.toNat_false] at hcount
  rw [hstep.value]
  simp only [World.exit]
  omega

end LockInv

/-- **The lock excludes, and recovers.** In every state of a run at most one process is
between `my_lock` and `my_unlock`; the value is 1 if there is one, and 0 otherwise;
`my_unlock` does not fail; and when a process dies inside, the value is 0 again and any
process that waits can go on. -/
theorem undo_lock {w : World} (h : machine.Reach (fun _ _ => True) w) :
    (∀ (p p' : ℕ) (q q' : Proc), w.procs[p]? = some q → w.procs[p']? = some q' →
      q.holds = true → q'.holds = true → p = p') ∧
    w.slot.value sem = (w.procs.any Proc.holds).toNat ∧
    (∀ (p : ℕ) (q : Proc), w.procs[p]? = some q → q.pc = .unlock →
      ∃ w', w.step (.go p) = some w' ∧ w'.procs[p]? = some { q with pc := .outside }) ∧
    ∀ (p : ℕ) (q : Proc) w', w.procs[p]? = some q → q.holds = true →
      w.step (.die p) = some w' → w'.slot.value sem = 0 ∧
      ∀ (p' : ℕ) (q' : Proc) asleep, w'.procs[p']? = some q' → q'.pc = .lock asleep →
        ∃ w'', w'.step (.go p') = some w'' ∧ w''.procs[p']? = some { q' with pc := .inside } := by
  have hinv := lockInv_of_reach h
  refine ⟨?_, hinv.value_eq, ?_, ?_⟩
  · intro p p' q q' hq hq' hholds hholds'
    exact eq_of_countP_le_one _ hinv.one hq hq' hholds hholds'
  · intro p q hq hpc
    exact hinv.releases hq hpc
  · intro p q w' hq hholds hs
    have hvalue := hinv.value_of_die hq hholds hs
    refine ⟨hvalue, ?_⟩
    intro p' q' asleep hq' hpc
    exact (hinv.step hs).proceeds hvalue hq' hpc

/-- One process is inside, and another one waits. -/
theorem undo_lock_two : ∃ w : World, machine.Reach (fun _ _ => True) w ∧
    w.procs = [⟨some 0, .inside⟩, ⟨some 0, .lock true⟩] ∧ w.slot.value sem = 1 := by
  have hrun := Machine.Reach.run machine (fun _ _ => True) (s := ⟨Slot.empty, []⟩)
    ⟨rfl, fun id S hS => by cases hS⟩
    [.spawn, .spawn, .lock 0, .go 0, .go 0, .lock 1, .go 1, .go 1] (by decide)
  exact ⟨_, hrun, by decide, (undo_lock hrun).2.1⟩

end UnixNetProg.UndoLock

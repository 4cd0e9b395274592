/-
What the log of a run says.

The two phases of `Count` are about values and places; the claims made for
`sem_create` and `sem_open` are about what has happened: which `SETVAL` came
before which `return`. `LogInv` connects them. Its consequences are the two
main results on creation and closing: `sem_create` initialises a set before
anybody gets its identifier and never again after, and the counter of an
initialised set is exact.
-/
import UnixNetProg.Semaphore.Count
import UnixNetProg.Semaphore.Moves

set_option autoImplicit false

namespace UnixNetProg.Semaphore

open UnixNetProg.SysV UnixNetProg.Runs UnixNetProg.Pool

/-! ## What one step records -/

/-- The system call of process `q` at `pt` comes to `r`. -/
def Point.Yields (pt : Point) (sl : Slot 3) (p : ℕ) (asleep : Bool) (r : Except Errno ℕ) : Prop :=
  (∃ sl', pt.perform sl p asleep = some (sl', r)) ∨ (pt.isSemget = true ∧ r = .error .ENOSPC)

/-- The events a step may record. -/
inductive Logged {S U C : Type} (P : Program S U C) (w : World S U) (a : Act U C) : Event → Prop
  | call {p c q s call u} : a = .user p c → w.procs[p]? = some q →
      P.step w.sem w.shared q.user c = some (s, .call call u) → Logged P w a (.call p call)
  | sys {p q key pt asleep r} : a.actor = some p → w.procs[p]? = some q →
      q.pc = .lib key pt asleep → pt.Yields (w.sem key) p asleep r →
      Logged P w a (.sys p key pt.call r)
  | opened {p q key pt asleep n id} : a.actor = some p → w.procs[p]? = some q →
      q.pc = .lib key pt asleep → pt.Yields (w.sem key) p asleep (.ok n) →
      pt.opens = some id → Logged P w a (.opened p key id)
  | err_sys {p msg} : Logged P w a (.err_sys p msg)
  | err_dump {p q key id asleep n msg} : w.procs[p]? = some q →
      q.pc = .lib key (.close_getval id) asleep →
      (Point.close_getval id).Yields (w.sem key) p asleep (.ok n) → BIGCOUNT < n →
      Logged P w a (.err_dump p msg)

/-- An event other than the return of an identifier. -/
def Event.silent : Event → Prop
  | .opened _ _ _ => False
  | _ => True

/-- Only `sem_close` calls `err_dump`, and only for a counter above `BIGCOUNT`. -/
theorem resume_err_dump {pt : Point} {r : Except Errno ℕ} {msg : String}
    (h : pt.resume r = .err_dump msg) :
    ∃ id n, pt = .close_getval id ∧ r = .ok n ∧ BIGCOUNT < n := by
  cases pt <;> cases r <;> simp only [Point.resume] at h <;> (try split_ifs at h) <;>
    cases h
  exact ⟨_, _, rfl, rfl, by assumption⟩

section Log

variable {S U C : Type} {P : Program S U C} {w w' : World S U} {a : Act U C} {p : ℕ}
  {q : Proc U} {key : ℤ} {pt : Point} {asleep : Bool} {r : Except Errno ℕ} {sl : Slot 3}

/-- What a system call that returned records. -/
theorem complete_log (sl : Slot 3) (hact : a.actor = some p) (hq : w.procs[p]? = some q)
    (hpc : q.pc = .lib key pt asleep) (hy : pt.Yields (w.sem key) p asleep r) :
    ∃ es, (w.complete P p q key pt sl r).log = w.log ++ .sys p key pt.call r :: es ∧
      (∀ e ∈ es, Logged P w a e) ∧ es.length ≤ 1 := by
  unfold World.complete
  cases hnx : pt.resume r with
  | goto pt' => exact ⟨[], by simp [World.setProc, World.note], by simp, by simp⟩
  | ret v =>
    cases r with
    | error e => exact ⟨[], by simp [World.setProc, World.note], by simp, by simp⟩
    | ok n =>
      cases ho : pt.opens with
      | none => exact ⟨[], by simp [World.setProc, World.note], by simp, by simp⟩
      | some id =>
        refine ⟨[.opened p key id], by simp [World.setProc, World.note], ?_, by simp⟩
        intro e he
        rw [List.mem_singleton] at he
        subst he
        exact .opened hact hq hpc hy ho
  | err_sys msg =>
    refine ⟨[.err_sys p msg], by simp [World.kill, World.note], ?_, by simp⟩
    intro e he
    rw [List.mem_singleton] at he
    subst he
    exact .err_sys
  | err_dump msg =>
    refine ⟨[.err_dump p msg], by simp [World.kill, World.note], ?_, by simp⟩
    intro e he
    rw [List.mem_singleton] at he
    subst he
    obtain ⟨id, n, rfl, rfl, hn⟩ := resume_err_dump hnx
    exact .err_dump hq hpc hy hn

/-- What a piece of a process's own code records. -/
theorem does_log {s : S} {c : C} {d : Does U} (hq : w.procs[p]? = some q)
    (hstep : P.step w.sem w.shared q.user c = some (s, d)) :
    ∃ es, (World.does P { w with shared := s } p q d).log = w.log ++ es ∧
      (∀ e ∈ es, Logged P w (.user p c) e) ∧ ∀ e ∈ es, e.silent := by
  cases d with
  | go u => exact ⟨[], by simp [World.does, World.setProc], by simp, by simp⟩
  | exit => exact ⟨[], by simp [World.does, World.kill], by simp, by simp⟩
  | err_sys msg =>
    refine ⟨[.err_sys p msg], by simp [World.does, World.kill, World.note], ?_, ?_⟩
    · intro e he
      rw [List.mem_singleton] at he
      subst he
      exact .err_sys
    · simp [Event.silent]
  | call call u =>
    have hcall : Logged P w (.user p c) (.call p call) := .call rfl hq hstep
    cases hs : call.start with
    | goto pt =>
      refine ⟨[.call p call], by simp [World.does, World.setProc, World.note, hs], ?_, ?_⟩
      · simpa using hcall
      · simp [Event.silent]
    | ret v =>
      refine ⟨[.call p call], by simp [World.does, World.setProc, World.note, hs], ?_, ?_⟩
      · simpa using hcall
      · simp [Event.silent]
    | err_sys msg =>
      refine ⟨[.call p call, .err_sys p msg], by simp [World.does, World.kill, World.note, hs],
        ?_, ?_⟩
      · simpa using ⟨hcall, .err_sys⟩
      · simp [Event.silent]
    | err_dump msg => exact absurd hs (start_ne_err_dump call msg)

theorem pairwise_of_length_le_one {es : List Event} (h : es.length ≤ 1) :
    es.Pairwise fun e _ => e.silent := by
  cases es with
  | nil => exact .nil
  | cons e es =>
    obtain rfl : es = [] := by
      rw [List.length_cons] at h
      exact List.length_eq_zero_iff.1 (by omega)
    exact List.pairwise_singleton _ _

/-- **What a step records**: the return of an identifier, if any, comes last. -/
theorem World.step_log (h : w.step P a = some w') :
    ∃ es, w'.log = w.log ++ es ∧ (∀ e ∈ es, Logged P w a e) ∧
      es.Pairwise fun e _ => e.silent := by
  cases a with
  | spawn u =>
    obtain ⟨-, rfl⟩ := World.of_step_spawn h
    exact ⟨[], by simp, by simp, .nil⟩
  | die p =>
    obtain ⟨q, -, -, rfl⟩ := World.of_step_die h
    exact ⟨[], by simp [World.kill], by simp, .nil⟩
  | user p c =>
    obtain ⟨q, s, d, hq, hpc, hstep, rfl⟩ := World.of_step_user h
    obtain ⟨es, hlog, hes, hsil⟩ := does_log hq hstep
    exact ⟨es, hlog, hes, List.pairwise_of_forall_mem_list fun e he _ _ => hsil e he⟩
  | sys p =>
    obtain ⟨q, key, pt, asleep, hq, hpc, ⟨sl, r, hperf, rfl⟩ | ⟨-, -, rfl⟩⟩ :=
      World.of_step_sys h
    · have hy : pt.Yields (w.sem key) p asleep r := .inl ⟨sl, hperf⟩
      obtain ⟨es, hlog, hes, hlen⟩ := complete_log (P := P) (a := .sys p) _ rfl hq hpc hy
      refine ⟨_, hlog, ?_, ?_⟩
      · simpa using ⟨.sys rfl hq hpc hy, hes⟩
      · exact List.pairwise_cons.2 ⟨fun _ _ => trivial, pairwise_of_length_le_one hlen⟩
    · exact ⟨[], by simp [World.setProc], by simp, .nil⟩
  | nospace p =>
    obtain ⟨q, key, pt, asleep, hq, hpc, hpt, rfl⟩ := World.of_step_nospace h
    have hy : pt.Yields (w.sem key) p asleep (.error .ENOSPC) := .inr ⟨hpt, rfl⟩
    obtain ⟨es, hlog, hes, hlen⟩ :=
      complete_log (P := P) (a := .nospace p) (w.sem key) rfl hq hpc hy
    refine ⟨_, hlog, ?_, ?_⟩
    · simpa using ⟨.sys rfl hq hpc hy, hes⟩
    · exact List.pairwise_cons.2 ⟨fun _ _ => trivial, pairwise_of_length_le_one hlen⟩

/-- Nothing is taken out of the log. -/
theorem World.step_log_mono (h : w.step P a = some w') {e : Event} (he : e ∈ w.log) :
    e ∈ w'.log := by
  obtain ⟨es, hlog, -, -⟩ := World.step_log h
  rw [hlog]
  exact List.mem_append_left _ he

/-- A system call that returns is recorded. -/
theorem World.step_logs (h : w.step P (.sys p) = some w') (hq : w.procs[p]? = some q)
    (hpc : q.pc = .lib key pt asleep) (hperf : pt.perform (w.sem key) p asleep = some (sl, r)) :
    .sys p key pt.call r ∈ w'.log := by
  simp only [World.step, hq, hpc, hperf, Option.some.injEq] at h
  subst h
  obtain ⟨es, hlog, -, -⟩ := complete_log (P := P) (a := .sys p) (C := C) sl rfl hq hpc
    (.inl ⟨sl, hperf⟩)
  rw [hlog]
  simp

/-! ## How a process got to a point -/

/-- The calls and system calls that bring a process to a point of a routine. -/
inductive Came (w w' : World S U) (p : ℕ) (key : ℤ) (pt : Point) : Prop
  | stayed {q₀ : Proc U} {asleep₀ : Bool} : w.procs[p]? = some q₀ →
      q₀.pc = .lib key pt asleep₀ → Came w w' p key pt
  | entered {call : Call} : call.key = key → call.start = .goto pt → .call p call ∈ w'.log →
      Came w w' p key pt
  | went {q₀ : Proc U} {pt₀ : Point} {asleep₀ : Bool} {r₀ : Except Errno ℕ} :
      w.procs[p]? = some q₀ → q₀.pc = .lib key pt₀ asleep₀ → pt₀.resume r₀ = .goto pt →
      .sys p key pt₀.call r₀ ∈ w'.log → Came w w' p key pt

/-- The other processes are where they were. -/
theorem kill_get {p' : ℕ} {q₀ q' : Proc U} (h : (w.kill p q₀).procs[p']? = some q') :
    (p' ≠ p ∧ w.procs[p']? = some q') ∨ q'.pc = .dead := by
  rcases getElem?_set_cases h with ⟨-, rfl, -⟩ | ⟨hne, h⟩
  · exact .inr rfl
  · exact .inl ⟨hne, h⟩

/-- **How a process got to a point**: it was there, it has called the routine,
or it has gone on there from another point. -/
theorem World.step_came (h : w.step P a = some w') {p : ℕ} {q' : Proc U} {asleep : Bool}
    (hq' : w'.procs[p]? = some q') (hpc' : q'.pc = .lib key pt asleep) :
    Came w w' p key pt := by
  have hdead : ∀ {p₀ : ℕ} {w₀ : World S U} {q₀ : Proc U}, w₀.procs = w.procs →
      (w₀.kill p₀ q₀).procs[p]? = some q' → Came w w' p key pt := by
    intro p₀ w₀ q₀ hw₀ hget
    rcases kill_get hget with ⟨-, hget⟩ | hd
    · exact .stayed (hw₀ ▸ hget) hpc'
    · rw [hpc'] at hd
      cases hd
  have hcomplete : ∀ {p₀ key₀ pt₀ asleep₀ sl₀ r₀} {q₀ : Proc U}, w.procs[p₀]? = some q₀ →
      q₀.pc = .lib key₀ pt₀ asleep₀ → w' = w.complete P p₀ q₀ key₀ pt₀ sl₀ r₀ →
      Came w w' p key pt := by
    rintro p₀ key₀ pt₀ asleep₀ sl₀ r₀ q₀ hq₀ hpc₀ rfl
    unfold World.complete at hq'
    cases hnx : pt₀.resume r₀ with
    | goto pt' =>
      simp only [hnx] at hq'
      rcases getElem?_set_cases hq' with ⟨rfl, rfl, -⟩ | ⟨-, hget⟩
      · obtain ⟨rfl, rfl, rfl⟩ : key₀ = key ∧ pt' = pt ∧ false = asleep := by simpa using hpc'
        refine .went hq₀ hpc₀ hnx ?_
        unfold World.complete
        simp [hnx, World.setProc, World.note]
      · exact .stayed hget hpc'
    | ret v =>
      simp only [hnx] at hq'
      rcases getElem?_set_cases hq' with ⟨rfl, rfl, -⟩ | ⟨-, hget⟩
      · cases hpc'
      · exact .stayed hget hpc'
    | err_sys msg =>
      simp only [hnx] at hq'
      rcases kill_get hq' with ⟨-, hget⟩ | hd
      · exact .stayed hget hpc'
      · rw [hpc'] at hd
        cases hd
    | err_dump msg =>
      simp only [hnx] at hq'
      rcases kill_get hq' with ⟨-, hget⟩ | hd
      · exact .stayed hget hpc'
      · rw [hpc'] at hd
        cases hd
  cases a with
  | spawn u =>
    obtain ⟨-, rfl⟩ := World.of_step_spawn h
    rcases getElem?_append_cases hq' with ⟨-, rfl⟩ | hget
    · cases hpc'
    · exact .stayed hget hpc'
  | die p₀ =>
    obtain ⟨q₀, -, -, rfl⟩ := World.of_step_die h
    exact hdead rfl hq'
  | user p₀ c =>
    obtain ⟨q₀, s, d, hq₀, hpc₀, hstep, rfl⟩ := World.of_step_user h
    cases d with
    | go u =>
      rcases getElem?_set_cases hq' with ⟨-, rfl, -⟩ | ⟨-, hget⟩
      · rw [hpc₀] at hpc'
        cases hpc'
      · exact .stayed hget hpc'
    | exit => exact hdead rfl hq'
    | err_sys msg => exact hdead rfl hq'
    | call call u =>
      cases hs : call.start with
      | goto pt' =>
        simp only [World.does, hs] at hq'
        rcases getElem?_set_cases hq' with ⟨rfl, rfl, -⟩ | ⟨-, hget⟩
        · obtain ⟨hk, rfl, -⟩ : call.key = key ∧ pt' = pt ∧ false = asleep := by
            simpa using hpc'
          refine .entered hk hs ?_
          simp [World.does, hs, World.setProc, World.note]
        · exact .stayed hget hpc'
      | ret v =>
        simp only [World.does, hs] at hq'
        rcases getElem?_set_cases hq' with ⟨-, rfl, -⟩ | ⟨-, hget⟩
        · simp only [hpc₀] at hpc'
          cases hpc'
        · exact .stayed hget hpc'
      | err_sys msg =>
        simp only [World.does, hs] at hq'
        exact hdead rfl hq'
      | err_dump msg => exact absurd hs (start_ne_err_dump call msg)
  | sys p₀ =>
    obtain ⟨q₀, key₀, pt₀, asleep₀, hq₀, hpc₀, ⟨sl, r, -, rfl⟩ | ⟨-, -, rfl⟩⟩ :=
      World.of_step_sys h
    · exact hcomplete hq₀ hpc₀ rfl
    · -- a process that goes to sleep stays where it is
      rcases getElem?_set_cases hq' with ⟨rfl, rfl, -⟩ | ⟨-, hget⟩
      · obtain ⟨rfl, rfl, -⟩ : key₀ = key ∧ pt₀ = pt ∧ true = asleep := by simpa using hpc'
        exact .stayed hq₀ hpc₀
      · exact .stayed hget hpc'
  | nospace p₀ =>
    obtain ⟨q₀, key₀, pt₀, asleep₀, hq₀, hpc₀, -, rfl⟩ := World.of_step_nospace h
    exact hcomplete hq₀ hpc₀ rfl

end Log

/-! ## The log of one key -/

/-- `[0]` of set `i` has been given the `initval` of a `sem_create` call. -/
def Set0 (key : ℤ) (i : ℕ) (log : List Event) : Prop :=
  ∃ p q initval n, .call p (.sem_create key initval) ∈ log ∧
    .sys q key (.setval i 0 initval) (.ok n) ∈ log

/-- `[1]` of set `i` has been given the value `BIGCOUNT`. -/
def Set1 (key : ℤ) (i : ℕ) (log : List Event) : Prop :=
  ∃ p n, .sys p key (.setval i 1 BIGCOUNT) (.ok n) ∈ log

/-- The `initval` a process in `sem_create` still has to use. -/
def Point.initval : Point → Option ℤ
  | .create_semget v | .create_lock _ v | .create_getval _ v | .create_setval0 _ v => some v
  | _ => none

/-- How the log and the state of one key go together. -/
structure LogInv {S U : Type} (key : ℤ) (w : World S U) : Prop where
  called : ∀ {p : ℕ} {q : Proc U} {pt : Point} {asleep : Bool} {v : ℤ}, w.procs[p]? = some q →
    q.pc = .lib key pt asleep → pt.initval = some v → ∃ p', .call p' (.sem_create key v) ∈ w.log
  half : ∀ {p : ℕ} {q : Proc U} {i : ℕ} {asleep : Bool}, w.procs[p]? = some q →
    q.pc = .lib key (.create_setval1 i) asleep → Set0 key i w.log
  done : ∀ {i S}, (w.sem key).cur = some (i, S) → Counted i S (w.clients key) →
    Set0 key i w.log ∧ Set1 key i w.log
  late : ∀ {i}, Set1 key i w.log ∨ (∃ p, .opened p key i ∈ w.log) →
    i < (w.sem key).next ∧
      ∀ S, (w.sem key).cur = some (i, S) → Counted i S (w.clients key)

section LogInv

variable {S U C : Type} {P : Program S U C} {s : S} {us : List U} {w w' : World S U}
  {a : Act U C} {key : ℤ} {log log' : List Event} {i : ℕ} {T T' : SemSet 3}

theorem Set0.mono (h : Set0 key i log) (hsub : ∀ e ∈ log, e ∈ log') : Set0 key i log' := by
  obtain ⟨p, q, v, n, h1, h2⟩ := h
  exact ⟨p, q, v, n, hsub _ h1, hsub _ h2⟩

theorem Set1.mono (h : Set1 key i log) (hsub : ∀ e ∈ log, e ∈ log') : Set1 key i log' := by
  obtain ⟨p, n, h1⟩ := h
  exact ⟨p, n, hsub _ h1⟩

/-- A set is in one phase at a time. -/
theorem Counted.not_unset {cs : List Client} (h : Counted i T cs) (hu : Unset i T cs) : False := by
  have h1 := h.val
  rw [hu.val, hu.closed] at h1
  cases h1

/-- A routine that goes on to a point with an `initval` came with it. -/
theorem resume_initval {pt pt' : Point} {r : Except Errno ℕ} {v : ℤ}
    (h : pt.resume r = .goto pt') (hv : pt'.initval = some v) : pt.initval = some v := by
  cases pt <;> cases r <;> simp only [Point.resume] at h <;> (try split_ifs at h) <;>
    cases h <;> first | exact hv | cases hv

/-- Only `SETVAL` on `[0]`, done, leads to `SETVAL` on `[1]`. -/
theorem resume_setval1 {pt : Point} {r : Except Errno ℕ}
    (h : pt.resume r = .goto (.create_setval1 i)) :
    ∃ v n, pt = .create_setval0 i v ∧ r = .ok n := by
  cases pt <;> cases r <;> simp only [Point.resume] at h <;> (try split_ifs at h) <;>
    cases h
  exact ⟨_, _, rfl, rfl⟩

/-- Only `sem_create` starts with an `initval`. -/
theorem start_initval {c : Call} {pt : Point} {v : ℤ} (h : c.start = .goto pt)
    (hv : pt.initval = some v) : c = .sem_create c.key v := by
  cases c <;>
    simp only [Call.start, sem_create, sem_open, sem_rm, sem_close, sem_op, sem_wait,
      sem_signal] at h <;>
    (try split_ifs at h) <;>
    cases h <;> cases hv
  rfl

/-- The set that is there and had its identifier before was there before. -/
theorem KStep.cur_old {good : Prop} {actor : Option ℕ} {sl sl' : Slot 3} {cs cs' : List Client}
    (hk : KStep good actor sl cs sl' cs') (hcur' : sl'.cur = some (i, T')) (hi : i < sl.next) :
    ∃ T, sl.cur = some (i, T) := by
  cases hk with
  | idle => exact ⟨_, hcur'⟩
  | spawn => exact ⟨_, hcur'⟩
  | proc hq ht hact =>
    cases hcur : sl.cur with
    | none =>
      obtain ⟨rfl, -⟩ := ht.new hcur hcur'
      exact absurd hi (Nat.lt_irrefl _)
    | some d =>
      obtain ⟨j, T⟩ := d
      rw [ht.id_eq hcur hcur']
      exact ⟨T, rfl⟩

/-- Identifiers given out stay given out. -/
theorem KStep.next_le {good : Prop} {actor : Option ℕ} {sl sl' : Slot 3} {cs cs' : List Client}
    (hk : KStep good actor sl cs sl' cs') : sl.next ≤ sl'.next := by
  cases hk with
  | idle => exact Nat.le_refl _
  | spawn => exact Nat.le_refl _
  | proc _ ht _ => exact ht.next_le

/-- A step keeps the second phase of a set. -/
theorem World.step_counted (hcount : CountInv (w.sem key) (w.clients key)) (hkeep : w.keeps P a)
    (hr : w.roomy key a) (hs : w.step P a = some w') (hcur : (w.sem key).cur = some (i, T))
    (hc : Counted i T (w.clients key)) (hcur' : (w'.sem key).cur = some (i, T')) :
    Counted i T' (w'.clients key) := by
  have hk := World.step_key hs hkeep.spares key
  generalize w'.sem key = sl' at hk hcur'
  generalize w'.clients key = cs' at hk ⊢
  cases hk with
  | idle =>
    obtain ⟨-, rfl⟩ := Slot.cur_unique hcur hcur'
    exact hc
  | spawn =>
    obtain ⟨-, rfl⟩ := Slot.cur_unique hcur hcur'
    refine ⟨hc.ledger.append rfl, fun hp => ?_⟩
    rcases getElem?_append_cases hp with ⟨-, rfl⟩ | hp
    · rfl
    · exact hc.after hp
  | proc hq ht hact => exact hc.trans (hcount.wf hq) hcur hq ht (hr.few hq ht hact i) hcur'

/-- A step from the first phase to the second is a `SETVAL` on `[1]`. -/
theorem World.step_unset (hcount : CountInv (w.sem key) (w.clients key))
    (hlock : LockInv (w.sem key) (w.clients key)) (hkeep : w.keeps P a)
    (hs : w.step P a = some w') (hcur : (w.sem key).cur = some (i, T))
    (hu : Unset i T (w.clients key)) (hcur' : (w'.sem key).cur = some (i, T'))
    (hc : Counted i T' (w'.clients key)) :
    ∃ p q asleep, a.actor = some p ∧ w.procs[p]? = some q ∧
      q.pc = .lib key (.create_setval1 i) asleep ∧
      .sys p key (.setval i 1 BIGCOUNT) (.ok 0) ∈ w'.log := by
  have hk := World.step_key hs hkeep.spares key
  generalize hsl : w'.sem key = sl' at hk hcur'
  generalize hcs : w'.clients key = cs' at hk hc
  -- a new process, or none that moved, does not change the phase
  cases hk with
  | idle =>
    obtain ⟨-, rfl⟩ := Slot.cur_unique hcur hcur'
    exact (hc.not_unset hu).elim
  | spawn =>
    obtain ⟨-, rfl⟩ := Slot.cur_unique hcur hcur'
    have hval := hc.val
    rw [hu.val, List.countP_append, hu.closed] at hval
    cases hval
  | proc hq ht hact =>
    rename_i p c c' l
    have := hu.trans hlock (hcount.wf hq) hcur hq ht hcur'
    split at this
    · rename_i hl
      subst hl
      obtain ⟨asleep, hpl⟩ := ht.label
      obtain ⟨held, place⟩ := c
      subst hpl
      obtain ⟨q, hq', hpc, -⟩ := clients_at hq
      have hact' := hact (by simp)
      refine ⟨p, q, asleep, hact', hq', hpc, ?_⟩
      -- the call is the one of the step, so it is in the log
      cases a with
      | sys p' =>
        obtain rfl : p' = p := by simpa [Act.actor] using hact'
        have hperf : (Point.create_setval1 i).perform (w.sem key) p' asleep =
            some ((w.sem key).put i (T.setval 1 BIGCOUNT), .ok 0) := by
          have hrange : ¬ ((BIGCOUNT : ℤ) < 0 ∨ (SEMVMX : ℤ) < BIGCOUNT) := by decide
          simp only [Point.perform, Point.call, Slot.call, Slot.find_eq_some.2 hcur, hrange,
            if_false]
        exact World.step_logs hs hq' hpc hperf
      | nospace p' =>
        obtain rfl : p' = p := by simpa [Act.actor] using hact'
        simp [World.step, hq', hpc, Point.isSemget] at hs
      | _ => cases hact'
    · exact (hc.not_unset this).elim

/-- A set whose identifier is being returned is in its second phase. -/
theorem counted_of_logged (hcount : CountInv (w.sem key) (w.clients key)) {p : ℕ}
    (hl : Logged P w a (.opened p key i)) :
    ∃ T, (w.sem key).cur = some (i, T) ∧ Counted i T (w.clients key) := by
  cases hl with
  | @opened _ q _ pt asleep n _ hact hq hpc hy ho =>
    -- both calls that return an identifier take a unit of `[1]`
    have hpos : ∃ T, (w.sem key).cur = some (i, T) ∧ 1 ≤ T.val 1 := by
      rcases hy with ⟨sl', hperf⟩ | ⟨hpt, -⟩
      · cases pt with
        | create_endcreate id =>
          obtain rfl : id = i := by simpa [Point.opens] using ho
          rcases perform_semop rfl hperf with ⟨T, T', hcur, hop, -, -⟩ | ⟨-, e, he, -⟩
          · exact ⟨T, hcur, (of_semop_endcreate T p hop).1⟩
          · cases he
        | open_op id =>
          obtain rfl : id = i := by simpa [Point.opens] using ho
          rcases perform_semop rfl hperf with ⟨T, T', hcur, hop, -, -⟩ | ⟨-, e, he, -⟩
          · exact ⟨T, hcur, (of_semop_open T p hop).1⟩
          · cases he
        | _ => cases ho
      · cases pt <;> cases hpt <;> cases ho
    obtain ⟨T, hcur, h1⟩ := hpos
    rcases hcount.phase hcur with hu | hc
    · rw [hu.val] at h1
      cases h1
    · exact ⟨T, hcur, hc⟩

/-- A new set is in its first phase. -/
theorem KStep.fresh_not_counted {good : Prop} {actor : Option ℕ} {sl sl' : Slot 3}
    {cs cs' : List Client}
    (hk : KStep good actor sl cs sl' cs') (hcount : CountInv sl cs) (hlock : LockInv sl cs)
    (hcur' : sl'.cur = some (i, T')) (hi : ¬ i < sl.next) (hc : Counted i T' cs') : False := by
  cases hk with
  | idle => exact hi (hlock.lt_next hcur')
  | spawn => exact hi (hlock.lt_next hcur')
  | proc hq ht hact =>
    cases hcur : sl.cur with
    | none =>
      obtain ⟨rfl, rfl, hh, hl⟩ := ht.new hcur hcur'
      exact hc.not_unset (hcount.fresh hlock hq hcur hh hl)
    | some d =>
      obtain ⟨j, T⟩ := d
      rw [ht.id_eq hcur hcur'] at hi
      exact hi (hlock.lt_next hcur)

/-- A successful `SETVAL` on `[1]` leaves the set in its second phase. -/
theorem counted_of_set1 (hcount' : CountInv (w'.sem key) (w'.clients key))
    (hs : w.step P a = some w') {p n : ℕ} {v : ℤ}
    (hl : Logged P w a (.sys p key (.setval i 1 v) (.ok n))) :
    (∃ T, (w.sem key).cur = some (i, T)) ∧
      ∀ T', (w'.sem key).cur = some (i, T') → Counted i T' (w'.clients key) := by
  generalize he : Event.sys p key (.setval i 1 v) (.ok n) = e at hl
  cases hl with
  | @sys p₀ q key₀ pt asleep r hact hq hpc hy =>
    obtain ⟨rfl, rfl, hcall, rfl⟩ : p = p₀ ∧ key = key₀ ∧ .setval i 1 v = pt.call ∧ .ok n = r := by
      simpa using he
    obtain rfl : pt = .create_setval1 i := by
      cases pt <;> simp [Point.call] at hcall
      · rw [hcall.1]
    rcases hy with ⟨sl', hperf⟩ | ⟨hpt, -⟩
    · obtain ⟨T, hcur, -, -, rfl, -⟩ | ⟨-, e, he'⟩ := perform_setval rfl hperf
      · refine ⟨⟨T, hcur⟩, fun T' hcur' => (hcount'.phase hcur').resolve_left fun hu => ?_⟩
        -- the new value of `[1]` is not 0
        have hsem : w'.sem key = (w.sem key).put i (T.setval 1 BIGCOUNT) := by
          cases a with
          | sys p' =>
            obtain rfl : p' = p := by simpa [Act.actor] using hact
            simp only [World.step, hq, hpc, hperf, Option.some.injEq] at hs
            subst hs
            simp [World.complete, Point.resume, World.setProc, World.note]
          | nospace p' =>
            obtain rfl : p' = p := by simpa [Act.actor] using hact
            simp [World.step, hq, hpc, Point.isSemget] at hs
          | _ => cases hact
        rw [hsem] at hcur'
        obtain rfl : T.setval 1 BIGCOUNT = T' := by simpa using hcur'
        have hval := hu.val
        rw [SemSet.setval_val, if_pos rfl, clamp_eq (w := BIGCOUNT) (by simp) (by decide)] at hval
        cases hval
      · cases he'
    · cases hpt
  | _ => cases he

/-- Before anything has happened. -/
theorem LogInv.start (key : ℤ) (s : S) (us : List U) : LogInv key (World.start s us) where
  called := fun {p q pt asleep v} hq hpc _ => by
    simp only [World.start, List.getElem?_map, Option.map_eq_some_iff] at hq
    obtain ⟨u, -, rfl⟩ := hq
    cases hpc
  half := fun {p q i asleep} hq hpc => by
    simp only [World.start, List.getElem?_map, Option.map_eq_some_iff] at hq
    obtain ⟨u, -, rfl⟩ := hq
    cases hpc
  done := fun h => by cases h
  late := fun h => by
    rcases h with ⟨p, n, hp⟩ | ⟨p, hp⟩
    · cases hp
    · cases hp

/-- **A step of an orderly run keeps log and state together.** -/
theorem LogInv.step (h : LogInv key w) (hcount : CountInv (w.sem key) (w.clients key))
    (hlock : LockInv (w.sem key) (w.clients key)) (hkeep : w.keeps P a) (hr : w.roomy key a)
    (hs : w.step P a = some w') : LogInv key w' := by
  have hmono : ∀ e ∈ w.log, e ∈ w'.log := fun e he => World.step_log_mono hs he
  have hk := World.step_key hs hkeep.spares key
  have hcount' := hcount.step hlock hkeep hr hs
  -- what was in its second phase before, is now
  have hkept : ∀ {i}, i < (w.sem key).next →
      (∀ T, (w.sem key).cur = some (i, T) → Counted i T (w.clients key)) →
      i < (w'.sem key).next ∧
        ∀ T', (w'.sem key).cur = some (i, T') → Counted i T' (w'.clients key) := by
    intro i hi hc
    refine ⟨Nat.lt_of_lt_of_le hi hk.next_le, fun T' hcur' => ?_⟩
    obtain ⟨T, hcur⟩ := hk.cur_old hcur' hi
    exact World.step_counted hcount hkeep hr hs hcur (hc T hcur) hcur'
  refine ⟨fun {p q pt asleep v} hq hpc hv => ?_, fun {p q i asleep} hq hpc => ?_,
    fun {i T'} hcur' hc => ?_, fun {i} hi => ?_⟩
  · -- `called`: wherever the process came from, it came with this `initval`
    cases World.step_came hs hq hpc with
    | stayed hq₀ hpc₀ =>
      obtain ⟨p', hp'⟩ := h.called hq₀ hpc₀ hv
      exact ⟨p', hmono _ hp'⟩
    | entered hkey hstart hmem =>
      have hc := start_initval hstart hv
      rw [hkey] at hc
      exact ⟨p, hc ▸ hmem⟩
    | went hq₀ hpc₀ hres _ =>
      obtain ⟨p', hp'⟩ := h.called hq₀ hpc₀ (resume_initval hres hv)
      exact ⟨p', hmono _ hp'⟩
  · -- `half`: the process has just set `[0]`, or had
    cases World.step_came hs hq hpc with
    | stayed hq₀ hpc₀ => exact (h.half hq₀ hpc₀).mono hmono
    | entered hkey hstart hmem =>
      rename_i call
      cases call <;> simp only [Call.start, sem_create, sem_open, sem_rm, sem_close, sem_op,
        sem_wait, sem_signal] at hstart <;> (try split_ifs at hstart) <;> cases hstart
    | went hq₀ hpc₀ hres hmem =>
      obtain ⟨v, n, rfl, rfl⟩ := resume_setval1 hres
      obtain ⟨p', hp'⟩ := h.called hq₀ hpc₀ rfl
      exact ⟨p', p, v, n, hmono _ hp', hmem⟩
  · -- `done`: the phase was the second before, or `[1]` has just been set
    by_cases hi : i < (w.sem key).next
    · obtain ⟨T, hcur⟩ := hk.cur_old hcur' hi
      rcases hcount.phase hcur with hu | hc₀
      · obtain ⟨p, q, asleep, -, hq, hpc, hmem⟩ :=
          World.step_unset hcount hlock hkeep hs hcur hu hcur' hc
        exact ⟨(h.half hq hpc).mono hmono, p, 0, hmem⟩
      · obtain ⟨h0, h1⟩ := h.done hcur hc₀
        exact ⟨h0.mono hmono, h1.mono hmono⟩
    · exact (hk.fresh_not_counted hcount hlock hcur' hi hc).elim
  · -- `late`: the event was there before, or it is being recorded
    obtain ⟨es, hlog, hes, -⟩ := World.step_log hs
    rw [hlog] at hi
    rcases hi with ⟨p, n, hp⟩ | ⟨p, hp⟩
    · rcases List.mem_append.1 hp with hp | hp
      · obtain ⟨hlt, hc⟩ := h.late (.inl ⟨p, n, hp⟩)
        exact hkept hlt hc
      · obtain ⟨⟨T, hcur⟩, hc⟩ := counted_of_set1 hcount' hs (hes _ hp)
        exact ⟨Nat.lt_of_lt_of_le (hlock.lt_next hcur) hk.next_le, hc⟩
    · rcases List.mem_append.1 hp with hp | hp
      · obtain ⟨hlt, hc⟩ := h.late (.inr ⟨p, hp⟩)
        exact hkept hlt hc
      · obtain ⟨T, hcur, hc⟩ := counted_of_logged hcount (hes _ hp)
        refine hkept (hlock.lt_next hcur) fun T' hcur' => ?_
        obtain ⟨-, rfl⟩ := Slot.cur_unique hcur hcur'
        exact hc

/-- Log and state go together in every orderly run. -/
theorem logInv_of_orderly (h : (machine P s us).Reach (Orderly P) w) (key : ℤ) :
    LogInv key w := by
  apply h.invariant (I := LogInv key)
  · rintro w rfl
    exact LogInv.start key s us
  · intro w a w' hw hinv ha hstep
    exact hinv.step (countInv_of_orderly hw key) (lockInv_of_reach (fun _ _ h => h.1.spares) hw key)
      ha.1 (orderly_roomy hw ha key) hstep

end LogInv

end UnixNetProg.Semaphore

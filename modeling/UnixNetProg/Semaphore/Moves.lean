/-
What a step of the world can be.

`World.Moves` lists the outcomes of a step, with everything the step leaves as
it was; `World.step_moves` says that the list is complete. The programs of the
following modules are verified by cases on it.
-/
import UnixNetProg.Semaphore.Protocol

set_option autoImplicit false

namespace UnixNetProg.Semaphore

open UnixNetProg.SysV UnixNetProg.Runs UnixNetProg.Pool

/-- The system call of process `p` at `pt`, in the step `a`, comes to `r`, with
the slot `sl'` after it. -/
def Point.Comes {U C : Type} (a : Act U C) (pt : Point) (sl : Slot 3) (p : ℕ) (asleep : Bool)
    (sl' : Slot 3) (r : Except Errno ℕ) : Prop :=
  pt.perform sl p asleep = some (sl', r) ∨
    (a = .nospace p ∧ pt.isSemget = true ∧ sl' = sl ∧ r = .error .ENOSPC)

/-- The C code ends the program there. -/
def Next.fatal : Next → Prop
  | .err_sys _ | .err_dump _ => True
  | _ => False

/-- A process that is gone. -/
def Proc.gone {U : Type} (q : Proc U) : Proc U := { q with held := fun _ => none, pc := .dead }

/-- A `semop` that was carried out: by which process, on which key and set, and
the array. -/
structure Semop where
  proc : ℕ
  key : ℤ
  id : ℕ
  ops : List (Sembuf 3)
  deriving DecidableEq

/-- The `semop` an event records, if it records a successful one. -/
def Event.semop? : Event → Option Semop
  | .sys p key (.semop id ops) (.ok _) => some ⟨p, key, id, ops⟩
  | _ => none

/-- The `semop`s carried out so far. -/
def World.semops {S U : Type} (w : World S U) : List Semop := w.log.filterMap Event.semop?

/-- Everything a step can be, with what it leaves as it was. -/
inductive World.Moves {S U C : Type} (P : Program S U C) (w : World S U) (a : Act U C)
    (w' : World S U) : Prop
  | spawn (u : U) : P.entry u = true → w'.sem = w.sem → w'.shared = w.shared →
      w'.procs = w.procs ++ [⟨u, fun _ => none, .user⟩] → w'.semops = w.semops → Moves P w a w'
  | die (p : ℕ) (q : Proc U) : a = .die p → w.procs[p]? = some q → q.pc ≠ .dead →
      w'.sem = (fun key => (w.sem key).exit p) → w'.shared = w.shared →
      w'.procs = w.procs.set p q.gone → w'.semops = w.semops → Moves P w a w'
  | quit (p : ℕ) (q : Proc U) (c : C) (d : Does U) : a = .user p c → w.procs[p]? = some q →
      q.pc = .user → P.step w.sem w.shared q.user c = some (w'.shared, d) →
      (∀ u, d ≠ .go u) → (∀ call u, d = .call call u → ∃ msg, call.start = .err_sys msg) →
      w'.sem = (fun key => (w.sem key).exit p) → w'.procs = w.procs.set p q.gone →
      w'.semops = w.semops → Moves P w a w'
  | own (p : ℕ) (q : Proc U) (c : C) (u : U) : a = .user p c → w.procs[p]? = some q →
      q.pc = .user → P.step w.sem w.shared q.user c = some (w'.shared, .go u) →
      w'.sem = w.sem → w'.procs = w.procs.set p { q with user := u } → w'.semops = w.semops →
      Moves P w a w'
  | enter (p : ℕ) (q : Proc U) (c : C) (call : Call) (u : U) (pt : Point) : a = .user p c →
      w.procs[p]? = some q → q.pc = .user →
      P.step w.sem w.shared q.user c = some (w'.shared, .call call u) → call.start = .goto pt →
      w'.sem = w.sem →
      w'.procs = w.procs.set p { q with user := u, pc := .lib call.key pt false } →
      w'.semops = w.semops → Moves P w a w'
  | straight (p : ℕ) (q : Proc U) (c : C) (call : Call) (u : U) (v : ℤ) : a = .user p c →
      w.procs[p]? = some q → q.pc = .user →
      P.step w.sem w.shared q.user c = some (w'.shared, .call call u) → call.start = .ret v →
      w'.sem = w.sem → w'.procs = w.procs.set p { q with user := P.ret u v } →
      w'.semops = w.semops → Moves P w a w'
  | sleep (p : ℕ) (q : Proc U) (key : ℤ) (pt : Point) : a.actor = some p → w.procs[p]? = some q →
      q.pc = .lib key pt false → pt.perform (w.sem key) p false = none → w'.sem = w.sem →
      w'.shared = w.shared → w'.procs = w.procs.set p { q with pc := .lib key pt true } →
      w'.semops = w.semops → Moves P w a w'
  | goto (p : ℕ) (q : Proc U) (key : ℤ) (pt pt' : Point) (asleep : Bool) (sl : Slot 3)
      (r : Except Errno ℕ) : a.actor = some p → w.procs[p]? = some q →
      q.pc = .lib key pt asleep → pt.Comes a (w.sem key) p asleep sl r → pt.resume r = .goto pt' →
      w'.sem = Function.update w.sem key sl → w'.shared = w.shared →
      w'.procs = w.procs.set p { q with
        held := Function.update q.held key (pt.heldAt r (q.held key))
        pc := .lib key pt' false } →
      w'.semops = w.semops ++ (Event.sys p key pt.call r).semop?.toList → Moves P w a w'
  | ret (p : ℕ) (q : Proc U) (key : ℤ) (pt : Point) (asleep : Bool) (sl : Slot 3)
      (r : Except Errno ℕ) (v : ℤ) : a.actor = some p → w.procs[p]? = some q →
      q.pc = .lib key pt asleep → pt.Comes a (w.sem key) p asleep sl r → pt.resume r = .ret v →
      w'.sem = Function.update w.sem key sl → w'.shared = w.shared →
      w'.procs = w.procs.set p ⟨P.ret q.user v,
        Function.update q.held key (pt.heldAt r (q.held key)), .user⟩ →
      w'.semops = w.semops ++ (Event.sys p key pt.call r).semop?.toList → Moves P w a w'
  | fails (p : ℕ) (q : Proc U) (key : ℤ) (pt : Point) (asleep : Bool) (r : Except Errno ℕ) :
      a.actor = some p → w.procs[p]? = some q → q.pc = .lib key pt asleep →
      pt.Comes a (w.sem key) p asleep (w.sem key) r → (pt.resume r).fatal →
        w'.sem = (fun key => (w.sem key).exit p) → w'.shared = w.shared →
      w'.procs = w.procs.set p q.gone → w'.semops = w.semops → Moves P w a w'

/-- No routine calls `err_dump` before its first system call. -/
theorem start_ne_err_dump (c : Call) (msg : String) : c.start ≠ .err_dump msg := by
  cases c <;>
    simp only [Call.start, sem_create, sem_open, sem_rm, sem_close, sem_op, sem_wait,
      sem_signal] <;>
    (try split_ifs) <;> simp

/-- A `semop` that succeeds is never the end of the program. -/
theorem semop?_of_fatal {pt : Point} {r : Except Errno ℕ} (h : (pt.resume r).fatal) (p : ℕ)
    (key : ℤ) : (Event.sys p key pt.call r).semop? = none := by
  cases r with
  | error e => cases pt <;> rfl
  | ok n =>
    cases pt with
    | close_getval id => rfl
    | create_getval id v => rfl
    | _ => exact h.elim

section Moves

variable {S U C : Type} {P : Program S U C} {w w' : World S U} {a : Act U C} {p : ℕ} {q : Proc U}
  {key : ℤ} {pt : Point} {asleep : Bool} {sl : Slot 3} {r : Except Errno ℕ}

/-- A system call that came to something is a line of the table. -/
theorem Point.Comes.follows (good : Prop) {sl₀ : Slot 3} (h : pt.Comes a sl₀ p asleep sl r)
    (held : Option ℕ) :
    (pt.resume r).Follows good p pt sl₀ ⟨held, .at pt asleep⟩ sl (pt.heldAt r held) := by
  rcases h with hperf | ⟨-, hpt, rfl, rfl⟩
  · exact pt.follows held hperf
  · exact Point.follows_nospace hpt held

/-- Where the C code ends the program, the system call has changed nothing. -/
theorem Point.Comes.same {sl₀ : Slot 3} (h : pt.Comes a sl₀ p asleep sl r)
    (hf : (pt.resume r).fatal) : sl = sl₀ := by
  have hfollows := h.follows True none
  cases hnx : pt.resume r with
  | err_sys msg => rwa [hnx] at hfollows
  | err_dump msg => rwa [hnx] at hfollows
  | goto pt' => rw [hnx] at hf; exact hf.elim
  | ret v => rw [hnx] at hf; exact hf.elim

/-- Recording something adds the `semop`s in it. -/
theorem semops_note (w : World S U) (es : List Event) :
    (w.note es).semops = w.semops ++ es.filterMap Event.semop? := by
  simp only [World.semops, World.note, List.filterMap_append]

/-- Where the C code ends the program it only prints a message. -/
theorem World.complete_fatal (hf : (pt.resume r).fatal) :
    ∃ e : Event, e.semop? = none ∧ w.complete P p q key pt sl r =
      (({ w with sem := Function.update w.sem key sl }.note [.sys p key pt.call r]).note [e]).kill
        p q := by
  cases hnx : pt.resume r with
  | err_sys msg => exact ⟨.err_sys p msg, rfl, by simp only [World.complete, hnx]⟩
  | err_dump msg => exact ⟨.err_dump p msg, rfl, by simp only [World.complete, hnx]⟩
  | goto pt' =>
    rw [hnx] at hf
    exact hf.elim
  | ret v =>
    rw [hnx] at hf
    exact hf.elim

theorem World.complete_fails (hact : a.actor = some p) (hq : w.procs[p]? = some q)
    (hpc : q.pc = .lib key pt asleep) (hc : pt.Comes a (w.sem key) p asleep sl r)
    (hf : (pt.resume r).fatal) : w.Moves P a (w.complete P p q key pt sl r) := by
  obtain rfl := hc.same hf
  obtain ⟨e, he, heq⟩ := @World.complete_fatal S U C P w p q key pt (w.sem key) r hf
  rw [heq, Function.update_eq_self]
  refine .fails p q key pt asleep r hact hq hpc hc hf rfl rfl rfl ?_
  -- neither the call nor the message is a `semop` that was carried out
  apply (semops_note (World.note w _) _).trans
  rw [semops_note]
  simp [semop?_of_fatal hf, he]

/-- A system call that returned, and the C code after it. -/
theorem World.complete_moves (hact : a.actor = some p) (hq : w.procs[p]? = some q)
    (hpc : q.pc = .lib key pt asleep)
    (hc : pt.Comes a (w.sem key) p asleep sl r) : w.Moves P a (w.complete P p q key pt sl r) := by
  have hdid : ∀ e : Event, [e].filterMap Event.semop? = e.semop?.toList := fun e => by
    cases h : e.semop? <;> simp [h]
  cases hnx : pt.resume r with
  | goto pt' =>
    refine .goto p q key pt pt' asleep sl r hact hq hpc hc hnx ?_ ?_ ?_ ?_ <;>
      simp only [World.complete, hnx]
    · rfl
    · rfl
    · rfl
    · rw [← hdid]
      exact semops_note { w with sem := Function.update w.sem key sl } _
  | ret v =>
    refine .ret p q key pt asleep sl r v hact hq hpc hc hnx ?_ ?_ ?_ ?_ <;>
      simp only [World.complete, hnx]
    · rfl
    · rfl
    · rfl
    · rw [← hdid]
      apply (semops_note (World.note { w with sem := Function.update w.sem key sl } _) _).trans
      rw [semops_note]
      split
      · simp [World.semops, Event.semop?]
      · simp [World.semops]
  | err_sys msg => exact World.complete_fails hact hq hpc hc (by rw [hnx]; trivial)
  | err_dump msg => exact World.complete_fails hact hq hpc hc (by rw [hnx]; trivial)

/-- **The list is complete.** -/
theorem World.step_moves (h : w.step P a = some w') : w.Moves P a w' := by
  cases a with
  | spawn u =>
    obtain ⟨hu, rfl⟩ := World.of_step_spawn h
    exact .spawn u hu rfl rfl rfl rfl
  | die p =>
    obtain ⟨q, hq, hlive, rfl⟩ := World.of_step_die h
    exact .die p q rfl hq hlive rfl rfl rfl rfl
  | user p c =>
    obtain ⟨q, s, d, hq, hpc, hstep, rfl⟩ := World.of_step_user h
    have hnote : ∀ es : List Event, es.filterMap Event.semop? = [] →
        (World.note { w with shared := s } es).semops = w.semops := fun es he => by
      rw [semops_note, he, List.append_nil]
      rfl
    cases d with
    | go u => exact .own p q c u rfl hq hpc hstep rfl rfl rfl
    | exit =>
      exact .quit p q c _ rfl hq hpc hstep (fun u h => by cases h)
        (fun call u h => by cases h) rfl rfl rfl
    | err_sys msg =>
      exact .quit p q c _ rfl hq hpc hstep (fun u h => by cases h)
        (fun call u h => by cases h) rfl rfl (hnote _ rfl)
    | call call u =>
      cases hs : call.start with
      | goto pt =>
        simp only [World.does, hs]
        exact .enter p q c call u pt rfl hq hpc hstep hs rfl rfl (hnote _ rfl)
      | ret v =>
        simp only [World.does, hs]
        exact .straight p q c call u v rfl hq hpc hstep hs rfl rfl (hnote _ rfl)
      | err_sys msg =>
        simp only [World.does, hs]
        refine .quit p q c _ rfl hq hpc hstep (fun u h => by cases h) (fun call' u' h => ?_)
          rfl rfl (hnote _ rfl)
        cases h
        exact ⟨msg, hs⟩
      | err_dump msg => exact absurd hs (start_ne_err_dump call msg)
  | sys p =>
    obtain ⟨q, key, pt, asleep, hq, hpc, ⟨sl, r, hperf, rfl⟩ | ⟨hwait, rfl, rfl⟩⟩ :=
      World.of_step_sys h
    · exact World.complete_moves rfl hq hpc (.inl hperf)
    · exact .sleep p q key pt rfl hq hpc hwait rfl rfl rfl rfl
  | nospace p =>
    obtain ⟨q, key, pt, asleep, hq, hpc, hpt, rfl⟩ := World.of_step_nospace h
    exact World.complete_moves rfl hq hpc (.inr ⟨rfl, hpt, rfl, rfl⟩)

end Moves

end UnixNetProg.Semaphore

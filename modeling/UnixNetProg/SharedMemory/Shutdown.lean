/-
The end of the multi-buffer programs.

The second server, which is to close the semaphores last, waits for `clisem` to become 0
before it does. But the client has taken from `clisem` with `SEM_UNDO`, more often than it
has given, and when it exits the kernel gives all of that back. A server that has not seen
the 0 by then does not see one any more.

`spins_iff_quits` says that this is the only way for it to happen, and that it does happen:
in a run in which the client does not end before the server has left the loop, the server is
not caught in it, and a server in the loop is caught there when the client ends.
-/
import UnixNetProg.SharedMemory.Simulation

set_option autoImplicit false

namespace UnixNetProg.SharedMemory

open UnixNetProg.SysV UnixNetProg.Semaphore UnixNetProg.Runs

/-! ## The two processes of a world -/

/-- The server, and where its process is. -/
def serverOf (w : World Shared User) : Option (Server × Pc) :=
  match w.procs with
  | ⟨.server u, _, pc⟩ :: _ => some (u, pc)
  | _ => none

/-- The client, and where its process is. -/
def clientOf (w : World Shared User) : Option (Client × Pc) :=
  match w.procs with
  | [_, ⟨.client u, _, pc⟩] => some (u, pc)
  | _ => none

/-- The client is gone, and the server, in its loop, finds that `clisem` is not 0. -/
def Spins (w : World Shared User) : Prop :=
  ∃ u x, serverOf w = some (u, .user) ∧ clientOf w = some (x, .dead) ∧ u.stage = .poll ∧
    semctl_getval (w.sem SEMKEY1) u.clisem ≠ 0

/-- From `w` to `w'` the client ends, having asked for a file. -/
def quits (w w' : World Shared User) : Bool :=
  match clientOf w, clientOf w' with
  | some (x, pc), some (_, pc') => x.stage.late && pc != .dead && pc' == .dead
  | _, _ => false

/-- The server has left its loop. -/
def left (w : World Shared User) : Bool :=
  match serverOf w with
  | some (u, pc) => u.stage.passed || pc == .dead
  | none => false

/-- A step without mishap that does not end the client too early. -/
def patient (v : Version) (e : Env) (w : World Shared User) (a : Act User (Option ℕ)) : Prop :=
  calm w a ∧ ∀ w' ∈ w.step (program v e) a, quits w w' = true → left w = true

instance (v : Version) (e : Env) (w : World Shared User) (a : Act User (Option ℕ)) :
    Decidable (patient v e w a) := by
  unfold patient
  infer_instance

section Shutdown

variable {v : Version} {e : Env} {a : Act User (Option ℕ)} {w w' : World Shared User}
  {d d' : Duo} {h₀ h₁ : ℤ → Option ℕ} {pc₀ pc₁ : Pc} {n : ℕ}

theorem Sees.serverOf (h : Sees w d h₀ pc₀ h₁ pc₁) : serverOf w = some (d.server, pc₀) := by
  simp [SharedMemory.serverOf, h.procs]

theorem Sees.clientOf (h : Sees w d h₀ pc₀ h₁ pc₁) : clientOf w = some (d.client, pc₁) := by
  simp [SharedMemory.clientOf, h.procs]

/-! ## The loop is left before the client ends -/

/-- A client that has asked for a file and is gone has been outlasted. -/
def Duo.Outlasted (d : Duo) : Prop :=
  d.cup = false → d.client.stage.late = true → d.server.stage.passed = true ∨ d.sup = false

/-- The server does not come back. -/
theorem Duo.Le.left (h : d.Le d') (hleft : d.server.stage.passed = true ∨ d.sup = false) :
    d'.server.stage.passed = true ∨ d'.sup = false := by
  rcases hleft with hpassed | hsup
  · left
    by_contra hnot
    have hback := h.passed (by simpa using hnot)
    rw [hpassed] at hback
    cases hback
  · right
    by_contra hnot
    have hback := h.sup (by simpa using hnot)
    rw [hsup] at hback
    cases hback

/-- Only the end of the client can break it, and there the server has left. -/
theorem Duo.Outlasted.step (h : d.Outlasted) (hs : d.Step v e a d')
    (hquits : d.cup = true → d'.cup = false → d.client.stage.late = true →
      d.server.stage.passed = true ∨ d.sup = false) : d'.Outlasted := by
  intro hcup hlate
  apply hs.le.left
  -- a client that is gone makes no step
  have hsame : d.cup = false → d'.client = d.client := by
    intro hgone
    cases hs with
    | client_go _ hup | client_quit _ hup | client_wait hup | client_signal hup | client_open hup
    | client_close hup | client_fail hup => exact absurd hup (by simp [hgone])
    | _ => rfl
  -- and one that ends does not get any further by it
  have hends : d.cup = true → d'.client = d.client := by
    intro hup
    cases hs with
    | client_quit | client_fail => rfl
    | _ => exact absurd hcup (by simp [hup])
  by_cases hup : d.cup = true
  · rw [hends hup] at hlate
    exact hquits hup hcup hlate
  · have hgone : d.cup = false := by simpa using hup
    rw [hsame hgone] at hlate
    exact h hgone hlate

/-- In a run whose steps are patient the server outlasts the client. -/
theorem outlasted_of_reach (h : (both v e).Reach (patient v e) w) :
    ∃ d h₀ pc₀ h₁ pc₁, Sound w d h₀ pc₀ h₁ pc₁ ∧ d.Outlasted := by
  refine sound_of_reach (fun _ _ hok => hok.1) (fun hcup => by cases hcup) ?_ h
  intro w w' a d d' h₀ pc₀ h₁ pc₁ h₀' pc₀' h₁' pc₁' hok hs hsound hsound' hI hd
  refine hI.step hd fun hup hgone hlate => ?_
  have hpc₁ : (pc₁ != .dead) = true := hsound.sees.cup.symm.trans hup
  have hpc₁' : (pc₁' != .dead) = false := hsound'.sees.cup.symm.trans hgone
  have hquits : quits w w' = true := by
    simp only [quits, hsound.sees.clientOf, hsound'.sees.clientOf, hlate, hpc₁, Bool.true_and]
    simpa using hpc₁'
  have hleft := hok.2 w' hs hquits
  simp only [left, hsound.sees.serverOf, Bool.or_eq_true] at hleft
  rw [hsound.sees.sup]
  simpa using hleft

theorem not_spins (h : (both v e).Reach (patient v e) w) : ¬ Spins w := by
  obtain ⟨d, h₀, pc₀, h₁, pc₁, hsound, hout⟩ := outlasted_of_reach h
  rintro ⟨u, x, hu, hx, hpoll, -⟩
  rw [hsound.sees.serverOf, Option.some.injEq, Prod.mk.injEq] at hu
  rw [hsound.sees.clientOf, Option.some.injEq, Prod.mk.injEq] at hx
  obtain ⟨rfl, rfl⟩ := hu
  obtain ⟨rfl, rfl⟩ := hx
  -- a server that has come as far has been asked
  have hlate : d.client.stage.late = true := by
    by_contra hnot
    have hearly := (hsound.opening.early (by simpa using hnot)).1
    rw [hpoll] at hearly
    cases hearly
  rcases hout hsound.sees.cup hlate with hpassed | hsup
  · rw [hpoll] at hpassed
    cases hpassed
  · rw [hsound.sees.sup] at hsup
    cases hsup

/-! ## It does not before -/

/-- A client that ends while the server is in its loop gives to `clisem`. -/
theorem spins_of_quits (h : (both v e).Reach calm w) (hcalm : calm w a)
    (hs : w.step (program v e) a = some w') (hquits : quits w w' = true) {u : Server}
    (hu : serverOf w = some (u, .user)) (hpoll : u.stage = .poll) : Spins w' := by
  obtain ⟨d, h₀, pc₀, h₁, pc₁, hsound, -⟩ :=
    sound_of_reach (I := fun _ => True) (fun _ _ hok => hok) trivial (fun _ _ _ _ _ _ => trivial) h
  have hsane' := sane_of_reach (h.step hcalm hs)
  obtain ⟨d', h₀', pc₀', h₁', pc₁', hd, hsound'⟩ := hsound.step (sane_of_reach h) hsane' hcalm hs
  simp only [quits, hsound.sees.clientOf, hsound'.sees.clientOf, Bool.and_eq_true, bne_iff_ne,
    beq_iff_eq] at hquits
  obtain ⟨⟨hlate, hlive⟩, rfl⟩ := hquits
  rw [hsound.sees.serverOf, Option.some.injEq, Prod.mk.injEq] at hu
  obtain ⟨rfl, rfl⟩ := hu
  have hcup : d.cup = true := hsound.sees.cup.trans (by simpa using hlive)
  have hcup' : d'.cup = false := hsound'.sees.cup
  have hsup : d.sup = true := hsound.sees.sup
  have hpassed : d.server.stage.passed = false := by
    rw [hpoll]
    rfl
  -- it is the client's step, so the server is where it was
  have hends : d'.server = d.server ∧ d'.sup = d.sup ∧ 0 < d'.cli := by
    cases hd with
    | client_quit _ _ _ _ _ hpos => exact ⟨rfl, rfl, hpos hlate hsup hpassed⟩
    | client_fail _ _ _ _ hpos => exact ⟨rfl, rfl, hpos hlate hsup hpassed⟩
    | _ => exact absurd hcup' (by simp [hcup])
  obtain ⟨hserver, -, hpos⟩ := hends
  have huser : pc₀' = .user := by
    obtain ⟨p, q, hset⟩ := procs_set hs
    rw [hsound.sees.procs, hsound'.sees.procs] at hset
    cases p with
    | zero =>
      simp only [List.set_cons_zero, List.cons.injEq, Proc.mk.injEq] at hset
      exact absurd hset.2.1.2.2.symm hlive
    | succ p =>
      simp only [List.set_cons_succ, List.cons.injEq, Proc.mk.injEq] at hset
      exact hset.1.2.2
  subst huser
  have hpoll' : d'.server.stage = .poll := by rw [hserver, hpoll]
  refine ⟨d'.server, d'.client, hsound'.sees.serverOf, hsound'.sees.clientOf, hpoll', ?_⟩
  rw [hsound'.getval hsane' hpoll']
  omega

/-- A server that is caught stays so: what is still possible changes nothing. -/
theorem Spins.forever (h : Spins w) (hw : (both (.multi n) e).Reach calm w) (hcalm : calm w a)
    (hs : w.step (program (.multi n) e) a = some w') : w' = w := by
  obtain ⟨d, h₀, pc₀, h₁, pc₁, hsound, -⟩ :=
    sound_of_reach (I := fun _ => True) (fun _ _ hok => hok) trivial (fun _ _ _ _ _ _ => trivial) hw
  obtain ⟨u, x, hu, hx, hpoll, hne⟩ := h
  rw [hsound.sees.serverOf, Option.some.injEq, Prod.mk.injEq] at hu
  rw [hsound.sees.clientOf, Option.some.injEq, Prod.mk.injEq] at hx
  obtain ⟨rfl, rfl⟩ := hu
  obtain ⟨rfl, rfl⟩ := hx
  have hprocs := hsound.sees.procs
  obtain ⟨sem, shared, procs, log⟩ := w
  obtain rfl : procs = _ := hprocs
  -- the count is not 0, and nobody is left to change it
  have hmain : ∀ c, (program (.multi n) e).step sem shared (.server d.server) c =
      some (shared, .go (.server d.server)) := by
    intro c
    simp only [program, server_main, hpoll, if_pos hne, Option.map_some, Does.map]
  cases a with
  | spawn u => cases hcalm
  | die p => cases hcalm
  | nospace p => cases hcalm
  | user p c =>
    cases p with
    | zero =>
      simp only [World.step, List.getElem?_cons_zero, if_true, hmain] at hs
      exact (Option.some.inj hs).symm
    | succ p => cases p <;> simp [World.step] at hs
  | sys p =>
    cases p with
    | zero => simp [World.step] at hs
    | succ p => cases p <;> simp [World.step] at hs

end Shutdown

/-! ## The result -/

/-- **The server is not caught in its loop if the client ends after it has left**; and if
the client ends while the server is in the loop, it is caught there. -/
theorem spins_iff_quits (nbuff : ℕ) (e : Env) (w : World Shared User) :
    ((both (.multi nbuff) e).Reach (patient (.multi nbuff) e) w → ¬ Spins w) ∧
    ∀ a w' u, (both (.multi nbuff) e).Reach calm w → calm w a →
      w.step (program (.multi nbuff) e) a = some w' → quits w w' = true →
      serverOf w = some (u, .user) → u.stage = .poll → Spins w' :=
  ⟨not_spins, fun _ _ _ h hcalm hs hquits hu hpoll => spins_of_quits h hcalm hs hquits hu hpoll⟩

/-- Steps of a process in its own code. -/
def own (p n : ℕ) : List (Act User (Option ℕ)) := List.replicate n (.user p (some 0))

/-- System calls of a process. -/
def calls (p n : ℕ) : List (Act User (Option ℕ)) := List.replicate n (.sys p)

/-- An empty file. -/
def emptyFile : Env where
  stdin := ['f', '\n']
  files := fun name => if name = ['f'] then some [] else none
  sys_err_str := []

/-- The server sends the length 0 and has come to its loop; the client, which has asked for
the file, is about to take the last signal. -/
def toPoll : List (Act User (Option ℕ)) :=
  -- up to the first `sem_wait` of the server
  own 0 6 ++ calls 0 6 ++ own 0 2 ++ calls 0 6 ++ own 0 2 ++
  -- the client asks
  own 1 6 ++ calls 1 2 ++ own 1 2 ++ calls 1 2 ++ own 1 2 ++ calls 1 1 ++ own 1 4 ++ calls 1 1 ++
  own 1 1 ++
  -- the server posts four times, finds the end of the file, and signals
  calls 0 1 ++ own 0 3 ++ calls 0 1 ++ own 0 1 ++ calls 0 1 ++ own 0 1 ++ calls 0 1 ++ own 0 1 ++
  calls 0 1 ++ own 0 2 ++ calls 0 1 ++ own 0 3 ++ calls 0 1 ++ own 0 2

/-- The client, with the signal, goes to its end. -/
def toExit : List (Act User (Option ℕ)) := own 1 8 ++ calls 1 3 ++ own 1 1 ++ calls 1 3 ++ own 1 1

/-- The server leaves the loop when the client has the last signal. -/
theorem spins_iff_quits_left : ∃ w,
    (both (.multi NBUFF) emptyFile).Reach (patient (.multi NBUFF) emptyFile) w ∧
      (clientOf w).map (·.2) = some .dead ∧ ¬ Spins w := by
  have hrun := Machine.Reach.run (both (.multi NBUFF) emptyFile) (patient (.multi NBUFF) emptyFile)
    rfl (toPoll ++ calls 1 1 ++ own 0 1 ++ toExit) (by decide +kernel)
  exact ⟨_, hrun, by decide +kernel, (spins_iff_quits NBUFF emptyFile _).1 hrun⟩

/-- The client ends first, and the server polls for ever. -/
theorem multi_spins : ∃ w, (both (.multi NBUFF) emptyFile).Reach calm w ∧ Spins w ∧
    ∀ a w', calm w a → w.step (program (.multi NBUFF) emptyFile) a = some w' → w' = w := by
  have hrun := Machine.Reach.run (both (.multi NBUFF) emptyFile) calm rfl
    (toPoll ++ calls 1 1 ++ toExit) (by decide +kernel)
  refine ⟨_, hrun, ?spins, fun a w' hcalm hs => Spins.forever ?spins hrun hcalm hs⟩
  refine ⟨⟨.poll, 0, 0, some [], 0, 0, 0⟩, ⟨.exit, 4, 0, 0, 0⟩, ?_, ?_, rfl, ?_⟩
  · decide +kernel
  · decide +kernel
  · decide +kernel

end UnixNetProg.SharedMemory

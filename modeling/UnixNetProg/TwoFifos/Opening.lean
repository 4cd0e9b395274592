/-
The four opens, and the descriptors.

`stage` says how far a process is with its descriptors. How often each pipe is open,
and has been opened, follows from the stages of the two processes; and neither is
ahead of the other by more than one open (`Opens`). So of two processes that have
not both opened their pipes the one that is behind can go on.
-/
import UnixNetProg.TwoFifos.Code

set_option autoImplicit false

namespace UnixNetProg.TwoFifos

open UnixNetProg.NamedPipe UnixNetProg.Runs UnixNetProg.Runs.Machine UnixNetProg.Stdio

/-! ## Stages -/

/-- 4 is the client, and 6 that all is closed. -/
def CliAt.stage : CliAt → ℕ
  | .open1 => 0
  | .opening1 _ => 1
  | .open2 => 2
  | .opening2 _ => 3
  | .done | .ended _ | .killed => 6
  | _ => 4

/-- 4 is the server, 5 that only `FIFO2` is open, and 6 that all is closed. -/
def ServAt.stage : ServAt → ℕ
  | .open1 => 0
  | .opening1 _ => 1
  | .open2 => 2
  | .opening2 _ => 3
  | .closewrite => 5
  | .exit | .done | .ended _ | .killed => 6
  | _ => 4

/-- How often the other end had been opened before a process waited for it. -/
def CliAt.counter : CliAt → ℕ
  | .opening1 n | .opening2 n => n
  | _ => 0

def ServAt.counter : ServAt → ℕ
  | .opening1 n | .opening2 n => n
  | _ => 0

/-- One if `p`, and none if not. -/
def one (p : Prop) [Decidable p] : ℕ := if p then 1 else 0

/-- How often `FIFO1` is and has been open when the processes are at these stages. -/
def ends1 (c s : ℕ) : Ends where
  readers := one (1 ≤ s ∧ s < 5)
  writers := one (1 ≤ c ∧ c < 6)
  r_counter := one (1 ≤ s)
  w_counter := one (1 ≤ c)

/-- The same of `FIFO2`. -/
def ends2 (c s : ℕ) : Ends where
  readers := one (3 ≤ c ∧ c < 6)
  writers := one (3 ≤ s ∧ s < 6)
  r_counter := one (3 ≤ c)
  w_counter := one (3 ≤ s)

/-- A process that has got behind an open has seen the other one do the same. -/
def Together (c s : ℕ) : Prop :=
  ((2 ≤ s → 1 ≤ c) ∧ (4 ≤ s → 3 ≤ c)) ∧ (2 ≤ c → 1 ≤ s) ∧ (4 ≤ c → 3 ≤ s)

/-- What the stages say about the descriptors. -/
structure World.Opened (w : World) : Prop where
  fifo1 : w.fifo1.toEnds = ends1 w.cli.pc.stage w.serv.stage
  fifo2 : w.fifo2.toEnds = ends2 w.cli.pc.stage w.serv.stage
  together : Together w.cli.pc.stage w.serv.stage
  cliCounter : w.cli.pc.counter = 0
  servCounter : w.serv.counter = 0

theorem one_pos {p : Prop} [Decidable p] : 0 < one p ↔ p := by
  unfold one
  split_ifs with hp <;> simp [hp]

theorem one_eq_zero {p : Prop} [Decidable p] : one p = 0 ↔ ¬ p := by
  unfold one
  split_ifs with hp <;> simp [hp]

section Steps

variable {e : Env} {w w' : World} {f1 f2 : Fifo Char}

theorem World.Opened.readers1 (h : w.Opened) :
    w.fifo1.readers = one (1 ≤ w.serv.stage ∧ w.serv.stage < 5) := congrArg Ends.readers h.fifo1

theorem World.Opened.writers1 (h : w.Opened) :
    w.fifo1.writers = one (1 ≤ w.cli.pc.stage ∧ w.cli.pc.stage < 6) := congrArg Ends.writers h.fifo1

theorem World.Opened.r_counter1 (h : w.Opened) : w.fifo1.r_counter = one (1 ≤ w.serv.stage) :=
  congrArg Ends.r_counter h.fifo1

theorem World.Opened.w_counter1 (h : w.Opened) : w.fifo1.w_counter = one (1 ≤ w.cli.pc.stage) :=
  congrArg Ends.w_counter h.fifo1

theorem World.Opened.readers2 (h : w.Opened) :
    w.fifo2.readers = one (3 ≤ w.cli.pc.stage ∧ w.cli.pc.stage < 6) := congrArg Ends.readers h.fifo2

theorem World.Opened.writers2 (h : w.Opened) :
    w.fifo2.writers = one (3 ≤ w.serv.stage ∧ w.serv.stage < 6) := congrArg Ends.writers h.fifo2

theorem World.Opened.r_counter2 (h : w.Opened) : w.fifo2.r_counter = one (3 ≤ w.cli.pc.stage) :=
  congrArg Ends.r_counter h.fifo2

theorem World.Opened.w_counter2 (h : w.Opened) : w.fifo2.w_counter = one (3 ≤ w.serv.stage) :=
  congrArg Ends.w_counter h.fifo2

/-- A step between two places of the same stage leaves the descriptors alone. -/
theorem World.Opened.cliSame {cli : Client} (h : w.Opened)
    (hstage : cli.pc.stage = w.cli.pc.stage) (hcounter : cli.pc.counter = 0)
    (h1 : f1.toEnds = w.fifo1.toEnds) (h2 : f2.toEnds = w.fifo2.toEnds) :
    World.Opened ⟨cli, w.serv, f1, f2⟩ where
  fifo1 := by
    rw [hstage]
    exact h1.trans h.fifo1
  fifo2 := by
    rw [hstage]
    exact h2.trans h.fifo2
  together := by
    rw [hstage]
    exact h.together
  cliCounter := hcounter
  servCounter := h.servCounter

theorem World.Opened.servSame {serv : ServAt} (h : w.Opened)
    (hstage : serv.stage = w.serv.stage) (hcounter : serv.counter = 0)
    (h1 : f1.toEnds = w.fifo1.toEnds) (h2 : f2.toEnds = w.fifo2.toEnds) :
    World.Opened ⟨w.cli, serv, f1, f2⟩ where
  fifo1 := by
    rw [hstage]
    exact h1.trans h.fifo1
  fifo2 := by
    rw [hstage]
    exact h2.trans h.fifo2
  together := by
    rw [hstage]
    exact h.together
  cliCounter := h.cliCounter
  servCounter := hcounter

/-! ### The parent -/

/-- It opens `FIFO1`, and goes on if the child has. -/
theorem World.Opened.cliOpen1 (h : w.Opened) (hpc : w.cli.pc = .open1) :
    World.Opened {
      w.cliAt (if 0 < w.fifo1.readers then .open2 else .opening1 w.fifo1.r_counter) with
      fifo1 := w.fifo1.openWrite } := by
  have hends1 : w.fifo1.toEnds.openWrite = (ends1 0 w.serv.stage).openWrite := by
    rw [h.fifo1, hpc]
    rfl
  have hends2 := h.fifo2
  have htog := h.together
  have hr := h.r_counter1
  rw [hpc] at hends2 htog
  simp only [Together, CliAt.stage] at htog
  by_cases hopen : 0 < w.fifo1.readers
  · -- the other end is open: the call returns at once
    rw [if_pos hopen]
    rw [h.readers1, one_pos] at hopen
    refine ⟨hends1, hends2, ?_, rfl, h.servCounter⟩
    simp only [Together, World.cliAt, CliAt.stage]
    omega
  · -- the call waits for the other end
    rw [if_neg hopen]
    rw [h.readers1, one_pos] at hopen
    refine ⟨hends1, hends2, ?_, ?_, h.servCounter⟩
    · simp only [Together, World.cliAt, CliAt.stage]
      omega
    · simp only [World.cliAt, CliAt.counter]
      rw [hr, one_eq_zero]
      omega

/-- The child has opened `FIFO1`. -/
theorem World.Opened.cliOpening1 (h : w.Opened) {n : ℕ} (hpc : w.cli.pc = .opening1 n)
    (hn : n < w.fifo1.r_counter) : (w.cliAt .open2).Opened := by
  have hends1 := h.fifo1
  have hends2 := h.fifo2
  have htog := h.together
  rw [hpc] at hends1 hends2 htog
  have hserv : 1 ≤ w.serv.stage := by
    apply one_pos.1
    rw [← h.r_counter1]
    omega
  refine ⟨hends1, hends2, ?_, rfl, h.servCounter⟩
  simp only [Together, World.cliAt, CliAt.stage] at htog ⊢
  omega

/-- It opens `FIFO2`, and goes on if the child has. -/
theorem World.Opened.cliOpen2 (h : w.Opened) (hpc : w.cli.pc = .open2) :
    World.Opened {
      w.cliAt (if 0 < w.fifo2.writers then .fgets else .opening2 w.fifo2.w_counter) with
      fifo2 := w.fifo2.openRead } := by
  have hends1 := h.fifo1
  have hends2 : w.fifo2.toEnds.openRead = (ends2 2 w.serv.stage).openRead := by
    rw [h.fifo2, hpc]
    rfl
  have htog := h.together
  have hw := h.w_counter2
  rw [hpc] at hends1 htog
  simp only [Together, CliAt.stage] at htog
  by_cases hopen : 0 < w.fifo2.writers
  · -- the other end is open: the call returns at once
    rw [if_pos hopen]
    rw [h.writers2, one_pos] at hopen
    refine ⟨hends1, hends2, ?_, rfl, h.servCounter⟩
    simp only [Together, World.cliAt, CliAt.stage]
    omega
  · -- the call waits for the other end
    rw [if_neg hopen]
    rw [h.writers2, one_pos] at hopen
    refine ⟨hends1, hends2, ?_, ?_, h.servCounter⟩
    · simp only [Together, World.cliAt, CliAt.stage]
      omega
    · simp only [World.cliAt, CliAt.counter]
      rw [hw, one_eq_zero]
      omega

/-- The child has opened `FIFO2`. -/
theorem World.Opened.cliOpening2 (h : w.Opened) {n : ℕ} (hpc : w.cli.pc = .opening2 n)
    (hn : n < w.fifo2.w_counter) : (w.cliAt .fgets).Opened := by
  have hends1 := h.fifo1
  have hends2 := h.fifo2
  have htog := h.together
  rw [hpc] at hends1 hends2 htog
  have hserv : 3 ≤ w.serv.stage := by
    apply one_pos.1
    rw [← h.w_counter2]
    omega
  refine ⟨hends1, hends2, ?_, rfl, h.servCounter⟩
  simp only [Together, World.cliAt, CliAt.stage] at htog ⊢
  omega

/-- It ends. -/
theorem World.Opened.cliExit (h : w.Opened) {pc : CliAt} (hstage : w.cli.pc.stage = 4)
    (hpc : pc.stage = 6) (hcounter : pc.counter = 0) : (w.cliExit pc).Opened := by
  have htog := h.together
  rw [hstage] at htog
  refine ⟨?_, ?_, ?_, hcounter, h.servCounter⟩
  · show w.fifo1.toEnds.closeWrite = ends1 pc.stage w.serv.stage
    rw [h.fifo1, hstage, hpc]
    rfl
  · show w.fifo2.toEnds.closeRead = ends2 pc.stage w.serv.stage
    rw [h.fifo2, hstage, hpc]
    rfl
  · show Together pc.stage w.serv.stage
    rw [hpc]
    simp only [Together] at htog ⊢
    omega

/-! ### The child -/

/-- It opens `FIFO1`, and goes on if the parent has. -/
theorem World.Opened.servOpen1 (h : w.Opened) (hpc : w.serv = .open1) :
    World.Opened { w with
      serv := if 0 < w.fifo1.writers then .open2 else .opening1 w.fifo1.w_counter
      fifo1 := w.fifo1.openRead } := by
  have hends1 : w.fifo1.toEnds.openRead = (ends1 w.cli.pc.stage 0).openRead := by
    rw [h.fifo1, hpc]
    rfl
  have hends2 := h.fifo2
  have htog := h.together
  have hw := h.w_counter1
  rw [hpc] at hends2 htog
  simp only [Together, ServAt.stage] at htog
  by_cases hopen : 0 < w.fifo1.writers
  · -- the other end is open: the call returns at once
    rw [if_pos hopen]
    rw [h.writers1, one_pos] at hopen
    refine ⟨hends1, hends2, ?_, h.cliCounter, rfl⟩
    simp only [Together, ServAt.stage]
    omega
  · -- the call waits for the other end
    rw [if_neg hopen]
    rw [h.writers1, one_pos] at hopen
    refine ⟨hends1, hends2, ?_, h.cliCounter, ?_⟩
    · simp only [Together, ServAt.stage]
      omega
    · simp only [ServAt.counter]
      rw [hw, one_eq_zero]
      omega

/-- The parent has opened `FIFO1`. -/
theorem World.Opened.servOpening1 (h : w.Opened) {n : ℕ} (hpc : w.serv = .opening1 n)
    (hn : n < w.fifo1.w_counter) : World.Opened { w with serv := .open2 } := by
  have hends1 := h.fifo1
  have hends2 := h.fifo2
  have htog := h.together
  rw [hpc] at hends1 hends2 htog
  have hcli : 1 ≤ w.cli.pc.stage := by
    apply one_pos.1
    rw [← h.w_counter1]
    omega
  refine ⟨hends1, hends2, ?_, h.cliCounter, rfl⟩
  simp only [Together, ServAt.stage] at htog ⊢
  omega

/-- It opens `FIFO2`, and goes on if the parent has. -/
theorem World.Opened.servOpen2 (h : w.Opened) (hpc : w.serv = .open2) :
    World.Opened { w with
      serv := if 0 < w.fifo2.readers then .readname else .opening2 w.fifo2.r_counter
      fifo2 := w.fifo2.openWrite } := by
  have hends1 := h.fifo1
  have hends2 : w.fifo2.toEnds.openWrite = (ends2 w.cli.pc.stage 2).openWrite := by
    rw [h.fifo2, hpc]
    rfl
  have htog := h.together
  have hr := h.r_counter2
  rw [hpc] at hends1 htog
  simp only [Together, ServAt.stage] at htog
  by_cases hopen : 0 < w.fifo2.readers
  · -- the other end is open: the call returns at once
    rw [if_pos hopen]
    rw [h.readers2, one_pos] at hopen
    refine ⟨hends1, hends2, ?_, h.cliCounter, rfl⟩
    simp only [Together, ServAt.stage]
    omega
  · -- the call waits for the other end
    rw [if_neg hopen]
    rw [h.readers2, one_pos] at hopen
    refine ⟨hends1, hends2, ?_, h.cliCounter, ?_⟩
    · simp only [Together, ServAt.stage]
      omega
    · simp only [ServAt.counter]
      rw [hr, one_eq_zero]
      omega

/-- The parent has opened `FIFO2`. -/
theorem World.Opened.servOpening2 (h : w.Opened) {n : ℕ} (hpc : w.serv = .opening2 n)
    (hn : n < w.fifo2.r_counter) : World.Opened { w with serv := .readname } := by
  have hends1 := h.fifo1
  have hends2 := h.fifo2
  have htog := h.together
  rw [hpc] at hends1 hends2 htog
  have hcli : 3 ≤ w.cli.pc.stage := by
    apply one_pos.1
    rw [← h.r_counter2]
    omega
  refine ⟨hends1, hends2, ?_, h.cliCounter, rfl⟩
  simp only [Together, ServAt.stage] at htog ⊢
  omega

/-- It ends. -/
theorem World.Opened.servExit (h : w.Opened) {pc : ServAt} (hstage : w.serv.stage = 4)
    (hpc : pc.stage = 6) (hcounter : pc.counter = 0) : (w.servExit pc).Opened := by
  have htog := h.together
  rw [hstage] at htog
  refine ⟨?_, ?_, ?_, h.cliCounter, hcounter⟩
  · show w.fifo1.toEnds.closeRead = ends1 w.cli.pc.stage pc.stage
    rw [h.fifo1, hstage, hpc]
    rfl
  · show w.fifo2.toEnds.closeWrite = ends2 w.cli.pc.stage pc.stage
    rw [h.fifo2, hstage, hpc]
    rfl
  · show Together w.cli.pc.stage pc.stage
    rw [hpc]
    simp only [Together] at htog ⊢
    omega

theorem World.Opened.servCloseread (h : w.Opened) (hpc : w.serv = .closeread) :
    World.Opened { w with serv := .closewrite, fifo1 := w.fifo1.closeRead } := by
  have hends1 : w.fifo1.toEnds.closeRead = (ends1 w.cli.pc.stage 4).closeRead := by
    rw [h.fifo1, hpc]
    rfl
  have hends2 := h.fifo2
  have htog := h.together
  rw [hpc] at hends2 htog
  refine ⟨hends1, hends2, ?_, h.cliCounter, rfl⟩
  simp only [Together, ServAt.stage] at htog ⊢
  omega

theorem World.Opened.servClosewrite (h : w.Opened) (hpc : w.serv = .closewrite) :
    World.Opened { w with serv := .exit, fifo2 := w.fifo2.closeWrite } := by
  have hends1 := h.fifo1
  have hends2 : w.fifo2.toEnds.closeWrite = (ends2 w.cli.pc.stage 5).closeWrite := by
    rw [h.fifo2, hpc]
    rfl
  have htog := h.together
  rw [hpc] at hends1 htog
  refine ⟨hends1, hends2, ?_, h.cliCounter, rfl⟩
  simp only [Together, ServAt.stage] at htog ⊢
  omega

/-! ### Steps -/

/-- Where the parent goes on within a stage. -/
theorem World.Opened.cliStep (h : w.Opened) (hstep : w.cliStep e = some w') : w'.Opened := by
  -- the opens change the stage, and so do the exits; nothing else does
  unfold World.cliStep at hstep
  cases hpc : w.cli.pc with
  | open1 =>
    rw [hpc] at hstep
    obtain rfl := Option.some.inj hstep
    exact h.cliOpen1 hpc
  | opening1 n =>
    simp only [hpc] at hstep
    split_ifs at hstep with hn
    obtain rfl := Option.some.inj hstep
    exact h.cliOpening1 hpc hn
  | open2 =>
    rw [hpc] at hstep
    obtain rfl := Option.some.inj hstep
    exact h.cliOpen2 hpc
  | opening2 n =>
    simp only [hpc] at hstep
    split_ifs at hstep with hn
    obtain rfl := Option.some.inj hstep
    exact h.cliOpening2 hpc hn
  | fgets =>
    simp only [hpc] at hstep
    split at hstep
    · obtain rfl := Option.some.inj hstep
      exact h.cliSame (by rw [hpc]; rfl) rfl rfl rfl
    · obtain rfl := Option.some.inj hstep
      exact h.cliExit (by rw [hpc]; rfl) rfl rfl
  | writename name =>
    simp only [hpc] at hstep
    obtain ⟨r, hwrite, rfl⟩ := Option.map_eq_some_iff.1 hstep
    cases r with
    | all f =>
      obtain rfl := Fifo.write_eq_all hwrite
      exact h.cliSame (by rw [hpc]; rfl) rfl rfl rfl
    | refused => exact h.cliExit (by rw [hpc]; rfl) rfl rfl
  | read =>
    simp only [hpc] at hstep
    obtain ⟨p, hread, rfl⟩ := Option.map_eq_some_iff.1 hstep
    have hends := Fifo.toEnds_of_read hread
    split_ifs
    · exact h.cliSame (by rw [hpc]; rfl) rfl rfl hends
    · exact h.cliSame (by rw [hpc]; rfl) rfl rfl hends
  | write data =>
    rw [hpc] at hstep
    obtain rfl := Option.some.inj hstep
    exact h.cliSame (by rw [hpc]; rfl) rfl rfl rfl
  | wait =>
    simp only [hpc] at hstep
    split_ifs at hstep with hgone
    obtain rfl := Option.some.inj hstep
    exact h.cliExit (by rw [hpc]; rfl) rfl rfl
  | done | ended | killed =>
    rw [hpc] at hstep
    cases hstep

theorem stage_opened (name : List Char) (file : File) :
    (ServAt.opened name file).stage = 4 ∧ (ServAt.opened name file).counter = 0 := by
  cases file with
  | cannot err =>
    simp only [ServAt.opened]
    split_ifs <;> exact ⟨rfl, rfl⟩
  | opens chunks fails => exact ⟨rfl, rfl⟩

theorem stage_named (bs : List Char) :
    (ServAt.named bs).stage = 4 ∧ (ServAt.named bs).counter = 0 := by
  unfold ServAt.named
  split_ifs <;> exact ⟨rfl, rfl⟩

/-- A server that writes is between its opens and its closes, and stays there. -/
theorem stage_writes {pc pc' : ServAt} {d : List Char} (h : pc.writes = some (d, pc')) :
    pc.stage = 4 ∧ pc'.stage = 4 ∧ pc'.counter = 0 := by
  cases pc <;> cases h <;> exact ⟨rfl, rfl, rfl⟩

/-- A server that has something to write. -/
theorem servStep_writes {d : List Char} {pc' : ServAt} (hwrites : w.serv.writes = some (d, pc')) :
    w.servStep e = (w.fifo2.write e.capacity2 d).map fun
      | .all f => { w with serv := pc', fifo2 := f }
      | .refused => w.servExit .killed := by
  unfold World.servStep
  cases hpc : w.serv <;> rw [hpc] at hwrites <;> cases hwrites <;> rfl

theorem World.Opened.servStep (h : w.Opened) (hstep : w.servStep e = some w') : w'.Opened := by
  -- whatever it writes, it does so between its opens and its closes
  cases hwrites : w.serv.writes with
  | some p =>
    obtain ⟨hstage, hstage', hcounter⟩ := stage_writes hwrites
    rw [servStep_writes hwrites] at hstep
    obtain ⟨r, hwrite, rfl⟩ := Option.map_eq_some_iff.1 hstep
    cases r with
    | all f =>
      obtain rfl := Fifo.write_eq_all hwrite
      exact h.servSame (hstage'.trans hstage.symm) hcounter rfl rfl
    | refused => exact h.servExit hstage rfl rfl
  | none =>
    unfold World.servStep at hstep
    cases hpc : w.serv with
    | open1 =>
      rw [hpc] at hstep
      obtain rfl := Option.some.inj hstep
      exact h.servOpen1 hpc
    | opening1 n =>
      simp only [hpc] at hstep
      split_ifs at hstep with hn
      obtain rfl := Option.some.inj hstep
      exact h.servOpening1 hpc hn
    | open2 =>
      rw [hpc] at hstep
      obtain rfl := Option.some.inj hstep
      exact h.servOpen2 hpc
    | opening2 n =>
      simp only [hpc] at hstep
      split_ifs at hstep with hn
      obtain rfl := Option.some.inj hstep
      exact h.servOpening2 hpc hn
    | readname =>
      simp only [hpc] at hstep
      obtain ⟨p, hread, rfl⟩ := Option.map_eq_some_iff.1 hstep
      have hends := Fifo.toEnds_of_read hread
      split_ifs
      · have hsame : World.Opened ⟨w.cli, w.serv, p.2, w.fifo2⟩ :=
          h.servSame rfl (by rw [hpc]; rfl) hends rfl
        exact hsame.servExit (by rw [hpc]; rfl) rfl rfl
      · obtain ⟨hstage, hcounter⟩ := stage_named p.1
        exact h.servSame (by rw [hstage, hpc]; rfl) hcounter hends rfl
    | openfile name =>
      rw [hpc] at hstep
      obtain rfl := Option.some.inj hstep
      obtain ⟨hstage, hcounter⟩ := stage_opened name (e.fs name)
      exact h.servSame (by rw [hstage, hpc]; rfl) hcounter rfl rfl
    | readfile chunks fails =>
      simp only [hpc] at hstep
      cases chunks with
      | cons c cs =>
        obtain rfl := Option.some.inj hstep
        exact h.servSame (by rw [hpc]; rfl) rfl rfl rfl
      | nil =>
        obtain rfl := Option.some.inj hstep
        -- a `read` that fails ends the child, the end of the file leads to its closes
        split_ifs
        · exact h.servExit (by rw [hpc]; rfl) rfl rfl
        · exact h.servSame (by rw [hpc]; rfl) rfl rfl rfl
    | writedata | writeerr =>
      rw [hpc] at hwrites
      cases hwrites
    | closeread =>
      rw [hpc] at hstep
      obtain rfl := Option.some.inj hstep
      exact h.servCloseread hpc
    | closewrite =>
      rw [hpc] at hstep
      obtain rfl := Option.some.inj hstep
      exact h.servClosewrite hpc
    | exit =>
      rw [hpc] at hstep
      obtain rfl := Option.some.inj hstep
      exact h.servSame (by rw [hpc]; rfl) rfl rfl rfl
    | done | ended | killed | overrun =>
      rw [hpc] at hstep
      cases hstep

theorem opened_start (stdin : List Char) : (start stdin).Opened :=
  ⟨rfl, rfl, by simp [Together, start, CliAt.stage, ServAt.stage], rfl, rfl⟩

theorem World.Opened.step {a : Act} (h : w.Opened) (hstep : w.step e a = some w') : w'.Opened := by
  cases a with
  | cli => exact h.cliStep hstep
  | serv => exact h.servStep hstep
  | cliFails =>
    cases hpc : w.cli.pc with
    | write data =>
      simp only [World.step, hpc] at hstep
      obtain rfl := Option.some.inj hstep
      exact h.cliExit (by rw [hpc]; rfl) rfl rfl
    | open1 | opening1 | open2 | opening2 | fgets | writename | read | wait | done | ended
    | killed =>
      simp only [World.step, hpc] at hstep
      cases hstep

end Steps

end UnixNetProg.TwoFifos

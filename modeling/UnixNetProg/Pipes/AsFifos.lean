/-
The pipes run as the FIFOs do, once these are open.

`plus` is a state of the two FIFOs in which some descriptors are held besides. A process
looks at a pipe from one end, and what the other process holds of that end besides does
not matter to it (`cliStep_plus`, `servStep_plus`): what counts for a reader is who else
writes, and for a writer who else reads, and each has closed its own descriptors by then.
So the machines follow each other, and what is known of the FIFOs holds of the pipes.
-/
import UnixNetProg.Lib.Bisimulation
import UnixNetProg.Pipes.Code
import UnixNetProg.TwoFifos.NoDeadlock

set_option autoImplicit false

namespace UnixNetProg.Pipes

open UnixNetProg.NamedPipe UnixNetProg.Runs UnixNetProg.Runs.Machine UnixNetProg.Stdio
open UnixNetProg.TwoFifos

/-! ## Descriptors besides -/

/-- The pipe, when some have it open besides. -/
def more (f : Fifo Char) (r w : ℕ) : Fifo Char :=
  { f with readers := f.readers + r, writers := f.writers + w }

section More

variable {f : Fifo Char} {r w n capacity : ℕ} {bs : List Char}

@[simp] theorem bytes_more : (more f r w).bytes = f.bytes := rfl

theorem closeRead_more (h : 0 < f.readers) : (more f r w).closeRead = more f.closeRead r w := by
  have hsub : f.readers + r - 1 = f.readers - 1 + r := by omega
  simp [more, Fifo.closeRead, Ends.closeRead, hsub]

theorem closeWrite_more (h : 0 < f.writers) : (more f r w).closeWrite = more f.closeWrite r w := by
  have hsub : f.writers + w - 1 = f.writers - 1 + w := by omega
  simp [more, Fifo.closeWrite, Ends.closeWrite, hsub]

/-- What a write does, when some have the pipe open for writing besides. -/
def Written.more (w : ℕ) : Written Char → Written Char
  | .all f => .all (Pipes.more f 0 w)
  | .refused => .refused

/-- A writer does not notice who else can write. -/
theorem write_more :
    (more f 0 w).write capacity bs = (f.write capacity bs).map (Written.more w) := by
  have hreaders : (more f 0 w).readers = f.readers := rfl
  unfold Fifo.write
  rw [hreaders, bytes_more]
  by_cases hnil : bs = []
  · rw [if_pos hnil, if_pos hnil]
    rfl
  by_cases hnone : f.readers = 0
  · rw [if_neg hnil, if_neg hnil, if_pos hnone, if_pos hnone]
    rfl
  by_cases hroom : f.bytes.length + bs.length ≤ capacity
  · rw [if_neg hnil, if_neg hnil, if_neg hnone, if_neg hnone, if_pos hroom, if_pos hroom]
    rfl
  · rw [if_neg hnil, if_neg hnil, if_neg hnone, if_neg hnone, if_neg hroom, if_neg hroom]
    rfl

/-- And a reader not who else can read. -/
theorem read_more : (more f r 0).read n = (f.read n).map fun p => (p.1, more p.2 r 0) := by
  have hwriters : (more f r 0).writers = f.writers := rfl
  unfold Fifo.read
  rw [hwriters, bytes_more]
  by_cases hnil : f.bytes = []
  · rw [if_pos hnil, if_pos hnil]
    by_cases hnone : f.writers = 0
    · rw [if_pos hnone, if_pos hnone]
      rfl
    · rw [if_neg hnone, if_neg hnone]
      rfl
  · rw [if_neg hnil, if_neg hnil]
    rfl

end More

/-- The two FIFOs, with descriptors besides. -/
def plus (v : TwoFifos.World) (r1 w1 r2 w2 : ℕ) : TwoFifos.World :=
  { v with fifo1 := more v.fifo1 r1 w1, fifo2 := more v.fifo2 r2 w2 }

section Steps

variable {e : Env} {v v' : TwoFifos.World} {r1 w1 r2 w2 : ℕ}

theorem cliExit_plus (h1 : 0 < v.fifo1.writers) (h2 : 0 < v.fifo2.readers) (pc : CliAt) :
    (plus v r1 w1 r2 w2).cliExit pc = plus (v.cliExit pc) r1 w1 r2 w2 := by
  simp only [plus, World.cliExit, World.cliAt, closeWrite_more h1, closeRead_more h2]

theorem servExit_plus (h1 : 0 < v.fifo1.readers) (h2 : 0 < v.fifo2.writers) (pc : ServAt) :
    (plus v r1 w1 r2 w2).servExit pc = plus (v.servExit pc) r1 w1 r2 w2 := by
  simp only [plus, World.servExit, closeRead_more h1, closeWrite_more h2]

/-- **The client does not notice** what the child has open besides. -/
theorem cliStep_plus (hop : v.Opened) (hstage : 4 ≤ v.cli.pc.stage) :
    (plus v 0 w1 r2 0).cliStep e = (v.cliStep e).map fun u => plus u 0 w1 r2 0 := by
  have hends (hlt : v.cli.pc.stage < 6) : 0 < v.fifo1.writers ∧ 0 < v.fifo2.readers := by
    rw [hop.writers1, hop.readers2, TwoFifos.one_pos, TwoFifos.one_pos]
    omega
  obtain ⟨⟨stdin, stdout, pc⟩, serv, fifo1, fifo2⟩ := v
  cases pc with
  | open1 | opening1 | open2 | opening2 => simp [CliAt.stage] at hstage
  | fgets =>
    obtain ⟨h1, h2⟩ := hends (show 4 < 6 by decide)
    simp only [TwoFifos.World.cliStep, plus]
    cases Stdio.fgets MAXBUFF stdin with
    | some line => rfl
    | none => exact congrArg some (cliExit_plus h1 h2 _)
  | writename name =>
    obtain ⟨h1, h2⟩ := hends (show 4 < 6 by decide)
    simp only [TwoFifos.World.cliStep, plus, write_more, Option.map_map]
    refine congrArg (fun f => Option.map f _) (funext fun r => ?_)
    cases r with
    | all f => rfl
    | refused => exact cliExit_plus h1 h2 _
  | read =>
    simp only [TwoFifos.World.cliStep, plus, read_more, Option.map_map]
    rfl
  | write data => rfl
  | wait =>
    obtain ⟨h1, h2⟩ := hends (show 4 < 6 by decide)
    by_cases hgone : serv.gone
    · have hexit : TwoFifos.World.cliStep e ⟨⟨stdin, stdout, .wait⟩, serv, fifo1, fifo2⟩ =
          some (TwoFifos.World.cliExit ⟨⟨stdin, stdout, .wait⟩, serv, fifo1, fifo2⟩ .done) :=
        if_pos hgone
      rw [hexit]
      exact (if_pos hgone).trans (congrArg some (cliExit_plus h1 h2 _))
    · have hwait : TwoFifos.World.cliStep e ⟨⟨stdin, stdout, .wait⟩, serv, fifo1, fifo2⟩ = none :=
        if_neg hgone
      rw [hwait]
      exact if_neg hgone
  | done | ended | killed => rfl

/-- **Nor does the server** what the parent has. -/
theorem servStep_plus (hop : v.Opened) (hstage : 4 ≤ v.serv.stage) :
    (plus v r1 0 0 w2).servStep e = (v.servStep e).map fun u => plus u r1 0 0 w2 := by
  have hends (hlt : v.serv.stage < 5) : 0 < v.fifo1.readers ∧ 0 < v.fifo2.writers := by
    rw [hop.readers1, hop.writers2, TwoFifos.one_pos, TwoFifos.one_pos]
    omega
  have hlast (hlt : v.serv.stage < 6) : 0 < v.fifo2.writers := by
    rw [hop.writers2, TwoFifos.one_pos]
    omega
  obtain ⟨cli, serv, fifo1, fifo2⟩ := v
  cases serv with
  | open1 | opening1 | open2 | opening2 => simp [ServAt.stage] at hstage
  | readname =>
    obtain ⟨h1, h2⟩ := hends (show 4 < 5 by decide)
    simp only [TwoFifos.World.servStep, plus, read_more, Option.map_map]
    cases hread : fifo1.read MAXBUFF with
    | none => rfl
    | some p =>
      -- a read leaves the descriptors alone
      have hreaders : 0 < p.2.readers := by
        rw [Fifo.toEnds_of_read hread]
        exact h1
      by_cases hnil : p.1 = []
      · simp only [Option.map_some, Function.comp, if_pos hnil]
        exact congrArg some (servExit_plus (v := ⟨cli, .readname, p.2, fifo2⟩) hreaders h2 _)
      · simp only [Option.map_some, Function.comp, if_neg hnil]
  | openfile name => rfl
  | readfile chunks fails =>
    obtain ⟨h1, h2⟩ := hends (show 4 < 5 by decide)
    cases chunks with
    | cons c cs => rfl
    | nil =>
      cases fails with
      | true => exact congrArg some (servExit_plus h1 h2 _)
      | false => rfl
  | writedata data chunks fails =>
    obtain ⟨h1, h2⟩ := hends (show 4 < 5 by decide)
    simp only [TwoFifos.World.servStep, plus, write_more, ServAt.writes, Option.bind_some,
      Option.map_map]
    refine congrArg (fun f => Option.map f _) (funext fun r => ?_)
    cases r with
    | all f => rfl
    | refused => exact servExit_plus h1 h2 _
  | writeerr data =>
    obtain ⟨h1, h2⟩ := hends (show 4 < 5 by decide)
    simp only [TwoFifos.World.servStep, plus, write_more, ServAt.writes, Option.bind_some,
      Option.map_map]
    refine congrArg (fun f => Option.map f _) (funext fun r => ?_)
    cases r with
    | all f => rfl
    | refused => exact servExit_plus h1 h2 _
  | closeread =>
    obtain ⟨h1, -⟩ := hends (show 4 < 5 by decide)
    simp only [TwoFifos.World.servStep, plus, closeRead_more h1]
    rfl
  | closewrite =>
    simp only [TwoFifos.World.servStep, plus, closeWrite_more (hlast (show 5 < 6 by decide))]
    rfl
  | exit | done | ended | killed | overrun => rfl

/-- A failing `write` of the client. -/
theorem cliFails_plus (hop : v.Opened) :
    (plus v r1 w1 r2 w2).step e .cliFails =
      (v.step e .cliFails).map fun u => plus u r1 w1 r2 w2 := by
  have hends (hlt : v.cli.pc.stage < 6) (hge : 4 ≤ v.cli.pc.stage) :
      0 < v.fifo1.writers ∧ 0 < v.fifo2.readers := by
    rw [hop.writers1, hop.readers2, TwoFifos.one_pos, TwoFifos.one_pos]
    omega
  obtain ⟨⟨stdin, stdout, pc⟩, serv, fifo1, fifo2⟩ := v
  cases pc with
  | write data =>
    obtain ⟨h1, h2⟩ := hends (show 4 < 6 by decide) (show 4 ≤ 4 by decide)
    exact congrArg some (cliExit_plus h1 h2 _)
  | _ => rfl

/-- A client that has its pipes does not open any. -/
theorem cliStep_stage (hstep : v.cliStep e = some v') (hstage : 4 ≤ v.cli.pc.stage) :
    4 ≤ v'.cli.pc.stage ∧ v'.serv = v.serv := by
  have hclosed : 4 ≤ 6 := by decide
  obtain ⟨⟨stdin, stdout, pc⟩, serv, fifo1, fifo2⟩ := v
  cases pc with
  | open1 | opening1 | open2 | opening2 => simp [CliAt.stage] at hstage
  | fgets =>
    simp only [TwoFifos.World.cliStep] at hstep
    cases hline : Stdio.fgets MAXBUFF stdin with
    | none =>
      rw [hline] at hstep
      cases hstep
      exact ⟨hclosed, rfl⟩
    | some line =>
      rw [hline] at hstep
      cases hstep
      exact ⟨Nat.le_refl 4, rfl⟩
  | writename name =>
    obtain ⟨r, -, rfl⟩ := Option.map_eq_some_iff.1 hstep
    cases r with
    | all f => exact ⟨Nat.le_refl 4, rfl⟩
    | refused => exact ⟨hclosed, rfl⟩
  | read =>
    obtain ⟨r, -, rfl⟩ := Option.map_eq_some_iff.1 hstep
    refine ⟨?_, rfl⟩
    show 4 ≤ (if r.1 = [] then CliAt.wait else .write r.1).stage
    split_ifs
    · exact Nat.le_refl 4
    · exact Nat.le_refl 4
  | write data =>
    cases hstep
    exact ⟨Nat.le_refl 4, rfl⟩
  | wait =>
    simp only [TwoFifos.World.cliStep] at hstep
    split_ifs at hstep
    cases hstep
    exact ⟨hclosed, rfl⟩
  | done | ended | killed => cases hstep

/-- Nor does a server. -/
theorem servStep_stage (hstep : v.servStep e = some v') (hstage : 4 ≤ v.serv.stage) :
    4 ≤ v'.serv.stage ∧ v'.cli = v.cli := by
  refine ⟨?_, servStep_cli hstep⟩
  have hclosed : 4 ≤ 6 := by decide
  obtain ⟨cli, serv, fifo1, fifo2⟩ := v
  cases serv with
  | open1 | opening1 | open2 | opening2 => simp [ServAt.stage] at hstage
  | readname =>
    obtain ⟨r, -, rfl⟩ := Option.map_eq_some_iff.1 hstep
    split_ifs
    · exact hclosed
    · show 4 ≤ (ServAt.named r.1).stage
      unfold ServAt.named
      split_ifs
      · exact Nat.le_refl 4
      · exact Nat.le_refl 4
  | openfile name =>
    cases hstep
    show 4 ≤ (ServAt.opened name (e.fs name)).stage
    cases e.fs name with
    | cannot err =>
      simp only [ServAt.opened]
      split_ifs
      · exact Nat.le_refl 4
      · exact Nat.le_refl 4
    | opens chunks fails => exact Nat.le_refl 4
  | readfile chunks fails =>
    cases chunks with
    | cons c cs =>
      cases hstep
      exact Nat.le_refl 4
    | nil =>
      cases fails with
      | true =>
        cases hstep
        exact hclosed
      | false =>
        cases hstep
        exact Nat.le_refl 4
  | writedata data chunks fails =>
    simp only [TwoFifos.World.servStep, ServAt.writes, Option.bind_some] at hstep
    obtain ⟨r, -, rfl⟩ := Option.map_eq_some_iff.1 hstep
    cases r with
    | all f => exact Nat.le_refl 4
    | refused => exact hclosed
  | writeerr data =>
    simp only [TwoFifos.World.servStep, ServAt.writes, Option.bind_some] at hstep
    obtain ⟨r, -, rfl⟩ := Option.map_eq_some_iff.1 hstep
    cases r with
    | all f => exact Nat.le_refl 4
    | refused => exact hclosed
  | closeread =>
    cases hstep
    exact (by decide : 4 ≤ 5)
  | closewrite | exit =>
    cases hstep
    exact hclosed
  | done | ended | killed | overrun => cases hstep

end Steps

/-! ## The pipes as the FIFOs -/

/-- The pipes are the FIFOs when both are open, with what the two have besides. -/
structure As (w : World) (v : TwoFifos.World) : Prop where
  main : w.main = plus v w.parent.pipe1 w.child.pipe1 w.child.pipe2 w.parent.pipe2
  cliStage : 4 ≤ v.cli.pc.stage
  servStage : 4 ≤ v.serv.stage

section Follow

variable {e : Env} {stdin : List Char} {w w' : World} {v v' : TwoFifos.World} {p : Act → Prop}

theorem As.cli (h : As w v) : w.main.cli = v.cli := by
  rw [h.main]
  rfl

theorem As.serv (h : As w v) : w.main.serv = v.serv := by
  rw [h.main]
  rfl

/-- A descriptor that is not used is closed. -/
theorem closeRead_spare (f : Fifo Char) (w : ℕ) : (more f 1 w).closeRead = more f 0 w := by
  simp [more, Fifo.closeRead, Ends.closeRead]

theorem closeWrite_spare (f : Fifo Char) (r : ℕ) : (more f r 1).closeWrite = more f r 0 := by
  simp [more, Fifo.closeWrite, Ends.closeWrite]

/-- A step of the parent closes a descriptor, or is one of the client. -/
theorem As.cliStep (h : As w v) (hop : v.Opened) (hstep : w.cliStep e = some w') :
    As w' v ∨ ∃ v', v.cliStep e = some v' ∧ As w' v' := by
  obtain ⟨main, parent, child⟩ := w
  obtain ⟨hmain, hcli, hserv⟩ := h
  simp only at hmain
  cases parent with
  | both =>
    cases hstep
    refine .inl ⟨?_, hcli, hserv⟩
    simp only [hmain, plus, Spare.pipe1, Spare.pipe2, closeRead_spare]
  | one =>
    cases hstep
    refine .inl ⟨?_, hcli, hserv⟩
    simp only [hmain, plus, Spare.pipe1, Spare.pipe2, closeWrite_spare]
  | none =>
    obtain ⟨u, hu, rfl⟩ := Option.map_eq_some_iff.1 hstep
    rw [hmain] at hu
    obtain ⟨v', hv', rfl⟩ := Option.map_eq_some_iff.1 ((cliStep_plus hop hcli).symm.trans hu)
    obtain ⟨hcli', hserv'⟩ := cliStep_stage hv' hcli
    exact .inr ⟨v', hv', rfl, hcli', hserv' ▸ hserv⟩

/-- And so it is with the child. -/
theorem As.servStep (h : As w v) (hop : v.Opened) (hstep : w.servStep e = some w') :
    As w' v ∨ ∃ v', v.servStep e = some v' ∧ As w' v' := by
  obtain ⟨main, parent, child⟩ := w
  obtain ⟨hmain, hcli, hserv⟩ := h
  simp only at hmain
  cases child with
  | both =>
    cases hstep
    refine .inl ⟨?_, hcli, hserv⟩
    simp only [hmain, plus, Spare.pipe1, Spare.pipe2, closeWrite_spare]
  | one =>
    cases hstep
    refine .inl ⟨?_, hcli, hserv⟩
    simp only [hmain, plus, Spare.pipe1, Spare.pipe2, closeRead_spare]
  | none =>
    obtain ⟨u, hu, rfl⟩ := Option.map_eq_some_iff.1 hstep
    rw [hmain] at hu
    obtain ⟨v', hv', rfl⟩ := Option.map_eq_some_iff.1 ((servStep_plus hop hserv).symm.trans hu)
    obtain ⟨hserv', hcli'⟩ := servStep_stage hv' hserv
    exact .inr ⟨v', hv', rfl, hcli'.symm ▸ hcli, hserv'⟩

/-- The parent closes what it does not use. -/
theorem As.parentCloses (h : As w v) (hp : p .cli) :
    ∃ w', ((machine e stdin).startedAt w).Reach (fun _ a => p a) w' ∧ As w' v ∧
      w'.parent = .none := by
  obtain ⟨main, parent, child⟩ := w
  obtain ⟨hmain, hcli, hserv⟩ := h
  simp only at hmain
  cases parent with
  | both =>
    refine ⟨_, .step (.step (.init rfl) hp rfl) hp rfl, ⟨?_, hcli, hserv⟩, rfl⟩
    simp only [hmain, plus, Spare.pipe1, Spare.pipe2, closeRead_spare, closeWrite_spare]
  | one =>
    refine ⟨_, .step (.init rfl) hp rfl, ⟨?_, hcli, hserv⟩, rfl⟩
    simp only [hmain, plus, Spare.pipe1, Spare.pipe2, closeWrite_spare]
  | none => exact ⟨_, .init rfl, ⟨hmain, hcli, hserv⟩, rfl⟩

theorem As.childCloses (h : As w v) (hp : p .serv) :
    ∃ w', ((machine e stdin).startedAt w).Reach (fun _ a => p a) w' ∧ As w' v ∧
      w'.child = .none := by
  obtain ⟨main, parent, child⟩ := w
  obtain ⟨hmain, hcli, hserv⟩ := h
  simp only at hmain
  cases child with
  | both =>
    refine ⟨_, .step (.step (.init rfl) hp rfl) hp rfl, ⟨?_, hcli, hserv⟩, rfl⟩
    simp only [hmain, plus, Spare.pipe1, Spare.pipe2, closeRead_spare, closeWrite_spare]
  | one =>
    refine ⟨_, .step (.init rfl) hp rfl, ⟨?_, hcli, hserv⟩, rfl⟩
    simp only [hmain, plus, Spare.pipe1, Spare.pipe2, closeRead_spare]
  | none => exact ⟨_, .init rfl, ⟨hmain, hcli, hserv⟩, rfl⟩

/-- A client without them makes the step that it makes over the FIFOs. -/
theorem As.cliStep_of (h : As w v) (hop : v.Opened) (hclosed : w.parent = .none)
    (hstep : v.cliStep e = some v') : ∃ w', w.cliStep e = some w' ∧ As w' v' := by
  obtain ⟨main, parent, child⟩ := w
  obtain ⟨hmain, hcli, hserv⟩ := h
  simp only at hmain hclosed
  subst hclosed
  obtain ⟨hcli', hserv'⟩ := cliStep_stage hstep hcli
  refine ⟨⟨plus v' 0 child.pipe1 child.pipe2 0, .none, child⟩, ?_, rfl, hcli', hserv' ▸ hserv⟩
  have hmain' : main.cliStep e = some (plus v' 0 child.pipe1 child.pipe2 0) := by
    rw [hmain]
    exact (cliStep_plus hop hcli).trans (congrArg (Option.map _) hstep)
  exact congrArg (Option.map _) hmain'

theorem As.servStep_of (h : As w v) (hop : v.Opened) (hclosed : w.child = .none)
    (hstep : v.servStep e = some v') : ∃ w', w.servStep e = some w' ∧ As w' v' := by
  obtain ⟨main, parent, child⟩ := w
  obtain ⟨hmain, hcli, hserv⟩ := h
  simp only at hmain hclosed
  subst hclosed
  obtain ⟨hserv', hcli'⟩ := servStep_stage hstep hserv
  refine ⟨⟨plus v' parent.pipe1 0 0 parent.pipe2, parent, .none⟩, ?_, rfl, hcli'.symm ▸ hcli,
    hserv'⟩
  have hmain' : main.servStep e = some (plus v' parent.pipe1 0 0 parent.pipe2) := by
    rw [hmain]
    exact (servStep_plus hop hserv).trans (congrArg (Option.map _) hstep)
  exact congrArg (Option.map _) hmain'

/-- A failing `write` of the client is one over the FIFOs. -/
theorem As.cliFails (h : As w v) (hop : v.Opened) :
    w.step e .cliFails =
      (v.step e .cliFails).map fun v' =>
        ⟨plus v' w.parent.pipe1 w.child.pipe1 w.child.pipe2 w.parent.pipe2, w.parent, w.child⟩ := by
  show (w.main.step e .cliFails).map _ = _
  rw [h.main, cliFails_plus hop, Option.map_map]
  rfl

theorem cliFails_stage (hstep : v.step e .cliFails = some v') :
    v'.cli.pc.stage = 6 ∧ v'.serv = v.serv := by
  simp only [TwoFifos.World.step] at hstep
  split at hstep
  · cases hstep
    exact ⟨rfl, rfl⟩
  · cases hstep

/-- A step over the pipes closes an end that its process does not use, or is the same step over
the FIFOs. -/
theorem As.step {a : TwoFifos.Act} (h : As w v) (hop : v.Opened) (hstep : w.step e a = some w') :
    As w' v ∨ ∃ v', v.step e a = some v' ∧ As w' v' := by
  cases a with
  | cli => exact h.cliStep hop hstep
  | serv => exact h.servStep hop hstep
  | cliFails =>
    obtain ⟨v', hv', rfl⟩ := Option.map_eq_some_iff.1 ((h.cliFails hop).symm.trans hstep)
    obtain ⟨hstage, hsame⟩ := cliFails_stage hv'
    exact .inr ⟨v', hv', rfl, by omega, hsame ▸ h.servStage⟩

/-- The two FIFOs are opened. -/
theorem reach_opened (hcli : p .cli) (hserv : p .serv) :
    (TwoFifos.machine e stdin).Reach (fun _ a => p a)
      ⟨⟨stdin, [], .fgets⟩, .readname, ⟨⟨1, 1, 1, 1⟩, []⟩, ⟨⟨1, 1, 1, 1⟩, []⟩⟩ := by
  have h : (TwoFifos.machine e stdin).Reach (fun _ a => p a) _ := .init rfl
  exact .step (.step (.step (.step (.step (.step h hcli rfl) hserv rfl) hcli rfl) hserv rfl)
    hcli rfl) hserv rfl

/-- **The pipes run as the FIFOs do.** -/
theorem follows (e : Env) (stdin : List Char) (hcli : p .cli) (hserv : p .serv) :
    (machine e stdin).Follows (TwoFifos.machine e stdin) (fun _ a => p a) (fun _ a => p a) As where
  start := by
    rintro _ rfl
    exact ⟨_, reach_opened hcli hserv, rfl, Nat.le_refl 4, Nat.le_refl 4⟩
  back := by
    intro w v a w' hv h hok hstep
    obtain ⟨-, hop⟩ := phase_run (asks_asked e stdin) hv
    rcases h.step hop hstep with h' | ⟨v', hv', h'⟩
    · exact .inl h'
    · exact .inr ⟨a, v', hok, hv', h'⟩
  forth := by
    intro w v b v' hv h hok hstep
    obtain ⟨-, hop⟩ := phase_run (asks_asked e stdin) hv
    cases b with
    | cli =>
      obtain ⟨w₁, hw₁, h₁, hclosed⟩ := h.parentCloses hcli
      obtain ⟨w', hw', h'⟩ := h₁.cliStep_of hop hclosed hstep
      exact ⟨w', hw₁.step hok hw', h'⟩
    | serv =>
      obtain ⟨w₁, hw₁, h₁, hclosed⟩ := h.childCloses hserv
      obtain ⟨w', hw', h'⟩ := h₁.servStep_of hop hclosed hstep
      exact ⟨w', hw₁.step hok hw', h'⟩
    | cliFails =>
      obtain ⟨hstage, hsame⟩ := cliFails_stage (e := e) hstep
      refine ⟨_, .step (.init rfl) hok ((h.cliFails hop).trans (congrArg (Option.map _) hstep)),
        rfl, by omega, hsame ▸ h.servStage⟩

/-- Whoever waits over the pipes waits over the FIFOs. -/
theorem As.cliWaits (h : As w v) (hop : v.Opened) (hw : w.CliWaits e) : v.CliWaits e := by
  obtain ⟨hgone, hnone⟩ := hw
  have hcli : w.main.cli = v.cli := h.cli
  refine ⟨hcli ▸ hgone, ?_⟩
  have hclosed : w.parent = .none := by
    cases hparent : w.parent with
    | none => rfl
    | both | one =>
      rw [World.cliStep, hparent] at hnone
      cases hnone
  by_contra hstep
  obtain ⟨v', hv'⟩ := Option.ne_none_iff_exists'.1 hstep
  obtain ⟨w', hw', -⟩ := h.cliStep_of hop hclosed hv'
  rw [hnone] at hw'
  cases hw'

theorem As.servWaits (h : As w v) (hop : v.Opened) (hw : w.ServWaits e) : v.ServWaits e := by
  obtain ⟨hgone, hnone⟩ := hw
  have hserv : w.main.serv = v.serv := h.serv
  refine ⟨hserv ▸ hgone, ?_⟩
  have hclosed : w.child = .none := by
    cases hchild : w.child with
    | none => rfl
    | both | one =>
      rw [World.servStep, hchild] at hnone
      cases hnone
  by_contra hstep
  obtain ⟨v', hv'⟩ := Option.ne_none_iff_exists'.1 hstep
  obtain ⟨w', hw', -⟩ := h.servStep_of hop hclosed hv'
  rw [hnone] at hw'
  cases hw'

end Follow

/-- **The pipes run as the FIFOs do, and over them too the two are never stuck, and the client
has the file, exactly if the request is not empty**, and an error message for it is not too long.
A step over the pipes closes an end that is not used or is the same step over the FIFOs, and what
is done over the FIFOs can be done over the pipes, also where no `write` fails. -/
theorem two_pipes (e : Env) (stdin : List Char) :
    (∀ p : TwoFifos.Act → Prop, p .cli → p .serv →
      (machine e stdin).Follows (TwoFifos.machine e stdin) (fun _ a => p a) (fun _ a => p a) As) ∧
    (∀ w v a w', (TwoFifos.machine e stdin).Reach (fun _ _ => True) v → As w v →
      w.step e a = some w' → As w' v ∨ ∃ v', v.step e a = some v' ∧ As w' v') ∧
    (((∀ w, (machine e stdin).Reach (fun _ _ => True) w →
        ¬ (w.CliWaits e ∧ w.ServWaits e) ∧
          ∀ line, Stdio.fgets MAXBUFF stdin = some line → w.main.cli.pc = .done →
            w.main.cli.stdout = reply e.fs (request e.before line)) ∧
      ∀ w, (machine e stdin).Reach writes w →
        ∃ t, ((machine e stdin).startedAt w).Reach writes t ∧
          t.main.serv.gone ∧ (t.main.cli.pc = .done ∨ stdin = [])) ↔
      ∀ line, Stdio.fgets MAXBUFF stdin = some line →
        request e.before line ≠ [] ∧
          ∀ err, e.fs (request e.before line) = .cannot err →
            Fits (request e.before line) err) := by
  refine ⟨fun p hcli hserv => follows e stdin hcli hserv, fun w v a w' hv h hstep => ?_, ?_⟩
  · exact h.step (phase_run (asks_asked e stdin) hv).2 hstep
  have hfree := follows (p := fun _ => True) e stdin trivial trivial
  have hwrites := follows (p := fun a => a ≠ .cliFails) e stdin (by decide) (by decide)
  constructor
  · rintro ⟨-, hends⟩ line hline
    have hstart : (machine e stdin).Reach writes (start stdin) := .init rfl
    obtain ⟨t, ht, hgone, -⟩ := hends _ hstart
    obtain ⟨v, hv, h⟩ := hfree.reach ((hstart.append ht).mono fun _ _ _ => trivial)
    have hserv : t.main.serv = v.serv := h.serv
    exact fits_of_gone hline hv (hserv ▸ hgone)
  · intro hcond
    have hanswer := answered_of_fits hcond
    constructor
    · intro w hw
      obtain ⟨v, hv, h⟩ := hfree.reach hw
      obtain ⟨-, hop⟩ := phase_run (asks_asked e stdin) hv
      have hcli : w.main.cli = v.cli := h.cli
      refine ⟨fun ⟨hcw, hsw⟩ => ?_, ?_⟩
      · exact not_both_wait hanswer hv ⟨h.cliWaits hop hcw, h.servWaits hop hsw⟩
      · intro line hline hdone
        rw [hcli] at hdone ⊢
        rw [stdout_of_done (asks_asked e stdin) hv hdone, ← asks_asked e stdin line hline]
    · intro w hw
      obtain ⟨v, hv, h⟩ := hwrites.reach hw
      obtain ⟨v', hv', hgone, hdone⟩ := both_end hanswer hv
      obtain ⟨t, ht, h'⟩ := hwrites.reach_from hv h hv'
      have hcli : t.main.cli = v'.cli := h'.cli
      have hserv : t.main.serv = v'.serv := h'.serv
      exact ⟨t, ht, hserv ▸ hgone, hcli ▸ hdone⟩

end UnixNetProg.Pipes

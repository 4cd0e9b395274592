/-
The two processes are never stuck, unless the request is empty.

As the pipes are empty while the other side has nothing to say, a process that waits
waits for one that can go on (`Phase.moves`). An empty request is the exception:
`write` of no bytes leaves `FIFO1` empty, so both of them read. And a name that does
not fit the buffer together with the error message leaves a server of which nothing
is known.
-/
import UnixNetProg.TwoFifos.Transfer

set_option autoImplicit false

namespace UnixNetProg.TwoFifos

open UnixNetProg.NamedPipe UnixNetProg.Runs UnixNetProg.Runs.Machine UnixNetProg.Stdio

section Steps

variable {e : Env} {stdin name : List Char} {w w' : World}

/-! ## Progress -/

/-- A step of one of the two. -/
def World.Moves (e : Env) (w : World) : Prop := ∃ w', w.cliStep e = some w' ∨ w.servStep e = some w'

theorem World.Moves.cli (h : ∃ w', w.cliStep e = some w') : w.Moves e := by
  obtain ⟨w', hstep⟩ := h
  exact ⟨w', .inl hstep⟩

theorem World.Moves.serv (h : ∃ w', w.servStep e = some w') : w.Moves e := by
  obtain ⟨w', hstep⟩ := h
  exact ⟨w', .inr hstep⟩

/-- There is a request that the server cannot answer. -/
def Unanswered (e : Env) (name : List Char) : Prop := name = [] ∨ Unfit e.fs name

/-- Before there is a request the one that is behind can go on. -/
theorem Asking.moves (h : Asking e stdin w) (hop : w.Opened) : w.Moves e := by
  by_cases hstage : w.cli.pc.stage < 4
  · by_cases hle : w.cli.pc.stage ≤ w.serv.stage
    · exact .cli (exists_cliStep_opens e hop hstage hle)
    · exact .serv (exists_servStep_opens e hop (by omega) (by omega))
  · apply World.Moves.cli
    unfold World.cliStep
    rcases h.cli with ⟨hpc, -⟩ | ⟨line, hline, hpc⟩
    · rw [hpc.resolve_left hstage]
      dsimp only
      split
      · exact ⟨_, rfl⟩
      · exact ⟨_, rfl⟩
    · rw [hpc]
      dsimp only
      have hreaders := h.readers1 hop hpc
      have hlen : (request e.before line).length < MAXBUFF := length_request_lt hline
      have hroom := e.room1
      rw [Fifo.write_of_empty h.bytes1 hreaders (by simp only [PIPE_BUF, MAXBUFF] at *; omega)]
      exact ⟨_, rfl⟩

/-- Without a request the server reads the end of the file. -/
theorem Left.moves (h : Left stdin w) (hop : w.Opened) : w.serv.gone ∨ w.Moves e := by
  rcases h.serv with (hstage | hpc) | hgone
  · right
    apply World.Moves.serv
    apply exists_servStep_opens e hop hstage
    rw [h.cli]
    exact Nat.le_trans (Nat.le_of_lt hstage) (by decide)
  · right
    apply World.Moves.serv
    rw [World.servStep, hpc]
    dsimp only
    rw [Fifo.read_of_closed h.bytes1 (h.writers1 hop)]
    exact ⟨_, rfl⟩
  · exact .inl hgone

/-- The server reads the request, if there is a byte in it. -/
theorem Requested.moves (h : Requested name w) (hop : w.Opened) (hname : name ≠ []) :
    w.Moves e := by
  apply World.Moves.serv
  rcases h.serv with hstage | hpc
  · apply exists_servStep_opens e hop hstage
    rw [h.cli]
    exact Nat.le_of_lt hstage
  · rw [World.servStep, hpc]
    dsimp only
    rw [Fifo.read_of_bytes (by rwa [h.bytes1])]
    exact ⟨_, rfl⟩

/-- A server that has the request goes on, if nothing is in its way. -/
theorem exists_servStep (e : Env) (hop : w.Opened) (hearly : ¬ w.serv.Early) (hgone : ¬ w.serv.gone)
    (hover : w.serv ≠ .overrun) (hbytes : w.fifo2.bytes = []) (hcli : w.cli.pc.stage = 4) :
    ∃ w', w.servStep e = some w' := by
  cases hwrites : w.serv.writes with
  | none =>
    obtain ⟨w', hstep, -⟩ := servStep_silent e [] hwrites hearly hgone hover
    exact ⟨w', hstep⟩
  | some p =>
    obtain ⟨d, pc'⟩ := p
    have hreaders : 0 < w.fifo2.readers := by
      rw [hop.readers2, one_pos, hcli]
      exact ⟨by decide, by decide⟩
    have hroom := e.room2
    have hlen := length_writes hwrites
    rw [servStep_writes hwrites,
      Fifo.write_of_empty hbytes hreaders (by simp only [PIPE_BUF, MAXBUFF] at *; omega)]
    exact ⟨_, rfl⟩

/-- With the request read, nobody waits for ever but for a server that has overrun
its buffer. -/
theorem Replying.moves (h : Replying e name w) (hop : w.Opened)
    (hworks : w.cli.pc ≠ .ended "client: data write error") :
    w.cli.pc = .done ∧ w.serv.gone ∨ Unfit e.fs name ∨ w.Moves e := by
  have hreading := h.reading
  unfold World.Reading at hreading
  cases hpc : w.cli.pc with
  | open1 | opening1 | open2 | opening2 | fgets | writename | killed => simp [hpc] at hreading
  | read =>
    right
    by_cases hwriters : 0 < w.fifo2.writers
    · by_cases hbytes : w.fifo2.bytes = []
      · rw [hop.writers2, one_pos] at hwriters
        -- the pipe is empty, and the server is still writing
        have hgone : ¬ w.serv.gone := by
          intro hgone
          rw [stage_gone hgone] at hwriters
          exact Nat.lt_irrefl 6 hwriters.2
        by_cases hover : w.serv = .overrun
        · left
          rcases h.of with hof | ⟨-, hof⟩
          · rw [hover] at hof
            cases hof
          · exact hof.1 hover
        · exact .inr (.serv (exists_servStep e hop h.serv hgone hover hbytes (by rw [hpc]; rfl)))
      · right
        apply World.Moves.cli
        rw [World.cliStep, hpc]
        dsimp only
        rw [Fifo.read_of_bytes hbytes]
        exact ⟨_, rfl⟩
    · right
      apply World.Moves.cli
      rw [World.cliStep, hpc]
      dsimp only
      by_cases hbytes : w.fifo2.bytes = []
      · -- the end of the reply
        rw [Fifo.read_of_closed hbytes (by omega)]
        exact ⟨_, rfl⟩
      · rw [Fifo.read_of_bytes hbytes]
        exact ⟨_, rfl⟩
  | write data =>
    right
    right
    apply World.Moves.cli
    rw [World.cliStep, hpc]
    exact ⟨_, rfl⟩
  | wait =>
    right
    right
    simp only [hpc] at hreading
    by_cases hgone : w.serv.gone
    · apply World.Moves.cli
      rw [World.cliStep, hpc]
      dsimp only
      rw [if_pos hgone]
      exact ⟨_, rfl⟩
    · apply World.Moves.serv
      -- the server has closed the pipe and is about to exit
      rw [World.servStep, exit_of_closed hreading.2 hgone]
      exact ⟨_, rfl⟩
  | done =>
    simp only [hpc] at hreading
    exact .inl ⟨rfl, hreading.2⟩
  | ended msg =>
    simp only [hpc] at hreading
    exact absurd (hpc.trans (congrArg _ hreading)) hworks

/-- **Nobody waits for ever**, but for a request that is empty or has no answer. -/
theorem Phase.moves (h : Phase e stdin name w) (hop : w.Opened)
    (hworks : w.cli.pc ≠ .ended "client: data write error") :
    (w.serv.gone ∧ (w.cli.pc = .done ∨ stdin = [])) ∨ (stdin ≠ [] ∧ Unanswered e name) ∨
      w.Moves e := by
  rcases h with h | h | ⟨hline, h⟩ | ⟨hline, h⟩
  · exact .inr (.inr (h.moves hop))
  · rcases h.moves hop with hgone | hmoves
    · exact .inl ⟨hgone, .inr h.stdin⟩
    · exact .inr (.inr hmoves)
  · by_cases hname : name = []
    · exact .inr (.inl ⟨hline, .inl hname⟩)
    · exact .inr (.inr (h.moves hop hname))
  · rcases h.moves hop hworks with ⟨hdone, hgone⟩ | hunfit | hmoves
    · exact .inl ⟨hgone, .inl hdone⟩
    · exact .inr (.inl ⟨hline, .inr hunfit⟩)
    · exact .inr (.inr hmoves)

/-- No step but the failing one ends the client with that message. -/
theorem cliStep_works (hstep : w.cliStep e = some w') :
    w'.cli.pc ≠ .ended "client: data write error" := by
  by_cases hstage : w.cli.pc.stage < 4
  · -- the pipes are being opened
    obtain ⟨hpc, -⟩ := cliStep_opens hstage hstep
    intro hended
    rw [hended] at hpc
    rcases hpc with hpc | hpc
    · exact absurd hpc (by decide)
    · cases hpc
  · unfold World.cliStep at hstep
    cases hpc : w.cli.pc with
    | open1 | opening1 | open2 | opening2 => simp [hpc, CliAt.stage] at hstage
    | fgets =>
      simp only [hpc] at hstep
      split at hstep
      · obtain rfl := Option.some.inj hstep
        simp
      · obtain rfl := Option.some.inj hstep
        simp [World.cliExit, World.cliAt]
    | writename name =>
      simp only [hpc] at hstep
      obtain ⟨r, -, rfl⟩ := Option.map_eq_some_iff.1 hstep
      cases r <;> simp [World.cliAt, World.cliExit]
    | read =>
      simp only [hpc] at hstep
      obtain ⟨p, -, rfl⟩ := Option.map_eq_some_iff.1 hstep
      simp only [World.cliAt]
      split_ifs <;> simp
    | write data =>
      rw [hpc] at hstep
      obtain rfl := Option.some.inj hstep
      simp
    | wait =>
      simp only [hpc] at hstep
      split_ifs at hstep
      obtain rfl := Option.some.inj hstep
      simp [World.cliAt, World.cliExit]
    | done | ended | killed =>
      rw [hpc] at hstep
      cases hstep

theorem servStep_cli (hstep : w.servStep e = some w') : w'.cli = w.cli := by
  by_cases hearly : w.serv.Early
  · rcases hearly with hstage | hpc
    · exact (servStep_opens hstage hstep).2.1
    · rw [World.servStep, hpc] at hstep
      obtain ⟨p, -, rfl⟩ := Option.map_eq_some_iff.1 hstep
      split_ifs <;> rfl
  cases hwrites : w.serv.writes with
  | some p =>
    rw [servStep_writes hwrites] at hstep
    obtain ⟨r, -, rfl⟩ := Option.map_eq_some_iff.1 hstep
    cases r <;> rfl
  | none =>
    by_cases hgone : w.serv.gone
    · rw [servStep_gone hgone] at hstep
      cases hstep
    by_cases hover : w.serv = .overrun
    · rw [World.servStep, hover] at hstep
      cases hstep
    · obtain ⟨w'', hserv, hs⟩ := servStep_silent e [] hwrites hearly hgone hover
      rw [hserv] at hstep
      obtain rfl := Option.some.inj hstep
      exact hs.cli

end Steps

/-! ## Runs -/

section Run

variable {e : Env} {stdin line name : List Char} {ok : World → Act → Prop} {w : World}

/-- **Every run keeps to the transfer.** -/
theorem phase_run (hname : Asks e stdin name) (h : (machine e stdin).Reach ok w) :
    Phase e stdin name w ∧ w.Opened := by
  apply h.invariant
  · rintro _ rfl
    refine ⟨.asking ?_, opened_start stdin⟩
    exact {
      serv := .inl (Nat.zero_lt_succ 3)
      bytes2 := rfl
      stdout := rfl
      bytes1 := rfl
      cli := .inl ⟨.inl (Nat.zero_lt_succ 3), rfl⟩ }
  · intro s a t _ hs _ hstep
    refine ⟨?_, hs.2.step hstep⟩
    by_cases ha : a = .cliFails
    · rw [ha] at hstep
      exact hs.1.fails hstep
    · exact (hs.1.step hs.2 hname hstep ha).1

theorem works_run (h : (machine e stdin).Reach writes w) :
    w.cli.pc ≠ .ended "client: data write error" := by
  apply h.invariant
  · rintro _ rfl
    simp [start]
  · intro s a t _ hs hok hstep
    cases a with
    | cli => exact cliStep_works hstep
    | serv =>
      rw [servStep_cli hstep]
      exact hs
    | cliFails => exact absurd rfl hok

/-- The name that is asked for, if any is. -/
def asked (e : Env) (stdin : List Char) : List Char :=
  match Stdio.fgets MAXBUFF stdin with
  | some line => request e.before line
  | none => []

theorem asks_asked (e : Env) (stdin : List Char) : Asks e stdin (asked e stdin) := by
  intro line hline
  rw [asked, hline]

/-- From every state both can come to their end, if the request has an answer. -/
theorem both_end (hanswer : stdin ≠ [] → ¬ Unanswered e (asked e stdin))
    (h : (machine e stdin).Reach writes w) :
    ∃ t, ((machine e stdin).startedAt w).Reach writes t ∧
      t.serv.gone ∧ (t.cli.pc = .done ∨ stdin = []) := by
  apply h.finishes (World.measure e (asked e stdin))
  intro s hs hdone
  obtain ⟨hphase, hop⟩ := phase_run (asks_asked e stdin) hs
  rcases hphase.moves hop (works_run hs) with hend | ⟨hline, hbad⟩ | ⟨t, hcli | hserv⟩
  · exact absurd hend hdone
  · exact absurd hbad (hanswer hline)
  · have hstep : s.step e .cli = some t := hcli
    exact ⟨.cli, t, by simp [writes], hstep,
      (hphase.step hop (asks_asked e stdin) hstep (by simp)).2⟩
  · have hstep : s.step e .serv = some t := hserv
    exact ⟨.serv, t, by simp [writes], hstep,
      (hphase.step hop (asks_asked e stdin) hstep (by simp)).2⟩

/-- A client that is done has put out the reply. -/
theorem stdout_of_done (hname : Asks e stdin name) (h : (machine e stdin).Reach ok w)
    (hdone : w.cli.pc = .done) : w.cli.stdout = reply e.fs name := by
  rcases (phase_run hname h).1 with h | h | ⟨-, h⟩ | ⟨-, h⟩
  · rcases h.cli with ⟨hcli | hcli, -⟩ | ⟨line, -, hcli⟩
    · rw [hdone] at hcli
      exact absurd hcli (by decide)
    · rw [hdone] at hcli
      cases hcli
    · rw [hdone] at hcli
      cases hcli
  · have hcli := h.cli
    rw [hdone] at hcli
    cases hcli
  · have hcli := h.cli
    rw [hdone] at hcli
    cases hcli
  · have hreading := h.reading
    simp only [World.Reading, hdone] at hreading
    exact hreading.1

end Run

/-- A line that begins the conversation is answered where its name is one, and the message fits
if the file does not open. -/
theorem answered_of_fits {e : Env} {stdin : List Char}
    (hcond : ∀ line, Stdio.fgets MAXBUFF stdin = some line → request e.before line ≠ [] ∧
      ∀ err, e.fs (request e.before line) = .cannot err → Fits (request e.before line) err) :
    stdin ≠ [] → ¬ Unanswered e (asked e stdin) := by
  intro hne
  obtain ⟨line, hline⟩ : ∃ line, Stdio.fgets MAXBUFF stdin = some line :=
    Option.ne_none_iff_exists'.1 fun hnone => hne (fgets_eq_none_iff.1 hnone)
  rw [← asks_asked e stdin line hline]
  obtain ⟨hname, hfits⟩ := hcond line hline
  rintro (hnil | ⟨err, hfile, hunfit⟩)
  · exact hname hnil
  · exact hunfit (hfits err hfile)

/-- Where the server has ended behind a line, it has had a name, and its message has fitted. -/
theorem fits_of_gone {e : Env} {stdin line : List Char} {w : World}
    (hline : Stdio.fgets MAXBUFF stdin = some line)
    (hw : (machine e stdin).Reach (fun _ _ => True) w) (hgone : w.serv.gone) :
    request e.before line ≠ [] ∧
      ∀ err, e.fs (request e.before line) = .cannot err → Fits (request e.before line) err := by
  have hname : Asks e stdin (request e.before line) := by
    intro line' hline'
    rw [Option.some.inj (hline.symm.trans hline')]
  have hearly : ¬ w.serv.Early := by
    intro hearly
    have hlt := hearly.stage_lt
    rw [stage_gone hgone] at hlt
    exact absurd hlt (by decide)
  -- of the phases only the last one has a server that has ended
  rcases (phase_run hname hw).1 with h | h | ⟨-, h⟩ | ⟨-, h⟩
  · exact absurd h.serv hearly
  · rw [h.stdin] at hline
    cases hline
  · exact absurd h.serv hearly
  · refine ⟨h.asked, ?_⟩
    intro err hfile
    by_contra hfits
    rcases h.of with hof | ⟨-, hof⟩
    · rw [hof] at hgone
      exact hgone
    · rw [hof.2 ⟨err, hfile, hfits⟩] at hgone
      exact hgone

/-- The two do not wait for each other. -/
theorem not_both_wait {e : Env} {stdin : List Char} {w : World}
    (hanswer : stdin ≠ [] → ¬ Unanswered e (asked e stdin))
    (hw : (machine e stdin).Reach (fun _ _ => True) w) : ¬ (w.CliWaits e ∧ w.ServWaits e) := by
  rintro ⟨⟨hcli, hcliStep⟩, hserv, hservStep⟩
  obtain ⟨hphase, hop⟩ := phase_run (asks_asked e stdin) hw
  have hworks : w.cli.pc ≠ .ended "client: data write error" := by
    intro hended
    rw [hended] at hcli
    exact hcli trivial
  rcases hphase.moves hop hworks with ⟨hgone, -⟩ | ⟨hline, hbad⟩ | ⟨t, hstep | hstep⟩
  · exact hserv hgone
  · exact hanswer hline hbad
  · rw [hcliStep] at hstep
    cases hstep
  · rw [hservStep] at hstep
    cases hstep

/-- **The two processes are never stuck, and the client has the file, exactly if the
request is not empty**, and an error message for it is not too long. -/
theorem two_fifos (e : Env) (stdin : List Char) :
    ((∀ w, (machine e stdin).Reach (fun _ _ => True) w →
        ¬ (w.CliWaits e ∧ w.ServWaits e) ∧
          ∀ line chunks, Stdio.fgets MAXBUFF stdin = some line →
            e.fs (request e.before line) = .opens chunks false → w.cli.pc = .done →
            w.cli.stdout = content chunks) ∧
      ∀ w, (machine e stdin).Reach writes w →
        ∃ t, ((machine e stdin).startedAt w).Reach writes t ∧
          t.serv.gone ∧ (t.cli.pc = .done ∨ stdin = [])) ↔
      ∀ line, Stdio.fgets MAXBUFF stdin = some line →
        request e.before line ≠ [] ∧
          ∀ err, e.fs (request e.before line) = .cannot err → Fits (request e.before line) err := by
  constructor
  · rintro ⟨-, hends⟩ line hline
    have hstart : (machine e stdin).Reach writes (start stdin) := .init rfl
    -- an empty request would be waited for, and an error text that is too long overruns
    obtain ⟨t, ht, hgone, -⟩ := hends _ hstart
    exact fits_of_gone hline ((hstart.append ht).mono fun _ _ _ => trivial) hgone
  · intro hcond
    have hanswer := answered_of_fits hcond
    refine ⟨?_, fun w hw => both_end hanswer hw⟩
    intro w hw
    refine ⟨not_both_wait hanswer hw, ?_⟩
    intro line chunks hline hfile hdone
    rw [stdout_of_done (asks_asked e stdin) hw hdone, ← asks_asked e stdin line hline, reply,
      hfile]

/-- The pipes hold what they have to, and there is no file. -/
def emptyDisk : Env where
  before := '\x00'
  fs := fun _ => .cannot ⟨[], by decide⟩
  capacity1 := PIPE_BUF
  capacity2 := PIPE_BUF
  room1 := le_rfl
  room2 := le_rfl

/-- Both open their pipes, and the client writes an empty request. -/
def emptyRequest : List Act := [.cli, .serv, .cli, .serv, .cli, .serv, .cli, .cli]

/-- **After an empty line both wait**: each reads a pipe in which nothing is, and which
the other one has open. -/
theorem empty_line_stuck :
    ¬ ∀ w, (machine emptyDisk ['\n']).Reach (fun _ _ => True) w →
      ¬ (w.CliWaits emptyDisk ∧ w.ServWaits emptyDisk) := by
  intro hfree
  have hrun := Reach.run (machine emptyDisk ['\n']) (fun _ _ => True) rfl emptyRequest (by decide)
  exact hfree _ hrun ⟨⟨id, rfl⟩, id, rfl⟩

end UnixNetProg.TwoFifos

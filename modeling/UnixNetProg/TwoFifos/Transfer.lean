/-
The transfer of a file.

A transfer has three parts (`Phase`): the request is not written, it is in `FIFO1`,
or the server has read it; then what the client has put out, what it has read, what
is in `FIFO2` and what the server has still to write are together the reply. Without
a request the parent has ended, and the server reads the end of the file. Every step
leads closer to the end (`Phase.step`), a byte being counted until it is written, and
until it is read.
-/
import UnixNetProg.TwoFifos.Opening

set_option autoImplicit false

namespace UnixNetProg.TwoFifos

open UnixNetProg.NamedPipe UnixNetProg.Runs UnixNetProg.Runs.Machine UnixNetProg.Stdio

/-! ## The request -/

section Request

variable {before : Char} {line stdin : List Char}

theorem count_le (before : Char) (line : List Char) : (count before line).toNat ≤ strlen line := by
  unfold count
  dsimp only
  split_ifs <;> omega

/-- There is no null byte in the request. -/
theorem cstr_request : cstr (request before line) = request before line := cstr_take (count_le _ _)

/-- The request leaves room for the null byte behind it. -/
theorem length_request_lt (h : Stdio.fgets MAXBUFF stdin = some line) :
    (request before line).length < MAXBUFF := by
  have hline := length_fgets_lt (by decide) h
  rw [request, List.length_take]
  omega

end Request

/-! ## The reply -/

/-- `name` and the error message behind it are not too long for the buffer. -/
def Fits (name : List Char) (err : ErrStr) : Prop := (name ++ errmesg err).length < MAXBUFF

instance (name : List Char) (err : ErrStr) : Decidable (Fits name err) :=
  inferInstanceAs (Decidable (_ < _))

def content (chunks : List Chunk) : List Char := (chunks.map Subtype.val).flatten

/-- What the server writes for a name. -/
def reply (fs : List Char → File) (name : List Char) : List Char :=
  match fs name with
  | .cannot err => if Fits name err then name ++ errmesg err else []
  | .opens chunks _ => content chunks

/-- What is still to be written to a client that asks for `name`. -/
def ServAt.todo (fs : List Char → File) (name : List Char) : ServAt → List Char
  | .open1 | .opening1 _ | .open2 | .opening2 _ | .readname => reply fs name
  | .openfile name => reply fs name
  | .readfile chunks _ => content chunks
  | .writedata data chunks _ => data.1 ++ content chunks
  | .writeerr data => data.1
  | .closeread | .closewrite | .exit | .done | .ended _ | .killed | .overrun => []

/-- How many steps there may be besides. -/
def ServAt.rank : ServAt → ℕ
  | .open1 => 14
  | .opening1 _ => 13
  | .open2 => 12
  | .opening2 _ => 11
  | .readname => 10
  | .openfile _ => 9
  | .readfile .. => 8
  | .writedata .. | .writeerr _ => 7
  | .closeread => 4
  | .closewrite => 3
  | .exit => 2
  | .done | .ended _ | .killed | .overrun => 0

def CliAt.rank : CliAt → ℕ
  | .open1 => 10
  | .opening1 _ => 9
  | .open2 => 8
  | .opening2 _ => 7
  | .fgets => 6
  | .writename _ => 5
  | .write _ => 3
  | .read => 2
  | .wait => 1
  | .done | .ended _ | .killed => 0

/-- The error message for `name` is too long. -/
def Unfit (fs : List Char → File) (name : List Char) : Prop :=
  ∃ err, fs name = .cannot err ∧ ¬ Fits name err

/-- Where a server is that has read `name`. -/
def ServAt.Of (fs : List Char → File) (name : List Char) (pc : ServAt) : Prop :=
  pc = .openfile name ∨ (∀ n, pc ≠ .openfile n) ∧ (pc = .overrun ↔ Unfit fs name)

/-- Where a server is that has not read the request. -/
def ServAt.Early (pc : ServAt) : Prop := pc.stage < 4 ∨ pc = .readname

section Reply

variable {fs : List Char → File} {name d : List Char} {pc pc' : ServAt} {err : ErrStr}
    {bs : List Char}

theorem length_errmesg_lt (err : ErrStr) : (errmesg err).length < ERRMESG :=
  Exchange.length_errmesg_lt err.2 (by decide)

theorem todo_of_early (h : pc.Early) : pc.todo fs name = reply fs name := by
  rcases h with h | rfl
  · cases pc <;> simp [ServAt.stage] at h <;> rfl
  · rfl

theorem todo_opened (name' : List Char) :
    (ServAt.opened name' (fs name')).todo fs name = reply fs name' := by
  unfold reply
  cases fs name' with
  | cannot err =>
    simp only [ServAt.opened]
    by_cases hfits : Fits name' err
    · rw [dif_pos ⟨length_errmesg_lt err, hfits⟩, if_pos hfits]
      rfl
    · rw [dif_neg fun h => hfits h.2, if_neg hfits]
      rfl
  | opens chunks fails => rfl

/-- The server overruns its buffer if the message is too long. -/
theorem of_opened (name : List Char) : (ServAt.opened name (fs name)).Of fs name := by
  right
  unfold Unfit
  cases fs name with
  | cannot err =>
    simp only [ServAt.opened]
    by_cases hfits : Fits name err
    · rw [dif_pos ⟨length_errmesg_lt err, hfits⟩]
      simp [hfits]
    · rw [dif_neg fun h => hfits h.2]
      simp [hfits]
  | opens chunks fails => simp [ServAt.opened]

/-- A server at another place that is neither the first nor an overrun. -/
theorem ServAt.Of.move (h : pc.Of fs name) (hopen : ∀ n, pc ≠ .openfile n) (hover : pc ≠ .overrun)
    (hopen' : ∀ n, pc' ≠ .openfile n) (hover' : pc' ≠ .overrun) : pc'.Of fs name := by
  obtain ⟨-, hiff⟩ := h.resolve_left (hopen name)
  have hfit : ¬ Unfit fs name := fun hunfit => hover (hiff.2 hunfit)
  exact .inr ⟨hopen', iff_of_false hover' hfit⟩

/-- A server that writes has opened the file. -/
theorem of_writes (h : pc.writes = some (d, pc')) (hof : pc.Of fs name) :
    pc'.Of fs name ∧ ServAt.killed.Of fs name := by
  cases pc <;> cases h <;>
    exact ⟨hof.move (by simp) (by simp) (by simp) (by simp),
      hof.move (by simp) (by simp) (by simp) (by simp)⟩

theorem todo_writes (h : pc.writes = some (d, pc')) : pc.todo fs name = d ++ pc'.todo fs name := by
  cases pc <;> cases h
  · rfl
  · exact (List.append_nil _).symm

end Reply

/-! ## The transfer -/

/-- The server has not read the request, and there is nothing in the other pipe. -/
structure Quiet (w : World) : Prop where
  serv : w.serv.Early
  bytes2 : w.fifo2.bytes = []
  stdout : w.cli.stdout = []

/-- The request is not written. -/
structure Asking (e : Env) (stdin : List Char) (w : World) : Prop extends Quiet w where
  bytes1 : w.fifo1.bytes = []
  cli : (w.cli.pc.stage < 4 ∨ w.cli.pc = .fgets) ∧ w.cli.stdin = stdin ∨
    ∃ line, Stdio.fgets MAXBUFF stdin = some line ∧ w.cli.pc = .writename (request e.before line)

/-- There is no request. -/
structure Left (stdin : List Char) (w : World) : Prop where
  stdin : stdin = []
  cli : w.cli.pc = .ended "client: filename read error"
  serv : w.serv.Early ∨ w.serv.gone
  bytes1 : w.fifo1.bytes = []

/-- The request is written. -/
structure Requested (name : List Char) (w : World) : Prop extends Quiet w where
  bytes1 : w.fifo1.bytes = name
  short : name.length < MAXBUFF
  string : cstr name = name
  cli : w.cli.pc = .read

/-- Where the client is with the reply. -/
def World.Reading (e : Env) (name : List Char) (w : World) : Prop :=
  match w.cli.pc with
  | .read => w.cli.stdout ++ w.fifo2.bytes ++ w.serv.todo e.fs name = reply e.fs name
  | .write data =>
    w.cli.stdout ++ data ++ w.fifo2.bytes ++ w.serv.todo e.fs name = reply e.fs name
  | .wait => w.cli.stdout = reply e.fs name ∧ w.serv.stage = 6
  | .done => w.cli.stdout = reply e.fs name ∧ w.serv.gone
  | .ended msg => msg = "client: data write error"
  | _ => False

/-- The request is read. -/
structure Replying (e : Env) (name : List Char) (w : World) : Prop where
  asked : name ≠ []
  serv : ¬ w.serv.Early
  of : w.serv.Of e.fs name
  reading : w.Reading e name

/-- How far the transfer is, for a client that asks for `name`. -/
inductive Phase (e : Env) (stdin name : List Char) (w : World) : Prop
  | asking (h : Asking e stdin w)
  | left (h : Left stdin w)
  | requested (hline : stdin ≠ []) (h : Requested name w)
  | replying (hline : stdin ≠ []) (h : Replying e name w)

section Steps

variable {e : Env} {stdin name : List Char} {w w' : World}

/-- The parent opens a pipe. -/
theorem cliStep_opens (hstage : w.cli.pc.stage < 4) (hstep : w.cliStep e = some w') :
    (w'.cli.pc.stage < 4 ∨ w'.cli.pc = .fgets) ∧ w'.cli.stdin = w.cli.stdin ∧
      w'.cli.stdout = w.cli.stdout ∧ w'.serv = w.serv ∧ w'.fifo1.bytes = w.fifo1.bytes ∧
      w'.fifo2.bytes = w.fifo2.bytes ∧ w'.cli.pc.rank < w.cli.pc.rank := by
  unfold World.cliStep at hstep
  cases hpc : w.cli.pc with
  | open1 =>
    rw [hpc] at hstep
    obtain rfl := Option.some.inj hstep
    simp only [World.cliAt]
    split_ifs <;> simp [CliAt.stage, CliAt.rank, Fifo.openWrite]
  | opening1 n =>
    simp only [hpc] at hstep
    split_ifs at hstep
    obtain rfl := Option.some.inj hstep
    simp [World.cliAt, CliAt.stage, CliAt.rank]
  | open2 =>
    rw [hpc] at hstep
    obtain rfl := Option.some.inj hstep
    simp only [World.cliAt]
    split_ifs <;> simp [CliAt.stage, CliAt.rank, Fifo.openRead]
  | opening2 n =>
    simp only [hpc] at hstep
    split_ifs at hstep
    obtain rfl := Option.some.inj hstep
    simp [World.cliAt, CliAt.stage, CliAt.rank]
  | fgets | writename | read | write | wait | done | ended | killed =>
    simp [hpc, CliAt.stage] at hstage

/-- The child opens a pipe. -/
theorem servStep_opens (hstage : w.serv.stage < 4) (hstep : w.servStep e = some w') :
    w'.serv.Early ∧ w'.cli = w.cli ∧ w'.fifo1.bytes = w.fifo1.bytes ∧
      w'.fifo2.bytes = w.fifo2.bytes ∧ w'.serv.rank < w.serv.rank := by
  unfold World.servStep at hstep
  cases hpc : w.serv with
  | open1 =>
    rw [hpc] at hstep
    obtain rfl := Option.some.inj hstep
    dsimp only
    split_ifs <;> simp [ServAt.Early, ServAt.stage, ServAt.rank, Fifo.openRead]
  | opening1 n =>
    simp only [hpc] at hstep
    split_ifs at hstep
    obtain rfl := Option.some.inj hstep
    simp [ServAt.Early, ServAt.stage, ServAt.rank]
  | open2 =>
    rw [hpc] at hstep
    obtain rfl := Option.some.inj hstep
    dsimp only
    split_ifs <;> simp [ServAt.Early, ServAt.stage, ServAt.rank, Fifo.openWrite]
  | opening2 n =>
    simp only [hpc] at hstep
    split_ifs at hstep
    obtain rfl := Option.some.inj hstep
    simp [ServAt.Early, ServAt.stage, ServAt.rank]
  | readname | openfile | readfile | writedata | writeerr | closeread | closewrite | exit | done |
    ended | killed | overrun => simp [hpc, ServAt.stage] at hstage

/-- Of two processes in their opens, or behind them, the parent can go on if it is
not ahead. -/
theorem exists_cliStep_opens (e : Env) (h : w.Opened) (hstage : w.cli.pc.stage < 4)
    (hle : w.cli.pc.stage ≤ w.serv.stage) : ∃ w', w.cliStep e = some w' := by
  have hcounter := h.cliCounter
  unfold World.cliStep
  cases hpc : w.cli.pc with
  | open1 => exact ⟨_, rfl⟩
  | opening1 n =>
    rw [hpc] at hcounter hle
    obtain rfl : n = 0 := hcounter
    dsimp only
    rw [if_pos (by rw [h.r_counter1, one_pos]; exact hle)]
    exact ⟨_, rfl⟩
  | open2 => exact ⟨_, rfl⟩
  | opening2 n =>
    rw [hpc] at hcounter hle
    obtain rfl : n = 0 := hcounter
    dsimp only
    rw [if_pos (by rw [h.w_counter2, one_pos]; exact hle)]
    exact ⟨_, rfl⟩
  | fgets | writename | read | write | wait | done | ended | killed =>
    simp [hpc, CliAt.stage] at hstage

theorem exists_servStep_opens (e : Env) (h : w.Opened) (hstage : w.serv.stage < 4)
    (hle : w.serv.stage ≤ w.cli.pc.stage) : ∃ w', w.servStep e = some w' := by
  have hcounter := h.servCounter
  unfold World.servStep
  cases hpc : w.serv with
  | open1 => exact ⟨_, rfl⟩
  | opening1 n =>
    rw [hpc] at hcounter hle
    obtain rfl : n = 0 := hcounter
    dsimp only
    rw [if_pos (by rw [h.w_counter1, one_pos]; exact hle)]
    exact ⟨_, rfl⟩
  | open2 => exact ⟨_, rfl⟩
  | opening2 n =>
    rw [hpc] at hcounter hle
    obtain rfl : n = 0 := hcounter
    dsimp only
    rw [if_pos (by rw [h.r_counter2, one_pos]; exact hle)]
    exact ⟨_, rfl⟩
  | readname | openfile | readfile | writedata | writeerr | closeread | closewrite | exit | done |
    ended | killed | overrun => simp [hpc, ServAt.stage] at hstage

theorem writes_rank {d : List Char} {pc pc' : ServAt} (h : pc.writes = some (d, pc')) :
    ¬ pc'.Early ∧ 0 < pc.rank ∧ pc'.rank < pc.rank + 2 * d.length := by
  cases pc <;> cases h
  · rename_i c cs fails
    have hpos := c.2.1
    refine ⟨by simp [ServAt.Early, ServAt.stage], Nat.succ_pos 6, ?_⟩
    simp only [ServAt.rank]
    omega
  · refine ⟨by simp [ServAt.Early, ServAt.stage], Nat.succ_pos 6, ?_⟩
    simp only [ServAt.rank]
    omega

theorem length_writes {d : List Char} {pc pc' : ServAt} (h : pc.writes = some (d, pc')) :
    d.length ≤ MAXBUFF := by
  cases pc <;> cases h
  · rename_i c cs fails
    exact c.2.2
  · rename_i data
    exact Nat.le_of_lt data.2

theorem stage_gone {pc : ServAt} (h : pc.gone) : pc.stage = 6 := by
  cases pc <;> simp [ServAt.gone] at h <;> rfl

theorem exit_of_closed {pc : ServAt} (h : pc.stage = 6) (hgone : ¬ pc.gone) : pc = .exit := by
  cases pc <;> simp [ServAt.stage, ServAt.gone] at h hgone ⊢

/-- How far the end is. -/
def World.measure (e : Env) (name : List Char) (w : World) : ℕ :=
  w.cli.pc.rank + w.serv.rank + 4 * (w.serv.todo e.fs name).length + 2 * w.fifo2.bytes.length

/-- `w'` is a state of the transfer that is closer to its end than `w`. -/
def Leads (e : Env) (stdin name : List Char) (w w' : World) : Prop :=
  Phase e stdin name w' ∧ w'.measure e name < w.measure e name

/-- The name that is asked for, if any is. -/
def Asks (e : Env) (stdin name : List Char) : Prop :=
  ∀ line, Stdio.fgets MAXBUFF stdin = some line → request e.before line = name

/-- A server that has not read the request can read it, or will be able to. -/
theorem ServAt.Early.stage_lt {pc : ServAt} (h : pc.Early) : pc.stage < 5 := by
  rcases h with h | rfl
  · omega
  · exact Nat.lt_succ_self 4

/-- The child is there to read the request. -/
theorem Asking.readers1 (h : Asking e stdin w) (hop : w.Opened) {d : List Char}
    (hpc : w.cli.pc = .writename d) : 0 < w.fifo1.readers := by
  have htog := hop.together
  have hserv := h.serv.stage_lt
  rw [hpc] at htog
  simp only [Together, CliAt.stage] at htog
  rw [hop.readers1, one_pos]
  omega

/-- The parent, before there is a request. -/
theorem Asking.cliStep (h : Asking e stdin w) (hop : w.Opened) (hname : Asks e stdin name)
    (hstep : w.cliStep e = some w') : Leads e stdin name w w' := by
  by_cases hstage : w.cli.pc.stage < 4
  · -- the pipes are being opened
    have hstdin : w.cli.stdin = stdin := by
      rcases h.cli with ⟨-, hstdin⟩ | ⟨line, -, hpc⟩
      · exact hstdin
      · rw [hpc] at hstage
        exact absurd hstage (Nat.lt_irrefl 4)
    obtain ⟨hpc', hstdin', hout, hserv, hbytes1, hbytes2, hrank⟩ := cliStep_opens hstage hstep
    refine ⟨.asking ?_, ?_⟩
    · exact {
        serv := by rw [hserv]; exact h.serv
        bytes2 := by rw [hbytes2]; exact h.bytes2
        stdout := by rw [hout]; exact h.stdout
        bytes1 := by rw [hbytes1]; exact h.bytes1
        cli := .inl ⟨hpc', by rw [hstdin', hstdin]⟩ }
    · simp only [World.measure, hserv, hbytes2]
      omega
  unfold World.cliStep at hstep
  rcases h.cli with ⟨hpc, hstdin⟩ | ⟨line, hline, hpc⟩
  · -- the line is read
    have hpc := hpc.resolve_left hstage
    simp only [hpc] at hstep
    cases hget : Stdio.fgets MAXBUFF w.cli.stdin with
    | some line =>
      rw [hget] at hstep
      obtain rfl := Option.some.inj hstep
      refine ⟨.asking { h with cli := .inr ⟨line, by rwa [← hstdin], rfl⟩ }, ?_⟩
      simp only [World.measure, hpc, CliAt.rank]
      omega
    | none =>
      rw [hget] at hstep
      obtain rfl := Option.some.inj hstep
      refine ⟨.left ⟨?_, rfl, .inl h.serv, h.bytes1⟩, ?_⟩
      · rwa [hstdin, fgets_eq_none_iff] at hget
      · simp only [World.measure, World.cliExit, World.cliAt, hpc, CliAt.rank, Fifo.closeRead]
        omega
  · simp only [hpc] at hstep
    -- the name is written, and the pipe has room for it
    have hreaders := h.readers1 hop hpc
    have hlen : (request e.before line).length < MAXBUFF := length_request_lt hline
    have hroom := e.room1
    rw [Fifo.write_of_empty h.bytes1 hreaders (by simp only [PIPE_BUF, MAXBUFF] at *; omega)]
      at hstep
    obtain rfl := Option.some.inj hstep
    have hstring : cstr (request e.before line) = request e.before line := cstr_request
    have hrequested : Requested name { w.cliAt .read with
        fifo1 := { w.fifo1 with bytes := request e.before line } } :=
      { h with
        bytes1 := hname line hline
        short := by rwa [hname line hline] at hlen
        string := by rwa [hname line hline] at hstring
        cli := rfl }
    refine ⟨.requested (by rintro rfl; cases hline) hrequested, ?_⟩
    simp only [World.measure, World.cliAt, hpc, CliAt.rank]
    omega

/-- The child, before there is a request. -/
theorem Asking.servStep (h : Asking e stdin w) (hop : w.Opened) (hstep : w.servStep e = some w') :
    Leads e stdin name w w' := by
  rcases h.serv with hstage | hpc
  · obtain ⟨hearly, hcli, hbytes1, hbytes2, hrank⟩ := servStep_opens hstage hstep
    refine ⟨.asking ?_, ?_⟩
    · exact {
        serv := hearly
        bytes2 := by rw [hbytes2]; exact h.bytes2
        stdout := by rw [hcli]; exact h.stdout
        bytes1 := by rw [hbytes1]; exact h.bytes1
        cli := by rw [hcli]; exact h.cli }
    · simp only [World.measure, hcli, hbytes2, todo_of_early hearly, todo_of_early h.serv]
      omega
  · -- the parent has opened its pipe, and nothing is in it
    have hwriters : 0 < w.fifo1.writers := by
      have htog := hop.together
      rw [hpc] at htog
      simp only [Together, ServAt.stage] at htog
      have hstage : w.cli.pc.stage < 6 := by
        rcases h.cli with ⟨hcli | hcli, -⟩ | ⟨line, -, hcli⟩
        · omega
        · rw [hcli]
          decide
        · rw [hcli]
          exact Nat.lt_of_sub_eq_succ rfl
      rw [hop.writers1, one_pos]
      omega
    rw [World.servStep, hpc] at hstep
    dsimp only at hstep
    rw [Fifo.read_eq_none h.bytes1 hwriters] at hstep
    cases hstep

theorem cliStage_le (pc : CliAt) : pc.stage ≤ 6 := by
  cases pc <;> simp [CliAt.stage]

theorem stage_le (pc : ServAt) : pc.stage ≤ 6 := by
  cases pc <;> simp [ServAt.stage]

theorem servStep_gone (hgone : w.serv.gone) : w.servStep e = none := by
  unfold World.servStep
  cases hpc : w.serv <;> simp [hpc, ServAt.gone] at hgone ⊢

theorem cliStep_gone (hgone : w.cli.pc.gone) : w.cliStep e = none := by
  unfold World.cliStep
  cases hpc : w.cli.pc <;> simp [hpc, CliAt.gone] at hgone ⊢

theorem Left.writers1 (h : Left stdin w) (hop : w.Opened) : w.fifo1.writers = 0 := by
  rw [hop.writers1, one_eq_zero, h.cli]
  exact fun hlt => Nat.lt_irrefl 6 hlt.2

/-- The child, when the parent has ended without a request. -/
theorem Left.servStep (h : Left stdin w) (hop : w.Opened) (hstep : w.servStep e = some w') :
    Leads e stdin name w w' := by
  rcases h.serv with (hstage | hpc) | hgone
  · obtain ⟨hearly, hcli, hbytes1, hbytes2, hrank⟩ := servStep_opens hstage hstep
    refine ⟨.left ⟨h.stdin, by rw [hcli]; exact h.cli, .inl hearly,
      by rw [hbytes1]; exact h.bytes1⟩, ?_⟩
    simp only [World.measure, hcli, hbytes2, todo_of_early hearly, todo_of_early (.inl hstage)]
    omega
  · rw [World.servStep, hpc] at hstep
    dsimp only at hstep
    rw [Fifo.read_of_closed h.bytes1 (h.writers1 hop)] at hstep
    obtain rfl := Option.some.inj hstep
    refine ⟨.left ⟨h.stdin, h.cli, .inr trivial, h.bytes1⟩, ?_⟩
    simp only [World.measure, World.servExit, if_true, hpc, ServAt.rank, ServAt.todo,
      Fifo.closeWrite, List.length_nil]
    omega
  · rw [servStep_gone hgone] at hstep
    cases hstep

/-- The parent waits for the reply. -/
theorem Requested.cliWaits (h : Requested name w) (hop : w.Opened) : w.cliStep e = none := by
  have hwriters : 0 < w.fifo2.writers := by
    have htog := hop.together
    have hserv := h.serv.stage_lt
    rw [h.cli] at htog
    simp only [Together, CliAt.stage] at htog
    rw [hop.writers2, one_pos]
    omega
  rw [World.cliStep, h.cli]
  dsimp only
  rw [Fifo.read_eq_none h.bytes2 hwriters, Option.map_none]

/-- The child reads the request, if there is a byte in it. -/
theorem Requested.servStep (h : Requested name w) (hop : w.Opened) (hline : stdin ≠ [])
    (hstep : w.servStep e = some w') : Leads e stdin name w w' := by
  rcases h.serv with hstage | hpc
  · -- the pipes are being opened
    obtain ⟨hearly, hcli, hbytes1, hbytes2, hrank⟩ := servStep_opens hstage hstep
    refine ⟨.requested hline ?_, ?_⟩
    · exact { h with
        serv := hearly
        bytes2 := by rw [hbytes2]; exact h.bytes2
        stdout := by rw [hcli]; exact h.stdout
        bytes1 := by rw [hbytes1]; exact h.bytes1
        cli := by rw [hcli]; exact h.cli }
    · simp only [World.measure, hcli, hbytes2, todo_of_early hearly, todo_of_early h.serv]
      omega
  · have hwriters : 0 < w.fifo1.writers := by
      rw [hop.writers1, one_pos, h.cli]
      exact ⟨by decide, by decide⟩
    rw [World.servStep, hpc] at hstep
    dsimp only at hstep
    by_cases hnil : name = []
    · rw [Fifo.read_eq_none (h.bytes1.trans hnil) hwriters] at hstep
      cases hstep
    · -- one read gets the whole name
      have hread := Fifo.read_of_bytes (f := w.fifo1) (n := MAXBUFF) (by rwa [h.bytes1])
      rw [h.bytes1, List.take_of_length_le (Nat.le_of_lt h.short)] at hread
      rw [hread] at hstep
      simp only [Option.map_some, if_neg hnil] at hstep
      obtain rfl := Option.some.inj hstep
      have hnamed : ServAt.named name = .openfile name := by
        rw [ServAt.named, if_pos h.short, h.string]
      refine ⟨.replying hline ⟨hnil, ?_, .inl hnamed, ?_⟩, ?_⟩
      · rw [hnamed]
        simp [ServAt.Early, ServAt.stage]
      · simp only [World.Reading, h.cli, h.stdout, h.bytes2, hnamed]
        rfl
      · simp only [World.measure, hpc, hnamed, ServAt.rank, ServAt.todo]
        omega

/-- A child that has closed everything has nothing to write. -/
theorem todo_of_closed {fs : List Char → File} {pc : ServAt} (h : pc.stage = 6) :
    pc.todo fs name = [] := by
  cases pc <;> simp [ServAt.stage] at h <;> rfl

/-- The client reads the reply. -/
theorem Replying.cliStep (h : Replying e name w) (hop : w.Opened) (hline : stdin ≠ [])
    (hstep : w.cliStep e = some w') : Leads e stdin name w w' := by
  have hreading := h.reading
  unfold World.Reading at hreading
  unfold World.cliStep at hstep
  cases hpc : w.cli.pc with
  | open1 | opening1 | open2 | opening2 | fgets | writename | killed => simp [hpc] at hreading
  | read =>
    simp only [hpc] at hstep hreading
    by_cases hnil : w.fifo2.bytes = []
    · -- the end of the reply: the server has closed the pipe
      have hstage : w.serv.stage = 6 := by
        have htog := hop.together
        have hwriters : w.fifo2.writers = 0 := by
          by_contra hpos
          rw [Fifo.read_eq_none hnil (by omega)] at hstep
          cases hstep
        rw [hop.writers2, one_eq_zero] at hwriters
        rw [hpc] at htog
        have hle := stage_le w.serv
        simp only [Together, CliAt.stage] at htog
        omega
      have hwriters : w.fifo2.writers = 0 := by
        rw [hop.writers2, one_eq_zero]
        omega
      rw [Fifo.read_of_closed hnil hwriters] at hstep
      obtain rfl := Option.some.inj hstep
      rw [hnil, todo_of_closed hstage, List.append_nil, List.append_nil] at hreading
      refine ⟨.replying hline ⟨h.asked, h.serv, h.of, hreading, hstage⟩, ?_⟩
      simp only [World.measure, World.cliAt, hpc, if_true, CliAt.rank]
      omega
    · rw [Fifo.read_of_bytes hnil] at hstep
      obtain rfl := Option.some.inj hstep
      -- a part of the reply
      have htake : w.fifo2.bytes.take MAXBUFF ≠ [] := by
        rw [ne_eq, List.take_eq_nil_iff]
        rintro (hzero | hbytes)
        · cases hzero
        · exact hnil hbytes
      have hlen := List.length_pos_iff.2 hnil
      dsimp only
      rw [if_neg htake]
      refine ⟨.replying hline ⟨h.asked, h.serv, h.of, ?_⟩, ?_⟩
      · simp only [World.Reading, World.cliAt]
        rw [List.append_assoc w.cli.stdout, List.take_append_drop]
        exact hreading
      · simp only [World.measure, World.cliAt, hpc, CliAt.rank, List.length_drop, MAXBUFF]
        omega
  | write data =>
    simp only [hpc] at hstep hreading
    obtain rfl := Option.some.inj hstep
    refine ⟨.replying hline ⟨h.asked, h.serv, h.of, hreading⟩, ?_⟩
    simp only [World.measure, hpc, CliAt.rank]
    omega
  | wait =>
    simp only [hpc] at hstep hreading
    split_ifs at hstep with hgone
    obtain rfl := Option.some.inj hstep
    refine ⟨.replying hline ⟨h.asked, h.serv, h.of, hreading.1, hgone⟩, ?_⟩
    simp only [World.measure, World.cliExit, World.cliAt, hpc, CliAt.rank, Fifo.closeRead]
    omega
  | done | ended =>
    rw [hpc] at hstep
    cases hstep

/-- A step of the server in which nothing is written. -/
structure Silent (e : Env) (name : List Char) (w w' : World) : Prop where
  cli : w'.cli = w.cli
  bytes2 : w'.fifo2.bytes = w.fifo2.bytes
  todo : w'.serv.todo e.fs name = w.serv.todo e.fs name
  rank : w'.serv.rank < w.serv.rank
  early : ¬ w'.serv.Early
  of : w.serv.Of e.fs name → w'.serv.Of e.fs name
  closed : w.serv.stage = 6 → w'.serv.stage = 6

theorem opened_rank (name' : List Char) (file : File) :
    (ServAt.opened name' file).rank < 9 ∧ ¬ (ServAt.opened name' file).Early := by
  cases file with
  | cannot err =>
    simp only [ServAt.opened]
    split_ifs <;> simp [ServAt.rank, ServAt.Early, ServAt.stage]
  | opens chunks fails => simp [ServAt.opened, ServAt.rank, ServAt.Early, ServAt.stage]

/-- A server that has the request, and nothing to write now, goes on. -/
theorem servStep_silent (e : Env) (name : List Char) (hwrites : w.serv.writes = none)
    (hearly : ¬ w.serv.Early) (hgone : ¬ w.serv.gone) (hover : w.serv ≠ .overrun) :
    ∃ w', w.servStep e = some w' ∧ Silent e name w w' := by
  unfold World.servStep
  -- it opens the file, or reads it, or closes its pipes
  cases hpc : w.serv with
  | open1 | opening1 | open2 | opening2 | readname =>
    rw [hpc] at hearly
    simp [ServAt.Early, ServAt.stage] at hearly
  | openfile name' =>
    obtain ⟨hrank, hearly'⟩ := opened_rank name' (e.fs name')
    refine ⟨_, rfl, rfl, rfl, ?_, ?_, hearly', ?_, ?_⟩
    · rw [hpc]
      exact todo_opened name'
    · rw [hpc]
      exact hrank
    · rintro (hof | ⟨hne, -⟩)
      · obtain rfl : name' = name := ServAt.openfile.inj (hpc.symm.trans hof)
        exact of_opened name'
      · exact absurd hpc (hne name')
    · simp [hpc, ServAt.stage]
  | readfile chunks fails =>
    cases chunks with
    | cons c cs =>
      refine ⟨_, rfl, rfl, rfl, ?_, ?_, ?_, fun h => h.move ?_ ?_ ?_ ?_, ?_⟩ <;>
        simp [hpc, ServAt.todo, content, ServAt.rank, ServAt.Early, ServAt.stage]
    | nil =>
      cases fails <;> refine ⟨_, rfl, rfl, rfl, ?_, ?_, ?_, fun h => h.move ?_ ?_ ?_ ?_, ?_⟩ <;>
        simp [hpc, ServAt.todo, content, ServAt.rank, ServAt.Early, ServAt.stage, World.servExit]
  | writedata | writeerr =>
    rw [hpc] at hwrites
    cases hwrites
  | closeread | closewrite | exit =>
    refine ⟨_, rfl, rfl, rfl, ?_, ?_, ?_, fun h => h.move ?_ ?_ ?_ ?_, ?_⟩ <;>
      simp [hpc, ServAt.todo, ServAt.rank, ServAt.Early, ServAt.stage]
  | done | ended | killed =>
    rw [hpc] at hgone
    exact absurd trivial hgone
  | overrun => exact absurd hpc hover

/-- The reply is put out, read, on its way, or still to be written. -/
theorem World.Reading.serv (h : w.Reading e name) (hgone : ¬ w.serv.gone) (hcli : w'.cli = w.cli)
    (hbytes : w'.fifo2.bytes ++ w'.serv.todo e.fs name = w.fifo2.bytes ++ w.serv.todo e.fs name)
    (hclosed : w.serv.stage = 6 → w'.serv.stage = 6) : w'.Reading e name := by
  unfold World.Reading at h ⊢
  rw [hcli]
  cases hpc : w.cli.pc with
  | read =>
    simp only [hpc] at h ⊢
    rw [List.append_assoc, hbytes, ← List.append_assoc]
    exact h
  | write data =>
    simp only [hpc] at h ⊢
    rw [List.append_assoc, hbytes, ← List.append_assoc]
    exact h
  | wait =>
    simp only [hpc] at h ⊢
    exact ⟨h.1, hclosed h.2⟩
  | done =>
    simp only [hpc] at h
    exact absurd h.2 hgone
  | open1 | opening1 | open2 | opening2 | fgets | writename | killed | ended =>
    simp only [hpc] at h ⊢
    try exact h

/-- The server writes the reply. -/
theorem Replying.servStep (h : Replying e name w) (hop : w.Opened) (hline : stdin ≠ [])
    (hstep : w.servStep e = some w') : Leads e stdin name w w' := by
  have hgone : ¬ w.serv.gone := by
    intro hgone
    rw [servStep_gone hgone] at hstep
    cases hstep
  cases hwrites : w.serv.writes with
  | none =>
    have hover : w.serv ≠ .overrun := by
      intro hover
      rw [World.servStep, hover] at hstep
      cases hstep
    -- what the server does without writing
    obtain ⟨w'', hserv, hs⟩ := servStep_silent e name hwrites h.serv hgone hover
    rw [hserv] at hstep
    obtain rfl := Option.some.inj hstep
    refine ⟨.replying hline ⟨h.asked, hs.early, hs.of h.of, ?_⟩, ?_⟩
    · exact h.reading.serv hgone hs.cli (by rw [hs.bytes2, hs.todo]) hs.closed
    · have hrank := hs.rank
      simp only [World.measure, hs.cli, hs.bytes2, hs.todo]
      omega
  | some p =>
    obtain ⟨d, pc'⟩ := p
    obtain ⟨hstage, hstage', -⟩ := stage_writes hwrites
    rw [servStep_writes hwrites] at hstep
    obtain ⟨r, hwrite, rfl⟩ := Option.map_eq_some_iff.1 hstep
    have htodo : w.serv.todo e.fs name = d ++ pc'.todo e.fs name := todo_writes hwrites
    obtain ⟨hearly', hpos, hrank⟩ := writes_rank hwrites
    cases r with
    | all f =>
      obtain rfl := Fifo.write_eq_all hwrite
      have hreading : World.Reading e name
          { w with serv := pc', fifo2 := { w.fifo2 with bytes := w.fifo2.bytes ++ d } } := by
        refine h.reading.serv hgone rfl ?_ ?_
        · rw [htodo, ← List.append_assoc]
        · rw [hstage]
          simp
      refine ⟨.replying hline ⟨h.asked, hearly', (of_writes hwrites h.of).1, hreading⟩, ?_⟩
      simp only [World.measure, htodo, List.length_append]
      omega
    | refused =>
      -- nobody reads `FIFO2`: the client has ended
      have hcli : w.cli.pc.stage = 6 := by
        have hreaders := Fifo.write_eq_refused hwrite
        have htog := hop.together
        have hle := cliStage_le w.cli.pc
        rw [hop.readers2, one_eq_zero] at hreaders
        rw [hstage] at htog
        simp only [Together] at htog
        omega
      have hreading := h.reading
      unfold World.Reading at hreading
      refine ⟨.replying hline ⟨h.asked, ?_, (of_writes hwrites h.of).2, ?_⟩, ?_⟩
      · simp [World.servExit, ServAt.Early, ServAt.stage]
      · unfold World.Reading
        cases hpc : w.cli.pc with
        | open1 | opening1 | open2 | opening2 | fgets | writename | read | write | wait =>
          rw [hpc] at hcli
          cases hcli
        | done =>
          simp only [hpc] at hreading
          exact absurd hreading.2 hgone
        | ended msg =>
          simp only [hpc] at hreading
          simpa only [World.servExit, hpc] using hreading
        | killed => simp only [hpc] at hreading
      · show w.cli.pc.rank + 0 + 4 * 0 + 2 * w.fifo2.bytes.length < w.measure e name
        rw [World.measure]
        omega

/-- **Every step leads closer to the end.** -/
theorem Phase.step {a : Act} (h : Phase e stdin name w) (hop : w.Opened) (hname : Asks e stdin name)
    (hstep : w.step e a = some w') (ha : a ≠ .cliFails) : Leads e stdin name w w' := by
  cases a with
  | cli =>
    rcases h with h | h | ⟨hline, h⟩ | ⟨hline, h⟩
    · exact h.cliStep hop hname hstep
    · rw [World.step, cliStep_gone (by rw [h.cli]; trivial)] at hstep
      cases hstep
    · rw [World.step, h.cliWaits hop] at hstep
      cases hstep
    · exact h.cliStep hop hline hstep
  | serv =>
    rcases h with h | h | ⟨hline, h⟩ | ⟨hline, h⟩
    · exact h.servStep hop hstep
    · exact h.servStep hop hstep
    · exact h.servStep hop hline hstep
    · exact h.servStep hop hline hstep
  | cliFails => exact absurd rfl ha

/-- A client that cannot write to its standard output ends. -/
theorem Phase.fails (h : Phase e stdin name w) (hstep : w.step e .cliFails = some w') :
    Phase e stdin name w' := by
  cases hpc : w.cli.pc with
  | write data =>
    simp only [World.step, hpc] at hstep
    obtain rfl := Option.some.inj hstep
    rcases h with h | h | ⟨hline, h⟩ | ⟨hline, h⟩
    · rcases h.cli with ⟨hcli | hcli, -⟩ | ⟨line, -, hcli⟩
      · rw [hpc] at hcli
        exact absurd hcli (Nat.lt_irrefl 4)
      · rw [hpc] at hcli
        cases hcli
      · rw [hpc] at hcli
        cases hcli
    · have hcli := h.cli
      rw [hpc] at hcli
      cases hcli
    · have hcli := h.cli
      rw [hpc] at hcli
      cases hcli
    · exact .replying hline ⟨h.asked, h.serv, h.of, rfl⟩
  | open1 | opening1 | open2 | opening2 | fgets | writename | read | wait | done | ended | killed =>
    simp only [World.step, hpc] at hstep
    cases hstep

end Steps

end UnixNetProg.TwoFifos

/-
The server ends the conversation when it answers, and then the client has the file.

Nobody waits for ever but a client for a server that has gone: from every state some
step leads closer to the end of the server (`Phase.moves`), what is left being the
messages still to be sent and those on their way. So the end of the conversation is
that of the `script`, and the script ends with the message without data only if a
name was asked for and its file could be opened, checked and read, or the error
message fits (`Answers`).
-/
import UnixNetProg.MessageQueue.Conversation

set_option autoImplicit false

namespace UnixNetProg.MessageQueue

open UnixNetProg.MsgQueue UnixNetProg.Runs UnixNetProg.Runs.Machine UnixNetProg.Stdio

/-! ## Progress -/

def CliAt.rank : CliAt → ℕ
  | .fgets => 6
  | .send _ => 5
  | .write _ => 2
  | .recv => 1
  | .done | .ended _ => 0

/-- What the server has still to do for a client that asks for `name`. -/
def ServAt.rank (prog : Prog) (fs : List Char → File) (name : List Char) (pc : ServAt) : ℕ :=
  if pc = .recv then 4 * (script prog fs name).length + 5
  else 4 * (pc.todo prog fs).length + pc.silent

/-- The messages in the queues. -/
def pending (queues : Queues) : ℕ :=
  (queues .first).messages.length + (queues .second).messages.length

/-- How far the end is. -/
def World.measure (prog : Prog) (fs : List Char → File) (name : List Char) (w : World) : ℕ :=
  w.cli.pc.rank + w.serv.pc.rank prog fs name + 2 * pending w.queues

section Progress

variable {prog : Prog} {fs : List Char → File} {stdin line name : List Char} {w w' : World}
  {rest ms : List (Msg Char)} {queues : Queues} {id : QueueId} {a : Act}

theorem Holds.pending (h : Holds queues id ms) : pending queues = ms.length := by
  unfold MessageQueue.pending
  rw [h .first, h .second]
  cases id <;> simp

/-- A step that leads closer to the end. -/
def Moves (prog : Prog) (fs : List Char → File) (name : List Char) (w : World) : Prop :=
  ∃ a w', writes w a ∧ w.step prog fs a = some w' ∧ w'.measure prog fs name < w.measure prog fs name

theorem Moves.cli (w' : World) (hstep : w.cliStep prog = some w')
    (hlt : w'.measure prog fs name < w.measure prog fs name) : Moves prog fs name w :=
  ⟨.cli, w', by simp [writes], hstep, hlt⟩

theorem Moves.serv (w' : World) (hstep : w.servStep prog fs = some w')
    (hlt : w'.measure prog fs name < w.measure prog fs name) : Moves prog fs name w :=
  ⟨.serv, w', by simp [writes], hstep, hlt⟩

/-- The client asks. -/
theorem Asking.moves (h : Asking stdin w) (hline : Stdio.fgets MAXMESGDATA stdin = some line) :
    Moves prog fs (filename line) w := by
  rcases h.cli with ⟨hpc, hstdin⟩ | ⟨line', hline', hpc, htype⟩ | ⟨hnil, -⟩
  · have hcli : w.cli.fgets = { w.cli with
        stdin := w.cli.stdin.drop line.length, mesg_type := 1, pc := .send (filename line) } := by
      rw [Client.fgets, hstdin, hline]
    apply Moves.cli { w with cli := w.cli.fgets }
    · rw [World.cliStep, hpc]
    · rw [hcli]
      simp only [World.measure, hpc, CliAt.rank]
      omega
  · obtain rfl : line = line' := Option.some.inj (hline.symm.trans hline')
    obtain ⟨queues, hsend⟩ := mesg_send_of_empty (m := ⟨1, filename line⟩) h.queue h.room
      (Nat.le_of_lt (length_filename_lt hline))
    obtain ⟨hqueue, -⟩ := holds_of_mesg_send hsend h.queue h.room
    apply Moves.cli { w with cli := w.cli.sent prog, queues := queues }
    · rw [World.cliStep, hpc]
      dsimp only
      rw [htype, hsend, Option.map_some]
    · have hbefore := h.queue.pending
      have hafter := hqueue.pending
      simp only [World.measure, hpc, CliAt.rank, Client.sent, hbefore, hafter, List.length_append,
        List.length_nil, List.length_singleton]
      omega
  · rw [hnil] at hline
    cases hline

theorem rank_of_taken {pc : ServAt} (h : pc ≠ .recv) :
    pc.rank prog fs name = 4 * (pc.todo prog fs).length + pc.silent := if_neg h

/-- The server takes the request. -/
theorem Requested.moves (h : Requested prog name w) (hlen : name.length < MAXMESGDATA)
    (hnul : cstr name = name) : Moves prog fs name w := by
  obtain ⟨queues, hstep, hreply⟩ := h.servStep fs hlen hnul
  apply Moves.serv _ hstep
  have hsaid := congrArg List.length hreply.said
  have hbefore := h.queue.pending
  have hafter := hreply.queue.pending
  have hsilent := silent_le (Server.recv prog ⟨1, name⟩).pc
  dsimp only at hsaid hafter
  rw [h.sent, List.map_nil, List.nil_append] at hsaid
  have hrank : w.serv.pc.rank prog fs name = 4 * (script prog fs name).length + 5 := by
    rw [h.serv]
    exact if_pos rfl
  simp only [World.measure, hrank, rank_of_taken hreply.taken, hsaid, hbefore, hafter,
    List.length_nil, List.length_singleton]
  omega

/-- The client takes a message, or puts one out. -/
theorem Replying.cliMoves (h : Replying prog fs name w rest)
    (hcli : (∃ data, w.cli.pc = .write data) ∨ w.cli.pc = .recv ∧ rest ≠ []) :
    ∃ w', w.cliStep prog = some w' ∧ w'.measure prog fs name < w.measure prog fs name := by
  rcases hcli with ⟨data, hpc⟩ | ⟨hpc, hrest⟩
  · refine ⟨{ w with cli := w.cli.write data }, ?_, ?_⟩
    · rw [World.cliStep, hpc]
    · simp only [World.measure, hpc, CliAt.rank, Client.write]
      omega
  · -- one message less is on its way
    obtain ⟨m, ms, rfl⟩ := List.exists_cons_of_ne_nil hrest
    have hreading := h.reading
    simp only [Client.Reading, hpc] at hreading
    have hmem : m ∈ w.sent := by rw [h.sent]; simp
    obtain ⟨queues, hrecv, hqueue, -⟩ := mesg_recv_of_holds h.queue h.room
      ((h.types m hmem).trans hreading.1.symm) (h.short List.mem_cons_self)
    have hbefore := h.queue.pending
    have hafter := hqueue.pending
    rw [List.length_cons] at hbefore
    refine ⟨{ w with cli := w.cli.recv m, queues := queues, got := w.got ++ [m] }, ?_, ?_⟩
    · rw [World.cliStep, hpc]
      dsimp only
      rw [hrecv]
      rfl
    · have hrank : (w.cli.recv m).pc.rank ≤ 2 := by
        simp only [Client.recv]
        split_ifs
        · exact le_rfl
        · exact Nat.zero_le _
      have hreceives : w.cli.pc.rank = 1 := by
        rw [hpc]
        rfl
      simp only [World.measure, hreceives, hbefore, hafter]
      omega

/-- The server goes on, while nothing is in its way. -/
theorem Replying.servMoves (h : Replying prog fs name w []) (hgone : ¬ w.serv.pc.gone) :
    Moves prog fs name w := by
  cases hsends : w.serv.pc.sends with
  | none =>
    obtain ⟨s, hstep, hs⟩ := servStep_silent prog fs hsends hgone h.taken
    apply Moves.serv _ hstep
    have hcloser := hs.closer
    simp only [World.measure, rank_of_taken h.taken, rank_of_taken hs.taken, hs.todo]
    omega
  | some p =>
    obtain ⟨d, pc'⟩ := p
    have htodo : w.serv.pc.todo prog fs = d :: pc'.todo prog fs := todo_sends hsends
    have hd : d.length ≤ MAXMESGDATA := by
      have hmem : d ∈ script prog fs name := by
        rw [← h.said, htodo]
        simp
      exact short_script hmem
    -- the queue is empty, so there is room
    obtain ⟨queues, hsend⟩ := mesg_send_of_empty (m := ⟨w.serv.mesg_type, d⟩) h.queue h.room hd
    obtain ⟨hqueue, -⟩ := holds_of_mesg_send hsend h.queue h.room
    have hbefore := h.queue.pending
    have hafter := hqueue.pending
    have hsilent := silent_sends hsends
    apply Moves.serv
    · rw [servStep_sends hsends, hsend]
      rfl
    · simp only [World.measure, rank_of_taken h.taken, rank_of_taken (sends_taken hsends).2, htodo,
        hbefore, hafter, List.length_cons, List.length_append, List.length_nil]
      omega

/-- The client has not ended because of an error. -/
def World.Works (w : World) : Prop := w.cli.pc ≠ .ended "data write error"

theorem cliStep_works (hstep : w.cliStep prog = some w') : w'.Works := by
  unfold World.cliStep at hstep
  cases hpc : w.cli.pc with
  | fgets =>
    rw [hpc] at hstep
    obtain rfl := Option.some.inj hstep
    simp only [World.Works, Client.fgets]
    split <;> simp
  | send name =>
    rw [hpc] at hstep
    obtain ⟨queues, -, rfl⟩ := Option.map_eq_some_iff.1 hstep
    simp [World.Works, Client.sent]
  | recv =>
    rw [hpc] at hstep
    obtain ⟨r, -, rfl⟩ := Option.map_eq_some_iff.1 hstep
    cases r with
    | none => simp [World.Works]
    | some p =>
      simp only [World.Works, Client.recv]
      split_ifs <;> simp
  | write data =>
    rw [hpc] at hstep
    obtain rfl := Option.some.inj hstep
    simp [World.Works, Client.write]
  | done | ended =>
    rw [hpc] at hstep
    cases hstep

theorem servStep_cli (hstep : w.servStep prog fs = some w') : w'.cli = w.cli := by
  cases hsends : w.serv.pc.sends with
  | some p =>
    rw [servStep_sends hsends] at hstep
    obtain ⟨queues, -, rfl⟩ := Option.map_eq_some_iff.1 hstep
    rfl
  | none =>
    by_cases hgone : w.serv.pc.gone
    · rw [servStep_gone hgone] at hstep
      cases hstep
    by_cases htaken : w.serv.pc = .recv
    · rw [World.servStep, htaken] at hstep
      obtain ⟨r, -, rfl⟩ := Option.map_eq_some_iff.1 hstep
      cases r <;> rfl
    · obtain ⟨s, hserv, -⟩ := servStep_silent prog fs hsends hgone htaken
      rw [hserv] at hstep
      obtain rfl := Option.some.inj hstep
      rfl

/-- **Nobody waits for ever but a client for a server that has gone.** -/
theorem Phase.moves (h : Phase prog fs stdin w) (hline : Stdio.fgets MAXMESGDATA stdin = some line)
    (hworks : w.Works) :
    Moves prog fs (filename line) w ∨
      w.serv.pc.gone ∧ (w.cli.pc = .done ∨ w.CliReceives prog) := by
  rcases h with h | ⟨line', hline', h⟩ | ⟨line', rest, hline', h⟩
  · exact .inl (h.moves hline)
  · obtain rfl : line = line' := Option.some.inj (hline.symm.trans hline')
    exact .inl (h.moves (length_filename_lt hline) cstr_filename)
  · obtain rfl : line = line' := Option.some.inj (hline.symm.trans hline')
    have hreading := h.reading
    cases hpc : w.cli.pc with
    | fgets | send =>
      simp only [Client.Reading, hpc] at hreading
    | write data =>
      obtain ⟨w', hstep, hlt⟩ := h.cliMoves (.inl ⟨data, hpc⟩)
      exact .inl (.cli w' hstep hlt)
    | recv =>
      by_cases hrest : rest = []
      · subst hrest
        by_cases hgone : w.serv.pc.gone
        · -- the client waits for a message nobody sends
          refine .inr ⟨hgone, .inr ⟨hpc, ?_⟩⟩
          rw [World.cliStep, hpc]
          dsimp only
          rw [mesg_recv_eq_none h.queue (by simp), Option.map_none]
        · exact .inl (h.servMoves hgone)
      · obtain ⟨w', hstep, hlt⟩ := h.cliMoves (.inr ⟨hpc, hrest⟩)
        exact .inl (.cli w' hstep hlt)
    | done => exact .inr ⟨h.gone_of_done hpc, .inl rfl⟩
    | ended msg =>
      simp only [Client.Reading, hpc] at hreading
      exact absurd (hpc.trans (congrArg _ hreading)) hworks

end Progress

/-! ## Runs -/

section Run

variable {prog : Prog} {fs : List Char → File} {stdin line : List Char} {qbytes : QueueId → ℕ}
  {ok : World → Act → Prop} {w : World}

theorem phase_start (hq : ∀ id, MAXMESGDATA ≤ qbytes id) :
    Phase prog fs stdin (start stdin qbytes) :=
  .asking {
    room := hq
    serv := rfl
    served := rfl
    sent := rfl
    got := rfl
    stdout := rfl
    queue := by
      intro id
      simp [start]
    cli := .inl ⟨rfl, rfl⟩ }

/-- **Every run keeps to the conversation.** -/
theorem phase_run (hq : ∀ id, MAXMESGDATA ≤ qbytes id)
    (h : (machine prog fs stdin qbytes).Reach ok w) : Phase prog fs stdin w := by
  apply h.invariant
  · rintro _ rfl
    exact phase_start hq
  · intro s a t _ hs _ hstep
    exact hs.step hstep

/-- A client whose writes are good works. -/
theorem works_run (h : (machine prog fs stdin qbytes).Reach writes w) : w.Works := by
  apply h.invariant
  · rintro _ rfl
    simp [World.Works, start]
  · intro s a t _ hs hok hstep
    cases a with
    | cli => exact cliStep_works hstep
    | serv =>
      rw [World.Works, servStep_cli hstep]
      exact hs
    | cliFails => exact absurd rfl hok

/-- From every state the server can come to its end, and the client is done, or
waits for it. -/
theorem server_ends (hq : ∀ id, MAXMESGDATA ≤ qbytes id)
    (hline : Stdio.fgets MAXMESGDATA stdin = some line)
    (h : (machine prog fs stdin qbytes).Reach writes w) :
    ∃ t, ((machine prog fs stdin qbytes).startedAt w).Reach writes t ∧
      t.serv.pc.gone ∧ (t.cli.pc = .done ∨ t.CliReceives prog) := by
  apply h.finishes (World.measure prog fs (filename line))
  intro s hs hdone
  exact ((phase_run hq hs).moves hline (works_run hs)).resolve_right hdone

end Run

/-! ## The end of the conversation -/

/-- The file is sent, or the reason why it is not. -/
def Answers (prog : Prog) (name : List Char) : File → Prop
  | .cannot err => Fits prog name err
  | .opens stat _ fails => (prog.checks = true → stat = .other) ∧ fails = false

/-- The server has sent one message without data, and sent it last. -/
def World.Ends (w : World) : Prop :=
  ∃ ms m, w.sent = ms ++ [m] ∧ m.data = [] ∧ ∀ m' ∈ ms, m'.data ≠ []

section End

variable {prog : Prog} {fs : List Char → File} {stdin line name : List Char} {w : World}
  {rest : List (Msg Char)} {chunks : List Chunk} {fails : Bool} {qbytes : QueueId → ℕ}

theorem nil_mem_ofRead : [] ∈ ofRead chunks fails ↔ fails = false := by
  unfold ofRead
  cases fails <;> simp

/-- The script has an end if there is an answer. -/
theorem nil_mem_script :
    [] ∈ script prog fs name ↔ name ≠ [] ∧ Answers prog name (fs name) := by
  unfold script
  by_cases hname : name = []
  · simp [hname]
  · rw [if_neg hname]
    simp only [ne_eq, hname, not_false_eq_true, true_and]
    cases fs name with
    | cannot err =>
      by_cases hfits : Fits prog name err <;> simp [ofFile, Answers, hfits]
    | opens stat chunks fails =>
      simp only [ofFile, ofStat, Answers]
      split_ifs with hchecks hstat
      · simp [nil_mem_ofRead, hstat]
      · simp [hchecks, hstat]
      · simp [nil_mem_ofRead, hchecks]

/-- Where the server has gone, what it has sent is the script. -/
theorem Replying.sent_of_gone (h : Replying prog fs name w rest) (hgone : w.serv.pc.gone) :
    w.sent.map Msg.data = script prog fs name := by
  have hsaid := h.said
  have htodo : w.serv.pc.todo prog fs = [] := by
    cases hpc : w.serv.pc <;> simp [hpc, ServAt.gone, ServAt.todo] at hgone ⊢
  rwa [htodo, List.append_nil] at hsaid

/-- The server has gone with the end of the conversation as its last message. -/
theorem Replying.ends (h : Replying prog fs name w rest) (hgone : w.serv.pc.gone)
    (hnil : [] ∈ script prog fs name) : w.Ends := by
  have hmarked : Marked (script prog fs name) := marked_script (nil_mem_script.1 hnil).1
  rw [← h.sent_of_gone hgone] at hnil hmarked
  obtain ⟨m, hm, hmnil⟩ := List.mem_map.1 hnil
  obtain ⟨ms, back, hsent⟩ := List.append_of_mem hm
  rw [hsent, List.map_append, List.map_cons] at hmarked
  have hback : back = [] := List.map_eq_nil_iff.1 (hmarked _ _ _ rfl hmnil)
  subst hback
  refine ⟨ms, m, hsent, hmnil, ?_⟩
  intro m' hm' hm'nil
  -- an empty message in front of the last one
  obtain ⟨front, back, rfl⟩ := List.append_of_mem hm'
  have hlast := hmarked (front.map Msg.data) m'.data (back.map Msg.data ++ [m.data]) (by simp)
    hm'nil
  simp at hlast

/-- A client that waits has received nothing without data. -/
theorem Replying.got_of_receives (h : Replying prog fs name w rest) (hcli : w.CliReceives prog) :
    rest = [] ∧ ∀ m ∈ w.sent, m.data ≠ [] := by
  obtain ⟨hpc, hwaits⟩ := hcli
  have hrest : rest = [] := by
    by_contra hrest
    obtain ⟨w', hstep, -⟩ := h.cliMoves (.inr ⟨hpc, hrest⟩)
    rw [hwaits] at hstep
    cases hstep
  have hreading := h.reading
  simp only [Client.Reading, hpc] at hreading
  refine ⟨hrest, ?_⟩
  rw [h.sent, hrest, List.append_nil]
  exact hreading.2.1

/-- A client that is done has put out all that the server had to say. -/
theorem Replying.stdout_of_done (h : Replying prog fs name w rest) (hpc : w.cli.pc = .done) :
    w.cli.stdout = (script prog fs name).flatten := by
  have hsent := h.sent_of_gone (h.gone_of_done hpc)
  have hreading := h.reading
  simp only [Client.Reading, hpc] at hreading
  obtain ⟨⟨m, hm, hmnil⟩, hout⟩ := hreading
  have hnil : [] ∈ script prog fs name := by
    rw [← hsent, h.sent, ← hmnil]
    exact List.mem_map_of_mem (List.mem_append_left _ hm)
  have hmarked : Marked (script prog fs name) := marked_script (nil_mem_script.1 hnil).1
  obtain ⟨front, back, hgot⟩ := List.append_of_mem hm
  -- nothing follows the end
  have hrest : back ++ rest = [] := by
    rw [← hsent, h.sent, hgot, List.append_assoc, List.cons_append, List.map_append,
      List.map_cons] at hmarked
    exact List.map_eq_nil_iff.1 (hmarked _ _ _ rfl hmnil)
  rw [hout, ← hsent, h.sent, (List.append_eq_nil_iff.1 hrest).2, List.append_nil]
  rfl

/-- After the end of the conversation nobody waits for more. -/
theorem Replying.not_receives (h : Replying prog fs name w rest) (hgone : w.serv.pc.gone)
    (hnil : [] ∈ script prog fs name) : ¬ w.CliReceives prog := by
  intro hreceives
  have hne := (h.got_of_receives hreceives).2
  rw [← h.sent_of_gone hgone] at hnil
  obtain ⟨m, hm, hmnil⟩ := List.mem_map.1 hnil
  exact hne m hm hmnil

end End

section Transfer

variable {prog : Prog} {fs : List Char → File} {stdin line : List Char} {qbytes : QueueId → ℕ}
  {w : World} {stat : Stat} {chunks : List Chunk}

/-- What is received is of the type that was asked for. -/
theorem types_of_phase (h : Phase prog fs stdin w) :
    (∀ m ∈ w.served, m.type = 1) ∧ ∀ m ∈ w.got, m.type = prog.retype 1 := by
  rcases h with h | ⟨_, _, h⟩ | ⟨line, rest, hline, h⟩
  · simp [h.served, h.got]
  · simp [h.served, h.got]
  · refine ⟨by simp [h.served], ?_⟩
    intro m hm
    apply h.types m
    rw [h.sent]
    exact List.mem_append_left _ hm

/-- **Client and server are never both waiting**, whatever the file is. -/
theorem not_both_wait (h : Phase prog fs stdin w)
    (hline : Stdio.fgets MAXMESGDATA stdin = some line) :
    ¬ (w.CliWaits prog ∧ w.ServWaits prog fs) := by
  rintro ⟨hcli, hserv, hservStep⟩
  have hgone : ¬ w.serv.pc.gone := by
    intro hgone
    cases hpc : w.serv.pc <;> simp [hpc, ServAt.gone, ServAt.sends] at hserv hgone
  have hcli' : w.cliStep prog = none ∧ ((∃ name, w.cli.pc = .send name) ∨ w.cli.pc = .recv) := by
    rcases hcli with ⟨hpc, hstep⟩ | ⟨hpc, hstep⟩
    · exact ⟨hstep, .inl hpc⟩
    · exact ⟨hstep, .inr hpc⟩
  obtain ⟨hcliStep, hpc⟩ := hcli'
  -- one of the two has a move, and it is not the one of a call that fails
  have hworks : w.Works := by
    rcases hpc with ⟨name, hpc⟩ | hpc <;> rw [World.Works, hpc] <;> simp
  rcases h.moves hline hworks with ⟨a, w', hok, hstep, -⟩ | ⟨hgone', -⟩
  · cases a with
    | cli =>
      rw [World.step, hcliStep] at hstep
      cases hstep
    | serv =>
      rw [World.step, hservStep] at hstep
      cases hstep
    | cliFails => exact hok rfl
  · exact hgone hgone'

/-- A file that is opened, checked and read is sent as it is. -/
theorem script_of_file (hname : filename line ≠ [])
    (hfile : fs (filename line) = .opens stat chunks false)
    (hchecks : prog.checks = true → stat = .other) :
    (script prog fs (filename line)).flatten = (chunks.map Subtype.val).flatten := by
  have hscript : script prog fs (filename line) = ofRead chunks false := by
    rw [script, if_neg hname, hfile]
    simp only [ofFile, ofStat]
    split_ifs with hprog hstat
    · rfl
    · exact absurd (hchecks hprog) hstat
    · rfl
  rw [hscript]
  simp [ofRead]

/-- A client that is done has put out the file. -/
theorem stdout_of_done (hq : ∀ id, MAXMESGDATA ≤ qbytes id)
    (hline : Stdio.fgets MAXMESGDATA stdin = some line) (hname : filename line ≠ [])
    (hfile : fs (filename line) = .opens stat chunks false)
    (hchecks : prog.checks = true → stat = .other)
    (h : (machine prog fs stdin qbytes).Reach (fun _ _ => True) w) (hdone : w.cli.pc = .done) :
    w.cli.stdout = (chunks.map Subtype.val).flatten := by
  rcases phase_run hq h with h | ⟨_, _, h⟩ | ⟨line', rest, hline', h⟩
  · rcases h.cli with ⟨hpc, -⟩ | ⟨_, -, hpc, -⟩ | ⟨-, hpc⟩ <;> rw [hdone] at hpc <;> cases hpc
  · have hpc := h.pc
    rw [hdone] at hpc
    cases hpc
  · obtain rfl : line = line' := Option.some.inj (hline.symm.trans hline')
    rw [h.stdout_of_done hdone, script_of_file hname hfile hchecks]

/-- From every state the client can come to its end. -/
theorem client_done (hq : ∀ id, MAXMESGDATA ≤ qbytes id)
    (hline : Stdio.fgets MAXMESGDATA stdin = some line)
    (hanswers : filename line ≠ [] ∧ Answers prog (filename line) (fs (filename line)))
    (h : (machine prog fs stdin qbytes).Reach writes w) :
    ∃ t, ((machine prog fs stdin qbytes).startedAt w).Reach writes t ∧ t.cli.pc = .done := by
  obtain ⟨t, ht, hgone, hend⟩ := server_ends hq hline h
  refine ⟨t, ht, hend.resolve_right ?_⟩
  intro hreceives
  rcases phase_run hq (h.append ht) with h | ⟨_, _, h⟩ | ⟨line', rest, hline', h⟩
  · rw [h.serv] at hgone
    exact hgone
  · rw [h.serv] at hgone
    exact hgone
  · obtain rfl : line = line' := Option.some.inj (hline.symm.trans hline')
    exact h.not_receives hgone (nil_mem_script.2 hanswers) hreceives

end Transfer

section Claims

variable (prog : Prog) (fs : List Char → File) (stdin : List Char) (qbytes : QueueId → ℕ)

/-- **The server ends the conversation exactly when it answers**: if what was typed
is the name of a file that is opened, checked and read, or the message that it is
not can be sent. -/
theorem server_ends_conversation (hq : ∀ id, MAXMESGDATA ≤ qbytes id) :
    (∀ w, (machine prog fs stdin qbytes).Reach (fun _ _ => True) w →
        (w.serv.pc.gone → w.Ends) ∧ ¬ (w.serv.pc.gone ∧ w.CliReceives prog)) ↔
      ∀ line, Stdio.fgets MAXMESGDATA stdin = some line →
        filename line ≠ [] ∧ Answers prog (filename line) (fs (filename line)) := by
  constructor
  · intro hends line hline
    have hstart : (machine prog fs stdin qbytes).Reach writes (start stdin qbytes) := .init rfl
    obtain ⟨t, ht, hgone, -⟩ := server_ends hq hline hstart
    have hreach := hstart.append ht
    -- run on until the server is gone; its last message was empty
    obtain ⟨ms, m, hsent, hnil, -⟩ := (hends t (hreach.mono fun _ _ _ => trivial)).1 hgone
    rcases phase_run hq hreach with h | ⟨_, _, h⟩ | ⟨line', rest, hline', h⟩
    · rw [h.sent] at hsent
      simp at hsent
    · rw [h.sent] at hsent
      simp at hsent
    · obtain rfl : line = line' := Option.some.inj (hline.symm.trans hline')
      rw [← nil_mem_script, ← h.sent_of_gone hgone, hsent, ← hnil]
      simp
  · intro hanswers w hw
    rcases phase_run hq hw with h | ⟨_, _, h⟩ | ⟨line, rest, hline, h⟩
    · rw [h.serv]
      exact ⟨fun hgone => hgone.elim, fun hgone => hgone.1.elim⟩
    · rw [h.serv]
      exact ⟨fun hgone => hgone.elim, fun hgone => hgone.1.elim⟩
    · -- only the last phase has a server that is gone
      have hnil := nil_mem_script.2 (hanswers line hline)
      refine ⟨fun hgone => h.ends hgone hnil, ?_⟩
      rintro ⟨hgone, hreceives⟩
      exact h.not_receives hgone hnil hreceives

end Claims

/-! ## A file, and an empty line -/

/-- The same file under every name. -/
def hello (_ : List Char) : File :=
  .opens .other [⟨['h', 'i'], by decide⟩, ⟨['\n'], by decide⟩] false

/-- The server ends the conversation about a name. -/
theorem server_ends_conversation_hello :
    filename ['a', '\n'] = ['a'] ∧
      ∀ w, (machine .system_v_ipc hello ['a', '\n'] fun _ => MAXMESGDATA).Reach
        (fun _ _ => True) w →
        (w.serv.pc.gone → w.Ends) ∧ ¬ (w.serv.pc.gone ∧ w.CliReceives .system_v_ipc) := by
  refine ⟨by decide, ?_⟩
  apply (server_ends_conversation .system_v_ipc hello ['a', '\n'] _ fun _ => le_rfl).2
  intro line hline
  obtain rfl : ['a', '\n'] = line := Option.some.inj hline
  exact ⟨by decide, fun _ => rfl, rfl⟩

/-- The client sends an empty request, and the server takes it. -/
def emptyRequest : List Act := [.cli, .cli, .serv]

/-- **An empty line has no answer**: the server goes, and the client waits. -/
theorem empty_line_unanswered :
    ¬ ∀ w, (machine .multiplexing_messages hello ['\n'] fun _ => MAXMESGDATA).Reach
        (fun _ _ => True) w →
      (w.serv.pc.gone → w.Ends) ∧ ¬ (w.serv.pc.gone ∧ w.CliReceives .multiplexing_messages) := by
  intro hends
  have hrun := Reach.run (machine .multiplexing_messages hello ['\n'] fun _ => MAXMESGDATA)
    (fun _ _ => True) rfl emptyRequest (by decide)
  exact (hends _ hrun).2 ⟨trivial, rfl, by decide⟩

/-- **One queue is as good as two.** The server receives requests only and the client
replies only, and the two are never both waiting; and with either program the client
puts out the file when it is done, and can be done from every state. -/
theorem one_typed_queue (fs : List Char → File) (stdin line : List Char) (stat : Stat)
    (chunks : List Chunk) (hline : Stdio.fgets MAXMESGDATA stdin = some line)
    (hname : filename line ≠ []) (hfile : fs (filename line) = .opens stat chunks false) :
    (∀ qbytes, (∀ id, MAXMESGDATA ≤ qbytes id) → ∀ w,
        (machine .multiplexing_messages fs stdin qbytes).Reach (fun _ _ => True) w →
        (∀ m ∈ w.served, m.type = 1) ∧ (∀ m ∈ w.got, m.type = 2) ∧
          ¬ (w.CliWaits .multiplexing_messages ∧ w.ServWaits .multiplexing_messages fs)) ∧
      ∀ (prog : Prog) (qbytes : QueueId → ℕ), (prog.checks = true → stat = .other) →
        (∀ id, MAXMESGDATA ≤ qbytes id) →
        (∀ w, (machine prog fs stdin qbytes).Reach (fun _ _ => True) w → w.cli.pc = .done →
          w.cli.stdout = (chunks.map Subtype.val).flatten) ∧
        ∀ w, (machine prog fs stdin qbytes).Reach writes w →
          ∃ t, ((machine prog fs stdin qbytes).startedAt w).Reach writes t ∧ t.cli.pc = .done := by
  constructor
  · intro qbytes hq w hw
    have hphase := phase_run hq hw
    obtain ⟨hserved, hgot⟩ := types_of_phase hphase
    exact ⟨hserved, hgot, not_both_wait hphase hline⟩
  · intro prog qbytes hchecks hq
    refine ⟨fun w hw hdone => stdout_of_done hq hline hname hfile hchecks hw hdone, ?_⟩
    intro w hw
    have hanswers : Answers prog (filename line) (fs (filename line)) := by
      rw [hfile]
      exact ⟨hchecks, rfl⟩
    exact client_done hq hline ⟨hname, hanswers⟩ hw

/-- Both programs, for a name. -/
theorem one_typed_queue_hello :
    filename ['a', '\n'] = ['a'] ∧
      ∀ w, (machine .multiplexing_messages hello ['a', '\n'] fun _ => MAXMESGDATA).Reach
          (fun _ _ => True) w →
        ¬ (w.CliWaits .multiplexing_messages ∧ w.ServWaits .multiplexing_messages hello) := by
  refine ⟨by decide, fun w hw => ?_⟩
  exact ((one_typed_queue hello ['a', '\n'] ['a', '\n'] _ _ rfl (by decide) rfl).1 _
    (fun _ => le_rfl) w hw).2.2

end UnixNetProg.MessageQueue

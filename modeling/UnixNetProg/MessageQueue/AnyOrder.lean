/-
The order in which client and server make their steps, over one queue or two.

Once the server has taken the request the two share one queue, into which the server
sends and out of which the client receives; before that only one of them can move. To send
and to receive can change places, and everything else a process does is its own, so their
steps commute (`Phase.commute`). Hence all conversations about a line that is typed come to
one end, after the same number of steps (`one_end`).

Steps in which the client's `write` fails are left out here: that is the end of it.
-/
import UnixNetProg.Lib.Descent
import UnixNetProg.MessageQueue.Transfer

set_option autoImplicit false

namespace UnixNetProg.MessageQueue

open UnixNetProg.MsgQueue UnixNetProg.Runs UnixNetProg.Runs.Machine UnixNetProg.Stdio

section Commute

variable {prog : Prog} {fs : List Char → File} {stdin line name d : List Char} {w w₁ w₂ : World}
  {rest : List (Msg Char)} {queues queues₁ queues₂ : Queues} {id : QueueId} {m m' : Msg Char}
  {t : ℕ} {pc' : ServAt}

/-- A message that is sent to a queue and one that is received from it. -/
theorem mesg_send_recv (hsend : mesg_send queues id m = some queues₁)
    (hrecv : mesg_recv queues id t = some (some (m', queues₂))) :
    ∃ queues₃, mesg_send queues₂ id m = some queues₃ ∧
      mesg_recv queues₁ id t = some (some (m', queues₃)) := by
  obtain ⟨q₁, hsnd, rfl⟩ := Option.map_eq_some_iff.1 hsend
  obtain ⟨r, hrcv, hr⟩ := Option.map_eq_some_iff.1 hrecv
  cases r with
  | tooBig => cases hr
  | got m₀ q₂ =>
    cases hr
    obtain ⟨q₃, hsnd', hrcv'⟩ := Queue.msgsnd_msgrcv hsnd hrcv
    refine ⟨Function.update queues id q₃, ?_, ?_⟩
    · simp [mesg_send, hsnd']
    · simp [mesg_recv, hrcv']

/-- A server that neither sends nor receives changes nothing but itself, and nothing else
matters to it. -/
theorem servStep_own (htaken : w.serv.pc ≠ .recv) (hsends : w.serv.pc.sends = none)
    (hstep : w.servStep prog fs = some w₂) :
    ∃ s, ∀ u : World, u.serv = w.serv → u.servStep prog fs = some { u with serv := s } := by
  refine ⟨w₂.serv, fun u hserv => ?_⟩
  unfold World.servStep at hstep ⊢
  rw [hserv]
  cases hpc : w.serv.pc with
  | recv => exact absurd hpc htaken
  | senddata | senderr | sendend =>
    rw [hpc] at hsends
    cases hsends
  | «open» | fstat | read =>
    rw [hpc] at hstep
    cases hstep
    rfl
  | done | ended | overrun =>
    rw [hpc] at hstep
    cases hstep

/-- What the client does besides does not matter to the server. -/
theorem servStep_frame (w : World) (c : Client) :
    World.servStep prog fs { w with cli := c } =
      (w.servStep prog fs).map fun u => { u with cli := c } := by
  obtain ⟨cli, ⟨type, pc⟩, queues, served, sent, got⟩ := w
  cases pc with
  | recv =>
    simp only [World.servStep, Option.map_map]
    refine congrArg (fun f => Option.map f _) (funext fun r => ?_)
    cases r with
    | none => rfl
    | some r => rfl
  | senddata | senderr | sendend =>
    simp only [World.servStep, ServAt.sends, Option.bind_some, Option.map_map]
    rfl
  | _ => rfl

/-- Nothing that the client receives is too long for it. -/
theorem Replying.fits (h : Replying prog fs name w rest) (hpc : w.cli.pc = .recv) :
    mesg_recv w.queues prog.reply_id w.cli.mesg_type ≠ some none := by
  have hreading := h.reading
  simp only [Client.Reading, hpc] at hreading
  cases rest with
  | nil =>
    rw [mesg_recv_eq_none h.queue (by simp)]
    exact (Option.some_ne_none none).symm
  | cons m ms =>
    have hmem : m ∈ w.sent := by
      rw [h.sent]
      simp
    obtain ⟨queues, hrecv, -⟩ := mesg_recv_of_holds h.queue h.room
      ((h.types m hmem).trans hreading.1.symm) (h.short List.mem_cons_self)
    rw [hrecv]
    exact fun htooBig => Option.some_ne_none _ (Option.some.inj htooBig)

/-- **The steps of the two commute.** -/
theorem Phase.commute (h : Phase prog fs stdin w) (hcli : w.cliStep prog = some w₁)
    (hserv : w.servStep prog fs = some w₂) :
    ∃ v, w₁.servStep prog fs = some v ∧ w₂.cliStep prog = some v := by
  rcases h with h | ⟨line, -, h⟩ | ⟨line, rest, -, h⟩
  · rw [h.servWaits] at hserv
    cases hserv
  · rw [h.cliWaits] at hcli
    cases hcli
  have hreading := h.reading
  have hsame := servStep_cli hserv
  unfold World.cliStep at hcli
  rw [World.cliStep, hsame]
  cases hpc : w.cli.pc with
  | fgets | send => simp [Client.Reading, hpc] at hreading
  | done | ended =>
    rw [hpc] at hcli
    cases hcli
  | write data =>
    rw [hpc] at hcli
    cases hcli
    refine ⟨{ w₂ with cli := w.cli.write data }, ?_, by rw [← hsame]⟩
    rw [servStep_frame w, hserv]
    rfl
  | recv =>
    rw [hpc] at hcli
    obtain ⟨r, hrecv, rfl⟩ := Option.map_eq_some_iff.1 hcli
    cases r with
    | none => exact absurd hrecv (h.fits hpc)
    | some r =>
      obtain ⟨m, queues⟩ := r
      cases hsends : w.serv.pc.sends with
      | none =>
        -- the server is on its own
        obtain ⟨s, hown⟩ := servStep_own h.taken hsends hserv
        obtain rfl := Option.some.inj ((hown w rfl).symm.trans hserv)
        refine ⟨_, hown _ rfl, ?_⟩
        simp only [hrecv]
        rfl
      | some p =>
        obtain ⟨d, pc'⟩ := p
        rw [servStep_sends hsends] at hserv
        obtain ⟨queues₁, hsend, rfl⟩ := Option.map_eq_some_iff.1 hserv
        obtain ⟨queues₃, hsend', hrecv'⟩ := mesg_send_recv hsend hrecv
        have hgo : World.servStep prog fs
            ⟨w.cli.recv m, w.serv, queues, w.served, w.sent, w.got ++ [m]⟩ = _ :=
          servStep_sends hsends
        simp only [hsend', Option.map_some] at hgo
        refine ⟨_, hgo, ?_⟩
        simp only [hrecv']
        rfl

end Commute

/-! ## The end -/

section End

variable {prog : Prog} {fs : List Char → File} {stdin line : List Char} {qbytes : QueueId → ℕ}
  {w : World}

/-- Of two steps that are possible the order does not matter. -/
theorem phase_balanced :
    ((machine prog fs stdin qbytes).only writes).Balanced (Phase prog fs stdin) := by
  intro w a b t u h ht hu
  obtain ⟨hoka, ht⟩ := step_only.1 ht
  obtain ⟨hokb, hu⟩ := step_only.1 hu
  have one {a : Act} {s s' : World} (hok : writes s a)
      (hstep : (machine prog fs stdin qbytes).step s a = some s') :
      Path ((machine prog fs stdin qbytes).only writes) 1 s s' :=
    .single (step_only.2 ⟨hok, hstep⟩)
  cases a with
  | cliFails => exact absurd rfl hoka
  | cli =>
    cases b with
    | cliFails => exact absurd rfl hokb
    | cli =>
      obtain rfl := Option.some.inj (ht.symm.trans hu)
      exact ⟨0, t, .nil, .nil⟩
    | serv =>
      obtain ⟨v, hv, hv'⟩ := h.commute ht hu
      exact ⟨1, v, one hokb hv, one hoka hv'⟩
  | serv =>
    cases b with
    | cliFails => exact absurd rfl hokb
    | serv =>
      obtain rfl := Option.some.inj (ht.symm.trans hu)
      exact ⟨0, t, .nil, .nil⟩
    | cli =>
      obtain ⟨v, hv, hv'⟩ := h.commute hu ht
      exact ⟨1, v, one hokb hv', one hoka hv⟩

/-- Once the server has gone, and the client is done or waits for it, nothing happens. -/
theorem final_of_gone (hgone : w.serv.pc.gone) (hcli : w.cli.pc = .done ∨ w.CliReceives prog) :
    ((machine prog fs stdin qbytes).only writes).Final w := by
  have hnone : w.cliStep prog = none := by
    rcases hcli with hpc | hwaits
    · rw [World.cliStep, hpc]
    · exact hwaits.2
  intro a
  cases a with
  | cli => exact hnone
  | serv => exact servStep_gone hgone
  | cliFails => rfl

/-- What there is on the standard output in the end, and whether the client is done. -/
theorem end_of_phase (h : Phase prog fs stdin w) (hline : Stdio.fgets MAXMESGDATA stdin = some line)
    (hgone : w.serv.pc.gone) (hcli : w.cli.pc = .done ∨ w.CliReceives prog) :
    w.cli.stdout = (script prog fs (filename line)).flatten ∧
      (w.cli.pc = .done ↔
        filename line ≠ [] ∧ Answers prog (filename line) (fs (filename line))) := by
  rcases h with h | ⟨_, -, h⟩ | ⟨line', rest, hline', h⟩
  · rw [h.serv] at hgone
    exact hgone.elim
  · rw [h.serv] at hgone
    exact hgone.elim
  obtain rfl : line = line' := Option.some.inj (hline.symm.trans hline')
  rw [← nil_mem_script]
  rcases hcli with hdone | hreceives
  · refine ⟨h.stdout_of_done hdone, iff_of_true hdone ?_⟩
    have hreading := h.reading
    simp only [Client.Reading, hdone] at hreading
    obtain ⟨m, hm, hnil⟩ := hreading.1
    rw [← h.sent_of_gone hgone, h.sent, ← hnil]
    exact List.mem_map_of_mem (List.mem_append_left _ hm)
  · -- it has written all that was sent, and waits for more
    obtain ⟨hrest, -⟩ := h.got_of_receives hreceives
    have hreading := h.reading
    simp only [Client.Reading, hreceives.1] at hreading
    refine ⟨?_, iff_of_false ?_ fun hnil => h.not_receives hgone hnil hreceives⟩
    · rw [hreading.2.2, ← h.sent_of_gone hgone, h.sent, hrest, List.append_nil]
      rfl
    · rw [hreceives.1]
      exact CliAt.noConfusion

/-- **All conversations come to one end, after the same number of steps.** All that the
server has to say is then on the standard output, and the client is done if the file is
answered; if not, it waits for a server that has gone. -/
theorem one_end (prog : Prog) (fs : List Char → File) (stdin line : List Char)
    (qbytes : QueueId → ℕ) (hq : ∀ id, MAXMESGDATA ≤ qbytes id)
    (hline : Stdio.fgets MAXMESGDATA stdin = some line) :
    ∃ n f, f.serv.pc.gone ∧ f.cli.stdout = (script prog fs (filename line)).flatten ∧
      (f.cli.pc = .done ∨ f.CliReceives prog) ∧
      (f.cli.pc = .done ↔
        filename line ≠ [] ∧ Answers prog (filename line) (fs (filename line))) ∧
      ∀ w, (machine prog fs stdin qbytes).Reach writes w →
        ∃ m k, Path ((machine prog fs stdin qbytes).only writes) m (start stdin qbytes) w ∧
          m + k = n ∧ Path ((machine prog fs stdin qbytes).only writes) k w f := by
  have hstart : (machine prog fs stdin qbytes).Reach writes (start stdin qbytes) := .init rfl
  obtain ⟨f, hf, hgone, hcli⟩ := server_ends hq hline hstart
  have hreach := hstart.append hf
  obtain ⟨hstdout, hdone⟩ := end_of_phase (phase_run hq hreach) hline hgone hcli
  -- one run to the end, for all the others
  obtain ⟨s, n, rfl, hpath⟩ := Path.of_reach hreach.to_only
  refine ⟨n, f, hgone, hstdout, hcli, hdone, fun w hw => ?_⟩
  exact Reach.descent (fun _ h => h) (fun _ _ _ h hstep => h.step (step_only.1 hstep).2)
    phase_balanced (final_of_gone hgone hcli) (phase_start hq) hpath hw.to_only

/-- Over two queues, of which neither holds more than a message. -/
theorem one_end_hello :
    ∃ n f, f.serv.pc.gone ∧ f.cli.stdout = ['h', 'i', '\n'] ∧
      ∀ w, (machine .system_v_ipc hello ['a', '\n'] fun _ => MAXMESGDATA).Reach writes w →
        ∃ k, k ≤ n ∧ Path ((machine .system_v_ipc hello ['a', '\n']
          fun _ => MAXMESGDATA).only writes) k w f := by
  obtain ⟨n, f, hgone, hstdout, -, -, hall⟩ := one_end .system_v_ipc hello ['a', '\n']
    ['a', '\n'] (fun _ => MAXMESGDATA) (fun _ => le_rfl) rfl
  refine ⟨n, f, hgone, hstdout, fun w hw => ?_⟩
  obtain ⟨m, k, -, hk, hpath⟩ := hall w hw
  exact ⟨k, by omega, hpath⟩

end End

end UnixNetProg.MessageQueue

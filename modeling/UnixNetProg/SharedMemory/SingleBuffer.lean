/-
The end of the programs with one buffer.

When the server exits, the kernel takes back what it has given to `clisem`: one
unit for every message, where at most one is there. If the client has not yet
taken the unit for the last message, it is gone, and the client waits for ever.

`completes` says that this is the only way for the transfer to fail: in a run in
which the server does not end while `clisem` counts something that the client
still waits for, the client is not left waiting, and when both have exited it has
written the file. The second version of the server waits for `clisem` to become 0
for that reason.

With a file of too many chunks it is the client that ends first, refused its
`sem_wait`; the server then waits for ever, unless all has been written (`Duo.Lost`).
-/
import UnixNetProg.SharedMemory.Exact

set_option autoImplicit false

namespace UnixNetProg.SharedMemory

open UnixNetProg.SysV UnixNetProg.Semaphore UnixNetProg.Runs

/-! ## The server is gone -/

/-- The client sleeps in `sem_wait (clisem)`, and the server is gone. -/
def Stuck (w : World Shared User) : Prop :=
  ∃ u x id, serverOf w = some (u, .dead) ∧
    clientOf w = some (x, .lib SEMKEY1 (.op_semop id (-1)) true)

/-- From `w` to `w'` the server ends. -/
def ends (w w' : World Shared User) : Bool :=
  match serverOf w, serverOf w' with
  | some (_, pc), some (_, pc') => pc != .dead && pc' == .dead
  | _, _ => false

/-- The client has left its loop. -/
def through (w : World Shared User) : Bool :=
  match clientOf w with
  | some (x, _) => x.stage.done
  | none => false

/-- A step without mishap that does not end the server while `clisem` counts something that
the client still waits for. -/
def drained (v : Version) (e : Env) (w : World Shared User) (a : Act User (Option ℕ)) : Prop :=
  calm w a ∧ ∀ w' ∈ w.step (program v e) a, ends w w' = true →
    (w.sem SEMKEY1).value 0 = 0 ∨ through w = true

instance (v : Version) (e : Env) (w : World Shared User) (a : Act User (Option ℕ)) :
    Decidable (drained v e w a) := by
  unfold drained
  infer_instance

/-- A client the server has left has the last message in its hands. -/
def Duo.Parted (d : Duo) : Prop :=
  d.sup = false → d.client.stage.done = true ∨
    d.cup = true ∧ d.client.stage = .len ∧ (d.shared.mesg d.client.i).mesg_len ≤ 0

/-- The server has waited on `servsem` once more than it has sent. -/
def ServerStage.ahead : ServerStage → Bool
  | .null | .open | .errmesg | .errlen | .errsend | .last | .lastsend | .read | .len | .send => true
  | _ => false

/-- The server with one buffer waits on `servsem` as often as it sends. -/
def Duo.Balanced (d : Duo) : Prop := d.bal = d.sent + d.server.stage.ahead.toNat

section Balanced

variable {e : Env} {d d' : Duo} {a : Act User (Option ℕ)}

theorem single_go_ahead {g : ℤ} {c : Option ℕ} {s s' : Shared} {u u' : Server}
    (hs : server_main .single e g s u c = some (s', .go u')) :
    u'.stage.ahead = u.stage.ahead := by
  obtain ⟨stage, i, n, file, off, clisem, servsem⟩ := u
  cases stage <;> simp only [server_main, server, single_server] at hs
  all_goals (try split at hs) <;> (try split_ifs at hs) <;> cases hs <;> rfl

/-- **Every step keeps the two together.** -/
theorem Duo.Balanced.step (h : d.Balanced) (hs : d.Step .single e a d')
    (hpost : d.server.stage ≠ .post) : d'.Balanced := by
  unfold Duo.Balanced at h ⊢
  have hreturn : ∀ {cl : Call}, d.server.routine = some cl →
      (∀ x, (server_return .single d.server x).stage.ahead = (match cl with
        | .sem_wait _ _ => true
        | _ => false)) ∧
      d.server.stage.ahead = (match cl with
        | .sem_signal _ _ => true
        | _ => false) := by
    intro cl hr
    generalize d.server = u at hr hpost
    obtain ⟨stage, i, n, file, off, clisem, servsem⟩ := u
    cases stage <;>
      first | (cases hr; done) | exact absurd rfl hpost | (cases hr; exact ⟨fun _ => rfl, rfl⟩)
  cases hs with
  | server_go _ _ hgo _ =>
    rw [single_go_ahead hgo]
    exact h
  | server_wait _ hr | server_signal _ hr | server_create _ hr | server_close _ hr =>
    obtain ⟨hback, hat⟩ := hreturn hr
    rw [hat] at h
    simp only [hback, Bool.toNat_true, Bool.toNat_false] at h ⊢
    omega
  | server_post _ hr =>
    -- only the loop over several buffers signals `servsem`
    unfold Server.routine at hr
    cases hst : d.server.stage <;> rw [hst] at hr hpost <;>
      first | exact absurd rfl hpost | cases hr
  | _ => exact h

end Balanced

/-- The client has been refused its `sem_wait`, and has ended in its loop. What it has written
is a prefix of the file, and all of it, or the server waits for ever. -/
structure Duo.Lost (data : List Char) (d : Duo) : Prop where
  gone : d.cup = false
  written : d.shared.out.flatten <+: data
  rest : d.shared.out.flatten = data ∨ d.sup = true ∧ d.server.stage = .wait ∧ d.serv = 0

section Parted

variable {e : Env} {data : List Char} {msgs : List (List Char)} {d d' : Duo}
  {a : Act User (Option ℕ)}

/-- Nothing more is written, and a server that waits goes on waiting. -/
theorem Duo.Lost.step (h : d.Lost data) (hs : d.Step .single e a d') : d'.Lost data := by
  have hclient : ¬ d.cup = true := by simp [h.gone]
  -- the server's other steps are not those of one that waits
  have hrest : ∀ {cl : Call} {P : Prop}, d.server.routine = some cl →
      (d.serv = 0 → ∀ key id, cl ≠ .sem_wait key id) → d.shared.out.flatten = data ∨ P := by
    intro cl P hr hno
    rcases h.rest with hall | ⟨-, hst, hzero⟩
    · exact .inl hall
    · rw [Server.routine, hst] at hr
      cases hr
      exact absurd rfl (hno hzero _ _)
  have hmain : ∀ {g : ℤ} {c : Option ℕ} {s : Shared} {x : Does Server} {P : Prop},
      server_main .single e g d.shared d.server c = some (s, x) → (∀ cl u, x ≠ .call cl u) →
      d.shared.out.flatten = data ∨ P := by
    intro g c s x P hs hx
    rcases h.rest with hall | ⟨-, hst, -⟩
    · exact .inl hall
    · simp only [server_main, SharedMemory.server, single_server, hst] at hs
      cases hs
      exact absurd rfl (hx _ _)
  cases hs with
  | idle => exact h
  | server_go _ _ hgo _ =>
    have hout := server_main_out hgo
    exact ⟨h.gone, by rw [hout]; exact h.written,
      by rw [hout]; exact hmain hgo fun _ _ hx => by cases hx⟩
  | server_quit _ _ hquit hx _ _ =>
    have hout := server_main_out hquit
    exact ⟨h.gone, by rw [hout]; exact h.written,
      by rw [hout]; exact hmain hquit (Does.of_quit hx).2⟩
  | server_wait _ hr hpos _ _ =>
    exact ⟨h.gone, h.written, hrest hr fun hzero => absurd hpos (by omega)⟩
  | server_signal _ hr | server_post _ hr | server_create _ hr | server_close _ hr =>
    exact ⟨h.gone, h.written, hrest hr fun _ _ _ hcl => by cases hcl⟩
  | server_fail _ hr hrefused _ _ =>
    refine ⟨h.gone, h.written, hrest hr fun hzero key id hcl => ?_⟩
    rw [hcl] at hrefused
    exact absurd hrefused.1 (by omega)
  | client_go _ hup | client_quit _ hup | client_wait hup | client_signal hup | client_open hup
  | client_close hup | client_fail hup => exact absurd hup hclient

/-- A client that ends in its loop leaves a message in the one buffer there is. -/
theorem Duo.Serving.lost {cli serv : ℕ} (h : d.Serving .single data msgs) (hsup : d.sup = true)
    (hst : d.client.stage = .wait) (hpos : 0 < d.cli) (hserv : serv ≤ d.serv) :
    ({ d with cup := false, cli := cli, serv := serv } : Duo).Lost data := by
  have hdone : d.client.stage.done = false := by
    rw [hst]
    rfl
  have hexact := h.exact hsup hdone
  have hcredit := h.credit hsup hdone
  have hfilled := h.filled
  have hscript := h.script
  rw [hst] at hexact hcredit
  have hone : d.server.posted .single ≤ 1 := by
    unfold Server.posted
    split_ifs with hpost
    · unfold Server.Script at hscript
      rw [hpost] at hscript
      exact hscript.elim
    · exact Nat.le_refl 1
  simp only [ClientStage.reads, ClientStage.returns, Bool.toNat_false] at hexact hcredit
  have hidle : d.server.stage.holds = false := by
    by_contra hholds
    rw [show d.server.stage.holds = true by simpa using hholds, Bool.toNat_true] at hcredit
    omega
  refine ⟨rfl, h.written, ?_⟩
  rw [(ServerStage.idle hidle).1, Bool.toNat_false] at hfilled
  unfold Server.Script at hscript
  have hzero : serv = 0 := by omega
  -- the server waits for the buffer, or has sent the empty message
  have hlast : (∃ ms, msgs = ms ++ [[]] ∧ [] ∉ ms) → d.shared.out.flatten = data := by
    rintro ⟨ms, hmsgs, -⟩
    apply h.complete
    have hout := h.out
    rw [hmsgs] at hout hfilled ⊢
    rw [List.length_append, List.length_singleton] at hfilled
    rw [(List.prefix_of_prefix_length_le hout (List.prefix_append ms [[]]) (by omega)).eq_of_length
      (by omega)]
  cases hstage : d.server.stage <;> rw [hstage] at hscript hidle <;>
    first
      | exact hscript.elim
      | exact .inl (hlast hscript)
      | exact .inr ⟨hsup, rfl, hzero⟩
      | cases hidle

/-- With nothing in `clisem` and the server at its end, the client has taken the last message. -/
theorem Duo.Serving.taken (h : d.Serving .single data msgs) (hsup : d.sup = true)
    (hst : d.server.stage = .exit) (hzero : d.client.stage.done = false → d.cli = 0) :
    d.client.stage.done = true ∨
      d.cup = true ∧ d.client.stage = .len ∧ (d.shared.mesg d.client.i).mesg_len ≤ 0 := by
  by_contra hnot
  rw [not_or] at hnot
  have hdone : d.client.stage.done = false := by simpa using hnot.1
  refine hnot.2 ⟨h.there hsup hdone, ?_⟩
  have hexact := h.exact hsup hdone
  have hfilled := h.filled
  have hscript := h.script
  unfold Server.Script at hscript
  rw [hst] at hscript hfilled
  rw [hzero hdone, Nat.zero_add] at hexact
  obtain ⟨ms, hmsgs, -⟩ := hscript
  -- it has written out less than there is, for the empty message is not written out
  have hlt : d.shared.out.length < msgs.length := by
    refine lt_of_le_of_ne h.out.length_le fun heq => h.solid ?_
    rw [h.out.eq_of_length heq, hmsgs]
    simp
  simp only [ServerStage.filled, Bool.toNat_false, Nat.add_zero] at hfilled
  have hreads : d.client.stage.reads = true := by
    by_contra hreads
    rw [show d.client.stage.reads = false by simpa using hreads] at hexact
    simp only [Bool.toNat_false, Nat.add_zero] at hexact
    omega
  rw [hreads, Bool.toNat_true] at hexact
  obtain ⟨hget, -, hlen, -⟩ := h.message_taken hreads
  have hempty : message msgs d.shared.out.length = [] := by
    have hlast : d.shared.out.length = ms.length := by
      rw [hmsgs, List.length_append, List.length_singleton] at hfilled
      omega
    rw [hlast, hmsgs, message_length]
  refine ⟨?_, by rw [hlen, hempty]; exact Int.le_refl 0⟩
  -- and what it writes out is not empty
  have hat := h.clientAt
  unfold Client.Place at hat
  cases hst : d.client.stage <;> rw [hst] at hreads hat <;>
    first | rfl | (cases hreads; done) | skip
  obtain ⟨-, m, hm, hne, -⟩ := hat
  rw [hm, Option.some.injEq] at hget
  exact absurd (hget.trans hempty) hne

/-- The server with one buffer ends in its `exit`. -/
theorem exit_of_quit {g : ℤ} {c : Option ℕ} {s s' : Shared} {u : Server} {x : Does Server}
    (hs : server_main .single e g s u c = some (s', x)) (hx : x = .exit ∨ ∃ msg, x = .err_sys msg)
    (hscript : u.Script .single msgs) (hc : c ≠ none) : u.stage = .exit := by
  obtain ⟨hgo, hcall⟩ := Does.of_quit hx
  obtain ⟨stage, i, n, file, off, clisem, servsem⟩ := u
  cases stage <;> first | rfl | exact hscript.elim | skip
  all_goals
    simp only [server_main, server, single_server] at hs
    (try split at hs) <;> (try split_ifs at hs) <;> cases hs <;>
      first | exact absurd rfl (hgo _) | exact absurd rfl (hcall _ _) | exact absurd rfl hc

/-- The server is there as long as the file is not open. -/
theorem Duo.Asking.stays {v : Version} (h : d.Asking e) (hopening : d.Opening)
    (htally : d.Tally) (hs : d.Step v e a d') : d'.sup = true := by
  have hsup := h.sup
  cases hs with
  | server_quit _ _ hmain hx _ _ => exact absurd hx (h.no_quit hopening hmain)
  | server_fail _ hr hrefused _ _ => exact absurd hrefused (h.not_refused htally hr)
  | _ => exact hsup

/-- With one buffer the server signals `clisem` only. -/
theorem Server.Script.signals {u : Server} {key : ℤ} {id : ℕ} (h : u.Script .single msgs)
    (hr : u.routine = some (.sem_signal key id)) : u.stage.holds = true ∧ key = SEMKEY1 := by
  obtain ⟨stage, i, n, file, off, clisem, servsem⟩ := u
  cases stage <;> first | exact h.elim | (cases hr; done) | (cases hr; exact ⟨rfl, rfl⟩)

/-- A client that has taken all there is could wait once more, and so the server is not
refused a routine. -/
theorem Duo.Serving.not_refused {cl : Call} (h : d.Serving .single data msgs) (htally : d.Tally)
    (hbalanced : d.Balanced) (hsup : d.sup = true) (hr : d.server.routine = some cl)
    (hzero : d.client.stage.done = false → d.cli = 0) : ¬ d.ServerRefused cl := by
  intro hrefused
  have hsent : d.client.stage.done = false → d.sent < SEMAEM := by
    intro hdone
    have hcup := h.there hsup hdone
    have hexact := h.exact hsup hdone
    have htaken := htally.taken
    have hfits := htally.fits (.inl ⟨hcup, hdone⟩) hcup
    rw [hzero hdone] at hexact
    rw [hdone, waited_of_late h.clientAt.late, Bool.toNat_true, Bool.toNat_false] at htaken
    omega
  cases cl with
  | sem_signal key id =>
    obtain ⟨hholds, hkey⟩ := h.script.signals hr
    have hdone := h.not_done hholds
    have hlimit := hrefused hkey (.inl ⟨h.there hsup hdone, hdone⟩)
    rw [hzero hdone] at hlimit
    have := hsent hdone
    have : (0 : ℕ) < SEMVMX := by decide
    omega
  | sem_wait key id =>
    obtain rfl : key = SEMKEY2 := by
      rcases Server.routine_cases hr with ⟨-, hcl⟩ | ⟨-, hcl⟩ | ⟨-, -, ⟨_, hcl⟩ | ⟨_, hcl⟩ |
        ⟨_, hcl⟩ | ⟨-, _, _, -, hcl⟩⟩ <;> cases hcl
      rfl
    obtain ⟨hst, -, hgoing⟩ := Server.waits h.script hr
    have hdone := h.not_done_of_going hgoing
    have hlimit := hrefused.2 (.inr ⟨h.there hsup hdone, hsup, .inl hdone⟩)
    have := hsent hdone
    unfold Duo.Balanced at hbalanced
    rw [hst, show ServerStage.wait.ahead.toNat = 0 from rfl] at hbalanced
    apply hlimit
    unfold UndoFits
    omega
  | _ => exact hrefused

/-- **The server leaves the client with the last message**, or after it. -/
theorem Duo.Parted.step (hp : d.Parted) (h : d.Serving .single data msgs) (htally : d.Tally)
    (hbalanced : d.Balanced) (hs : d.Step .single e a d') (hcalm : ∀ p c, a = .user p c → c ≠ none)
    (hquit : d'.sup = false → d.client.stage.done = false → d.sup = true → d.cli = 0) :
    d'.Parted := by
  intro hsup'
  by_cases hsup : d.sup = true
  · cases hs with
    | server_quit ha _ hmain hx _ _ =>
      obtain rfl := server_quit_shared hmain hx
      exact h.taken hsup (exit_of_quit hmain hx h.script (hcalm _ _ ha)) fun hdone =>
        hquit hsup' hdone hsup
    | server_fail _ hr hrefused _ _ =>
      exact absurd hrefused (h.not_refused htally hbalanced hsup hr fun hdone =>
        hquit hsup' hdone hsup)
    | _ => exact absurd hsup' (by simp [hsup])
  · -- only the client can do something, and it is done with its next statement
    have hgone : d.sup = false := by simpa using hsup
    rcases hp hgone with hdone | ⟨hcup, hst, hlen⟩
    · left
      by_contra hnot
      have hback := hs.le.done (by simpa using hnot)
      rw [hdone] at hback
      cases hback
    · have hnone : d.client.routine = none := by rw [Client.routine, hst]
      cases hs with
      | idle => exact .inr ⟨hcup, hst, hlen⟩
      | client_go _ _ hmain =>
        left
        simp only [client_main, hst, if_pos hlen] at hmain
        cases hmain
        rfl
      | client_quit _ _ hmain hx _ _ =>
        simp only [client_main, hst] at hmain
        cases hmain
        rcases hx with hx | ⟨msg, hx⟩ <;> cases hx
      | client_wait _ hr | client_signal _ hr | client_open _ hr | client_close _ hr =>
        rw [hnone] at hr
        cases hr
      | client_fail _ hfail _ _ _ =>
        obtain ⟨cl, hr, -⟩ := hfail (by rw [hst]; rfl)
        rw [hnone] at hr
        cases hr
      | server_go _ hup | server_quit _ hup | server_wait hup | server_signal hup | server_post hup
      | server_create hup | server_close hup | server_fail hup => exact absurd hup hsup

end Parted

/-! ## Every run -/

section Runs

variable {e : Env} {data : List Char} {w : World Shared User}

/-- How a run of the two goes: the name, then the file, and perhaps a client that can take no
more. -/
inductive Duo.Course (e : Env) (data : List Char) (d : Duo) : Prop
  | asking : d.Asking e → d.Balanced → Course e data d
  | serving {msgs : List (List Char)} : d.Serving .single data msgs → d.Balanced → d.Parted →
      Course e data d
  | lost : d.Lost data → Course e data d

/-- A step in a run in which the server does not end too early. -/
theorem Sound.course {w' : World Shared User} {a : Act User (Option ℕ)} {d d' : Duo}
    {h₀ h₁ h₀' h₁' : ℤ → Option ℕ} {pc₀ pc₁ pc₀' pc₁' : Pc} (h : Sound w d h₀ pc₀ h₁ pc₁)
    (h' : Sound w' d' h₀' pc₀' h₁' pc₁') (hok : drained .single e w a)
    (hpost : ∀ q ∈ w.procs, Posting .single q) (hfile : e.files (filename e) = some data)
    (hs : w.step (program .single e) a = some w') (hd : d.Step .single e a d')
    (hcourse : d.Course e data) : d'.Course e data := by
  obtain ⟨hcalm, hdrained⟩ := hok
  have hcalm' : ∀ p c, a = .user p c → c ≠ none := by
    intro p c ha
    rw [ha] at hcalm
    exact hcalm
  cases hcourse with
  | lost hlost => exact .lost (hlost.step hd)
  | asking hask hbalanced =>
    have hbalanced' := hbalanced.step hd (by
      intro hst
      rcases hask.stage with hst' | hst' | hst' <;> rw [hst] at hst' <;> cases hst')
    rcases h.asks hfile hd hask with hask' | hserving
    · exact .asking hask' hbalanced'
    · refine .serving hserving hbalanced' fun hsup => ?_
      rw [hask.stays h.opening h.tally hd] at hsup
      cases hsup
  | @serving msgs hserving hbalanced hparted =>
    by_cases hend : d.sup = true ∧ d.client.stage.done = false ∧ d'.cup = false
    · obtain ⟨hsup, hdone, hcup⟩ := hend
      obtain ⟨⟨cli, serv, rfl, hserv⟩, hst, hpos, -⟩ :=
        hserving.client_ends h.tally hcalm' hd hsup hdone hcup
      exact .lost (hserving.lost hsup hst hpos hserv)
    have hlive : d.sup = true → d.client.stage.done = false → d'.cup = true := by
      intro hsup hdone
      by_contra hcup
      exact hend ⟨hsup, hdone, by simpa using hcup⟩
    obtain ⟨msgs', hserving', -⟩ := h.serves hcalm hpost Nat.one_pos hd hserving hlive
    have hscript := hserving.script
    unfold Server.Script at hscript
    refine .serving hserving' (hbalanced.step hd ?_)
      (hparted.step hserving h.tally hbalanced hd hcalm' ?_)
    · intro hst
      rw [hst] at hscript
      exact hscript
    · -- the step is one that ends the server
      intro hsup' hdone hsup
      have hpc : (pc₀ != .dead) = true := h.sees.sup.symm.trans hsup
      have hpc' : (pc₀' != .dead) = false := h'.sees.sup.symm.trans hsup'
      have hends : ends w w' = true := by
        simp only [ends, h.sees.serverOf, h'.sees.serverOf, hpc, Bool.true_and]
        simpa using hpc'
      have hblank : d.server.blank pc₀ = false := by
        unfold Server.blank
        cases hst : d.server.stage <;> rw [hst] at hscript <;> first | rfl | exact hscript.elim
      rcases hdrained w' hs hends with hzero | hthrough
      · rw [h.sees.cli_eq hblank, hzero]
      · simp only [through, h.sees.clientOf, hdone] at hthrough
        cases hthrough

/-- **Every run in which the server does not end too early takes this course.** -/
theorem course_of_reach (hfile : e.files (filename e) = some data)
    (h : (both .single e).Reach (drained .single e) w) :
    ∃ d h₀ pc₀ h₁ pc₁, Sound w d h₀ pc₀ h₁ pc₁ ∧ d.Course e data := by
  have h' : (both .single e).Reach
      (fun w a => drained .single e w a ∧ ∀ q ∈ w.procs, Posting .single q) w :=
    h.strengthen fun w a w' hw hok _ => ⟨hok, posting_of_reach hw⟩
  refine sound_of_reach (I := fun d => d.Course e data) (fun _ _ hok => hok.1.1)
    (.asking (Duo.Asking.start e) rfl) ?_ h'
  intro w w' a d d' h₀ pc₀ h₁ pc₁ h₀' pc₀' h₁' pc₁' hok hs hsound hsound' hI hd
  exact hsound.course hsound' hok.1 hok.2 hfile hs hd hI

/-- A client in a routine on `clisem` that waits has not got the last message. -/
theorem Sound.waits {d : Duo} {h₀ h₁ : ℤ → Option ℕ} {pc₀ : Pc} {id : ℕ} {b : Bool} {v : Version}
    (h : Sound w d h₀ pc₀ h₁ (.lib SEMKEY1 (.op_semop id (-1)) b)) (hw : Sane v e w) :
    d.client.stage.done = false ∧ d.client.stage ≠ .len := by
  obtain ⟨cl, hr, -, hwithin, -⟩ := h.sees.client_lib hw
  constructor
  · by_contra hdone
    have hdone : d.client.stage.done = true := by simpa using hdone
    rcases Client.routine_cases hr with ⟨hopen, -⟩ | ⟨_, rfl⟩ | ⟨_, rfl⟩ | ⟨-, _, _, -, rfl⟩
    · rw [opened_of_late (late_of_done hdone)] at hopen
      cases hopen
    · revert hr hdone
      unfold Client.routine
      cases d.client.stage <;> intro hr hdone <;> first | (cases hdone; done) | cases hr
    · exact absurd hwithin.2.1 (by decide)
    · exact hwithin.elim
  · intro hst
    rw [Client.routine, hst] at hr
    cases hr

/-- A client that sleeps with nothing in `clisem` sleeps on: nothing happens any more. -/
theorem Stuck.forever {v : Version} {a : Act User (Option ℕ)} (h : Stuck w)
    (hzero : (w.sem SEMKEY1).value 0 = 0) (hw : (both v e).Reach calm w) (hcalm : calm w a) :
    w.step (program v e) a = none := by
  obtain ⟨d, h₀, pc₀, h₁, pc₁, hsound, -⟩ :=
    sound_of_reach (I := fun _ => True) (fun _ _ hok => hok) trivial (fun _ _ _ _ _ _ => trivial) hw
  obtain ⟨u, x, id, hu, hx⟩ := h
  rw [hsound.sees.serverOf, Option.some.injEq, Prod.mk.injEq] at hu
  rw [hsound.sees.clientOf, Option.some.injEq, Prod.mk.injEq] at hx
  obtain ⟨rfl, rfl⟩ := hu
  obtain ⟨rfl, rfl⟩ := hx
  have hprocs := hsound.sees.procs
  have hblock : (Point.op_semop id (-1)).perform (w.sem SEMKEY1) 1 true = none := by
    -- the set is there, since the client has it open
    obtain ⟨cl, hr, hkey, hwithin, -⟩ := hsound.sees.client_lib (sane_of_reach hw)
    obtain ⟨id', rfl⟩ : ∃ id', cl = .sem_wait SEMKEY1 id' := by
      rcases Client.routine_cases hr with ⟨-, _, -, rfl⟩ | ⟨id', rfl⟩ | ⟨_, rfl⟩ | ⟨-, _, _, -, rfl⟩
      · exact hwithin.elim
      · exact ⟨id', rfl⟩
      · exact absurd hwithin.2.1 (by decide)
      · exact hwithin.elim
    obtain ⟨rfl, -, hheld⟩ := hwithin
    obtain ⟨S, hcur⟩ := (hsound.kept (.inl rfl)).there (hsound.sees.client_get SEMKEY1) hheld
    rw [Slot.value_of_cur hcur] at hzero
    simp [Point.perform, Point.call, Slot.call, Slot.find_eq_some.2 hcur, semop_wait, hzero]
  cases a with
  | spawn u => cases hcalm
  | die p => cases hcalm
  | nospace p => cases hcalm
  | user p c =>
    cases p with
    | zero => simp [World.step, hprocs]
    | succ p => cases p <;> simp [World.step, hprocs]
  | sys p =>
    cases p with
    | zero => simp [World.step, hprocs]
    | succ p => cases p <;> simp [World.step, hprocs, hblock]

/-- **The transfer through one buffer is complete if the server exits only when `clisem` is 0**,
or the client has left its loop. What the client has written is a prefix of the file, it is
not left waiting, and when both have exited it has written the file. -/
theorem completes (e : Env) (data : List Char) (hfile : e.files (filename e) = some data)
    (w : World Shared User) (h : (both .single e).Reach (drained .single e) w) :
    w.shared.out.flatten <+: data ∧ ¬ Stuck w ∧
      ∀ u x, serverOf w = some (u, .dead) → clientOf w = some (x, .dead) →
        w.shared.out.flatten = data := by
  obtain ⟨d, h₀, pc₀, h₁, pc₁, hsound, hcourse⟩ := course_of_reach hfile h
  rw [hsound.sees.shared]
  refine ⟨?_, ?_, ?_⟩
  · cases hcourse with
    | asking hask =>
      rw [hask.out]
      exact List.nil_prefix
    | serving hserving => exact hserving.written
    | lost hlost => exact hlost.written
  · rintro ⟨u, x, id, hu, hx⟩
    rw [hsound.sees.serverOf, Option.some.injEq, Prod.mk.injEq] at hu
    rw [hsound.sees.clientOf, Option.some.injEq, Prod.mk.injEq] at hx
    obtain ⟨rfl, rfl⟩ := hu
    obtain ⟨rfl, rfl⟩ := hx
    obtain ⟨hdone, hlen⟩ := hsound.waits (sane_of_reach h)
    have hsup : d.sup = false := hsound.sees.sup
    have hcup : d.cup = true := hsound.sees.cup
    cases hcourse with
    | asking hask =>
      rw [hask.sup] at hsup
      cases hsup
    | serving _ _ hparted =>
      rcases hparted hsup with hdone' | ⟨-, hst, -⟩
      · rw [hdone] at hdone'
        cases hdone'
      · exact hlen hst
    | lost hlost =>
      rw [hlost.gone] at hcup
      cases hcup
  · intro u x hu hx
    rw [hsound.sees.serverOf, Option.some.injEq, Prod.mk.injEq] at hu
    rw [hsound.sees.clientOf, Option.some.injEq, Prod.mk.injEq] at hx
    obtain ⟨rfl, rfl⟩ := hu
    obtain ⟨rfl, rfl⟩ := hx
    have hsup : d.sup = false := hsound.sees.sup
    have hcup : d.cup = false := hsound.sees.cup
    cases hcourse with
    | asking hask =>
      rw [hask.sup] at hsup
      cases hsup
    | serving hserving _ hparted =>
      rcases hparted hsup with hdone | ⟨hcup', -⟩
      · exact hserving.complete (hserving.clientAt.done hdone).1
      · rw [hcup] at hcup'
        cases hcup'
    | lost hlost =>
      rcases hlost.rest with hall | ⟨hsup', -⟩
      · exact hall
      · rw [hsup] at hsup'
        cases hsup'

end Runs

/-- The server has sent the file in one message, and has set the length 0; the client, which
has written the file out, is about to wait for that. -/
def toLast : List (Act User (Option ℕ)) :=
  -- up to the first `sem_wait` of the server
  own 0 3 ++ calls 0 6 ++ own 0 2 ++ calls 0 6 ++ own 0 2 ++
  -- the client asks
  own 1 3 ++ calls 1 2 ++ own 1 2 ++ calls 1 2 ++ own 1 2 ++ calls 1 1 ++ own 1 4 ++ calls 1 1 ++
  own 1 1 ++
  -- the server sends the two bytes, the client writes them, and the server finds the end
  calls 0 1 ++ own 0 2 ++ [.user 0 (some 2)] ++ own 0 2 ++ calls 0 1 ++ own 0 1 ++
  calls 1 1 ++ own 1 3 ++ calls 1 1 ++ own 1 2 ++ calls 0 1 ++ own 0 3

/-- The server closes the semaphores and exits. -/
def toEnd : List (Act User (Option ℕ)) := own 0 2 ++ calls 0 3 ++ own 0 1 ++ calls 0 3 ++ own 0 1

/-- The client takes the last message before the server exits. -/
theorem completes_taken : ∃ w, (both .single smallFile).Reach (drained .single smallFile) w ∧
    (serverOf w).map (·.2) = some .dead ∧ (clientOf w).map (·.2) = some .dead ∧
    w.shared.out.flatten = ['a', 'b'] := by
  have hrun := Machine.Reach.run (both .single smallFile) (drained .single smallFile) rfl
    (toLast ++ calls 0 1 ++ calls 1 1 ++ toEnd ++ own 1 5 ++ calls 1 3 ++ own 1 1 ++ calls 1 3 ++
      own 1 1) (by decide +kernel)
  refine ⟨_, hrun, by decide +kernel, by decide +kernel, ?_⟩
  have hfull := (completes smallFile ['a', 'b'] (by decide) _ hrun).2.2
  exact hfull ⟨.exit, 0, 0, some ['a', 'b'], 2, 0, 0⟩ ⟨.exit, 1, 0, 0, 0⟩ (by decide +kernel)
    (by decide +kernel)

/-- The client is not run between the server's last signal and its exit: it calls `semop` only
then, and sleeps; nothing happens any more. -/
theorem single_stuck : ∃ w, (both .single smallFile).Reach calm w ∧ Stuck w ∧
    ∀ a, calm w a → w.step (program .single smallFile) a = none := by
  have hrun := Machine.Reach.run (both .single smallFile) calm rfl
    (toLast ++ calls 0 1 ++ toEnd ++ calls 1 1) (by decide +kernel)
  refine ⟨_, hrun, ?stuck, fun a hcalm => Stuck.forever ?stuck ?_ hrun hcalm⟩
  · exact ⟨⟨.exit, 0, 0, some ['a', 'b'], 2, 0, 0⟩, ⟨.wait, 0, 2, 0, 0⟩, 0, by decide +kernel,
      by decide +kernel⟩
  · decide +kernel

end UnixNetProg.SharedMemory

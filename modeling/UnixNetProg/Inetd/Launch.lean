/-
`inetd` launches what `select` reported, unless `sig_child` runs during the scan.

`select` leaves what it reports in `read_sockfds`, and `sig_child` puts the socket
of the child it has waited for back into the same set. Where it does so between
the return of `select` and the end of the scan, the scan may find a socket that
was not reported, and its child waits for a datagram that has not arrived.

`Watch` goes along with the loop and keeps what the last `select` reported and
every child that was forked since. Outside the handler the first socket that the
scan is still to find is one that was reported (`FirstReported`); a handler that
comes `timely` keeps it so, and where it does not, the loop is on its way to a
child for a socket that was not.
-/
import UnixNetProg.Inetd.Rearm

set_option autoImplicit false

namespace UnixNetProg.Inetd

open UnixNetProg.Processes UnixNetProg.Runs

/-! ## What `select` reported -/

/-- A child that was forked, with the set that `select` had returned. -/
structure Launch where
  service : Serv
  reported : Fd_set

/-- The loop, with what the last `select` returned and the children forked so
far. -/
structure Watch where
  world : World
  reported : Fd_set
  launched : List Launch

namespace Watch

def step (t : Watch) (a : Act) : Option Watch :=
  (t.world.step a).map fun w =>
    { world := w
      reported := match a with | .ready fds => fds | _ => t.reported
      launched := match a, t.world.pc with
        | .forked _, .fork i => ⟨i, t.reported⟩ :: t.launched
        | _, _ => t.launched }

/-- The same, with the loop elsewhere. -/
def goto (t : Watch) (pc : At) : Watch := { t with world := { t.world with pc := pc } }

/-- Every child was forked for a socket that `select` had reported. -/
def AllReported (t : Watch) : Prop := ∀ l ∈ t.launched, l.reported l.service = true

end Watch

/-- Before the first `select`. -/
def unwatched : Watch := ⟨start, fun _ => false, []⟩

def watched : Machine Watch Act where
  init := fun t => t = unwatched
  step := Watch.step

/-- If the socket of the child `pid` is put back during the scan, it was reported, or it
is not the next one that the scan finds. -/
def Watch.spares (t : Watch) (pid : ℕ) : At → Prop
  | .scan k => ∀ i : Serv, t.world.serviceOf pid = some i → k ≤ i →
      (∀ j : Serv, k ≤ j → j < i → t.world.read_sockfds j = false) → t.reported i = true
  | _ => True

/-- The handler does not wait for such a child during the scan. -/
def timely (t : Watch) : Act → Prop
  | .waitpid c => t.spares c.pid t.world.pc
  | _ => True

instance (t : Watch) (pid : ℕ) (pc : At) : Decidable (t.spares pid pc) := by
  cases pc <;> dsimp only [Watch.spares] <;> infer_instance

instance (t : Watch) : (a : Act) → Decidable (timely t a)
  | .waitpid c => inferInstanceAs (Decidable (t.spares c.pid t.world.pc))
  | .go | .ready _ | .forked _ | .fails | .exits _ | .sigchld | .nochild => instDecidableTrue

/-- Watching the loop does not change what it does. -/
theorem watched_iff {w : World} :
    (∃ t, watched.Reach (fun _ _ => True) t ∧ t.world = w) ↔
      machine.Reach (fun _ _ => True) w := by
  constructor
  · rintro ⟨t, ht, rfl⟩
    induction ht with
    | init hs =>
      obtain rfl := hs
      exact .init rfl
    | step _ _ hs ih =>
      obtain ⟨w', hw, rfl⟩ := Option.map_eq_some_iff.1 hs
      exact .step ih trivial hw
  · intro hw
    induction hw with
    | init hs =>
      obtain rfl := hs
      exact ⟨unwatched, .init rfl, rfl⟩
    | step _ _ hs ih =>
      obtain ⟨t, ht, rfl⟩ := ih
      exact ⟨_, .step ht trivial (Option.map_eq_some_iff.2 ⟨_, hs, rfl⟩), rfl⟩

/-! ## The scan -/

/-- The first socket from `k` on that is in the set is one that was reported. -/
def FirstReported (reported fds : Fd_set) (k : ℕ) : Prop :=
  ∀ i : Serv, k ≤ i → fds i = true → (∀ j : Serv, k ≤ j → j < i → fds j = false) →
    reported i = true

/-- What the loop is about to launch was reported. -/
def At.Told (pc : At) (reported fds : Fd_set) : Prop :=
  match pc with
  | .scan k => FirstReported reported fds k
  | .accept i | .fork i => reported i = true
  | _ => True

section Scan

variable {w : World} {reported fds : Fd_set} {i : Serv} {k : ℕ}

/-- The loop knows each of the services. -/
theorem scanned_eq (i : Serv) :
    w.scanned i =
      if w.read_sockfds i then if sock_type i = 0 then .accept i else .fork i
      else .scan (i + 1) := by
  have hname : ∀ j : Serv, (sock_type j = 0 → service j = "str_echo" ∨ service j = "str_dis") ∧
      (sock_type j ≠ 0 → service j = "dg_echo" ∨ service j = "dg_dis") := by decide
  obtain ⟨hstream, hdgram⟩ := hname i
  unfold World.scanned
  rw [dif_pos i.isLt]
  split_ifs with hset htype hserv hserv
  · rfl
  · exact absurd (hstream htype) hserv
  · rfl
  · exact absurd (hdgram htype) hserv
  · rfl

/-- A socket that is not in the set is passed over. -/
theorem FirstReported.succ (h : FirstReported reported fds i) (hi : fds i = false) :
    FirstReported reported fds (i + 1) := by
  intro m hm hset hfirst
  apply h m (Nat.le_of_succ_le hm) hset
  intro j hj hlt
  by_cases hji : j = i
  · rw [hji, hi]
  · have hne := Fin.val_ne_of_ne hji
    exact hfirst j (by omega) hlt

theorem FirstReported.scanned (h : FirstReported reported w.read_sockfds k) :
    (w.scanned k).Told reported w.read_sockfds := by
  by_cases hk : k < ARR_ELE_CNT
  · obtain ⟨i, rfl⟩ : ∃ i : Serv, k = i := ⟨⟨k, hk⟩, rfl⟩
    rw [scanned_eq]
    split_ifs with hset htype
    · exact h i le_rfl hset fun j hj hlt => absurd hlt (Nat.not_lt.2 hj)
    · exact h i le_rfl hset fun j hj hlt => absurd hlt (Nat.not_lt.2 hj)
    · exact h.succ (by simpa using hset)
  · unfold World.scanned
    rw [dif_neg hk]
    trivial

/-- A socket is put back: it is reported, or not the next one. -/
theorem FirstReported.putBack (h : FirstReported reported fds k)
    (hi : k ≤ i → (∀ j : Serv, k ≤ j → j < i → fds j = false) → reported i = true) :
    FirstReported reported (Function.update fds i true) k := by
  intro m hm hset hfirst
  by_cases hmi : m = i
  · subst hmi
    apply hi hm
    intro j hj hlt
    have hunset := hfirst j hj hlt
    rwa [Function.update_of_ne (Fin.ne_of_lt hlt)] at hunset
  · rw [Function.update_of_ne hmi] at hset
    apply h m hm hset
    intro j hj hlt
    have hunset := hfirst j hj hlt
    by_cases hji : j = i
    · rw [hji, Function.update_self] at hunset
      cases hunset
    · rwa [Function.update_of_ne hji] at hunset

end Scan

/-! ## Every timely step keeps it -/

/-- What the loop is about to launch was reported, and so was what it has
launched. -/
structure Honest (t : Watch) : Prop where
  told : t.world.pc.Told t.reported t.world.read_sockfds
  reported : t.AllReported

section Steps

variable {w w' : World} {reported : Fd_set} {c : Child Serv} {t t' : Watch}

/-- `sig_child` puts back the socket of the service whose child it finds. -/
theorem waitpid_cases (h : w.step (.waitpid c) = some w') :
    w'.pc = w.pc ∧ w'.handling = false ∧
      ((∃ i, w.serviceOf c.pid = some i ∧
          w'.read_sockfds = Function.update w.read_sockfds i true) ∨
        w.serviceOf c.pid = none ∧ w'.read_sockfds = w.read_sockfds) := by
  simp only [World.step] at h
  split_ifs at h
  obtain ⟨cs, -, rfl⟩ := Option.map_eq_some_iff.1 h
  have hserv : { w with children := cs }.serviceOf c.pid = w.serviceOf c.pid := rfl
  unfold World.reaped
  rw [hserv]
  cases hfind : w.serviceOf c.pid with
  | some i => exact ⟨rfl, rfl, .inl ⟨i, rfl, rfl⟩⟩
  | none => exact ⟨rfl, rfl, .inr ⟨rfl, rfl⟩⟩

theorem told_go (h : w.pc.Told reported w.read_sockfds) (hs : w.step .go = some w') :
    w'.pc.Told reported w'.read_sockfds := by
  -- only the scan reads the set
  by_cases hscan : ∃ k, w.pc = .scan k
  · obtain ⟨k, hpc⟩ := hscan
    simp only [World.step, World.go, hpc] at hs
    split_ifs at hs
    cases hs
    rw [hpc] at h
    exact FirstReported.scanned h
  · cases moves_of_step hs with
    | skip hpc => exact absurd ⟨_, hpc⟩ hscan
    | stream hpc => exact absurd ⟨_, hpc⟩ hscan
    | datagram hpc => exact absurd ⟨_, hpc⟩ hscan
    | accepted hpc =>
      rw [hpc] at h
      exact h
    | _ => trivial

theorem told_waitpid (h : t.world.pc.Told t.reported t.world.read_sockfds)
    (htimely : timely t (.waitpid c)) (hs : t.world.step (.waitpid c) = some w') :
    w'.pc.Told t.reported w'.read_sockfds := by
  obtain ⟨hpc, -, ⟨i, hfind, hset⟩ | ⟨-, hset⟩⟩ := waitpid_cases hs
  · rw [hpc, hset]
    cases hat : t.world.pc with
    | scan k =>
      rw [hat] at h
      simp only [timely, hat, Watch.spares] at htimely
      exact FirstReported.putBack h (htimely i hfind)
    | accept j =>
      rw [hat] at h
      exact h
    | fork j =>
      rw [hat] at h
      exact h
    | _ => trivial
  · rw [hpc, hset]
    exact h

/-- **Every timely step keeps it.** -/
theorem Honest.step {a : Act} (h : Honest t) (htimely : timely t a) (hs : t.step a = some t') :
    Honest t' := by
  obtain ⟨w', hw, rfl⟩ := Option.map_eq_some_iff.1 hs
  have htold := h.told
  -- a launch is reported in the step that forks
  cases a with
  | go => exact ⟨told_go htold hw, h.reported⟩
  | ready fds =>
    cases moves_of_step hw with
    | ready _ _ => exact ⟨fun i _ hset _ => hset, h.reported⟩
  | forked pid =>
    cases moves_of_step hw with
    | served hpc _ _ =>
      rw [hpc] at htold
      refine ⟨trivial, ?_⟩
      show ∀ l ∈ _, _
      rw [hpc]
      exact List.forall_mem_cons.2 ⟨htold, h.reported⟩
    | forked hpc _ _ =>
      rw [hpc] at htold
      refine ⟨trivial, ?_⟩
      show ∀ l ∈ _, _
      rw [hpc]
      exact List.forall_mem_cons.2 ⟨htold, h.reported⟩
  | fails =>
    cases moves_of_step hw with
    | fails _ => exact ⟨trivial, h.reported⟩
  | exits c =>
    cases moves_of_step hw with
    | exits _ => exact ⟨htold, h.reported⟩
  | sigchld =>
    cases moves_of_step hw with
    | interrupt _ _ _ => exact ⟨trivial, h.reported⟩
    | enter _ _ _ => exact ⟨htold, h.reported⟩
  | waitpid c =>
    have htold' := told_waitpid htold htimely hw
    exact ⟨htold', h.reported⟩
  | nochild =>
    cases moves_of_step hw with
    | nochild _ _ => exact ⟨htold, h.reported⟩

end Steps

/-! ## Where the handler is not timely -/

section Untimely

variable {t t' : Watch} {i : Serv} {k : ℕ} {a : Act}

theorem timely_go : timely t .go := trivial

theorem timely_forked (pid : ℕ) : timely t (.forked pid) := trivial

/-- One turn of the scan. -/
theorem step_scan (hhandling : t.world.handling = false) :
    (t.goto (.scan k)).step .go = some (t.goto (t.world.scanned k)) := by
  simp only [Watch.step, World.step, World.go, Watch.goto, hhandling]
  rfl

/-- The scan passes over the sockets that are not in the set. -/
theorem reach_scan (hhandling : t.world.handling = false) (hpc : t.world.pc = .scan k)
    (hk : k ≤ i) (hunset : ∀ j : Serv, k ≤ j → j < i → t.world.read_sockfds j = false) :
    (watched.startedAt t).Reach timely (t.goto (.scan i)) := by
  obtain ⟨n, hn⟩ := Nat.exists_eq_add_of_le hk
  -- by the number of sockets passed over
  suffices hgo : ∀ m ≤ n, (watched.startedAt t).Reach timely (t.goto (.scan (k + m))) by
    rw [hn]
    exact hgo n le_rfl
  intro m hm
  induction m with
  | zero =>
    apply Machine.Reach.init
    show t.goto (.scan k) = t
    rw [← hpc]
    rfl
  | succ m ih =>
    apply (ih (by omega)).step timely_go
    have hlt : k + m < ARR_ELE_CNT := by omega
    have hscanned : t.world.scanned (k + m) = .scan (k + m + 1) := by
      rw [scanned_eq ⟨k + m, hlt⟩, hunset ⟨k + m, hlt⟩ (Nat.le_add_right k m)
        (Fin.lt_def.2 (by simp only; omega))]
      rfl
    rw [← Nat.add_assoc, ← hscanned]
    exact step_scan hhandling

/-- The scan finds the next socket in the set, and goes on to `fork`. -/
theorem reach_fork (hhandling : t.world.handling = false) (hpc : t.world.pc = .scan k)
    (hk : k ≤ i) (hunset : ∀ j : Serv, k ≤ j → j < i → t.world.read_sockfds j = false)
    (hset : t.world.read_sockfds i = true) :
    (watched.startedAt t).Reach timely (t.goto (.fork i)) := by
  have hfound := (reach_scan hhandling hpc hk hunset).step timely_go (step_scan hhandling)
  rw [scanned_eq, if_pos hset] at hfound
  split_ifs at hfound with htype
  · -- `accept` comes before `fork`
    apply hfound.step timely_go
    show Watch.step _ _ = _
    simp only [Watch.step, World.step, World.go, Watch.goto, hhandling]
    rfl
  · exact hfound

/-- A child is forked for a socket that was not reported. -/
theorem reach_unreported (hhandling : t.world.handling = false) (hpc : t.world.pc = .fork i)
    (hunreported : t.reported i = false) :
    ∃ u, (watched.startedAt t).Reach timely u ∧ ¬ u.AllReported := by
  obtain ⟨pid, cs, hfork⟩ := t.world.children.exists_fork i
  have hstep : t.step (.forked pid) = some
      { t with
        world := { t.world with
          children := cs, pc := if sock_type i = 0 then .fill 0 else .record i pid }
        launched := ⟨i, t.reported⟩ :: t.launched } := by
    simp only [Watch.step, World.step, World.forked, hhandling, hpc, hfork]
    rfl
  refine ⟨_, .step (.init rfl) (timely_forked pid) hstep, ?_⟩
  intro hall
  have hlast := hall _ (List.mem_cons_self ..)
  simp [hunreported] at hlast

/-- **A handler that is not timely puts the loop on its way** to a child for a
socket that was not reported. -/
theorem reach_of_untimely (huntimely : ¬ timely t a) (hs : t.step a = some t') :
    ∃ u, (watched.startedAt t').Reach timely u ∧ ¬ u.AllReported := by
  obtain ⟨w', hw, rfl⟩ := Option.map_eq_some_iff.1 hs
  cases a with
  | waitpid c =>
    cases hat : t.world.pc with
    | scan k =>
      simp only [timely, hat, Watch.spares] at huntimely
      push Not at huntimely
      obtain ⟨i, hfind, hk, hunset, hunreported⟩ := huntimely
      obtain ⟨hpc, hhandling, ⟨j, hfound, hput⟩ | ⟨hnone, -⟩⟩ := waitpid_cases hw
      · obtain rfl : i = j := Option.some.inj (hfind.symm.trans hfound)
        -- the socket that was put back is now the next one
        have hunset' : ∀ m : Serv, k ≤ m → m < i → w'.read_sockfds m = false := by
          intro m hm hlt
          rw [hput, Function.update_of_ne (Fin.ne_of_lt hlt), hunset m hm hlt]
        have hset : w'.read_sockfds i = true := by rw [hput, Function.update_self]
        have hfork := reach_fork (t := ⟨w', t.reported, t.launched⟩) hhandling (hpc.trans hat) hk
          hunset' hset
        have hno : t.reported i = false := by simpa using hunreported
        obtain ⟨u, hu, hbad⟩ := reach_unreported
          (t := Watch.goto ⟨w', t.reported, t.launched⟩ (.fork i)) hhandling rfl hno
        exact ⟨u, hfork.append hu, hbad⟩
      · rw [hnone] at hfind
        cases hfind
    | _ =>
      simp only [timely, hat, Watch.spares] at huntimely
      exact absurd trivial huntimely
  | _ => exact absurd trivial huntimely

end Untimely

/-! ## In every run -/

theorem honest_of_reach {t : Watch} (h : watched.Reach timely t) : Honest t := by
  apply h.invariant (I := Honest)
  · rintro t rfl
    exact ⟨trivial, nofun⟩
  · intro t a t' _ hinv htimely hs
    exact hinv.step htimely hs

/-- **Only what `select` reported is launched**, in any run in which the handler
is timely; and a step is timely if and only if this goes on to be so. -/
theorem launched_reported_iff (t : Watch) (h : watched.Reach timely t) :
    t.AllReported ∧ ∀ a t', t.step a = some t' →
      (timely t a ↔ ∀ u, (watched.startedAt t').Reach timely u → u.AllReported) := by
  refine ⟨(honest_of_reach h).reported, ?_⟩
  intro a t' hs
  constructor
  · intro htimely u hu
    have ht' : watched.Reach timely t' := h.step htimely hs
    exact (honest_of_reach (ht'.append hu)).reported
  · intro hall
    by_contra huntimely
    obtain ⟨u, hu, hbad⟩ := reach_of_untimely huntimely hs
    exact hbad (hall u hu)

/-- The child of `dg_echo` terminates as `select` returns for `dg_dis`; the socket
of `dg_echo` is put back before the scan reaches it. -/
def putBackEarly : List Act :=
  oneRound ++ [.ready fun i => i == dg_dis, .exits ⟨7, dg_echo, true⟩, .sigchld,
    .waitpid ⟨7, dg_echo, false⟩, .go, .go, .forked 8]

/-- The same, but the scan has passed `dg_echo`. -/
def putBackLate : List Act :=
  oneRound ++ [.ready fun i => i == dg_dis, .go, .go, .exits ⟨7, dg_echo, true⟩, .sigchld,
    .waitpid ⟨7, dg_echo, false⟩, .go, .go, .forked 8]

theorem putBackEarly_runs :
    (watched.exec (fun _ _ => True) unwatched putBackEarly).isSome = true := by decide

theorem putBackLate_runs : (watched.exec timely unwatched putBackLate).isSome = true := by decide

/-- The two children of the late run are those of the two services reported. -/
theorem launched_reported_late :
    ((watched.exec timely unwatched putBackLate).get putBackLate_runs).launched.length = 2 ∧
      ((watched.exec timely unwatched putBackLate).get putBackLate_runs).AllReported :=
  ⟨rfl, (launched_reported_iff _
    (Machine.Reach.run watched timely rfl putBackLate putBackLate_runs)).1⟩

/-- A child for `dg_echo`, where `select` reported `dg_dis` alone. -/
theorem launched_unreported :
    ¬ ∀ t, watched.Reach (fun _ _ => True) t → t.AllReported := by
  intro h
  have hall := h _ (Machine.Reach.run watched (fun _ _ => True) rfl putBackEarly putBackEarly_runs)
  have hlast := hall ⟨dg_echo, fun i => i == dg_dis⟩ (List.mem_cons_self ..)
  cases hlast

end UnixNetProg.Inetd

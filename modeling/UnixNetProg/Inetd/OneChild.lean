/-
At most one child for a datagram service.

The sockets in the set are those of services without a recorded child, from the
clearing loop until one of them is served (`At.Off`); so a child is forked only
where none is recorded, and none is running. The handler may come at any point.
What it does is harmless for this: it puts a socket back together with clearing
its `child_pid`, and a bit it sets during the clearing loop may be lost, but no
other one appears.

`udp_select_conn` may drift, but only upwards: a decrement is lost where the
handler comes between the load and the store of the increment, an increment never
is. So the clearing loop is left out only where no child is recorded.
-/
import UnixNetProg.Inetd.Code

set_option autoImplicit false

namespace UnixNetProg.Inetd

open UnixNetProg.Processes UnixNetProg.Runs

/-! ## The invariant -/

/-- The datagram services whose `child_pid` is not 0. -/
def recorded (child_pid : Serv → ℤ) : Finset Serv :=
  Finset.univ.filter fun i => sock_type i = 1 ∧ child_pid i ≠ 0

/-- The datagram services in `fds` below `n` have no recorded child. -/
def Free (child_pid : Serv → ℤ) (fds : Fd_set) (n : ℕ) : Prop :=
  ∀ i : Serv, i < n → sock_type i = 1 → fds i = true → child_pid i = 0

namespace At

/-- `child_pid` once the main loop has recorded the child it has just forked. -/
def claimed (pc : At) (child_pid : Serv → ℤ) (i : Serv) : ℤ :=
  match pc with
  | .record j pid => if j = i then pid else child_pid i
  | _ => child_pid i

/-- `udp_select_conn` once the main loop has counted the child it has recorded. -/
def counted (pc : At) (udp_select_conn : ℤ) : ℤ :=
  match pc with
  | .load => udp_select_conn + 1
  | .store v => v + 1
  | _ => udp_select_conn

/-- Not between `fork` and the end of `udp_select_conn++`. -/
def plain (pc : At) : Bool :=
  match pc with
  | .record _ _ | .load | .store _ => false
  | _ => true

/-- What the set holds where the main loop is. -/
def Off (pc : At) (child_pid : Serv → ℤ) (read_sockfds : Fd_set) : Prop :=
  match pc with
  | .select | .scan _ => Free child_pid read_sockfds ARR_ELE_CNT
  | .blocked passed => passed = read_sockfds ∧ Free child_pid read_sockfds ARR_ELE_CNT
  | .accept i => sock_type i = 0
  | .fork i => sock_type i = 1 → child_pid i = 0
  | .record i _ => sock_type i = 1
  | .check k => Free child_pid read_sockfds k
  | .clear k => Free child_pid read_sockfds k
  | .cleared k word => Free child_pid word k
  | _ => True

end At

structure OneChild (w : World) : Prop where
  waiting : w.handling = true → ∀ passed, w.pc ≠ .blocked passed
  stream : ∀ i, sock_type i ≠ 1 → w.child_pid i = -1
  mine : ∀ c ∈ w.children, c.live = true → sock_type c.job = 1 →
    w.pc.claimed w.child_pid c.job = c.pid
  count : ((recorded w.child_pid).card : ℤ) ≤ w.pc.counted w.udp_select_conn
  off : w.pc.Off w.child_pid w.read_sockfds

/-! ## The table -/

section Table

variable {child_pid : Serv → ℤ} {pc : At} {fds : Fd_set} {i j : Serv} {n : ℕ} {p : ℤ}

theorem sock_type_cases (i : Serv) : sock_type i = 0 ∨ sock_type i = 1 := by
  revert i
  decide

/-- Away from `record`, what is claimed is what is recorded. -/
theorem claimed_eq (h : ∀ i pid, pc ≠ .record i pid) : pc.claimed child_pid i = child_pid i := by
  unfold At.claimed
  split
  · exact absurd rfl (h _ _)
  · rfl

theorem claimed_plain (h : pc.plain = true) : pc.claimed child_pid i = child_pid i := by
  apply claimed_eq
  rintro j pid rfl
  cases h

theorem counted_plain (h : pc.plain = true) (conn : ℤ) : pc.counted conn = conn := by
  unfold At.counted
  split
  · cases h
  · cases h
  · rfl

theorem mem_recorded : i ∈ recorded child_pid ↔ sock_type i = 1 ∧ child_pid i ≠ 0 := by
  simp [recorded]

/-- Recording a child makes at most one more. -/
theorem card_recorded_update :
    (recorded (Function.update child_pid i p)).card ≤ (recorded child_pid).card + 1 := by
  have hsub : recorded (Function.update child_pid i p) ⊆ insert i (recorded child_pid) := by
    intro j hj
    rw [mem_recorded] at hj
    rw [Finset.mem_insert, mem_recorded]
    by_cases hji : j = i
    · exact .inl hji
    · rw [Function.update_of_ne hji] at hj
      exact .inr hj
  exact (Finset.card_le_card hsub).trans (Finset.card_insert_le i _)

/-- Clearing a recorded one makes one less. -/
theorem card_recorded_clear (htype : sock_type i = 1) (hne : child_pid i ≠ 0) :
    (recorded (Function.update child_pid i 0)).card + 1 = (recorded child_pid).card := by
  have herase : recorded (Function.update child_pid i 0) = (recorded child_pid).erase i := by
    ext j
    rw [Finset.mem_erase, mem_recorded, mem_recorded]
    by_cases hji : j = i
    · subst hji
      simp
    · simp [hji]
  rw [herase]
  exact Finset.card_erase_add_one (mem_recorded.2 ⟨htype, hne⟩)

/-- With no child recorded every service may be in the set. -/
theorem free_of_recorded (h : recorded child_pid = ∅) : Free child_pid fds n := by
  intro i _ htype _
  by_contra hne
  have hmem : i ∈ recorded child_pid := mem_recorded.2 ⟨htype, hne⟩
  rw [h] at hmem
  exact absurd hmem (Finset.notMem_empty i)

/-- The next service is taken out, or has no child. -/
theorem free_succ (h : Free child_pid fds i)
    (hi : sock_type i = 1 → fds i = true → child_pid i = 0) :
    Free child_pid fds (i + 1) := by
  intro j hj htype hset
  by_cases hji : j = i
  · subst hji
    exact hi htype hset
  · have hne : (j : ℕ) ≠ i := Fin.val_ne_of_ne hji
    exact h j (by omega) htype hset

/-- What is recorded stays so, but for the child that is waited for. -/
theorem free_clear (h : Free child_pid fds n) : Free (Function.update child_pid i 0) fds n := by
  intro j hj htype hset
  by_cases hji : j = i
  · rw [hji, Function.update_self]
  · rw [Function.update_of_ne hji]
    exact h j hj htype hset

/-- The handler puts a socket back with its `child_pid` cleared. -/
theorem free_putBack (h : Free child_pid fds n) :
    Free (Function.update child_pid i 0) (Function.update fds i true) n := by
  intro j hj htype hset
  by_cases hji : j = i
  · rw [hji, Function.update_self]
  · rw [Function.update_of_ne hji] at hset ⊢
    exact h j hj htype hset

theorem claimed_putBack (hne : j = i → pc.claimed child_pid j ≠ child_pid j) :
    pc.claimed (Function.update child_pid i 0) j = pc.claimed child_pid j := by
  by_cases hrec : ∃ k pid, pc = .record k pid
  · obtain ⟨k, pid, rfl⟩ := hrec
    by_cases hk : k = j
    · simp only [At.claimed, if_pos hk]
    · simp only [At.claimed, if_neg hk] at hne ⊢
      exact Function.update_of_ne (fun hji => hne hji rfl) _ _
  · have haway : ∀ k pid, pc ≠ .record k pid := fun k pid hpc => hrec ⟨k, pid, hpc⟩
    rw [claimed_eq haway] at hne ⊢
    rw [claimed_eq haway]
    exact Function.update_of_ne (fun hji => hne hji rfl) _ _

theorem counted_putBack (conn : ℤ) : pc.counted conn ≤ pc.counted (conn - 1) + 1 := by
  unfold At.counted
  split <;> omega

theorem off_putBack (h : pc.Off child_pid fds) (hwaiting : ∀ passed, pc ≠ .blocked passed) :
    pc.Off (Function.update child_pid i 0) (Function.update fds i true) := by
  cases pc with
  | blocked passed => exact absurd rfl (hwaiting passed)
  | select => exact free_putBack h
  | scan _ => exact free_putBack h
  | check _ => exact free_putBack h
  | clear _ => exact free_putBack h
  | cleared k word => exact free_clear (n := k) h
  | fork j =>
    intro htype
    by_cases hj : j = i
    · rw [hj, Function.update_self]
    · rw [Function.update_of_ne hj]
      exact h htype
  | record j pid => exact h
  | _ => trivial

end Table

/-! ## Every step keeps it -/

namespace OneChild

variable {w w' : World} {i : Serv} {pid : ℕ} {c : Child Serv} {cs : Children Serv}

theorem start : OneChild start where
  waiting := nofun
  stream := by decide
  mine := nofun
  count := by decide
  off := by
    intro i _ htype _
    revert i
    decide

/-- Away from `record`, a running child is recorded. -/
theorem mine_recorded (h : OneChild w) (hpc : ∀ i pid, w.pc ≠ .record i pid) (hc : c ∈ w.children)
    (hlive : c.live = true) (htype : sock_type c.job = 1) : w.child_pid c.job = c.pid := by
  exact (claimed_eq hpc).symm.trans (h.mine c hc hlive htype)

/-- A step of the main loop that touches no more than the set. -/
theorem at_pc (h : OneChild w) {fds : Fd_set} {pc : At} (hbefore : w.pc.plain = true)
    (hafter : pc.plain = true) (hwaiting : w.handling = true → ∀ passed, pc ≠ .blocked passed)
    (hoff : pc.Off w.child_pid fds) : OneChild { w with read_sockfds := fds, pc := pc } where
  waiting := hwaiting
  stream := h.stream
  mine := by
    intro c hc hlive htype
    apply (claimed_plain hafter).trans
    have hmine := h.mine c hc hlive htype
    rwa [claimed_plain hbefore] at hmine
  count := by
    have hcount := h.count
    rw [counted_plain hbefore] at hcount
    show ((recorded w.child_pid).card : ℤ) ≤ pc.counted w.udp_select_conn
    rwa [counted_plain hafter]
  off := hoff

/-- The main loop loads the counter. -/
theorem load (h : OneChild w) (hpc : w.pc = .load) :
    OneChild { w with pc := .store w.udp_select_conn } := by
  have hcount := h.count
  rw [hpc] at hcount
  exact ⟨fun _ => nofun, h.stream, fun c hc => h.mine_recorded (by simp [hpc]) hc, hcount, trivial⟩

/-- The main loop stores the counter: a decrement in between is lost. -/
theorem store (h : OneChild w) {v : ℤ} (hpc : w.pc = .store v) :
    OneChild { w with udp_select_conn := v + 1, pc := .fill 0 } := by
  have hcount := h.count
  rw [hpc] at hcount
  exact ⟨fun _ => nofun, h.stream, fun c hc => h.mine_recorded (by simp [hpc]) hc, hcount, trivial⟩

/-- The main loop clears a socket; a bit set since the load is lost. -/
theorem stored (h : OneChild w) {word : Fd_set} (hpc : w.pc = .cleared i word) :
    OneChild { w with read_sockfds := Function.update word i false, pc := .check (i + 1) } := by
  have hoff := h.off
  rw [hpc] at hoff
  apply h.at_pc (by rw [hpc]; rfl) rfl (fun _ => by simp)
  apply free_succ
  · intro j hj htype hset
    rw [Function.update_of_ne (Fin.ne_of_lt hj)] at hset
    exact hoff j hj htype hset
  · intro _ hset
    rw [Function.update_self] at hset
    cases hset

/-- The child of a stream service is not recorded. -/
theorem served (h : OneChild w) (hpc : w.pc = .fork i) (htype : sock_type i = 0)
    (hfork : w.children.fork pid i = some cs) :
    OneChild { w with children := cs, pc := .fill 0 } := by
  have hcount := h.count
  rw [hpc] at hcount
  refine ⟨fun _ => nofun, h.stream, ?_, hcount, trivial⟩
  intro c hc hlive hjob
  rcases (Children.mem_fork hfork).1 hc with rfl | hold
  · rw [htype] at hjob
    cases hjob
  · have hmine := h.mine c hold hlive hjob
    rw [hpc] at hmine
    exact hmine

/-- No child is running where a child is forked. -/
theorem forked (h : OneChild w) (hpc : w.pc = .fork i) (htype : sock_type i ≠ 0)
    (hfork : w.children.fork pid i = some cs) :
    OneChild { w with children := cs, pc := .record i pid } := by
  have hdgram : sock_type i = 1 := (sock_type_cases i).resolve_left htype
  have hoff := h.off
  have hcount := h.count
  rw [hpc] at hoff hcount
  have hfree : w.child_pid i = 0 := hoff hdgram
  refine ⟨fun _ => nofun, h.stream, ?_, hcount, hdgram⟩
  intro c hc hlive hjob
  rcases (Children.mem_fork hfork).1 hc with rfl | hold
  · exact if_pos rfl
  · have hmine := h.mine c hold hlive hjob
    rw [hpc] at hmine
    have hpid : w.child_pid c.job = c.pid := hmine
    have hpos := w.children.pos c hold
    refine (if_neg ?_).trans hpid
    -- its process ID would be 0
    rintro rfl
    omega

theorem record (h : OneChild w) (hpc : w.pc = .record i pid) :
    OneChild { w with child_pid := Function.update w.child_pid i pid, pc := .load } := by
  have hoff := h.off
  have hcount := h.count
  rw [hpc] at hoff hcount
  refine ⟨fun _ => nofun, ?_, ?_, ?_, trivial⟩
  · intro j hj
    refine (Function.update_of_ne ?_ _ _).trans (h.stream j hj)
    rintro rfl
    exact hj hoff
  · intro c hc hlive hjob
    have hmine := h.mine c hc hlive hjob
    rw [hpc] at hmine
    show Function.update w.child_pid i pid c.job = c.pid
    -- the child that is recorded is the one that was forked; the others are as before
    by_cases hi : i = c.job
    · have hpid : (pid : ℤ) = c.pid := (if_pos hi).symm.trans hmine
      rw [← hi, Function.update_self, hpid]
    · have hpid : w.child_pid c.job = c.pid := (if_neg hi).symm.trans hmine
      rw [Function.update_of_ne (Ne.symm hi), hpid]
  · have hcard : (recorded (Function.update w.child_pid i pid)).card ≤
        (recorded w.child_pid).card + 1 :=
      card_recorded_update
    have hconn : ((recorded w.child_pid).card : ℤ) ≤ w.udp_select_conn := hcount
    show ((recorded (Function.update w.child_pid i pid)).card : ℤ) ≤ w.udp_select_conn + 1
    omega

/-- A child terminates. -/
theorem exits (h : OneChild w) (hexit : w.children.exit c = some cs) :
    OneChild { w with children := cs, pending := true } := by
  refine ⟨h.waiting, h.stream, ?_, h.count, h.off⟩
  intro d hd hlive hjob
  rcases (Children.mem_exit hexit).1 hd with rfl | ⟨hold, -⟩
  · cases hlive
  · exact h.mine d hold hlive hjob

/-- The handler does not find the child in the table. -/
theorem unknown (h : OneChild w) (hwait : w.children.wait c = some cs) :
    OneChild { w with children := cs, handling := false } := by
  refine ⟨nofun, h.stream, ?_, h.count, h.off⟩
  intro d hd hlive hjob
  exact h.mine d ((Children.mem_wait hwait).1 hd).1 hlive hjob

/-- The handler finds the child in the table. -/
theorem known (h : OneChild w) (hwaiting : ∀ passed, w.pc ≠ .blocked passed)
    (hwait : w.children.wait c = some cs) (hi : w.child_pid i = c.pid) :
    OneChild { w.putBack i with children := cs, handling := false } := by
  obtain ⟨hc, hdead⟩ := Children.of_wait hwait
  have hpos := w.children.pos c hc
  have htype : sock_type i = 1 := by
    by_contra hne
    have hstream := h.stream i hne
    omega
  refine ⟨nofun, ?_, ?_, ?_, off_putBack h.off hwaiting⟩
  · intro j hj
    refine (Function.update_of_ne ?_ _ _).trans (h.stream j hj)
    rintro rfl
    exact hj htype
  · intro d hd hlive hjob
    obtain ⟨hold, hne⟩ := (Children.mem_wait hwait).1 hd
    have hmine := h.mine d hold hlive hjob
    -- a running child of this service has another process ID
    have hother : d.job = i → w.pc.claimed w.child_pid d.job ≠ w.child_pid d.job := by
      intro hji heq
      rw [heq, hji, hi] at hmine
      omega
    exact (claimed_putBack hother).trans hmine
  · have hcard : (recorded (Function.update w.child_pid i 0)).card + 1 =
        (recorded w.child_pid).card :=
      card_recorded_clear htype (by omega)
    have hcounted : w.pc.counted w.udp_select_conn ≤ w.pc.counted (w.udp_select_conn - 1) + 1 :=
      counted_putBack w.udp_select_conn
    have hcount := h.count
    show ((recorded (Function.update w.child_pid i 0)).card : ℤ) ≤
      w.pc.counted (w.udp_select_conn - 1)
    omega

/-- The handler is entered; a `select` that waits is called again. -/
theorem enter (h : OneChild w) {pc : At}
    (hpc : pc = w.pc ∨ ∃ passed, w.pc = .blocked passed ∧ pc = .select)
    (hwaiting : ∀ passed, pc ≠ .blocked passed) (hoff : pc.Off w.child_pid w.read_sockfds) :
    OneChild { w with pending := false, handling := true, pc := pc } := by
  rcases hpc with rfl | ⟨passed, hpc, rfl⟩
  · exact ⟨fun _ => hwaiting, h.stream, h.mine, h.count, hoff⟩
  · have hcount := h.count
    rw [hpc] at hcount
    exact ⟨fun _ => hwaiting, h.stream, fun c hc => h.mine_recorded (by simp [hpc]) hc, hcount,
      hoff⟩

/-- **Every step keeps it.** -/
theorem step {a : Act} (h : OneChild w) (hs : w.step a = some w') : OneChild w' := by
  have hoff := h.off
  cases moves_of_step hs with
  | call hpc hhandling =>
    rw [hpc] at hoff
    exact h.at_pc (by rw [hpc]; rfl) rfl (by simp [hhandling]) ⟨rfl, hoff⟩
  | ready hpc hsub =>
    rw [hpc] at hoff
    obtain ⟨rfl, hfree⟩ := hoff
    apply h.at_pc (by rw [hpc]; rfl) rfl (fun _ => by simp)
    intro i hi htype hset
    exact hfree i hi htype (hsub i hset)
  | skip hpc =>
    rw [hpc] at hoff
    exact h.at_pc (by rw [hpc]; rfl) rfl (fun _ => by simp) hoff
  | scanned hpc => exact h.at_pc (by rw [hpc]; rfl) rfl (fun _ => by simp) trivial
  | stream hpc _ htype => exact h.at_pc (by rw [hpc]; rfl) rfl (fun _ => by simp) htype
  | datagram hpc hset _ =>
    rw [hpc] at hoff
    apply h.at_pc (by rw [hpc]; rfl) rfl (fun _ => by simp)
    exact fun hdgram => hoff _ (Fin.isLt _) hdgram hset
  | accepted hpc =>
    rw [hpc] at hoff
    apply h.at_pc (by rw [hpc]; rfl) rfl (fun _ => by simp)
    intro hdgram
    have hstream : sock_type _ = 0 := hoff
    rw [hstream] at hdgram
    cases hdgram
  | served hpc htype hfork => exact h.served hpc htype hfork
  | forked hpc htype hfork => exact h.forked hpc htype hfork
  | record hpc => exact h.record hpc
  | load hpc => exact h.load hpc
  | store hpc => exact h.store hpc
  | fill hpc => exact h.at_pc (by rw [hpc]; rfl) rfl (fun _ => by simp) trivial
  | full hpc _ => exact h.at_pc (by rw [hpc]; rfl) rfl (fun _ => by simp) trivial
  | filled hpc => exact h.at_pc (by rw [hpc]; rfl) rfl (fun _ => by simp) trivial
  | some_conn hpc _ =>
    apply h.at_pc (by rw [hpc]; rfl) rfl (fun _ => by simp)
    exact fun i hi => absurd hi (Nat.not_lt_zero i)
  | no_conn hpc hconn =>
    -- the counter is 0, so no child is recorded
    have hcount := h.count
    rw [hpc] at hcount
    have hnone : ((recorded w.child_pid).card : ℤ) ≤ w.udp_select_conn := hcount
    apply h.at_pc (by rw [hpc]; rfl) rfl (fun _ => by simp)
    exact free_of_recorded (Finset.card_eq_zero.1 (by omega))
  | keep hpc hkeep =>
    rw [hpc] at hoff
    apply h.at_pc (by rw [hpc]; rfl) rfl (fun _ => by simp)
    exact free_succ hoff fun htype _ => hkeep htype
  | checked hpc hk =>
    rw [hpc] at hoff
    apply h.at_pc (by rw [hpc]; rfl) rfl (fun _ => by simp)
    exact fun i hi => hoff i (hi.trans_le hk)
  | clear hpc _ _ =>
    rw [hpc] at hoff
    exact h.at_pc (by rw [hpc]; rfl) rfl (fun _ => by simp) hoff
  | cleared hpc =>
    rw [hpc] at hoff
    exact h.at_pc (by rw [hpc]; rfl) rfl (fun _ => by simp) hoff
  | stored hpc => exact h.stored hpc
  | fails hpc =>
    have hplain : w.pc.plain = true := by
      rcases hpc with ⟨_, hpc⟩ | ⟨_, hpc | hpc⟩ <;> rw [hpc] <;> rfl
    exact h.at_pc hplain rfl (fun _ => by simp) trivial
  | exits hexit => exact h.exits hexit
  | interrupt hpc _ _ =>
    rw [hpc] at hoff
    exact h.enter (.inr ⟨_, hpc, rfl⟩) (by simp) hoff.2
  | enter hpc _ _ => exact h.enter (.inl rfl) hpc hoff
  | known hhandling hwait hpid => exact h.known (h.waiting hhandling) hwait hpid
  | unknown _ hwait _ => exact h.unknown hwait
  | nochild _ _ => exact ⟨nofun, h.stream, h.mine, h.count, h.off⟩

end OneChild

/-! ## In every run -/

theorem oneChild_of_reach {ok : World → Act → Prop} {w : World} (h : machine.Reach ok w) :
    OneChild w := by
  apply h.invariant (I := OneChild)
  · rintro w rfl
    exact OneChild.start
  · intro w a w' _ hinv _ hs
    exact hinv.step hs

/-- Two running children of one datagram service are one: they have the process
ID that the service claims. -/
theorem OneChild.unique {w : World} (h : OneChild w) {c d : Child Serv} (hc : c ∈ w.children)
    (hd : d ∈ w.children) (hclive : c.live = true) (hdlive : d.live = true) (hjob : c.job = d.job)
    (htype : sock_type c.job = 1) : c = d := by
  have hmine := h.mine c hc hclive htype
  have hother := h.mine d hd hdlive (hjob ▸ htype)
  rw [hjob, hother] at hmine
  exact Children.eq_of_pid hc hd (by omega)

/-- **At most one child for a datagram service.** In every state of every run,
whenever the handler came; where the counter is tested it is at least the number
of services with a recorded child, and none of these is in the set that is
passed to `select`. -/
theorem one_child (w : World) (h : machine.Reach (fun _ _ => True) w) :
    (∀ c d, c ∈ w.children → d ∈ w.children → c.live = true → d.live = true → c.job = d.job →
      sock_type c.job = 1 → c = d) ∧
    (w.pc = .test → ((recorded w.child_pid).card : ℤ) ≤ w.udp_select_conn) ∧
    (∀ passed, w.pc = .blocked passed → ∀ i, sock_type i = 1 → w.child_pid i ≠ 0 →
      passed i = false) := by
  have hinv := oneChild_of_reach h
  refine ⟨fun c d hc hd hclive hdlive => hinv.unique hc hd hclive hdlive, ?_, ?_⟩
  · intro hpc
    have hcount := hinv.count
    rw [hpc] at hcount
    exact hcount
  · intro passed hpc i htype hne
    have hoff := hinv.off
    rw [hpc] at hoff
    obtain ⟨rfl, hfree⟩ := hoff
    by_contra hset
    exact hne (hfree i i.isLt htype (by simpa using hset))

/-- A datagram for `dg_echo`, up to the test of the counter. -/
def served : List Act :=
  [.go, .ready ![false, true, false, false], .go, .go, .forked 7, .go, .go, .go] ++
    List.replicate 9 .go

theorem served_runs : (machine.exec (fun _ _ => True) start served).isSome = true := by decide

theorem one_child_served : ((recorded ((machine.exec (fun _ _ => True) start served).get
    served_runs).child_pid).card : ℤ) ≤ ((machine.exec (fun _ _ => True) start served).get
    served_runs).udp_select_conn :=
  (one_child _ (Machine.Reach.run machine (fun _ _ => True) rfl served served_runs)).2.1 rfl

end UnixNetProg.Inetd

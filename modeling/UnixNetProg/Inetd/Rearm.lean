/-
A datagram service whose child has terminated is put back into the set, if the
handler comes at the right moments.

One call of `sig_child` waits for one child: the `break` behind the search leaves
the loop around `waitpid` as well. Two children that terminate before the handler
is entered are therefore one too many (`lost_child`). The handler also comes too
early where the child it finds is not recorded yet, and too late where the
clearing loop has tested `child_pid` and not yet cleared the socket. `quiet` says
that none of this happens; then the set is right whenever `select` waits
(`rearmed`).
-/
import UnixNetProg.Inetd.OneChild

set_option autoImplicit false

namespace UnixNetProg.Inetd

open UnixNetProg.Processes UnixNetProg.Runs

/-! ## What has to hold where `select` waits -/

/-- Where `select` waits and no signal is pending, a datagram service is in the
set if and only if no child of it is running; and with no signal pending or being
handled every child that has terminated has been waited for. -/
structure Served (w : World) : Prop where
  armed : ∀ passed, w.pc = .blocked passed → w.pending = false → ∀ i, sock_type i = 1 →
    (passed i = true ↔ ∀ c ∈ w.children, c.job = i → c.live = false)
  reaped : w.pending = false → w.handling = false → ∀ c ∈ w.children, c.live = true

/-- A child does not terminate while a signal is pending; and the handler does
not find a child that is not recorded yet, nor one whose socket the clearing loop
is about to take out of the set, or has taken out of the word it is going to
store. -/
def quiet (w : World) (a : Act) : Prop :=
  match a with
  | .exits _ => w.pending = false
  | .waitpid c =>
    match w.pc with
    | .record _ pid => c.pid ≠ pid
    | .clear k => w.child_pid k ≠ c.pid
    | .cleared k _ => ∀ i : Serv, i ≤ k → w.child_pid i ≠ c.pid
    | _ => True
  | _ => True

instance (w : World) (a : Act) : Decidable (quiet w a) := by
  unfold quiet
  split
  · infer_instance
  · split <;> infer_instance
  · infer_instance

/-! ## The invariant -/

/-- The datagram services below `n` are in `fds` unless they have a recorded
child, those from `n` on in any case. -/
def Cleared (child_pid : Serv → ℤ) (fds : Fd_set) (n : ℕ) : Prop :=
  ∀ i, sock_type i = 1 → (n ≤ i ∨ child_pid i = 0) → fds i = true

/-- What the set holds where the main loop is. -/
def At.On (pc : At) (child_pid : Serv → ℤ) (read_sockfds : Fd_set) : Prop :=
  match pc with
  | .select => Cleared child_pid read_sockfds ARR_ELE_CNT
  | .blocked _ => Cleared child_pid read_sockfds ARR_ELE_CNT
  | .record i _ => child_pid i = 0
  | .fill j => ∀ i : Serv, i < j → read_sockfds i = true
  | .filled j word => ∀ i : Serv, i < j → word i = true
  | .test => Cleared child_pid read_sockfds 0
  | .check k => Cleared child_pid read_sockfds k
  | .clear k => Cleared child_pid read_sockfds k ∧ child_pid k ≠ 0
  | .cleared k word => Cleared child_pid word k ∧ child_pid k ≠ 0
  | _ => True

/-- Every child of a datagram service is the one the service claims, every
service that claims a child has one, and the signals are as many as the children
that have terminated. -/
structure Rearmed (w : World) : Prop where
  signals : w.children.zombies = w.pending.toNat + w.handling.toNat
  mine : ∀ c ∈ w.children, sock_type c.job = 1 → w.pc.claimed w.child_pid c.job = c.pid
  owed : ∀ i, sock_type i = 1 → w.pc.claimed w.child_pid i ≠ 0 →
    ∃ c ∈ w.children, c.job = i ∧ w.pc.claimed w.child_pid i = c.pid
  on : w.pc.On w.child_pid w.read_sockfds

section Table

variable {child_pid : Serv → ℤ} {pc : At} {fds : Fd_set} {i j : Serv} {n : ℕ} {p : ℤ}

/-- The handler puts a socket back. -/
theorem cleared_putBack (h : Cleared child_pid fds n) :
    Cleared (Function.update child_pid i 0) (Function.update fds i true) n := by
  intro j htype hj
  by_cases hji : j = i
  · rw [hji, Function.update_self]
  · rw [Function.update_of_ne hji] at hj ⊢
    exact h j htype hj

/-- The more the clearing loop has done, the less is in the set. -/
theorem cleared_mono (h : Cleared child_pid fds n) {m : ℕ} (hm : n ≤ m) :
    Cleared child_pid fds m := by
  intro j htype hj
  apply h j htype
  rcases hj with hj | hj
  · exact .inl (hm.trans hj)
  · exact .inr hj

/-- The clearing loop takes a service with a child out. -/
theorem cleared_store (h : Cleared child_pid fds i) (hne : child_pid i ≠ 0) :
    Cleared child_pid (Function.update fds i false) (i + 1) := by
  intro j htype hj
  by_cases hji : j = i
  · subst hji
    rcases hj with hj | hj
    · omega
    · exact absurd hj hne
  · rw [Function.update_of_ne hji]
    exact cleared_mono h (Nat.le_succ i) j htype hj

/-- Once the child is recorded the service claims it still. -/
theorem claimed_record {pid : ℕ} :
    At.load.claimed (Function.update child_pid i pid) j =
      (At.record i pid).claimed child_pid j := by
  show Function.update child_pid i pid j = if i = j then (pid : ℤ) else child_pid j
  by_cases hji : j = i
  · rw [hji, Function.update_self, if_pos rfl]
  · rw [Function.update_of_ne hji, if_neg (Ne.symm hji)]

/-- The handler, at the right moment, keeps the set as it has to be. -/
theorem on_putBack (h : pc.On child_pid fds)
    (hclear : ∀ k, pc = .clear k → i ≠ k) (hcleared : ∀ k word, pc = .cleared k word → k < i) :
    pc.On (Function.update child_pid i 0) (Function.update fds i true) := by
  -- the clearing loop stores the word it has loaded, so there `i` has to be a later service
  cases pc with
  | select => exact cleared_putBack h
  | blocked _ => exact cleared_putBack h
  | test => exact cleared_putBack h
  | check _ => exact cleared_putBack h
  | clear k =>
    refine ⟨cleared_putBack h.1, ?_⟩
    rw [Function.update_of_ne (hclear k rfl).symm]
    exact h.2
  | cleared k word =>
    have hlt := hcleared k word rfl
    refine ⟨?_, ?_⟩
    · intro j htype hj
      by_cases hji : j = i
      · rw [hji]
        exact h.1 i (hji ▸ htype) (.inl (Nat.le_of_lt hlt))
      · rw [Function.update_of_ne hji] at hj
        exact h.1 j htype hj
    · rw [Function.update_of_ne (Fin.ne_of_lt hlt)]
      exact h.2
  | record k _ =>
    have hk : child_pid k = 0 := h
    show Function.update child_pid i 0 k = 0
    by_cases hki : k = i
    · rw [hki, Function.update_self]
    · rw [Function.update_of_ne hki, hk]
  | fill _ =>
    intro j hj
    by_cases hji : j = i
    · rw [hji, Function.update_self]
    · rw [Function.update_of_ne hji]
      exact h j hj
  | filled _ _ => exact h
  | _ => trivial

end Table

/-! ## Every step keeps it -/

namespace Rearmed

variable {w w' : World} {i : Serv} {pid : ℕ} {c : Child Serv} {cs : Children Serv}

theorem start : Rearmed start where
  signals := rfl
  mine := nofun
  owed := by
    intro i htype hne
    exact absurd (by revert i; decide) hne
  on := fun _ _ _ => rfl

/-- A step of the main loop after which as much is claimed as before. -/
theorem keep (h : Rearmed w) {fds : Fd_set} {conn : ℤ} {child_pid : Serv → ℤ} {pc : At}
    (hsame : ∀ i, pc.claimed child_pid i = w.pc.claimed w.child_pid i)
    (hon : pc.On child_pid fds) :
    Rearmed { w with
      read_sockfds := fds, udp_select_conn := conn, child_pid := child_pid, pc := pc } := by
  refine ⟨h.signals, ?_, ?_, hon⟩
  · intro c hc htype
    exact (hsame c.job).trans (h.mine c hc htype)
  · intro i htype hne
    obtain ⟨c, hc, hjob, hpid⟩ := h.owed i htype (hsame i ▸ hne)
    exact ⟨c, hc, hjob, (hsame i).trans hpid⟩

/-- A step of the main loop that touches no more than the set. -/
theorem at_pc (h : Rearmed w) {fds : Fd_set} {pc : At} (hbefore : w.pc.plain = true)
    (hafter : pc.plain = true) (hon : pc.On w.child_pid fds) :
    Rearmed { w with read_sockfds := fds, pc := pc } := by
  apply h.keep _ hon
  intro i
  rw [claimed_plain hbefore, claimed_plain hafter]

/-- A step of the main loop that changes the counter, or records a child: what is
claimed stays the same. -/
theorem at_claimed (h : Rearmed w) {conn : ℤ} {child_pid : Serv → ℤ} {pc : At}
    (hsame : ∀ i, pc.claimed child_pid i = w.pc.claimed w.child_pid i)
    (hon : pc.On child_pid w.read_sockfds) :
    Rearmed { w with udp_select_conn := conn, child_pid := child_pid, pc := pc } :=
  h.keep hsame hon

/-- A child is forked for a stream service. -/
theorem served (h : Rearmed w) (hpc : w.pc = .fork i) (htype : sock_type i = 0)
    (hfork : w.children.fork pid i = some cs) :
    Rearmed { w with children := cs, pc := .fill 0 } := by
  have hsame : ∀ j, w.pc.claimed w.child_pid j = w.child_pid j := by
    intro j
    exact claimed_plain (by rw [hpc]; rfl)
  refine ⟨(Children.zombies_fork hfork).trans h.signals, ?_, ?_, ?_⟩
  · intro c hc hjob
    rcases (Children.mem_fork hfork).1 hc with rfl | hold
    · rw [htype] at hjob
      cases hjob
    · exact (hsame c.job).symm.trans (h.mine c hold hjob)
  · intro j hj hne
    obtain ⟨c, hc, hjob, hpid⟩ := h.owed j hj (by rw [hsame]; exact hne)
    exact ⟨c, (Children.mem_fork hfork).2 (.inr hc), hjob, (hsame j).symm.trans hpid⟩
  · exact fun j hj => absurd hj (Nat.not_lt_zero _)

/-- A child is forked for a datagram service that has none. -/
theorem forked (h : Rearmed w) (hpc : w.pc = .fork i) (hfree : w.child_pid i = 0)
    (hfork : w.children.fork pid i = some cs) :
    Rearmed { w with children := cs, pc := .record i pid } := by
  have hsame : ∀ j, w.pc.claimed w.child_pid j = w.child_pid j := by
    intro j
    exact claimed_plain (by rw [hpc]; rfl)
  refine ⟨(Children.zombies_fork hfork).trans h.signals, ?_, ?_, hfree⟩
  · intro c hc hjob
    rcases (Children.mem_fork hfork).1 hc with rfl | hold
    · exact if_pos rfl
    · have hpid := (hsame c.job).symm.trans (h.mine c hold hjob)
      have hpos := w.children.pos c hold
      refine (if_neg ?_).trans hpid
      -- its process ID would be 0
      rintro rfl
      omega
  · intro j hj hne
    by_cases hij : i = j
    · exact ⟨⟨pid, i, true⟩, (Children.mem_fork hfork).2 (.inl rfl), hij, if_pos hij⟩
    · have hold : w.child_pid j ≠ 0 := by
        intro hzero
        exact hne ((if_neg hij).trans hzero)
      obtain ⟨c, hc, hjob, hpid⟩ := h.owed j hj (by rw [hsame]; exact hold)
      refine ⟨c, (Children.mem_fork hfork).2 (.inr hc), hjob, (if_neg hij).trans ?_⟩
      exact (hsame j).symm.trans hpid

/-- A child terminates, and no signal is pending. -/
theorem exits (h : Rearmed w) (hpending : w.pending = false) (hexit : w.children.exit c = some cs) :
    Rearmed { w with children := cs, pending := true } := by
  have hc := (Children.of_exit hexit).1
  refine ⟨?_, ?_, ?_, h.on⟩
  · have hsignals := h.signals
    have hzombies := Children.zombies_exit hexit
    rw [hpending] at hsignals
    simp only [Bool.toNat_true, Bool.toNat_false] at hsignals ⊢
    omega
  · intro d hd hjob
    rcases (Children.mem_exit hexit).1 hd with rfl | ⟨hold, -⟩
    · exact h.mine c hc hjob
    · exact h.mine d hold hjob
  · intro i htype hne
    obtain ⟨d, hd, hjob, hpid⟩ := h.owed i htype hne
    by_cases hdc : d.pid = c.pid
    · obtain rfl := Children.eq_of_pid hd hc hdc
      exact ⟨_, (Children.mem_exit hexit).2 (.inl rfl), hjob, hpid⟩
    · exact ⟨d, (Children.mem_exit hexit).2 (.inr ⟨hd, hdc⟩), hjob, hpid⟩

/-- The handler is entered; a `select` that waits is called again. -/
theorem enter (h : Rearmed w) {pc : At}
    (hsame : ∀ i, pc.claimed w.child_pid i = w.pc.claimed w.child_pid i)
    (hon : pc.On w.child_pid w.read_sockfds) (hpending : w.pending = true)
    (hhandling : w.handling = false) :
    Rearmed { w with pending := false, handling := true, pc := pc } := by
  have hsignals := h.signals
  rw [hpending, hhandling] at hsignals
  refine ⟨hsignals, ?_, ?_, hon⟩
  · intro c hc htype
    exact (hsame c.job).trans (h.mine c hc htype)
  · intro i htype hne
    obtain ⟨c, hc, hjob, hpid⟩ := h.owed i htype (hsame i ▸ hne)
    exact ⟨c, hc, hjob, (hsame i).trans hpid⟩

/-- The handler has waited for a child. -/
theorem signals_wait (h : Rearmed w) (hhandling : w.handling = true)
    (hwait : w.children.wait c = some cs) :
    cs.zombies = w.pending.toNat + (false : Bool).toNat := by
  have hsignals := h.signals
  have hzombies := Children.zombies_wait hwait
  rw [hhandling] at hsignals
  simp only [Bool.toNat_true, Bool.toNat_false] at hsignals ⊢
  omega

/-- The handler does not find the child of a stream service in the table. -/
theorem unknown (h : Rearmed w) (hquiet : quiet w (.waitpid c)) (hhandling : w.handling = true)
    (hwait : w.children.wait c = some cs) (hunknown : ∀ i, w.child_pid i ≠ c.pid) :
    Rearmed { w with children := cs, handling := false } := by
  have hc := (Children.of_wait hwait).1
  -- the child of a datagram service is found in the table, or is about to be recorded in it
  have hstream : sock_type c.job ≠ 1 := by
    intro htype
    have hmine := h.mine c hc htype
    by_cases hrec : ∃ j pid, w.pc = .record j pid
    · obtain ⟨j, pid, hpc⟩ := hrec
      simp only [quiet, hpc] at hquiet
      rw [hpc] at hmine
      by_cases hj : j = c.job
      · have hpid : (pid : ℤ) = c.pid := (if_pos hj).symm.trans hmine
        exact hquiet (by omega)
      · exact hunknown c.job ((if_neg hj).symm.trans hmine)
    · have haway : ∀ j pid, w.pc ≠ .record j pid := fun j pid hpc => hrec ⟨j, pid, hpc⟩
      exact hunknown c.job ((claimed_eq haway).symm.trans hmine)
  refine ⟨h.signals_wait hhandling hwait, ?_, ?_, h.on⟩
  · intro d hd htype
    exact h.mine d ((Children.mem_wait hwait).1 hd).1 htype
  · intro i htype hne
    obtain ⟨d, hd, hjob, hpid⟩ := h.owed i htype hne
    refine ⟨d, (Children.mem_wait hwait).2 ⟨hd, ?_⟩, hjob, hpid⟩
    intro hdc
    obtain rfl := Children.eq_of_pid hd hc hdc
    exact hstream (hjob ▸ htype)

/-- Where the handler finds a child recorded, the service claims it. -/
theorem claimed_known (h : Rearmed w) (hne : w.child_pid i ≠ 0) :
    w.pc.claimed w.child_pid i = w.child_pid i := by
  have hon := h.on
  unfold At.claimed
  split
  · rename_i j pid hpc
    rw [hpc] at hon
    have hzero : w.child_pid j = 0 := hon
    rw [if_neg]
    rintro rfl
    exact hne hzero
  · rfl

/-- The handler finds the child in the table, and puts the socket back. -/
theorem known (h : Rearmed w) (hone : OneChild w) (hquiet : quiet w (.waitpid c))
    (hhandling : w.handling = true) (hwait : w.children.wait c = some cs)
    (hi : w.child_pid i = c.pid) :
    Rearmed { w.putBack i with children := cs, handling := false } := by
  obtain ⟨hc, -⟩ := Children.of_wait hwait
  have hpos := w.children.pos c hc
  have hne : w.child_pid i ≠ 0 := by omega
  have htype : sock_type i = 1 := by
    by_contra hstream
    have hpid := hone.stream i hstream
    omega
  have hclaimed := h.claimed_known hne
  -- the child is one of this service
  have hjob : c.job = i := by
    obtain ⟨d, hd, hjob, hpid⟩ := h.owed i htype (by rw [hclaimed]; exact hne)
    rw [hclaimed, hi] at hpid
    rw [Children.eq_of_pid hc hd (by omega), hjob]
  refine ⟨h.signals_wait hhandling hwait, ?_, ?_, ?_⟩
  · intro d hd hdtype
    obtain ⟨hold, hdc⟩ := (Children.mem_wait hwait).1 hd
    have hmine := h.mine d hold hdtype
    have hother : d.job = i → w.pc.claimed w.child_pid d.job ≠ w.child_pid d.job := by
      intro hji heq
      rw [heq, hji, hi] at hmine
      omega
    exact (claimed_putBack hother).trans hmine
  · intro j hj hneg
    have hji : j ≠ i := by
      rintro rfl
      -- this service claims nothing any more
      apply hneg
      unfold At.claimed at hclaimed
      show w.pc.claimed (Function.update w.child_pid j 0) j = 0
      unfold At.claimed
      split
      · rename_i k pid hpc
        have hon := h.on
        rw [hpc] at hon
        have hzero : w.child_pid k = 0 := hon
        rw [if_neg, Function.update_self]
        rintro rfl
        exact hne hzero
      · exact Function.update_self _ _ _
    have hsame : w.pc.claimed (Function.update w.child_pid i 0) j = w.pc.claimed w.child_pid j :=
      claimed_putBack fun heq => absurd heq hji
    obtain ⟨d, hd, hdjob, hpid⟩ := h.owed j hj (by rw [← hsame]; exact hneg)
    refine ⟨d, (Children.mem_wait hwait).2 ⟨hd, ?_⟩, hdjob, hsame.trans hpid⟩
    intro hdc
    obtain rfl := Children.eq_of_pid hd hc hdc
    exact hji (hdjob.symm.trans hjob)
  · apply on_putBack h.on
    · rintro k hpc rfl
      simp only [quiet, hpc] at hquiet
      exact hquiet hi
    · intro k word hpc
      simp only [quiet, hpc] at hquiet
      by_contra hlt
      exact hquiet i (Nat.not_lt.1 hlt) hi

/-- **Every quiet step keeps it.** -/
theorem step {a : Act} (h : Rearmed w) (hone : OneChild w) (hquiet : quiet w a)
    (hs : w.step a = some w') : Rearmed w' := by
  have hon := h.on
  have hoff := hone.off
  cases moves_of_step hs with
  | call hpc _ =>
    rw [hpc] at hon
    exact h.at_pc (by rw [hpc]; rfl) rfl hon
  | ready hpc _ => exact h.at_pc (by rw [hpc]; rfl) rfl trivial
  | skip hpc => exact h.at_pc (by rw [hpc]; rfl) rfl trivial
  | scanned hpc =>
    apply h.at_pc (by rw [hpc]; rfl) rfl
    exact fun i hi => absurd hi (Nat.not_lt_zero i)
  | stream hpc _ _ => exact h.at_pc (by rw [hpc]; rfl) rfl trivial
  | datagram hpc _ _ => exact h.at_pc (by rw [hpc]; rfl) rfl trivial
  | accepted hpc => exact h.at_pc (by rw [hpc]; rfl) rfl trivial
  | served hpc htype hfork => exact h.served hpc htype hfork
  | forked hpc htype hfork =>
    rw [hpc] at hoff
    exact h.forked hpc (hoff ((sock_type_cases _).resolve_left htype)) hfork
  | record hpc =>
    refine h.at_claimed ?_ trivial
    intro i
    rw [hpc]
    exact claimed_record
  | load hpc =>
    refine h.at_claimed ?_ trivial
    intro i
    rw [hpc]
    rfl
  | store hpc =>
    apply h.at_claimed
    · intro i
      rw [hpc]
      rfl
    · exact fun i hi => absurd hi (Nat.not_lt_zero i)
  | fill hpc =>
    rw [hpc] at hon
    exact h.at_pc (by rw [hpc]; rfl) rfl hon
  | full hpc hj =>
    rw [hpc] at hon
    apply h.at_pc (by rw [hpc]; rfl) rfl
    exact fun i _ _ => hon i (i.isLt.trans_le hj)
  | @filled j _ hpc =>
    rw [hpc] at hon
    apply h.at_pc (by rw [hpc]; rfl) rfl
    intro i hi
    by_cases hij : i = j
    · rw [hij, Function.update_self]
    · have hne := Fin.val_ne_of_ne hij
      rw [Function.update_of_ne hij]
      exact hon i (Nat.lt_of_le_of_ne (Nat.le_of_lt_succ hi) hne)
  | some_conn hpc _ =>
    rw [hpc] at hon
    exact h.at_pc (by rw [hpc]; rfl) rfl hon
  | no_conn hpc _ =>
    rw [hpc] at hon
    exact h.at_pc (by rw [hpc]; rfl) rfl (cleared_mono hon (Nat.zero_le _))
  | keep hpc _ =>
    rw [hpc] at hon
    exact h.at_pc (by rw [hpc]; rfl) rfl (cleared_mono hon (Nat.le_succ _))
  | checked hpc hk =>
    rw [hpc] at hon
    apply h.at_pc (by rw [hpc]; rfl) rfl
    intro i htype hi
    exact hon i htype (.inr (hi.resolve_left (Nat.not_le.2 i.isLt)))
  | clear hpc _ hne =>
    rw [hpc] at hon
    exact h.at_pc (by rw [hpc]; rfl) rfl ⟨hon, hne⟩
  | cleared hpc =>
    rw [hpc] at hon
    exact h.at_pc (by rw [hpc]; rfl) rfl hon
  | stored hpc =>
    rw [hpc] at hon
    exact h.at_pc (by rw [hpc]; rfl) rfl (cleared_store hon.1 hon.2)
  | fails hpc =>
    have hplain : w.pc.plain = true := by
      rcases hpc with ⟨_, hpc⟩ | ⟨_, hpc | hpc⟩ <;> rw [hpc] <;> rfl
    exact h.at_pc hplain rfl trivial
  | exits hexit => exact h.exits hquiet hexit
  | interrupt hpc hpending hhandling =>
    rw [hpc] at hon
    refine h.enter ?_ ?_ hpending hhandling
    · intro i
      rw [hpc]
      rfl
    · exact hon
  | enter _ hpending hhandling => exact h.enter (fun _ => rfl) hon hpending hhandling
  | known hhandling hwait hpid => exact h.known hone hquiet hhandling hwait hpid
  | unknown hhandling hwait hpid => exact h.unknown hquiet hhandling hwait hpid
  | nochild hhandling hzombies =>
    -- there is one child for every signal
    have hsignals := h.signals
    rw [hhandling, hzombies, Bool.toNat_true] at hsignals
    omega

/-- Where `select` waits, the children are those of the services that are not in
the set. -/
theorem isServed (h : Rearmed w) (hone : OneChild w) : Served w := by
  have hreaped : w.pending = false → w.handling = false → ∀ c ∈ w.children, c.live = true := by
    intro hpending hhandling c hc
    have hsignals := h.signals
    rw [hpending, hhandling] at hsignals
    exact Children.live_of_zombies hsignals hc
  refine ⟨?_, hreaped⟩
  intro passed hpc hpending i htype
  have hhandling : w.handling = false := by
    by_contra htrue
    exact hone.waiting (by simpa using htrue) passed hpc
  have hon := h.on
  have hoff := hone.off
  rw [hpc] at hon hoff
  obtain ⟨rfl, hfree⟩ := hoff
  have hclaimed : w.pc.claimed w.child_pid i = w.child_pid i := claimed_plain (by rw [hpc]; rfl)
  constructor
  · -- a socket in the set has no child
    intro hset c hc hjob
    have hmine := h.mine c hc (hjob ▸ htype)
    have hpos := w.children.pos c hc
    rw [hjob, hclaimed, hfree i i.isLt htype hset] at hmine
    omega
  · intro hdead
    -- one whose child is dead is not claimed any more: the handler has been there
    apply hon i htype
    right
    by_contra hne
    obtain ⟨c, hc, hjob, -⟩ := h.owed i htype (by rw [hclaimed]; exact hne)
    have hlive := hreaped hpending hhandling c hc
    rw [hdead c hc hjob] at hlive
    cases hlive

end Rearmed

/-! ## In every run -/

/-- **No datagram service is lost**, in any run all of whose steps are quiet. -/
theorem rearmed (w : World) (h : machine.Reach quiet w) : Served w := by
  suffices hinv : Rearmed w from hinv.isServed (oneChild_of_reach h)
  apply h.invariant (I := Rearmed)
  · rintro w rfl
    exact Rearmed.start
  · intro w a w' hw hinv hquiet hs
    exact hinv.step (oneChild_of_reach hw) hquiet hs

def dg_echo : Serv := ⟨1, by decide⟩

def dg_dis : Serv := ⟨3, by decide⟩

/-- A datagram for `dg_echo`, whose child goes on running, up to the next
`select`. -/
def oneRound : List Act :=
  [.go, .ready fun i => i == dg_echo, .go, .go, .forked 7] ++ List.replicate 21 .go

/-- A datagram for `dg_dis` as well; then both children terminate before the
handler is entered. -/
def twoDeaths : List Act :=
  oneRound ++ [.ready fun i => i == dg_dis, .go, .go, .go, .go, .forked 8] ++
    List.replicate 23 .go ++
    [.exits ⟨7, dg_echo, true⟩, .exits ⟨8, dg_dis, true⟩, .sigchld, .waitpid ⟨7, dg_echo, false⟩,
      .go]

theorem oneRound_runs : (machine.exec quiet start oneRound).isSome = true := by decide

theorem twoDeaths_runs : (machine.exec (fun _ _ => True) start twoDeaths).isSome = true := by decide

/-- `dg_echo` is out of the set while its child is running. -/
theorem rearmed_oneRound : Served ((machine.exec quiet start oneRound).get oneRound_runs) :=
  rearmed _ (Machine.Reach.run machine quiet rfl oneRound oneRound_runs)

/-- One signal for two children: `dg_dis` is lost. -/
theorem lost_child : ¬ ∀ w, machine.Reach (fun _ _ => True) w → Served w := by
  intro h
  have hserved := h _ (Machine.Reach.run machine (fun _ _ => True) rfl twoDeaths twoDeaths_runs)
  have hset := (hserved.armed _ rfl rfl dg_dis rfl).2 (by
    intro c hc _
    rw [List.mem_singleton.1 hc])
  cases hset

end UnixNetProg.Inetd

/-
Every step of the two programs is a step of `Duo`, and every run one of `Duo`.

`Sound.step` puts the moves of the two processes together and shows that the
kernel's side stays as it should be: nobody gets at a set before the server has
initialised it, and none is removed that is in use. `sound_of_reach` is the rule
the results about the two programs are proved with: what every step of `Duo`
preserves holds in every run without mishaps.
-/
import UnixNetProg.SharedMemory.ClientMoves

set_option autoImplicit false

namespace UnixNetProg.SharedMemory

open UnixNetProg.SysV UnixNetProg.Semaphore UnixNetProg.Runs UnixNetProg.Pool

/-! ## Every step -/

section Step

variable {v : Version} {e : Env} {a : Act User (Option ℕ)} {w w' : World Shared User} {d : Duo}
  {h₀ h₁ : ℤ → Option ℕ} {pc₀ pc₁ : Pc}

/-- A statement that ends a program is not the call of a routine. -/
theorem Sane.ends {q : Proc User} {sem : ℤ → Slot 3} {s s' : Shared} {c : Option ℕ} {x : Does User}
    (hok : (pair v e).Ok q) (hpc : q.pc = .user)
    (hs : (program v e).step sem s q.user c = some (s', x)) (hgo : ∀ u, x ≠ .go u)
    (hcall : ∀ cl u, x = .call cl u → ∃ msg, cl.start = .err_sys msg) :
    x = .exit ∨ ∃ msg, x = .err_sys msg := by
  apply Does.ends hgo
  rintro cl u rfl
  simp only [Discipline.Ok, hpc] at hok
  obtain ⟨hready, -, -⟩ := (pair v e).call hok hs
  obtain ⟨pt, hstart, -⟩ := hready.start
  obtain ⟨msg, hend⟩ := hcall cl u rfl
  rw [hstart] at hend
  cases hend

theorem Does.map_ends {U V : Type} {f : U → V} {x : Does U}
    (h : Does.map f x = .exit ∨ ∃ msg, Does.map f x = .err_sys msg) :
    x = .exit ∨ ∃ msg, x = .err_sys msg := by
  cases x with
  | go u => rcases h with h | ⟨msg, h⟩ <;> cases h
  | call cl u => rcases h with h | ⟨msg, h⟩ <;> cases h
  | exit => exact .inl rfl
  | err_sys msg => exact .inr ⟨msg, rfl⟩

/-- A routine that a process calls gets to its first system call. -/
theorem Sane.no_straight {q : Proc User} {sem : ℤ → Slot 3} {s s' : Shared} {c : Option ℕ}
    {cl : Call} {u : User} {x : ℤ} (hok : (pair v e).Ok q) (hpc : q.pc = .user)
    (hs : (program v e).step sem s q.user c = some (s', .call cl u)) : cl.start ≠ .ret x := by
  intro hret
  simp only [Discipline.Ok, hpc] at hok
  obtain ⟨hready, -, -⟩ := (pair v e).call hok hs
  obtain ⟨pt, hstart, -⟩ := hready.start
  rw [hstart] at hret
  cases hret

/-- **A step of the world is a step of `Duo`.** -/
theorem Sound.matched (h : Sound w d h₀ pc₀ h₁ pc₁) (hw : Sane v e w) (hcalm : calm w a)
    (hs : w.step (program v e) a = some w') : Matched v e a w' d pc₀ := by
  have hprocs := h.sees.procs
  have hget : ∀ {p : ℕ} {q : Proc User}, w.procs[p]? = some q → (pair v e).Ok q :=
    fun hq => hw.ok _ (List.mem_of_getElem? hq)
  -- each kind of step is one of the server or of the client, and has its lemma in either module
  cases World.step_moves hs with
  | spawn u hentry => cases hentry
  | die p q ha => exact absurd hcalm (by rw [ha]; exact id)
  | quit p q c x ha hq hpc hstep hgo hcall hsem hp hops =>
    have hx := Sane.ends (hget hq) hpc hstep hgo hcall
    rw [hprocs] at hq hp
    rcases two hq with ⟨rfl, rfl⟩ | ⟨rfl, rfl⟩
    · obtain rfl : pc₀ = .user := hpc
      obtain ⟨y, hmain, rfl⟩ := program_server.1 hstep
      exact h.server_quit ha hmain (Does.map_ends hx) hsem hops hp
    · obtain rfl : pc₁ = .user := hpc
      obtain ⟨y, hmain, rfl⟩ := program_client.1 hstep
      exact h.client_quit ha hmain (Does.map_ends hx) hsem hops hp
  | own p q c u ha hq hpc hstep hsem hp hops =>
    rw [hprocs] at hq hp
    rcases two hq with ⟨rfl, rfl⟩ | ⟨rfl, rfl⟩
    · obtain rfl : pc₀ = .user := hpc
      obtain ⟨y, hmain, hy⟩ := program_server.1 hstep
      obtain ⟨u, rfl, rfl⟩ := Does.map_go hy
      exact h.server_own hw ha hmain hsem hops hp
    · obtain rfl : pc₁ = .user := hpc
      obtain ⟨y, hmain, hy⟩ := program_client.1 hstep
      obtain ⟨u, rfl, rfl⟩ := Does.map_go hy
      exact h.client_own hw ha hmain hsem hops hp
  | enter p q c cl u pt _ hq hpc hstep hstart hsem hp hops =>
    rw [hprocs] at hq hp
    rcases two hq with ⟨rfl, rfl⟩ | ⟨rfl, rfl⟩
    · obtain rfl : pc₀ = .user := hpc
      obtain ⟨y, hmain, hy⟩ := program_server.1 hstep
      obtain ⟨u, rfl, rfl⟩ := Does.map_call hy
      exact h.server_enter hmain hstart hsem hops hp
    · obtain rfl : pc₁ = .user := hpc
      obtain ⟨y, hmain, hy⟩ := program_client.1 hstep
      obtain ⟨u, rfl, rfl⟩ := Does.map_call hy
      exact h.client_enter hmain hsem hops hp
  | straight p q c cl u x _ hq hpc hstep hstart =>
    exact absurd hstart (Sane.no_straight (hget hq) hpc hstep)
  | sleep p q key pt _ hq hpc _ hsem hshared hp hops =>
    rw [hprocs] at hq hp
    rcases two hq with ⟨rfl, rfl⟩ | ⟨rfl, rfl⟩
    · obtain rfl : pc₀ = .lib key pt false := hpc
      exact h.server_sleep hsem hshared hops hp
    · obtain rfl : pc₁ = .lib key pt false := hpc
      exact h.client_sleep hsem hshared hops hp
  | goto p q key pt pt' b sl r _ hq hpc hc hr hsem hshared hp hops =>
    rw [hprocs] at hq hp
    rcases two hq with ⟨rfl, rfl⟩ | ⟨rfl, rfl⟩
    · obtain rfl : pc₀ = .lib key pt b := hpc
      -- the only routine call on the way that changes `[0]`
      by_cases hset : ∃ id n, pt = .create_setval0 id n
      · obtain ⟨id, n, rfl⟩ := hset
        exact h.server_setval0 hw hc hr hsem hshared hops hp
      · exact h.server_goto hw hcalm hc hr (fun id n hpt => hset ⟨id, n, hpt⟩) hsem hshared hops hp
    · obtain rfl : pc₁ = .lib key pt b := hpc
      exact h.client_goto hw hc hr hsem hshared hops hp
  | ret p q key pt b sl r x _ hq hpc hc hr hsem hshared hp hops =>
    rw [hprocs] at hq hp
    rcases two hq with ⟨rfl, rfl⟩ | ⟨rfl, rfl⟩
    · obtain rfl : pc₀ = .lib key pt b := hpc
      exact h.server_ret hw hcalm hc hr hsem hshared hops hp
    · obtain rfl : pc₁ = .lib key pt b := hpc
      exact h.client_ret hw hc hr hsem hshared hops hp
  | fails p q key pt b r _ hq hpc hc hf hsem hshared hp hops =>
    rw [hprocs] at hq hp
    rcases two hq with ⟨rfl, rfl⟩ | ⟨rfl, rfl⟩
    · obtain rfl : pc₀ = .lib key pt b := hpc
      exact h.server_fails hw hcalm hc hf hsem hshared hops hp
    · obtain rfl : pc₁ = .lib key pt b := hpc
      exact h.client_fails hw hcalm hc hf hsem hshared hops hp

/-! ## What the next step needs -/

/-- No `op_open` falls between a closer's reading of the counter and its removal
of the set. -/
theorem Sound.timely (h : Sound w d h₀ pc₀ h₁ pc₁) (hw : Sane v e w) (key : ℤ)
    (a : Act User (Option ℕ)) : w.timely key a := by
  intro pt hpt
  simp only [World.sysAt, Option.mem_def, Option.bind_eq_some_iff] at hpt
  obtain ⟨p, -, q, hq, hat⟩ := hpt
  cases pt with
  | open_op i => ?_
  | _ => trivial
  obtain ⟨b, hpc⟩ : ∃ b, q.pc = .lib key (.open_op i) b := by
    cases hqpc : q.pc with
    | lib key' pt' b' =>
      simp only [hqpc, Pc.at?] at hat
      split_ifs at hat with hk
      cases hat
      exact ⟨b', by rw [hk]⟩
    | _ => simp [hqpc, Pc.at?] at hat
  rw [h.sees.procs] at hq
  rcases two hq with ⟨rfl, rfl⟩ | ⟨rfl, rfl⟩
  · -- the server opens nothing
    obtain rfl : pc₀ = .lib key (.open_op i) b := hpc
    obtain ⟨cl, hroutine, -, hwithin, -⟩ := h.sees.server_lib hw
    rcases Server.routine_cases hroutine with ⟨-, rfl⟩ | ⟨-, rfl⟩ | ⟨-, -, ⟨_, rfl⟩ | ⟨_, rfl⟩ |
      ⟨_, rfl⟩ | ⟨-, _, _, -, rfl⟩⟩ <;> exact hwithin.elim
  · obtain rfl : pc₁ = .lib key (.open_op i) b := hpc
    obtain ⟨cl, hroutine, -, hwithin, -⟩ := h.sees.client_lib hw
    -- the client looks for a set only until it has opened it
    have hclosed : d.client.stage.opened = false := by
      rcases Client.routine_cases hroutine with ⟨hopen, -⟩ | ⟨_, rfl⟩ | ⟨_, rfl⟩ | ⟨-, _, _, -, rfl⟩
      · exact hopen
      all_goals exact hwithin.elim
    intro c hc
    obtain ⟨n, hn⟩ := List.mem_iff_getElem?.1 hc
    rw [World.clients, h.sees.procs] at hn
    rcases two hn with ⟨rfl, rfl⟩ | ⟨rfl, rfl⟩
    · -- the server removes no set the client has not closed
      by_contra hrm
      have hat : ∃ b', pc₀ = .lib key (.rm i) b' := by
        cases pc₀ with
        | lib key' pt' b' =>
          simp only [Proc.view, Pc.view, Client.removes] at hrm
          split_ifs at hrm with hk
          · cases pt' <;> simp at hrm
            exact ⟨b', by rw [hk, hrm]⟩
          · simp at hrm
        | _ => simp [Proc.view, Pc.view, Client.removes] at hrm
      obtain ⟨b', rfl⟩ := hat
      have hdone := (h.server_rm hw).2 h.sees.cup
      rw [opened_of_late (late_of_done hdone)] at hclosed
      cases hclosed
    · simp [Proc.view, Pc.view, Client.removes]

variable {d' : Duo} {h₀' h₁' : ℤ → Option ℕ} {pc₀' pc₁' : Pc} {key : ℤ}

/-- Where the last `semop` of `sem_create` is about to be made, the set has been
initialised. -/
theorem Sees.endcreate_not_making {id : ℕ} {b : Bool}
    (h : Sees w d h₀ (.lib key (.create_endcreate id) b) h₁ pc₁) (hw : Sane v e w) :
    ¬ d.server.making key (.lib key (.create_endcreate id) b) := by
  intro hm
  obtain ⟨cl, hroutine, hkey, hwithin, -⟩ := h.server_lib hw
  rcases Server.routine_cases hroutine with ⟨hstage, rfl⟩ | ⟨hstage, rfl⟩ | ⟨-, hmaking, -⟩
  · rw [Server.making, hstage] at hm
    rcases hm with hm | hm
    · rw [← hkey] at hm
      exact absurd hm (by decide)
    · exact hm id b rfl
  · rw [Server.making, hstage] at hm
    exact hm.2 id b rfl
  · exact hmaking _ _ hm

/-- Nobody gets at a set before the server has initialised it. -/
theorem Sound.made_step (h : Sound w d h₀ pc₀ h₁ pc₁) (hw : Sane v e w) (hw' : Sane v e w')
    (hs : w.step (program v e) a = some w') (hsees : Sees w' d' h₀' pc₀' h₁' pc₁')
    (hmaking : d'.server.making key pc₀' → d.server.making key pc₀) (hkey : Ours key) :
    Made key w' d'.server pc₀' := by
  intro hm'
  obtain ⟨hunset, hlooked⟩ := h.made hkey (hmaking hm')
  have hk := World.step_key hs ((pair v e).keeps hw.ok hs).spares key
  have hget := hsees.server_get key
  have hlen : (w'.clients key).length = 2 := by simp [World.clients, hsees.procs]
  have hlen₀ : (w.clients key).length = 2 := by simp [World.clients, h.sees.procs]
  -- a point on the key, from what the key sees of the server
  have hback : ∀ {c : Semaphore.Client} {pt : Point} {b : Bool}, (w.clients key)[0]? = some c →
      c.place = .at pt b → pc₀ = .lib key pt b := by
    rintro ⟨held, place⟩ pt b hc rfl
    obtain ⟨q, hq, hpc, -⟩ := clients_at hc
    rw [h.sees.procs] at hq
    cases hq
    exact hpc
  generalize hsl : w'.sem key = sl' at hk ⊢
  generalize hcs : w'.clients key = cs' at hk hget hlen ⊢
  cases hk with
  | idle =>
    refine ⟨hunset, ?_⟩
    rintro id x b rfl
    rw [Pc.view, if_pos rfl] at hget
    exact hlooked id x b (hback hget rfl)
  | spawn =>
    rw [List.length_append, hlen₀] at hlen
    cases hlen
  | @proc _ p c c' l hq ht hact =>
    refine ⟨fun i T hcur' => ?_, ?_⟩
    · -- a set that is new, or the same one behind a step of one process
      cases hcur : (w.sem key).cur with
      | none =>
        obtain ⟨rfl, rfl, hh, hl⟩ := ht.new hcur hcur'
        exact (hw.count key).fresh (hw.lock key) hq hcur hh hl
      | some j =>
        obtain ⟨j, S⟩ := j
        obtain rfl := ht.id_eq hcur hcur'
        have hphase := (hunset _ _ hcur).trans (hw.lock key) ((hw.count key).wf hq) hcur hq ht hcur'
        split_ifs at hphase with hl
        · -- the server has just set the counter, and is about to end `sem_create`
          exfalso
          subst hl
          obtain ⟨b, hplace⟩ := ht.label
          obtain ⟨held, place⟩ := c
          obtain rfl : place = _ := hplace
          obtain ⟨q, hq', hpc, -⟩ := clients_at hq
          rw [h.sees.procs] at hq'
          rcases two hq' with ⟨rfl, rfl⟩ | ⟨rfl, rfl⟩
          · have hplace' : c'.place = .at (.create_endcreate i) false := by
              cases ht with
              | no_set hpt => cases hpt
              | setval1 => rfl
            have hc' : ((w.clients key).set 0 c')[0]? = some c' :=
              List.getElem?_set_self (by omega)
            rw [← hcs] at hc'
            obtain ⟨held', place'⟩ := c'
            obtain rfl : place' = _ := hplace'
            obtain ⟨q', hq₂, hpc', -⟩ := clients_at hc'
            rw [hsees.procs] at hq₂
            cases hq₂
            obtain rfl : pc₀' = _ := hpc'
            exact hsees.endcreate_not_making hw' hm'
          · obtain rfl : pc₁ = _ := hpc
            exact (h.client_not_create hw).2 i rfl
        · exact hphase
    · rintro id x b rfl
      rw [Pc.view, if_pos rfl] at hget
      rcases getElem?_set_cases hget with ⟨rfl, hc', -⟩ | ⟨-, hold⟩
      · -- the server has looked the set up, or has fallen asleep
        have hplace : c'.place = .at (.create_lock id x) b := by rw [← hc']
        clear hc' hget hlen hcs
        cases ht <;> first | (cases hplace; done) | skip
        case sleep =>
          cases hplace
          exact hlooked id x false (hback hq rfl)
        case create_found hcur =>
          cases hplace
          exact ⟨_, hcur⟩
        case create_new =>
          cases hplace
          exact ⟨_, rfl⟩
      · obtain ⟨T, hcur⟩ := hlooked id x b (hback hold rfl)
        rcases ht.stays hcur with ⟨T', hcur'⟩ | hpast
        · exact ⟨T', hcur'⟩
        · rw [(hunset id T hcur).before hq] at hpast
          cases hpast

/-- **The two programs refine `Duo`.** -/
theorem Sound.step (h : Sound w d h₀ pc₀ h₁ pc₁) (hw : Sane v e w) (hw' : Sane v e w')
    (hcalm : calm w a) (hs : w.step (program v e) a = some w') :
    ∃ d' h₀' pc₀' h₁' pc₁', d.Step v e a d' ∧ Sound w' d' h₀' pc₀' h₁' pc₁' := by
  obtain ⟨hstep, hsees, hmaking, hopened, hundone⟩ := h.matched hw hcalm hs
  refine ⟨_, _, _, _, _, hstep, hsees, h.opening.step hstep, h.tally.step hstep, ?_, ?_, hopened,
    hundone⟩
  · intro key hkey
    exact (h.kept hkey).step (hw.lock key) (hw.count key) ((pair v e).keeps hw.ok hs)
      (h.timely hw key a) hs
  · exact fun hkey => h.made_step hw hw' hs hsees hmaking hkey

end Step

/-! ## Every run -/

section Runs

variable {v : Version} {e : Env} {w : World Shared User}
  {ok : World Shared User → Act User (Option ℕ) → Prop}

/-- A step is one of one process. -/
theorem procs_set {a : Act User (Option ℕ)} {w' : World Shared User}
    (hs : w.step (program v e) a = some w') : ∃ p q, w'.procs = w.procs.set p q := by
  cases World.step_moves hs with
  | spawn u hentry => cases hentry
  | die p q _ _ _ _ _ hp | quit p q c d _ _ _ _ _ _ _ hp | own p q c u _ _ _ _ _ hp
  | enter p q c cl u pt _ _ _ _ _ _ hp | straight p q c cl u x _ _ _ _ _ _ hp
  | sleep p q key pt _ _ _ _ _ _ hp | goto p q key pt pt' b sl r _ _ _ _ _ _ _ hp
  | ret p q key pt b sl r x _ _ _ _ _ _ _ hp | fails p q key pt b r _ _ _ _ _ _ _ hp =>
    exact ⟨_, _, hp⟩

/-- The two processes stay two. -/
theorem length_procs (h : (both v e).Reach ok w) : w.procs.length = 2 := by
  apply h.invariant (I := fun w => w.procs.length = 2)
  · rintro w rfl
    rfl
  · intro w a w' _ hlen _ hs
    obtain ⟨p, q, hp⟩ := procs_set hs
    rw [hp, List.length_set, hlen]

/-- The routines and their callers work in every run of the two programs. -/
theorem sane_of_reach (h : (both v e).Reach ok w) : Sane v e w := by
  have hok : ∀ {w}, (both v e).Reach ok w → ∀ q ∈ w.procs, (pair v e).Ok q := by
    intro w hw
    refine (pair v e).reach ?_ hw
    intro u hu
    simp only [List.mem_cons, List.not_mem_nil, or_false] at hu
    rcases hu with rfl | rfl
    · exact ⟨rfl, rfl⟩
    · exact ⟨rfl, rfl⟩
  have hord : (both v e).Reach (Orderly (program v e)) w := by
    refine h.strengthen fun w a w' hw _ hs => ⟨(pair v e).keeps (hok hw) hs, ?_⟩
    have hle : w.alive ≤ w.procs.length := List.countP_le_length
    rw [length_procs hw] at hle
    simp only [BIGCOUNT]
    omega
  exact ⟨fun key => lockInv_of_reach (fun _ _ h => h.1.spares) hord key,
    fun key => countInv_of_orderly hord key, hok h⟩

/-- Before the programs run. -/
theorem Sound.start : Sound (World.start Shared.start [.server .start, .client .start]) Duo.start
    (fun _ => none) .user (fun _ => none) .user where
  sees := ⟨rfl, rfl, rfl, rfl, rfl, rfl, rfl⟩
  opening := Duo.Opening.start
  tally := Duo.Tally.start
  kept := fun _ => Kept.start _ _ _
  made := fun _ _ => ⟨fun _ _ hcur => (by cases hcur), fun _ _ _ hpc => by cases hpc⟩
  opened := fun hopen => by cases hopen
  undone := ⟨fun _ _ => rfl, fun _ _ => rfl, fun _ _ => rfl, fun _ _ => rfl, fun _ _ => rfl⟩

/-- **The rule for the two programs.** What holds of `Duo` before the programs
run and is kept by each of its steps holds in every run without mishaps. The
condition on the steps may say more than `calm`; it is about the world. -/
theorem sound_of_reach {I : Duo → Prop} (hok : ∀ w a, ok w a → calm w a) (hstart : I Duo.start)
    (hstep : ∀ {w w' a d d' h₀ pc₀ h₁ pc₁ h₀' pc₀' h₁' pc₁'}, ok w a →
      w.step (program v e) a = some w' → Sound w d h₀ pc₀ h₁ pc₁ →
      Sound w' d' h₀' pc₀' h₁' pc₁' → I d → d.Step v e a d' → I d')
    (h : (both v e).Reach ok w) :
    ∃ d h₀ pc₀ h₁ pc₁, Sound w d h₀ pc₀ h₁ pc₁ ∧ I d := by
  apply h.invariant (I := fun w => ∃ d h₀ pc₀ h₁ pc₁, Sound w d h₀ pc₀ h₁ pc₁ ∧ I d)
  · rintro w rfl
    exact ⟨_, _, _, _, _, Sound.start, hstart⟩
  · rintro w a w' hw ⟨d, h₀, pc₀, h₁, pc₁, hsound, hI⟩ ha hs
    obtain ⟨d', h₀', pc₀', h₁', pc₁', hd, hsound'⟩ := hsound.step (sane_of_reach hw)
      (sane_of_reach (hw.step ha hs)) (hok w a ha) hs
    exact ⟨d', h₀', pc₀', h₁', pc₁', hsound', hstep ha hs hsound hsound' hI hd⟩

end Runs

end UnixNetProg.SharedMemory

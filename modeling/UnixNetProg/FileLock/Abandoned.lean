/-
`1_file_record_locking/file_record.c`, when processes may crash.

A lock file is not removed when the process that made it dies, and nothing else of what
the process was doing is undone either. So a crash is a process that takes no more steps,
and the numbers printed are what they are without crashes: none is lost and none is
printed twice.

The price is progress. A process that crashes outside the lock is not missed: the others
can all come to their end. One that crashes with the lock ends the program for all of
them: the lock file stays, nothing more is printed, and nobody gets in again.
-/
import UnixNetProg.FileLock.FileRecord
import UnixNetProg.Lib.Crashes

set_option autoImplicit false

namespace UnixNetProg.FileLock

open UnixNetProg.Files UnixNetProg.Runs UnixNetProg.Runs.Machine UnixNetProg.Stdio UnixNetProg.Pool

/-! ## Whose step it is -/

/-- Process `p` has made the lock file and not removed it. -/
def World.has {S U : Type} (w : World S U) (p : ℕ) : Prop :=
  ∃ q, w.procs[p]? = some q ∧ q.owns = true

instance {S U : Type} (w : World S U) (p : ℕ) : Decidable (w.has p) :=
  decidable_of_iff (w.procs[p]?.map Proc.owns = some true) Option.map_eq_some_iff

section Steps

variable {S U C : Type} {P : Program S U C} {w w' : World S U} {a : Act U C} {p : ℕ} {q : Proc U}

/-- A step of another process leaves this one, and what it has, as it is. -/
theorem has_of_step (hs : w.step P a = some w') (ha : a.actor ≠ some p) :
    w'.has p ↔ w.has p := by
  have hset : ∀ {p' : ℕ} (q' : Proc U), some p' ≠ some p →
      (w.procs.set p' q')[p]? = w.procs[p]? := by
    intro p' q' hne
    exact List.getElem?_set_ne fun e => hne (congrArg some e)
  cases a with
  | spawn pid root u =>
    obtain ⟨-, rfl⟩ := World.of_step_spawn hs
    constructor
    · rintro ⟨q, hq, ho⟩
      rcases getElem?_append_cases hq with ⟨-, rfl⟩ | hq
      · cases ho
      · exact ⟨q, hq, ho⟩
    · rintro ⟨q, hq, ho⟩
      exact ⟨q, (List.getElem?_append_left (List.getElem?_eq_some_iff.1 hq).1).trans hq, ho⟩
  | user p' c =>
    obtain ⟨q', s, d, -, -, -, rfl⟩ := World.of_step_user hs
    simp only [World.has, hset _ ha]
  | sys p' =>
    obtain ⟨q', pt, -, -, rfl⟩ := World.of_step_sys hs
    simp only [World.has, hset _ ha]

end Steps

section Record

variable {s N : ℕ} {w w' : World Shared Main} {p : ℕ} {q : Proc Main}

/-- Only `printf` and `write` change what the processes share. -/
theorem main_step_shared {pid : ℤ} {sh sh' : Shared} {u : Main} {d : Does Main}
    (h : main_step pid sh u = some (sh', d)) (hprint : u.stage ≠ .print)
    (hwrite : u.stage ≠ .write) : sh' = sh := by
  obtain ⟨stage, i, off, buff, seqno⟩ := u
  cases stage <;> simp only [main_step] at h <;> (try split at h) <;> (try split_ifs at h) <;>
    cases h <;> first | rfl | exact absurd rfl hprint | exact absurd rfl hwrite

/-- A process without the lock neither prints nor writes. -/
theorem shared_of_step {a : Act Main Unit} (h : RecordInv s N w) (hs : w.step main a = some w')
    (hnot : ∀ p ∈ a.actor, ¬ w.has p) : w'.shared = w.shared := by
  cases a with
  | spawn pid root u => simp [World.step, main] at hs
  | user p c =>
    obtain ⟨q, sh, d, hq, -, hmain, rfl⟩ := World.of_step_user hs
    have hshallow : q.user.stage.deep = false := by
      by_contra hdeep
      exact hnot p rfl ⟨q, hq, (h.phase hq).owns (by simpa using hdeep)⟩
    apply main_step_shared hmain
    · intro hst
      rw [hst] at hshallow
      cases hshallow
    · intro hst
      rw [hst] at hshallow
      cases hshallow
  | sys p =>
    obtain ⟨q, pt, -, -, rfl⟩ := World.of_step_sys hs
    rfl

end Record

/-! ## Runs with crashes -/

/-- `N` processes, any of which may crash. -/
def crashMachine (s N : ℕ) : Machine (World Shared Main × List ℕ) (Act Main Unit ⊕ ℕ) :=
  (machine main (start s N)).crashing Act.actor

/-- Nobody has crashed with the lock. -/
def Clean (x : World Shared Main × List ℕ) : Prop := ∀ p ∈ x.2, ¬ x.1.has p

section Runs

variable {s N : ℕ} {x y : World Shared Main × List ℕ}

/-- The invariants do not notice crashes. -/
theorem recordInv_of_crashes (hmax : s + 20 * N ≤ INT_MAX)
    (h : (crashMachine s N).Reach (orCrash fun _ _ => True) x) :
    LockInv x.1.dir x.1.procs ∧ RecordInv s N x.1 :=
  recordInv_of_reach hmax h.uncrashed

/-- Who has crashed does not get the lock later. -/
theorem Clean.of_reach (hx : Clean x) (h : ((crashMachine s N).startedAt x).Reach noCrash y) :
    Clean y := by
  induction h with
  | init hy =>
    obtain rfl := hy
    exact hx
  | @step y z b _ hok hstep ih =>
    cases b with
    | inl a =>
      obtain ⟨hs, hsame, hlive⟩ := of_crashing_inl hstep
      intro p hp hhas
      rw [hsame] at hp
      exact ih p hp ((has_of_step hs (hlive p hp)).1 hhas)
    | inr i => exact hok.elim

/-- All that have not crashed have ended. -/
def AllEnded (x : World Shared Main × List ℕ) : Prop :=
  ∀ p q, x.1.procs[p]? = some q → p ∉ x.2 → q.live = false

/-- **While nobody has crashed with the lock, somebody can come closer to the end**: the one
that has the lock, or any one if nobody has it. -/
theorem crashed_step_down (hmax : s + 20 * N ≤ INT_MAX)
    (h : (crashMachine s N).Reach (orCrash fun _ _ => True) x) (hclean : Clean x)
    (hnot : ¬ AllEnded x) :
    ∃ b y, noCrash x b ∧ (crashMachine s N).step x b = some y ∧
      (y.1.procs.map Proc.left).sum < (x.1.procs.map Proc.left).sum := by
  obtain ⟨hlock, hrec⟩ := recordInv_of_crashes hmax h
  -- who is to take the step
  obtain ⟨p, q, hq, hp, hlive, hfree⟩ : ∃ p q, x.1.procs[p]? = some q ∧ p ∉ x.2 ∧
      q.live = true ∧ (q.owns = true ∨ x.1.dir.entry LOCKFILE = none) := by
    cases hl : x.1.dir.entry LOCKFILE with
    | some i =>
      obtain ⟨p, q, hq, hi⟩ := hlock.held hl
      have ho : q.owns = true := by rw [Proc.owns, hi]; rfl
      exact ⟨p, q, hq, fun hp => hclean p hp ⟨q, hq, ho⟩, hlock.live_of_owns hq ho, .inl ho⟩
    | none =>
      simp only [AllEnded, not_forall] at hnot
      obtain ⟨p, q, hq, hp, hlive⟩ := hnot
      exact ⟨p, q, hq, hp, by simpa using hlive, .inr rfl⟩
  obtain ⟨a, w', hactor, hstep, hlt⟩ := proc_down hlock hrec hmax hq hlive hfree
  refine ⟨.inl a, (w', x.2), trivial, crashing_inl hstep fun i hi hi' => ?_, hlt⟩
  rw [hactor] at hi'
  exact hp (Option.some.inj hi' ▸ hi)

/-- A process that has ended has done so by `exit`, after twenty numbers. -/
theorem RecordInv.ended {w : World Shared Main} (h : RecordInv s N w) {p : ℕ} {q : Proc Main}
    (hq : w.procs[p]? = some q) (hlive : q.live = false) : q.pc = .exited ∧ q.user.i = 20 := by
  have hplace := (h.phase hq).place
  unfold Proc.live at hlive
  split at hlive
  · cases hlive
  · cases hlive
  · rename_i hpc
    rw [Proc.Place, hpc] at hplace
    exact ⟨hpc, hplace.2⟩
  · rename_i hpc
    rw [Proc.Place, hpc] at hplace
    exact hplace.elim

/-- Nobody is between printing and writing who has not the lock. -/
theorem RecordInv.owns_of_stale {w : World Shared Main} (h : RecordInv s N w) {p : ℕ}
    {q : Proc Main} (hq : w.procs[p]? = some q) (hstale : q.user.stage.stale = true) :
    q.owns = true := by
  apply (h.phase hq).owns
  revert hstale
  cases q.user.stage <;> decide

/-- **The others come to their end.** -/
theorem crashed_outside (hmax : s + 20 * N ≤ INT_MAX)
    (h : (crashMachine s N).Reach (orCrash fun _ _ => True) x) (hclean : Clean x) :
    ∃ y, ((crashMachine s N).startedAt x).Reach noCrash y ∧
      (∀ p q, y.1.procs[p]? = some q → p ∉ x.2 → q.pc = .exited ∧ q.user.i = 20) ∧
      ∃ data, y.1.shared.seqfile = some data ∧
        sscanf_d data = some ((s + y.1.shared.out.length : ℕ) : ℤ) := by
  have hstart : ((crashMachine s N).startedAt x).Reach noCrash x := .init rfl
  have hdown : ∀ z, ((crashMachine s N).startedAt x).Reach noCrash z → ¬ AllEnded z →
      ∃ b t, noCrash z b ∧ ((crashMachine s N).startedAt x).step z b = some t ∧
        (t.1.procs.map Proc.left).sum < (z.1.procs.map Proc.left).sum :=
    fun z hz hnot => crashed_step_down hmax (h.append hz.of_noCrash) (hclean.of_reach hz) hnot
  obtain ⟨y, hy, hended⟩ := hstart.finishes (fun z => (z.1.procs.map Proc.left).sum) hdown
  have hy : ((crashMachine s N).startedAt x).Reach noCrash y := hy
  obtain ⟨-, hrec⟩ := recordInv_of_crashes hmax (h.append hy.of_noCrash)
  have hsame := hy.same_crashed
  refine ⟨y, hy, fun p q hq hp => hrec.ended hq (hended p q hq (by rwa [hsame])), ?_⟩
  obtain ⟨data, hdata, -, hfresh⟩ := hrec.file
  refine ⟨data, hdata, hfresh fun q hq => ?_⟩
  obtain ⟨p, hp⟩ := List.mem_iff_getElem?.1 hq
  by_contra hstale
  have hstale : q.user.stage.stale = true := by simpa using hstale
  have ho := hrec.owns_of_stale hp hstale
  by_cases hdead : p ∈ y.2
  · exact hclean.of_reach hy p hdead ⟨q, hp, ho⟩
  · -- whoever has ended is not there
    obtain ⟨hpc, -⟩ := hrec.ended hp (hended p q hp hdead)
    have hplace := (hrec.phase hp).place
    rw [Proc.Place, hpc] at hplace
    rw [hplace.1] at hstale
    cases hstale

/-- **The others do not get the lock again**, and the numbers stand still. -/
theorem crashed_inside (hmax : s + 20 * N ≤ INT_MAX)
    (h : (crashMachine s N).Reach (orCrash fun _ _ => True) x) {p : ℕ} (hp : p ∈ x.2)
    (hhas : x.1.has p)
    (hy : ((crashMachine s N).startedAt x).Reach (orCrash fun _ _ => True) y) :
    y.1.shared = x.1.shared ∧ (y.1.dir.entry LOCKFILE).isSome = true ∧
      ∀ p', y.1.has p' → p' = p := by
  have habandoned : ∀ {z}, ((crashMachine s N).startedAt x).Reach (orCrash fun _ _ => True) z →
      z.1.has p ∧ ∀ p', z.1.has p' → p' = p := by
    intro z hz
    refine h.abandoned (fun w i j hw hi hj => ?_) (fun w a w' i _ _ hs ha hi => ?_) hp hhas hz
    · obtain ⟨q, hq, ho⟩ := hi
      obtain ⟨q', hq', ho'⟩ := hj
      exact (recordInv_of_reach hmax hw).1.unique hq hq' ho ho'
    · exact (has_of_step hs ha).2 hi
  refine ⟨?_, ?_, (habandoned hy).2⟩
  · induction hy with
    | init hy => rw [hy]
    | @step y z b hy hok hstep ih =>
      cases b with
      | inl a =>
        obtain ⟨hs, -, hlive⟩ := of_crashing_inl hstep
        obtain ⟨-, hrec⟩ := recordInv_of_crashes hmax (h.append hy)
        -- the step is not taken by the only one that has the lock
        refine (shared_of_step hrec hs fun p' hp' hhas' => ?_).trans ih
        obtain rfl := (habandoned hy).2 p' hhas'
        exact hlive p' (hy.stays_crashed hp) hp'
      | inr i =>
        rw [(of_crashing_inr (machine main (start s N)) Act.actor hstep).1]
        exact ih
  · obtain ⟨q, hq, ho⟩ := (habandoned hy).1
    obtain ⟨i, -, hi⟩ := (recordInv_of_crashes hmax (h.append hy)).1.own_file hq ho
    rw [hi]
    rfl

end Runs

end UnixNetProg.FileLock

/-
`async_io.c`: standard input is copied to standard output, and the process sleeps in
`sigsuspend` until a `SIGIO` says that there is input.

A signal is a bit: raised while it is pending it is the same signal. It is delivered when
the mask in force lets it through, which is the process's mask, and an empty one in
`sigsuspend`. `sigprocmask` delivers what it unblocks before it returns; everywhere else
it may take its time. The handler stays installed.

The loop reads once for every time the flag is set. The invariant is `Noticed`: what has
arrived and has not been read has a signal that is pending, or a flag that is set and
that nobody is about to clear.
-/
import Mathlib.Data.Int.Notation
import UnixNetProg.Lib.Channel
import UnixNetProg.Lib.Runs

set_option autoImplicit false

namespace UnixNetProg.AsyncIo

open UnixNetProg.Channel UnixNetProg.Runs

def BUFFSIZE : ℕ := 4096

/-! ## The program -/

/-- What the process does next: `suspended` is inside `sigsuspend`. -/
inductive At
  | sigblock
  | test
  | sigsuspend
  | suspended
  | read
  | write
  | clear
  | setmask
  | returned (status : ℤ)
  deriving DecidableEq, Repr

/-- The process, of whose masks only the bit of `SIGIO` matters, and its files. -/
structure World where
  sigflag : Bool
  mask : Bool
  prev_set : Bool
  sigio : Bool
  buff : List UInt8
  pc : At
  stdin : Chan UInt8
  stdout : List UInt8

/-- Before the loop. The mask is inherited, and nothing has arrived. -/
def start (mask : Bool) : World where
  sigflag := false
  mask := mask
  prev_set := false
  sigio := false
  buff := []
  pc := .sigblock
  stdin := .empty
  stdout := []

/-- `sigio_func` (`9.async_io/async_io.c:205-213`), after which `sigsuspend` returns. -/
def World.sigio_func (w : World) : World :=
  { w with sigflag := true, sigio := false, pc := if w.pc = .suspended then .test else w.pc }

/-- The signal is pending, and the mask in force does not block it. -/
def World.Deliverable (w : World) : Prop := w.sigio = true ∧ (w.mask = false ∨ w.pc = .suspended)

instance (w : World) : Decidable w.Deliverable := by
  unfold World.Deliverable
  infer_instance

/-- What a run does: the process takes a step, which in `read` gets `k` bytes and in
`write` puts out `k`, or its call fails; the signal is delivered; input arrives, or
ends. -/
inductive Act
  | go (k : ℕ)
  | fails
  | deliver
  | arrive (bs : List UInt8)
  | hangup

/-- After a `read`. -/
def World.got (w : World) (q : List UInt8 × Chan UInt8) : World :=
  { w with buff := q.1, stdin := q.2, pc := if q.1 = [] then .returned 0 else .write }

/-- After a `write` of `k` bytes. -/
def World.put (w : World) (k : ℕ) : World :=
  { w with stdout := w.stdout ++ w.buff.take k
           pc := if k = w.buff.length then .clear else .returned (-1) }

/-- A pending signal is delivered at once, if the mask lets it through. -/
def World.settle (w : World) : World := if w.Deliverable then w.sigio_func else w

/-- `sigprocmask` with the old mask. -/
def World.setmask (w : World) : World :=
  { w with mask := w.prev_set, pc := .sigblock }.settle

/-- A call of the loop of `main` (`9.async_io/async_io.c:122-200`). -/
def World.go (w : World) (k : ℕ) : Option World :=
  match w.pc with
  | .sigblock => some { w with prev_set := w.mask, mask := true, pc := .test }
  | .test => some { w with pc := if w.sigflag then .read else .sigsuspend }
  | .sigsuspend => some { w with pc := .suspended }
  | .suspended => none
  | .read => (w.stdin.read BUFFSIZE k).map w.got
  | .write => if k ≤ w.buff.length then some (w.put k) else none
  | .clear => some { w with sigflag := false, pc := .setmask }
  | .setmask => some w.setmask
  | .returned _ => none

def World.step (w : World) : Act → Option World
  | .go k => w.go k
  | .fails =>
    match w.pc with
    | .read | .write => some { w with pc := .returned (-1) }
    | _ => none
  | .deliver => if w.Deliverable then some w.sigio_func else none
  | .arrive bs =>
    if bs ≠ [] ∧ w.stdin.closed = false then
      some { w with stdin := w.stdin.write bs, sigio := true }
    else none
  | .hangup => some { w with stdin := w.stdin.close, sigio := true }

def machine : Machine World Act where
  init := fun w => ∃ mask, w = start mask
  step := World.step

/-- The process sleeps, nothing will wake it, and there is input. -/
def World.Lost (w : World) : Prop :=
  w.pc = .suspended ∧ w.sigflag = false ∧ w.sigio = false ∧ w.stdin.bytes ≠ []

/-- A `read` takes all there is, unless another signal is pending. -/
def empties (w : World) (a : Act) : Prop :=
  match a with
  | .go k => w.pc = .read → w.stdin.bytes.drop k ≠ [] → w.sigio = true
  | .fails | .deliver | .arrive _ | .hangup => True

instance (w : World) (a : Act) : Decidable (empties w a) := by
  unfold empties
  split <;> infer_instance

/-! ## The invariant -/

/-- The signal is blocked. -/
def At.blocking : At → Prop
  | .sigblock | .returned _ => False
  | .test | .sigsuspend | .suspended | .read | .write | .clear | .setmask => True

/-- The flag, if it is set, is looked at before it is cleared. -/
def At.heeding : At → Prop
  | .write | .clear => False
  | .sigblock | .test | .sigsuspend | .suspended | .read | .setmask | .returned _ => True

def At.over : At → Prop
  | .returned _ => True
  | .sigblock | .test | .sigsuspend | .suspended | .read | .write | .clear | .setmask => False

structure Noticed (w : World) : Prop where
  mask : w.pc.blocking → w.mask = true
  input : w.stdin.bytes ≠ [] → w.sigio = true ∨ (w.pc.heeding ∧ w.sigflag = true) ∨ w.pc.over

theorem Noticed.start (mask : Bool) : Noticed (start mask) :=
  ⟨fun h => h.elim, fun h => (h rfl).elim⟩

section Steps

variable {w w' : World}

/-- Before `main` has returned, input that is not read is accounted for. -/
theorem Noticed.awaited (h : Noticed w) {pc : At} (hpc : w.pc = pc) (hlive : ¬ pc.over)
    (hne : w.stdin.bytes ≠ []) : w.sigio = true ∨ (pc.heeding ∧ w.sigflag = true) := by
  rcases h.input hne with hsig | hflag | hover
  · exact .inl hsig
  · rw [hpc] at hflag
    exact .inr hflag
  · rw [hpc] at hover
    exact absurd hover hlive

/-- The handler sets the flag, and nobody is about to clear it where it can run. -/
theorem Noticed.sigio_func (h : Noticed w) (hdel : w.Deliverable) : Noticed w.sigio_func := by
  obtain ⟨-, hmask | hpc⟩ := hdel
  · -- the signal is not blocked, which it is inside the loop
    have hout : ¬ w.pc.blocking := by
      intro hb
      rw [h.mask hb] at hmask
      cases hmask
    have hpc : w.sigio_func.pc = w.pc := by
      apply if_neg
      intro heq
      rw [heq] at hout
      exact hout trivial
    refine ⟨?_, fun _ => .inr (.inl ⟨?_, rfl⟩)⟩
    · rw [hpc]
      intro hb
      exact absurd hb hout
    · rw [hpc]
      revert hout
      cases w.pc <;> simp [At.blocking, At.heeding]
  · -- the process sleeps, and wakes up where the flag is looked at
    have hpc' : w.sigio_func.pc = .test := if_pos hpc
    refine ⟨fun _ => ?_, fun _ => .inr (.inl ⟨?_, rfl⟩)⟩
    · apply h.mask
      rw [hpc]
      trivial
    · rw [hpc']
      trivial

/-- What arrives comes with a signal. -/
theorem Noticed.raise (h : Noticed w) (c : Chan UInt8) :
    Noticed { w with stdin := c, sigio := true } :=
  ⟨h.mask, fun _ => .inl rfl⟩

/-- A process that has returned does not wait. -/
theorem noticed_of_over (hover : w.pc.over) : Noticed w := by
  refine ⟨fun hb => ?_, fun _ => .inr (.inr hover)⟩
  cases hpc : w.pc with
  | returned status =>
    rw [hpc] at hb
    exact hb.elim
  | _ =>
    rw [hpc] at hover
    exact hover.elim

theorem Noticed.settle (h : Noticed w) : Noticed w.settle := by
  unfold World.settle
  split
  · rename_i hdel
    exact h.sigio_func hdel
  · exact h

theorem Noticed.setmask (h : Noticed w) (hpc : w.pc = .setmask) : Noticed w.setmask := by
  refine Noticed.settle ⟨fun hb => hb.elim, fun hne => ?_⟩
  -- what is pending is delivered before the call returns, so the flag takes its place
  rcases h.awaited hpc (fun hover => hover) hne with hsig | hflag
  · exact .inl hsig
  · exact .inr (.inl ⟨trivial, hflag.2⟩)

/-- A `read` that leaves nothing, or leaves it to the next signal. -/
theorem Noticed.got (h : Noticed w) (hpc : w.pc = .read) {k : ℕ} {q : List UInt8 × Chan UInt8}
    (hread : w.stdin.read BUFFSIZE k = some q)
    (hempties : w.stdin.bytes.drop k ≠ [] → w.sigio = true) : Noticed (w.got q) := by
  obtain ⟨data, c⟩ := q
  refine ⟨fun _ => h.mask (by rw [hpc]; trivial), fun hne => ?_⟩
  by_cases hnil : data = []
  · right
    right
    simp [World.got, hnil, At.over]
  · left
    -- what is left is what is behind the `k` bytes
    have hlen := Chan.length_of_read hread hnil
    have hbytes := (Chan.read_eq_some hread).1
    apply hempties
    rw [hbytes, ← hlen.1, List.drop_left]
    exact hne

/-- Going on to a place where the flag is still looked at. -/
theorem Noticed.goTo (h : Noticed w) (hpc : w.pc.blocking) {pc : At} (hheed : pc.heeding) :
    Noticed { w with pc := pc } := by
  refine ⟨fun _ => h.mask hpc, fun hne => ?_⟩
  rcases h.input hne with hsig | hflag | hover
  · exact .inl hsig
  · exact .inr (.inl ⟨hheed, hflag.2⟩)
  · cases hat : w.pc <;> rw [hat] at hpc hover
    all_goals first | exact hover.elim | exact hpc.elim

/-- What a step of the process preserves. -/
theorem Noticed.go (h : Noticed w) {k : ℕ} (hempties : empties w (.go k))
    (hs : w.go k = some w') : Noticed w' := by
  unfold World.go at hs
  split at hs
  · rename_i hpc
    obtain rfl := Option.some.inj hs
    refine ⟨fun _ => rfl, fun hne => ?_⟩
    rcases h.awaited hpc (fun hover => hover) hne with hsig | hflag
    · exact .inl hsig
    · exact .inr (.inl ⟨trivial, hflag.2⟩)
  · rename_i hpc
    obtain rfl := Option.some.inj hs
    apply h.goTo (by rw [hpc]; trivial)
    split <;> trivial
  · rename_i hpc
    obtain rfl := Option.some.inj hs
    exact h.goTo (by rw [hpc]; trivial) trivial
  · cases hs
  · rename_i hpc
    obtain ⟨q, hread, rfl⟩ := Option.map_eq_some_iff.1 hs
    exact h.got hpc hread (hempties hpc)
  · rename_i hpc
    split_ifs at hs with hk
    obtain rfl := Option.some.inj hs
    by_cases hall : k = w.buff.length
    · -- the flag is about to be cleared, so it is the signal that counts
      refine ⟨fun _ => h.mask (by rw [hpc]; trivial), fun hne => ?_⟩
      rcases h.awaited hpc (fun hover => hover) hne with hsig | hflag
      · exact .inl hsig
      · exact hflag.1.elim
    · apply noticed_of_over
      simp [World.put, hall, At.over]
  · rename_i hpc
    obtain rfl := Option.some.inj hs
    refine ⟨fun _ => h.mask (by rw [hpc]; trivial), fun hne => ?_⟩
    rcases h.awaited hpc (fun hover => hover) hne with hsig | hflag
    · exact .inl hsig
    · exact hflag.1.elim
  · rename_i hpc
    obtain rfl := Option.some.inj hs
    exact h.setmask hpc
  · cases hs

/-- What one step preserves. -/
theorem Noticed.step (h : Noticed w) {a : Act} (hempties : empties w a)
    (hs : w.step a = some w') : Noticed w' := by
  cases a with
  | go k => exact h.go hempties hs
  | fails =>
    -- `main` returns
    simp only [World.step] at hs
    split at hs
    all_goals cases hs
    all_goals exact noticed_of_over trivial
  | deliver =>
    simp only [World.step] at hs
    split_ifs at hs with hdel
    obtain rfl := Option.some.inj hs
    exact h.sigio_func hdel
  | arrive bs =>
    simp only [World.step] at hs
    split_ifs at hs
    obtain rfl := Option.some.inj hs
    exact h.raise _
  | hangup =>
    obtain rfl := Option.some.inj hs
    exact h.raise _

end Steps

/-- The invariant holds in every state of a run. -/
theorem noticed_of_reach {w : World} (h : machine.Reach empties w) : Noticed w := by
  apply h.invariant (I := Noticed)
  · intro s hs
    obtain ⟨mask, rfl⟩ := hs
    exact .start mask
  · intro s a t _ hs hempties hstep
    exact hs.step hempties hstep

theorem Noticed.not_lost {w : World} (h : Noticed w) : ¬ w.Lost := by
  intro hlost
  obtain ⟨hpc, hflag, hsig, hne⟩ := hlost
  rcases h.awaited hpc (fun hover => hover) hne with hsig' | hflag'
  · rw [hsig] at hsig'
    cases hsig'
  · rw [hflag] at hflag'
    cases hflag'.2

/-! ## A wake-up that is lost -/

/-- Nothing arrives, and no call fails. -/
def silent (_ : World) (a : Act) : Prop :=
  match a with
  | .go _ => True
  | .fails | .deliver | .arrive _ | .hangup => False

/-- **A `read` that leaves input while no signal is pending loses it.** If nothing else
arrives, the process writes what it has read, clears the flag, and goes to sleep. -/
theorem lost_of_leaves {w w' : World} {k : ℕ} (hs : w.step (.go k) = some w')
    (hleaves : ¬ empties w (.go k)) : ∃ u, (machine.startedAt w').Reach silent u ∧ u.Lost := by
  simp only [empties, Classical.not_imp, Bool.not_eq_true] at hleaves
  obtain ⟨hpc, hdrop, hsig⟩ := hleaves
  simp only [World.step, World.go, hpc] at hs
  obtain ⟨⟨data, c⟩, hread, rfl⟩ := Option.map_eq_some_iff.1 hs
  have hbytes := (Chan.read_eq_some hread).1
  have hnil : data ≠ [] := by
    intro hnil
    subst hnil
    rw [(Chan.read_nil hread).1, List.drop_nil] at hdrop
    exact hdrop rfl
  -- the bytes behind the `k` are the ones that are left
  have hleft : c.bytes ≠ [] := by
    rwa [hbytes, ← (Chan.length_of_read hread hnil).1, List.drop_left] at hdrop
  -- one step after the other, with the signal not pending
  let w1 : World := { w with buff := data, stdin := c, pc := .write }
  let w2 : World := { w1 with stdout := w.stdout ++ data, pc := .clear }
  let w3 : World := { w2 with sigflag := false, pc := .setmask }
  let w4 : World := { w3 with mask := w.prev_set, pc := .sigblock }
  let w5 : World := { w4 with prev_set := w.prev_set, mask := true, pc := .test }
  have h1 : w.got (data, c) = w1 := by simp [World.got, hnil, w1]
  have h2 : w1.go data.length = some w2 := by simp [World.go, World.put, w1, w2]
  have h4 : w3.setmask = w4 := by
    simp [World.setmask, World.settle, World.Deliverable, w1, w2, w3, w4, hsig]
  have r1 : (machine.startedAt w1).Reach silent w1 := .init rfl
  have r2 : (machine.startedAt w1).Reach silent w2 := r1.step (a := .go data.length) trivial h2
  have r3 : (machine.startedAt w1).Reach silent w3 := r2.step (a := .go 0) trivial rfl
  have r4 : (machine.startedAt w1).Reach silent w4 :=
    r3.step (a := .go 0) trivial (congrArg some h4)
  have r5 : (machine.startedAt w1).Reach silent w5 := r4.step (a := .go 0) trivial rfl
  have r6 : (machine.startedAt w1).Reach silent { w5 with pc := .sigsuspend } :=
    r5.step (a := .go 0) trivial rfl
  rw [h1]
  exact ⟨{ w5 with pc := .suspended }, r6.step (a := .go 0) trivial rfl, rfl, rfl, hsig, hleft⟩

/-- **No wake-up is lost in a run whose every `read` takes all there is, or is made while
another signal is pending**; and after any other `read` that a run can come to, the
process goes to sleep on what it has left unless something else arrives. -/
theorem no_lost_wakeup (w : World) :
    (machine.Reach empties w → ¬ w.Lost) ∧
    ∀ k w', machine.Reach (fun _ _ => True) w → w.step (.go k) = some w' →
      ¬ empties w (.go k) → ∃ u, (machine.startedAt w').Reach silent u ∧ u.Lost :=
  ⟨fun h => (noticed_of_reach h).not_lost, fun _ _ _ hs hleaves => lost_of_leaves hs hleaves⟩

/-- Two bytes arrive while the process sleeps, and it sleeps again. -/
theorem no_lost_wakeup_twoBytes :
    ∃ w, machine.Reach empties w ∧ w.pc = .suspended ∧ w.stdout = [104, 10] ∧ ¬ w.Lost := by
  have hrun := Machine.Reach.run machine empties ⟨false, rfl⟩
    [.go 0, .go 0, .go 0, .arrive [104, 10], .deliver, .go 0, .go 2, .go 2, .go 0, .go 0, .go 0,
      .go 0, .go 0] (by decide)
  exact ⟨_, hrun, by decide, by decide, (no_lost_wakeup _).1 hrun⟩

/-- The process has been woken by the first input, and is about to read. -/
def woken (bs : List UInt8) : World :=
  { start false with sigflag := true, mask := true, pc := .read, stdin := Chan.empty.write bs }

@[simp] theorem woken_bytes (bs : List UInt8) : (woken bs).stdin.bytes = bs := rfl

theorem reach_woken {bs : List UInt8} (hbs : bs ≠ []) :
    machine.Reach (fun _ _ => True) (woken bs) := by
  have hrun : machine.exec (fun _ _ => True) (start false)
      [.go 0, .go 0, .go 0, .arrive bs, .deliver, .go 0] = some (woken bs) := by
    simp [Machine.exec, machine, World.step, World.go, World.sigio_func, World.Deliverable, start,
      woken, hbs, Chan.write, Chan.empty]
  exact Machine.Reach.exec (.init ⟨false, rfl⟩) hrun

theorem step_read {w : World} (hpc : w.pc = .read) {k : ℕ} (hpos : 0 < k) (hk : k ≤ BUFFSIZE)
    (hlen : k ≤ w.stdin.bytes.length) : ∃ w', w.step (.go k) = some w' := by
  simp only [World.step, World.go, hpc, Chan.read_of_le hpos hk hlen, Option.map_some]
  exact ⟨_, rfl⟩

/-- Input that comes at once and does not fit in the buffer: one signal, and one `read`. -/
theorem lost_of_length {bs : List UInt8} (hbs : BUFFSIZE < bs.length) :
    ∃ w, machine.Reach (fun _ _ => True) w ∧ w.Lost := by
  have hne : bs ≠ [] := List.ne_nil_of_length_pos (by omega)
  have hleft : bs.drop BUFFSIZE ≠ [] := by
    intro hnil
    rw [List.drop_eq_nil_iff] at hnil
    omega
  obtain ⟨w', hread⟩ := step_read (w := woken bs) rfl (by decide) (Nat.le_refl BUFFSIZE)
    (by rw [woken_bytes]; omega)
  obtain ⟨u, hu, hlost⟩ := lost_of_leaves hread fun hempties =>
    Bool.false_ne_true (hempties rfl hleft)
  have hw' : machine.Reach (fun _ _ => True) w' :=
    (reach_woken hne).step (a := .go BUFFSIZE) trivial hread
  exact ⟨u, hw'.append (hu.mono fun _ _ _ => trivial), hlost⟩

/-- One byte more than the buffer holds. -/
theorem wakeup_is_lost : ∃ w, machine.Reach (fun _ _ => True) w ∧ w.Lost :=
  have hlen : BUFFSIZE < (List.replicate (BUFFSIZE + 1) (0 : UInt8)).length := by
    rw [List.length_replicate]
    exact Nat.lt_succ_self _
  lost_of_length hlen

end UnixNetProg.AsyncIo

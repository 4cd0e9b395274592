/-
Two processes and two FIFOs, one in each direction.

A process is an automaton over its system calls: `ask` is the call it is about to make,
`next` where it is when the call has returned. Each opens, closes, reads and writes the
FIFOs as the kernel lets it. As each end is opened once, an `open` comes back as soon as
the other end has been opened: that one cannot have been closed again before, for its
own `open` was waiting. A process writes and reads only what it has open.

What a call does to the FIFO that is written and to the one that is read are moves of
its two ends, and the moves of a writer and of a reader commute. So do the steps of the
two processes (`balanced`), where a read finds all it asks for or nothing, and nobody
closes an end that is about to be written to (`Settled`).
-/
import UnixNetProg.Lib.Descent

set_option autoImplicit false

namespace UnixNetProg.Duplex

open UnixNetProg.Runs UnixNetProg.Runs.Machine

/-! ## FIFOs -/

inductive End
  | fresh
  | opened
  | closed
  deriving DecidableEq, Repr

/-- A process closes what it has open. -/
def End.close : End → End
  | .fresh => .fresh
  | .opened | .closed => .closed

structure Pipe (α : Type) where
  bytes : List α
  w : End
  r : End
  deriving DecidableEq, Repr

/-- What a writer does to its end. -/
inductive WMove (α : Type)
  | stay
  | opens
  | append (bs : List α)
  | closes

/-- What a reader does to its end. -/
inductive RMove
  | stay
  | opens
  | take (n : ℕ)
  | closes
  deriving DecidableEq, Repr

section Moves

variable {α : Type} {p : Pipe α} {wm : WMove α} {rm : RMove}

def WMove.apply (p : Pipe α) : WMove α → Pipe α
  | .stay => p
  | .opens => { p with w := .opened }
  | .append bs => { p with bytes := p.bytes ++ bs }
  | .closes => { p with w := p.w.close }

def RMove.apply (p : Pipe α) : RMove → Pipe α
  | .stay => p
  | .opens => { p with r := .opened }
  | .take n => { p with bytes := p.bytes.drop n }
  | .closes => { p with r := p.r.close }

/-- An end is opened once, and written to while it is open. -/
def WMove.Legal (p : Pipe α) : WMove α → Prop
  | .opens => p.w = .fresh
  | .append _ => p.w = .opened
  | .stay | .closes => True

def RMove.Legal (p : Pipe α) : RMove → Prop
  | .opens => p.r = .fresh
  | .stay | .take _ | .closes => True

/-- Nothing is read that is still to be written. -/
def RMove.Fits (p : Pipe α) : RMove → Prop
  | .take n => n ≤ p.bytes.length
  | .stay | .opens | .closes => True

/-- **The two ends of a FIFO move independently.** -/
theorem apply_comm (h : rm.Fits p) : wm.apply (rm.apply p) = rm.apply (wm.apply p) := by
  cases wm with
  | append bs =>
    cases rm with
    | take n => simp [WMove.apply, RMove.apply, List.drop_append_of_le_length h]
    | _ => rfl
  | _ => cases rm <;> rfl

theorem close_ne_fresh {e : End} : e.close = .fresh ↔ e = .fresh := by
  cases e <;> simp [End.close]

@[simp] theorem wmove_r (p : Pipe α) (wm : WMove α) : (wm.apply p).r = p.r := by
  cases wm <;> rfl

@[simp] theorem rmove_w (p : Pipe α) (rm : RMove) : (rm.apply p).w = p.w := by
  cases rm <;> rfl

/-- What has been opened stays so. -/
theorem wmove_fresh (h : p.w ≠ .fresh) : (wm.apply p).w ≠ .fresh := by
  cases wm with
  | closes => exact fun hc => h (close_ne_fresh.1 hc)
  | opens => exact nofun
  | _ => exact h

theorem rmove_fresh (h : p.r ≠ .fresh) : (rm.apply p).r ≠ .fresh := by
  cases rm with
  | closes => exact fun hc => h (close_ne_fresh.1 hc)
  | opens => exact nofun
  | _ => exact h

/-- What has been closed stays so. -/
theorem rmove_closed (hl : rm.Legal p) (h : p.r = .closed) : (rm.apply p).r = .closed := by
  cases rm with
  | closes => simp [RMove.apply, h, End.close]
  | opens => rw [RMove.Legal, h] at hl; cases hl
  | _ => exact h

theorem wmove_closed (hl : wm.Legal p) (h : p.w = .closed) :
    (wm.apply p).w = .closed ∧ (wm.apply p).bytes = p.bytes := by
  cases wm with
  | closes => exact ⟨by simp [WMove.apply, h, End.close], rfl⟩
  | opens => rw [WMove.Legal, h] at hl; cases hl
  | append => rw [WMove.Legal, h] at hl; cases hl
  | stay => exact ⟨h, rfl⟩

/-- A reader that does not close leaves a reader. -/
theorem rmove_not_closed (hrm : rm ≠ .closes) (h : p.r ≠ .closed) : (rm.apply p).r ≠ .closed := by
  cases rm with
  | closes => exact absurd rfl hrm
  | opens => exact nofun
  | _ => exact h

/-- What is there stays in front. -/
theorem wmove_bytes (p : Pipe α) (wm : WMove α) : ∃ bs, (wm.apply p).bytes = p.bytes ++ bs := by
  cases wm with
  | append bs => exact ⟨bs, rfl⟩
  | _ => exact ⟨[], (List.append_nil _).symm⟩

theorem rmove_length (p : Pipe α) (rm : RMove) :
    (rm.apply p).bytes.length ≤ p.bytes.length := by
  cases rm with
  | take n => simp [RMove.apply]
  | _ => exact Nat.le_refl _

end Moves

/-! ## System calls -/

/-- The system calls, with a step of a process's own, `wait` for the other process,
and `exit`. -/
inductive Req (α : Type)
  | own
  | openRead
  | openWrite
  | read (n : ℕ)
  | write (bs : List α)
  | closeRead
  | closeWrite
  | wait
  | exit
  | ended
  deriving DecidableEq, Repr

/-- What becomes of the caller: it has opened its end and waits for the other one, the
call returns what was read, or `SIGPIPE` ends the process. -/
inductive Outcome (α : Type)
  | waits
  | go (bs : List α)
  | kill

/-- One call: the move of the FIFO that is written, which can hold `capacity` bytes,
that of the one that is read, and the outcome. `none` says that the process has to
wait. -/
def Req.perform {α : Type} (capacity : ℕ) (out inp : Pipe α) (gone : Prop) [Decidable gone] :
    Req α → Option (WMove α × RMove × Outcome α)
  | .own => some (.stay, .stay, .go [])
  | .openWrite =>
    if out.w = .fresh then some (.opens, .stay, .waits)
    else if out.r = .fresh then none else some (.stay, .stay, .go [])
  | .openRead =>
    if inp.r = .fresh then some (.stay, .opens, .waits)
    else if inp.w = .fresh then none else some (.stay, .stay, .go [])
  | .read n =>
    if inp.r ≠ .opened then none
    else if inp.bytes = [] then
      if inp.w = .closed then some (.stay, .stay, .go []) else none
    else some (.stay, .take n, .go (inp.bytes.take n))
  | .write bs =>
    if out.w ≠ .opened then none
    else if bs = [] then some (.stay, .stay, .go [])
    else if out.r = .closed then some (.closes, .closes, .kill)
    else if out.bytes.length + bs.length ≤ capacity then some (.append bs, .stay, .go [])
    else none
  | .closeRead => some (.stay, .closes, .go [])
  | .closeWrite => some (.closes, .stay, .go [])
  | .wait => if gone then some (.stay, .stay, .go []) else none
  | .exit => some (.closes, .closes, .go [])
  | .ended => none

/-- A read that finds all it asks for, or nothing. -/
def Req.Whole {α : Type} (inp : Pipe α) : Req α → Prop
  | .read n => inp.bytes ≠ [] → n ≤ inp.bytes.length
  | _ => True

/-- The call writes something. -/
def Req.Writes {α : Type} : Req α → Prop
  | .write bs => bs ≠ []
  | _ => False

/-- The call closes the end that the caller reads from. -/
def Req.Shuts {α : Type} (out : Pipe α) : Req α → Prop
  | .closeRead | .exit => True
  | .write bs => bs ≠ [] ∧ out.r = .closed
  | _ => False

section Calls

variable {α : Type} {q : Req α} {capacity : ℕ} {out inp : Pipe α} {gone gone' : Prop}
  [Decidable gone] [Decidable gone'] {wm wm' : WMove α} {rm rm' : RMove} {oc : Outcome α}

/-- A call makes legal moves, and reads no more than is there. -/
theorem legal_of_perform (hw : q.Whole inp)
    (h : q.perform capacity out inp gone = some (wm, rm, oc)) :
    wm.Legal out ∧ rm.Legal inp ∧ rm.Fits inp := by
  cases q with
  | own | closeRead | closeWrite | exit =>
    cases h
    exact ⟨trivial, trivial, trivial⟩
  | ended => cases h
  | openWrite =>
    simp only [Req.perform] at h
    split_ifs at h with hfresh hother <;> cases h
    · exact ⟨hfresh, trivial, trivial⟩
    · exact ⟨trivial, trivial, trivial⟩
  | openRead =>
    simp only [Req.perform] at h
    split_ifs at h with hfresh hother <;> cases h
    · exact ⟨trivial, hfresh, trivial⟩
    · exact ⟨trivial, trivial, trivial⟩
  | read n =>
    simp only [Req.perform, ne_eq, ite_not] at h
    split_ifs at h with hopen hnil hclosed <;> cases h
    · exact ⟨trivial, trivial, trivial⟩
    · exact ⟨trivial, trivial, hw hnil⟩
  | write bs =>
    simp only [Req.perform, ne_eq, ite_not] at h
    split_ifs at h with hopen <;> cases h
    · exact ⟨trivial, trivial, trivial⟩
    · exact ⟨trivial, trivial, trivial⟩
    · exact ⟨hopen, trivial, trivial⟩
  | wait =>
    simp only [Req.perform] at h
    split_ifs at h
    cases h
    exact ⟨trivial, trivial, trivial⟩

/-- Where a call closes the reading end, it was one that does. -/
theorem shuts_of_perform (h : q.perform capacity out inp gone = some (wm, .closes, oc)) :
    q.Shuts out := by
  cases q with
  | closeRead | exit => trivial
  | write bs =>
    simp only [Req.perform, ne_eq, ite_not] at h
    split_ifs at h with hopen hnil hclosed <;> cases h
    exact ⟨hnil, hclosed⟩
  | own | closeWrite | ended => cases h
  | openWrite | openRead | wait | read =>
    simp only [Req.perform] at h
    split_ifs at h <;> cases h

/-- **A call comes to the same after a move of the other process**: of the reader of
what is written here, and of the writer of what is read here. -/
theorem perform_stable (h : q.perform capacity out inp gone = some (wm, rm, oc))
    (hw : wm'.Legal inp) (hr : rm'.Legal out) (hgone : gone → gone')
    (hcalm : q.Writes → rm' ≠ .closes) (hwhole : q.Whole inp) :
    q.perform capacity (rm'.apply out) (wm'.apply inp) gone' = some (wm, rm, oc) := by
  cases q with
  | own | closeRead | closeWrite | exit => exact h
  | ended => cases h
  | openWrite =>
    simp only [Req.perform, rmove_w] at h ⊢
    split_ifs at h with hfresh hother
    · rw [if_pos hfresh]
      exact h
    · rw [if_neg hfresh, if_neg (rmove_fresh hother)]
      exact h
  | openRead =>
    simp only [Req.perform, wmove_r] at h ⊢
    split_ifs at h with hfresh hother
    · rw [if_pos hfresh]
      exact h
    · rw [if_neg hfresh, if_neg (wmove_fresh hother)]
      exact h
  | read n =>
    simp only [Req.perform, wmove_r, ne_eq, ite_not] at h ⊢
    split_ifs at h with hopen hnil hclosed
    · obtain ⟨hstill, hsame⟩ := wmove_closed hw hclosed
      rw [if_pos hopen, if_pos (hsame.trans hnil), if_pos hstill]
      exact h
    · -- what was there is enough, whatever is written behind it
      obtain ⟨more, hmore⟩ := wmove_bytes inp wm'
      have hn : n ≤ inp.bytes.length := hwhole hnil
      rw [if_pos hopen, if_neg (by simp [hmore, hnil]), hmore,
        List.take_append_of_le_length hn]
      exact h
  | write bs =>
    simp only [Req.perform, rmove_w, ne_eq, ite_not] at h ⊢
    split_ifs at h with hopen hnil hclosed hroom
    · rw [if_pos hopen, if_pos hnil]
      exact h
    · rw [if_pos hopen, if_neg hnil, if_pos (rmove_closed hr hclosed)]
      exact h
    · have hlen := rmove_length out rm'
      rw [if_pos hopen, if_neg hnil, if_neg (rmove_not_closed (hcalm hnil) hclosed),
        if_pos (by omega)]
      exact h
  | wait =>
    simp only [Req.perform] at h ⊢
    split_ifs at h with hdone
    rw [if_pos (hgone hdone)]
    exact h

end Calls

/-! ## The system -/

/-- The two processes. -/
inductive Side
  | first
  | second
  deriving DecidableEq, Repr

def Side.peer : Side → Side
  | .first => .second
  | .second => .first

/-- A program, for either process: the call it is about to make, where it is after it,
and after `SIGPIPE`. -/
structure Program (σ α : Type) where
  ask : σ → Req α
  next : σ → List α → σ
  killed : σ → σ

/-- The states of the two processes, and the FIFO that each of them writes. -/
structure World (σ α : Type) where
  st : Side → σ
  pipe : Side → Pipe α

section System

variable {σ α : Type}

/-- The process, after the outcome of its call. -/
def Program.after (P : Program σ α) (s : σ) : Outcome α → σ
  | .waits => s
  | .go bs => P.next s bs
  | .kill => P.killed s

/-- The process has ended. -/
def Req.isEnded : Req α → Bool
  | .ended => true
  | _ => false

/-- Process `b` has ended. -/
def World.gone (P : Program σ α) (w : World σ α) (b : Side) : Prop := (P.ask (w.st b)).isEnded

instance (P : Program σ α) (w : World σ α) (b : Side) : Decidable (w.gone P b) :=
  inferInstanceAs (Decidable (_ = true))

/-- The world, after the moves of process `b`. -/
def World.moved (P : Program σ α) (w : World σ α) (b : Side) (wm : WMove α) (rm : RMove)
    (oc : Outcome α) : World σ α where
  st := fun c => if c = b then P.after (w.st c) oc else w.st c
  pipe := fun c => if c = b then wm.apply (w.pipe c) else rm.apply (w.pipe c)

/-- A step of process `b`. -/
def World.step (P : Program σ α) (capacity : Side → ℕ) (w : World σ α) (b : Side) :
    Option (World σ α) :=
  ((P.ask (w.st b)).perform (capacity b) (w.pipe b) (w.pipe b.peer) (w.gone P b.peer)).map
    fun r => w.moved P b r.1 r.2.1 r.2.2

/-- Nothing has been opened, and the processes are at `s`. -/
def World.start (s : Side → σ) : World σ α := ⟨s, fun _ => ⟨[], .fresh, .fresh⟩⟩

def machine (P : Program σ α) (capacity : Side → ℕ) (s : Side → σ) :
    Machine (World σ α) Side where
  init := fun w => w = .start s
  step := World.step P capacity

/-- A read finds all it asks for or nothing, and nobody closes an end that is about to be
written to. -/
def World.Settled (P : Program σ α) (w : World σ α) : Prop :=
  ∀ b : Side, (P.ask (w.st b)).Whole (w.pipe b.peer) ∧
    ((P.ask (w.st b)).Writes → ¬ (P.ask (w.st b.peer)).Shuts (w.pipe b.peer))

@[simp] theorem peer_peer (b : Side) : b.peer.peer = b := by cases b <;> rfl

@[simp] theorem peer_ne (b : Side) : b.peer ≠ b := by cases b <;> exact nofun

theorem eq_or_eq_peer (b c : Side) : c = b ∨ c = b.peer := by
  cases b <;> cases c <;> simp [Side.peer]

variable {P : Program σ α} {capacity : Side → ℕ} {w w' w'' : World σ α} {b : Side}
  {wm : WMove α} {rm : RMove} {oc : Outcome α}

theorem World.of_step (h : w.step P capacity b = some w') :
    ∃ wm rm oc, (P.ask (w.st b)).perform (capacity b) (w.pipe b) (w.pipe b.peer)
      (w.gone P b.peer) = some (wm, rm, oc) ∧ w' = w.moved P b wm rm oc := by
  obtain ⟨⟨wm, rm, oc⟩, hperf, rfl⟩ := Option.map_eq_some_iff.1 h
  exact ⟨wm, rm, oc, hperf, rfl⟩

theorem World.step_of (h : (P.ask (w.st b)).perform (capacity b) (w.pipe b) (w.pipe b.peer)
    (w.gone P b.peer) = some (wm, rm, oc)) :
    w.step P capacity b = some (w.moved P b wm rm oc) := by
  rw [World.step, h]
  rfl

@[simp] theorem moved_st_self : (w.moved P b wm rm oc).st b = P.after (w.st b) oc := if_pos rfl

@[simp] theorem moved_st_peer : (w.moved P b wm rm oc).st b.peer = w.st b.peer :=
  if_neg (peer_ne b)

@[simp] theorem moved_pipe_self : (w.moved P b wm rm oc).pipe b = wm.apply (w.pipe b) := if_pos rfl

@[simp] theorem moved_pipe_peer :
    (w.moved P b wm rm oc).pipe b.peer = rm.apply (w.pipe b.peer) := if_neg (peer_ne b)

/-- After a step of `b`, the step of its peer is the one it was before. -/
theorem Settled.perform_peer (hs : w.Settled P) {wm' : WMove α} {rm' : RMove} {oc' : Outcome α}
    (h : (P.ask (w.st b)).perform (capacity b) (w.pipe b) (w.pipe b.peer)
      (w.gone P b.peer) = some (wm, rm, oc))
    (h' : (P.ask (w.st b.peer)).perform (capacity b.peer) (w.pipe b.peer) (w.pipe b)
      (w.gone P b) = some (wm', rm', oc')) :
    (w.moved P b wm rm oc).step P capacity b.peer =
      some ((w.moved P b wm rm oc).moved P b.peer wm' rm' oc') := by
  apply World.step_of
  rw [moved_st_peer, moved_pipe_peer, peer_peer, moved_pipe_self]
  obtain ⟨hwm, hrm, -⟩ := legal_of_perform (hs b).1 h
  obtain ⟨hwhole, hcalm⟩ := hs b.peer
  rw [peer_peer] at hwhole hcalm
  refine perform_stable h' hwm hrm ?_ ?_ hwhole
  · -- whoever makes a step has not ended
    intro hgone
    unfold World.gone at hgone
    cases hq : P.ask (w.st b) with
    | ended => rw [hq] at h; cases h
    | _ => rw [hq] at hgone; cases hgone
  · rintro hwrites rfl
    exact hcalm hwrites (shuts_of_perform h)

/-- **The steps of the two processes commute.** -/
theorem Settled.commute (hs : w.Settled P) (h : w.step P capacity b = some w')
    (h' : w.step P capacity b.peer = some w'') :
    ∃ v, w'.step P capacity b.peer = some v ∧ w''.step P capacity b = some v := by
  obtain ⟨wm, rm, oc, hperf, rfl⟩ := World.of_step h
  obtain ⟨wm', rm', oc', hperf', rfl⟩ := World.of_step h'
  rw [peer_peer] at hperf'
  have hone := Settled.perform_peer hs hperf hperf'
  have htwo := Settled.perform_peer (b := b.peer) hs (by rwa [peer_peer]) (by rwa [peer_peer])
  rw [peer_peer] at htwo
  obtain ⟨-, -, hfits⟩ := legal_of_perform (hs b).1 hperf
  obtain ⟨-, -, hfits'⟩ := legal_of_perform (hs b.peer).1 (by rwa [peer_peer])
  rw [peer_peer] at hfits'
  refine ⟨_, hone, htwo.trans (congrArg some ?_)⟩
  -- each process and each FIFO has moved twice, in either order
  have hst : ∀ c, (((w.moved P b.peer wm' rm' oc').moved P b wm rm oc).st c) =
      ((w.moved P b wm rm oc).moved P b.peer wm' rm' oc').st c := by
    intro c
    rcases eq_or_eq_peer b c with rfl | rfl
    · have hne := (peer_ne c).symm
      simp only [World.moved, if_true, if_neg hne]
    · simp only [World.moved, if_true, if_neg (peer_ne b)]
  have hpipe : ∀ c, (((w.moved P b.peer wm' rm' oc').moved P b wm rm oc).pipe c) =
      ((w.moved P b wm rm oc).moved P b.peer wm' rm' oc').pipe c := by
    intro c
    rcases eq_or_eq_peer b c with rfl | rfl
    · have hne := (peer_ne c).symm
      simp only [World.moved, if_true, if_neg hne]
      exact apply_comm hfits'
    · simp only [World.moved, if_true, if_neg (peer_ne b)]
      exact (apply_comm hfits).symm
  exact congrArg₂ World.mk (funext hst) (funext hpipe)

/-- **A settled system is balanced.** -/
theorem balanced {s : Side → σ} {I : World σ α → Prop} (hI : ∀ w, I w → w.Settled P) :
    (machine P capacity s).Balanced I := by
  intro w a b t u hw ht hu
  rcases eq_or_eq_peer a b with rfl | rfl
  · obtain rfl : t = u := Option.some.inj (ht.symm.trans hu)
    exact ⟨0, t, .nil, .nil⟩
  · obtain ⟨v, hv, hv'⟩ := Settled.commute (hI w hw) ht hu
    exact ⟨1, v, .single hv, .single hv'⟩

/-! ### A schedule -/

/-- The processes at `s` and `s'`, with the FIFOs that they write. -/
def World.of (s s' : σ) (p p' : Pipe α) : World σ α where
  st := fun
    | .first => s
    | .second => s'
  pipe := fun
    | .first => p
    | .second => p'

variable {s s' : σ} {p p' : Pipe α} {bs : List α}

theorem World.eq_of (w : World σ α) :
    w = .of (w.st .first) (w.st .second) (w.pipe .first) (w.pipe .second) :=
  congrArg₂ World.mk (funext fun b => by cases b <;> rfl) (funext fun b => by cases b <;> rfl)

theorem World.start_eq (f : Side → σ) :
    World.start (α := α) f =
      .of (f .first) (f .second) ⟨[], .fresh, .fresh⟩ ⟨[], .fresh, .fresh⟩ :=
  World.eq_of _

theorem World.of_moved_first :
    (World.of s s' p p').moved P .first wm rm oc =
      .of (P.after s oc) s' (wm.apply p) (rm.apply p') :=
  World.eq_of _

theorem World.of_moved_second :
    (World.of s s' p p').moved P .second wm rm oc =
      .of s (P.after s' oc) (rm.apply p) (wm.apply p') :=
  World.eq_of _

/-- The first process makes its call. -/
theorem path_first {f : Side → σ} (h : (P.ask s).perform (capacity .first) p p'
      ((P.ask s').isEnded = true) = some (wm, rm, oc)) :
    Path (machine P capacity f) 1 (.of s s' p p')
      (.of (P.after s oc) s' (wm.apply p) (rm.apply p')) := by
  rw [← World.of_moved_first]
  exact .single (World.step_of (b := .first) h)

/-- The second process makes its call. -/
theorem path_second {f : Side → σ} (h : (P.ask s').perform (capacity .second) p' p
      ((P.ask s).isEnded = true) = some (wm, rm, oc)) :
    Path (machine P capacity f) 1 (.of s s' p p')
      (.of s (P.after s' oc) (rm.apply p) (wm.apply p')) := by
  rw [← World.of_moved_second]
  exact .single (World.step_of (b := .second) h)

/-- Both processes have ended. -/
theorem final_of_ended {f : Side → σ} (h : P.ask s = .ended) (h' : P.ask s' = .ended) :
    (machine P capacity f).Final (.of s s' p p') := by
  intro b
  show World.step P capacity _ b = none
  cases b <;> simp [World.step, World.of, h, h', Req.perform]

end System

section Performed

variable {α : Type} {capacity n : ℕ} {out inp : Pipe α} {gone : Prop} [Decidable gone]
  {bs : List α}

/-- A write into an empty FIFO that can hold it. -/
theorem perform_write (hw : out.w = .opened) (hr : out.r = .opened) (hempty : out.bytes = [])
    (hne : bs ≠ []) (hroom : bs.length ≤ capacity) :
    (Req.write bs).perform capacity out inp gone = some (.append bs, .stay, .go []) := by
  simp [Req.perform, hw, hr, hempty, hne, hroom]

/-- A read of what is in front. -/
theorem perform_read (hr : inp.r = .opened) (hne : inp.bytes ≠ []) :
    (Req.read n).perform capacity out inp gone =
      some (.stay, .take n, .go (inp.bytes.take n)) := by
  simp [Req.perform, hr, hne]

end Performed

end UnixNetProg.Duplex

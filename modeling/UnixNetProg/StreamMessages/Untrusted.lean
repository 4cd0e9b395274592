/-
`mesg_recv` on bytes that nobody vouches for.

In `Framing` the stream is what `mesg_send` writes. Here any bytes arrive in any pieces, and
a `read` may fail; the reader is the same one, and what its `read`s store through `mesg_ptr`
is recorded. The second of them asks for as many bytes as the header says, and stores them
at `mesg_data`: it is the only one that can go outside, and it does where it gets more than
`MAXMESGDATA` (`stays_inside_iff`). After a length that is not positive there is no second
`read`; a negative one is returned, and both callers take that for an error.
-/
import UnixNetProg.Lib.Memory
import UnixNetProg.StreamMessages.Framing

set_option autoImplicit false

namespace UnixNetProg.StreamMessages

open UnixNetProg.Bytes UnixNetProg.Channel UnixNetProg.Memory UnixNetProg.Runs

/-! ## The reader -/

/-- `sizeof (Mesg)`. -/
def SIZEOF : ℕ := MESGHDRSIZE + MAXMESGDATA

/-- The reader with what it has stored, by the distance from `mesg_ptr`. Nobody sends: `todo`
stays empty. -/
structure Fed where
  world : World
  stores : List Span

/-- Bytes arrive, the stream is closed, or the reader makes a `read` that gets `k` bytes or
returns -1. -/
inductive Deed
  | arrive (bs : List UInt8)
  | close
  | read (k : ℕ)
  | fails

/-- The next `read` returns -1. -/
def World.fail (w : World) : Option World :=
  match w.pc with
  | .idle => some { w with pc := .ended "message header read error" }
  | .body => some { w with pc := .ended "data read error" }
  | .ended _ | .overrun => none

def World.feed (w : World) : Deed → Option World
  | .arrive bs => if w.chan.closed then none else some { w with chan := w.chan.write bs }
  | .close => some { w with chan := w.chan.close }
  | .read k => w.step (.read k)
  | .fails => w.fail

/-- Where the next `read` stores: at the structure, or at `mesg_data` in it. -/
def World.dest (w : World) : ℕ :=
  match w.pc with
  | .body => MESGHDRSIZE
  | .idle | .ended _ | .overrun => 0

/-- What is stored through `mesg_ptr`. -/
def World.stores (w : World) : Deed → List Span
  | .read k =>
    match w.chan.read w.asked k with
    | some r => [⟨w.dest, r.1.length⟩]
    | none => []
  | .arrive _ | .close | .fails => []

def Fed.step (f : Fed) (d : Deed) : Option Fed :=
  (f.world.feed d).map fun w => ⟨w, f.stores ++ f.world.stores d⟩

/-- A reader with any stream. -/
def feeder : Machine Fed Deed where
  init := fun f => ∃ m, f = ⟨start [] m, []⟩
  step := Fed.step

/-- The two callers of `mesg_recv` (`6_stream_messages/ipc_client.c`, `ipc_server.c`). -/
inductive Caller
  | server
  | client
  deriving DecidableEq, Repr

/-- What a caller reports when `mesg_recv` has returned `n`. -/
def Caller.err_sys (n : ℤ) : Caller → Option String
  | .server => if n ≤ 0 then some "server: filename read error" else none
  | .client => if n < 0 then some "data read error" else none

/-! ## What should hold -/

/-- `mesg_recv` may have returned this value, with this structure: 0 at the end of the file,
or the length in the header, which is in range or an error to whoever has called. -/
def Acceptable (r : ℤ × Mesg) : Prop :=
  (r.1 = 0 ∨ r.1 = r.2.mesg_len.toInt) ∧ r.1 ≤ MAXMESGDATA ∧
    (r.1 < 0 → ∀ c : Caller, (c.err_sys r.1).isSome = true)

/-- Nothing has been stored outside of the structure, and no length that is out of range
has been accepted; one that is too large is an error, unless the `read` goes outside. -/
structure Fed.Safe (f : Fed) : Prop where
  inside : ∀ a ∈ f.stores, a.Inside SIZEOF
  returned : ∀ r ∈ f.world.got, Acceptable r
  refused : f.world.pc = .body → MAXMESGDATA < f.world.mesg.mesg_len.toInt →
    ∀ d f', f.step d = some f' → f'.world.pc = .body ∨ f'.world.pc = .overrun ∨
      f'.world.pc = .ended "data read error"

/-- The `read` for the data does not get more than there is room for. -/
def Fed.Fits (f : Fed) : Deed → Prop
  | .read k => f.world.pc = .body → f.world.chan.bytes = [] ∨ k ≤ MAXMESGDATA
  | .arrive _ | .close | .fails => True

instance (f : Fed) (d : Deed) : Decidable (f.Fits d) := by
  cases d <;> unfold Fed.Fits <;> infer_instance

/-! ## One step -/

section Steps

variable {f f' : Fed} {w w' : World} {d : Deed} {bs : List UInt8} {k : ℕ}

theorem acceptable_of_nonpos {m : Mesg} {n : ℤ} (hn : n = 0 ∨ n = m.mesg_len.toInt)
    (hle : n ≤ 0) : Acceptable (n, m) := by
  refine ⟨hn, Int.le_trans hle (Int.natCast_nonneg _), fun hneg c => ?_⟩
  simp only at hneg
  cases c with
  | server => rw [Caller.err_sys, if_pos hle, Option.isSome_some]
  | client => rw [Caller.err_sys, if_pos hneg, Option.isSome_some]

theorem acceptable_of_length {m : Mesg} {n : ℕ} (hn : (n : ℤ) = m.mesg_len.toInt)
    (hle : n ≤ MAXMESGDATA) : Acceptable ((n : ℤ), m) := by
  refine ⟨.inr hn, Int.ofNat_le.2 hle, fun hneg => ?_⟩
  simp only at hneg
  omega

/-- The first `read`: the call returns, or it goes on to the second one, or the program ends. -/
theorem afterHeader_cases (w : World) (bs : List UInt8) :
    (∃ m n, w.afterHeader bs = { w with mesg := m }.ret n ∧ Acceptable (n, m)) ∨
      (∃ m, w.afterHeader bs = { w with mesg := m, pc := .body }) ∨
      w.afterHeader bs = { w with pc := .ended "message header read error" } := by
  unfold World.afterHeader World.afterLen
  split_ifs with hnil hshort hpos
  · exact .inl ⟨w.mesg, 0, rfl, acceptable_of_nonpos (.inl rfl) (Int.le_refl 0)⟩
  · exact .inr (.inr rfl)
  · exact .inr (.inl ⟨_, rfl⟩)
  · exact .inl ⟨_, _, rfl, acceptable_of_nonpos (.inr rfl) (Int.not_lt.1 hpos)⟩

/-- The second `read`. -/
theorem afterData_cases (w : World) (bs : List UInt8) :
    (∃ m, w.afterData bs = { w with mesg := m }.ret bs.length ∧ Acceptable ((bs.length : ℤ), m) ∧
        w.mesg.mesg_len.toInt ≤ MAXMESGDATA) ∨
      w.afterData bs = { w with pc := .ended "data read error" } ∨
      MAXMESGDATA < bs.length ∧ w.afterData bs = { w with pc := .overrun } := by
  unfold World.afterData
  split_ifs with hfits hlen
  · exact .inr (.inl rfl)
  · have heq : (bs.length : ℤ) = w.mesg.mesg_len.toInt := not_not.1 hlen
    refine .inl ⟨w.mesg.readData bs hfits, ?_, acceptable_of_length heq hfits, ?_⟩
    · rw [heq]
    · omega
  · exact .inr (.inr ⟨Nat.not_le.1 hfits, rfl⟩)

/-- What a `read` step has stored, and what is done with it. -/
theorem feed_read (h : w.feed (.read k) = some w') : ∃ r, w.chan.read w.asked k = some r ∧
    w.stores (.read k) = [⟨w.dest, r.1.length⟩] ∧
    (w.pc = .idle ∧ w' = { w with chan := r.2 }.afterHeader r.1 ∨
      w.pc = .body ∧ w' = { w with chan := r.2 }.afterData r.1) := by
  obtain ⟨bs, c, hr, hwhere⟩ := World.of_step_read h
  exact ⟨(bs, c), hr, by simp only [World.stores, hr], hwhere⟩

/-- Every other step stores nothing and returns nothing. -/
theorem feed_other (h : w.feed d = some w') (hd : ∀ k, d ≠ .read k) : w.stores d = [] ∧
    w'.got = w.got ∧ w'.mesg = w.mesg ∧
      (w'.pc = w.pc ∨ w.pc = .idle ∧ w'.pc = .ended "message header read error" ∨
        w.pc = .body ∧ w'.pc = .ended "data read error") := by
  cases d with
  | read k => exact absurd rfl (hd k)
  | arrive bs =>
    simp only [World.feed] at h
    split at h
    · cases h
    · cases h
      exact ⟨rfl, rfl, rfl, .inl rfl⟩
  | close =>
    cases h
    exact ⟨rfl, rfl, rfl, .inl rfl⟩
  | fails =>
    simp only [World.feed, World.fail] at h
    split at h
    · cases h
      exact ⟨rfl, rfl, rfl, .inr (.inl ⟨‹_›, rfl⟩)⟩
    · cases h
      exact ⟨rfl, rfl, rfl, .inr (.inr ⟨‹_›, rfl⟩)⟩
    · cases h
    · cases h

/-- A header whose length is too large leads to an error, or outside. -/
theorem too_long (hpc : w.pc = .body) (hlong : MAXMESGDATA < w.mesg.mesg_len.toInt)
    (h : w.feed d = some w') :
    w'.pc = .body ∨ w'.pc = .overrun ∨ w'.pc = .ended "data read error" := by
  by_cases hd : ∃ k, d = .read k
  · obtain ⟨k, rfl⟩ := hd
    obtain ⟨r, -, -, ⟨hidle, -⟩ | ⟨-, rfl⟩⟩ := feed_read h
    · rw [hpc] at hidle
      cases hidle
    · rcases afterData_cases { w with chan := r.2 } r.1 with ⟨m, -, -, hle⟩ | hend | ⟨-, hover⟩
      · simp only at hle
        omega
      · exact .inr (.inr (by rw [hend]))
      · exact .inr (.inl (by rw [hover]))
  · obtain ⟨-, -, -, hkeep | ⟨hidle, -⟩ | ⟨-, hend⟩⟩ := feed_other h fun k hk => hd ⟨k, hk⟩
    · exact .inl (hkeep.trans hpc)
    · rw [hpc] at hidle
      cases hidle
    · exact .inr (.inr hend)

/-- A `read` gets nothing where nothing is there, and as much as it is said to get elsewhere. -/
theorem read_gets {c : Chan UInt8} {n : ℕ} {r : List UInt8 × Chan UInt8}
    (h : c.read n k = some r) :
    c.bytes = [] ∧ r.1.length = 0 ∨ c.bytes ≠ [] ∧ r.1.length = k := by
  obtain ⟨bs, c'⟩ := r
  by_cases hnil : bs = []
  · rw [hnil] at h ⊢
    exact .inl ⟨(Chan.read_nil h).1, rfl⟩
  · right
    refine ⟨?_, (Chan.length_of_read h hnil).1⟩
    intro hbytes
    have hall := (Chan.read_eq_some h).1
    rw [hbytes] at hall
    exact hnil (List.append_eq_nil_iff.1 hall.symm).1

/-- What a step stores is inside if and only if the data fits. -/
theorem stores_inside_iff (h : f.world.feed d = some w') :
    (∀ a ∈ f.world.stores d, a.Inside SIZEOF) ↔ f.Fits d := by
  by_cases hd : ∃ k, d = .read k
  · obtain ⟨k, rfl⟩ := hd
    obtain ⟨r, hr, hstores, hpc⟩ := feed_read h
    have hlen : r.1.length ≤ f.world.asked := (Chan.read_eq_some hr).2.2
    have hgot := read_gets hr
    rw [hstores]
    simp only [List.forall_mem_singleton, Span.Inside, Fed.Fits]
    rcases hpc with ⟨hpc, -⟩ | ⟨hpc, -⟩
    · -- the header has its own room
      have hask : f.world.asked = MESGHDRSIZE := by rw [World.asked, hpc]
      have hdest : f.world.dest = 0 := by rw [World.dest, hpc]
      have hroom : MESGHDRSIZE ≤ SIZEOF := Nat.le_add_right _ _
      rw [hdest]
      simp only [hpc, reduceCtorEq, false_imp_iff, iff_true]
      omega
    · -- the data has what is left behind the header
      have hdest : f.world.dest = MESGHDRSIZE := by rw [World.dest, hpc]
      have hsum : SIZEOF = MESGHDRSIZE + MAXMESGDATA := rfl
      rw [hdest, hsum]
      simp only [hpc, true_imp_iff]
      rcases hgot with ⟨hbytes, hzero⟩ | ⟨hbytes, hk⟩
      · exact iff_of_true ⟨Int.natCast_nonneg _, by omega⟩ (.inl hbytes)
      · rw [hk]
        constructor
        · rintro ⟨-, hle⟩
          right
          omega
        · rintro (hnil | hle)
          · exact absurd hnil hbytes
          · exact ⟨Int.natCast_nonneg _, by omega⟩
  · have hstores := (feed_other h fun k hk => hd ⟨k, hk⟩).1
    rw [hstores]
    apply iff_of_true
    · intro a ha
      cases ha
    · cases d with
      | read k => exact absurd ⟨k, rfl⟩ hd
      | arrive bs => trivial
      | close => trivial
      | fails => trivial

/-- The first `read` returns nothing, or something acceptable. -/
theorem got_afterHeader (w : World) (bs : List UInt8) (hgot : ∀ r ∈ w.got, Acceptable r) :
    ∀ r ∈ (w.afterHeader bs).got, Acceptable r := by
  rcases afterHeader_cases w bs with ⟨m, n, heq, hok⟩ | ⟨m, heq⟩ | heq
  · rw [heq]
    exact List.forall_mem_append.2 ⟨hgot, List.forall_mem_singleton.2 hok⟩
  · rw [heq]
    exact hgot
  · rw [heq]
    exact hgot

theorem got_afterData (w : World) (bs : List UInt8) (hgot : ∀ r ∈ w.got, Acceptable r) :
    ∀ r ∈ (w.afterData bs).got, Acceptable r := by
  rcases afterData_cases w bs with ⟨m, heq, hok, -⟩ | heq | ⟨-, heq⟩
  · rw [heq]
    exact List.forall_mem_append.2 ⟨hgot, List.forall_mem_singleton.2 hok⟩
  · rw [heq]
    exact hgot
  · rw [heq]
    exact hgot

/-- What a step returns is acceptable, if the data fits or not. -/
theorem returned_step (h : w.feed d = some w') (hgot : ∀ r ∈ w.got, Acceptable r) :
    ∀ r ∈ w'.got, Acceptable r := by
  by_cases hd : ∃ k, d = .read k
  · obtain ⟨k, rfl⟩ := hd
    obtain ⟨r, -, -, ⟨-, rfl⟩ | ⟨-, rfl⟩⟩ := feed_read h
    · exact got_afterHeader { w with chan := r.2 } r.1 hgot
    · exact got_afterData { w with chan := r.2 } r.1 hgot
  · rw [(feed_other h fun k hk => hd ⟨k, hk⟩).2.1]
    exact hgot

end Steps

/-! ## Runs -/

section Runs

variable {f f' : Fed} {d : Deed}

theorem step_eq (h : f.step d = some f') : ∃ w, f.world.feed d = some w ∧
    f' = ⟨w, f.stores ++ f.world.stores d⟩ := by
  obtain ⟨w, hw, rfl⟩ := Option.map_eq_some_iff.1 h
  exact ⟨w, hw, rfl⟩

/-- Whatever arrives and whatever fits, no length that is out of range is accepted. -/
theorem returned_of_reach (h : feeder.Reach (fun _ _ => True) f) :
    ∀ r ∈ f.world.got, Acceptable r := by
  apply h.invariant (I := fun f => ∀ r ∈ f.world.got, Acceptable r)
  · rintro f ⟨m, rfl⟩ r hr
    cases hr
  · intro f d f' _ hgot _ hs
    obtain ⟨w, hw, rfl⟩ := step_eq hs
    exact returned_step hw hgot

/-- What is stored once stays stored: if all of it is inside, then it was at every step. -/
theorem fits_of_inside (h : feeder.Reach (fun _ _ => True) f)
    (hin : ∀ a ∈ f.stores, a.Inside SIZEOF) : feeder.Reach Fed.Fits f := by
  induction h with
  | init hinit => exact .init hinit
  | step _ _ hs ih =>
    obtain ⟨w, hw, rfl⟩ := step_eq hs
    obtain ⟨hbefore, hnow⟩ := List.forall_mem_append.1 hin
    exact .step (ih hbefore) ((stores_inside_iff hw).1 hnow) hs

theorem inside_of_fits (h : feeder.Reach Fed.Fits f) : ∀ a ∈ f.stores, a.Inside SIZEOF := by
  apply h.invariant (I := fun f => ∀ a ∈ f.stores, a.Inside SIZEOF)
  · rintro f ⟨m, rfl⟩ a ha
    cases ha
  · intro f d f' _ hin hfits hs
    obtain ⟨w, hw, rfl⟩ := step_eq hs
    exact List.forall_mem_append.2 ⟨hin, (stores_inside_iff hw).2 hfits⟩

/-- **`mesg_recv` stays inside the message if and only if no `read` for the data gets more
than there is room for**, whatever arrives; no length that is out of range is accepted. -/
theorem stays_inside_iff (h : feeder.Reach (fun _ _ => True) f) :
    f.Safe ↔ feeder.Reach Fed.Fits f := by
  constructor
  · intro hsafe
    exact fits_of_inside h hsafe.inside
  · intro hfits
    refine ⟨inside_of_fits hfits, returned_of_reach h, fun hpc hlong d f' hs => ?_⟩
    obtain ⟨w, hw, rfl⟩ := step_eq hs
    exact too_long hpc hlong hw

/-- The server puts a null byte behind a name that was received: it is in the structure as
well, unless the name fills `mesg_data`. -/
theorem terminator_inside_iff (h : feeder.Reach (fun _ _ => True) f) {r : ℤ × Mesg}
    (hr : r ∈ f.world.got) (hserver : Caller.server.err_sys r.1 = none) :
    Span.Inside ⟨MESGHDRSIZE + r.1, 1⟩ SIZEOF ↔ r.1 ≠ MAXMESGDATA := by
  obtain ⟨-, hle, -⟩ := returned_of_reach h r hr
  have hpos : 0 < r.1 := by
    by_contra hneg
    rw [Caller.err_sys, if_pos (by omega)] at hserver
    cases hserver
  have hsum : SIZEOF = MESGHDRSIZE + MAXMESGDATA := rfl
  rw [hsum, Span.Inside]
  simp only
  omega

/-! ## The honest writer -/

/-- The writer does not close before it has sent everything. -/
theorem todo_of_closed {ms : List Mesg} {w : World}
    (h : (machine ms).Reach (fun _ _ => True) w) : w.chan.closed = true → w.todo = [] := by
  apply h.invariant (I := fun w => w.chan.closed = true → w.todo = [])
  · rintro w ⟨m, rfl⟩ hclosed
    cases hclosed
  · intro w a w' _ hI _ hs hclosed
    cases a with
    | send =>
      obtain ⟨m, todo, htodo, rfl⟩ := World.of_step_send hs
      rw [hI hclosed] at htodo
      cases htodo
    | close =>
      obtain ⟨htodo, rfl⟩ := World.of_step_close hs
      exact htodo
    | read k =>
      obtain ⟨r, hr, -, ⟨-, rfl⟩ | ⟨-, rfl⟩⟩ := feed_read hs
      · have hrest := rest_afterHeader { w with chan := r.2 } r.1
        rw [hrest.todo]
        rw [hrest.chan, (Chan.read_eq_some hr).2.1] at hclosed
        exact hI hclosed
      · have hrest := rest_afterData { w with chan := r.2 } r.1
        rw [hrest.todo]
        rw [hrest.chan, (Chan.read_eq_some hr).2.1] at hclosed
        exact hI hclosed

/-- The reader and the stream, without the messages still to be sent. -/
def World.alone (w : World) : World := { w with todo := [] }

theorem afterHeader_alone (w : World) (bs : List UInt8) :
    w.alone.afterHeader bs = (w.afterHeader bs).alone := by
  unfold World.alone World.afterHeader World.afterLen
  split_ifs <;> rfl

theorem afterData_alone (w : World) (bs : List UInt8) :
    w.alone.afterData bs = (w.afterData bs).alone := by
  unfold World.alone World.afterData
  split_ifs <;> rfl

/-- The reader does not look at what is still to be sent. -/
theorem feed_alone (w : World) (k : ℕ) :
    w.alone.feed (.read k) = (w.feed (.read k)).map World.alone := by
  have hpc : w.alone.pc = w.pc := rfl
  have hask : w.alone.asked = w.asked := rfl
  have hchan : w.alone.chan = w.chan := rfl
  simp only [World.feed, World.step, hpc, hask, hchan]
  cases w.pc with
  | idle =>
    rw [Option.map_map]
    refine congrArg (fun g => Option.map g (w.chan.read w.asked k)) (funext fun r => ?_)
    exact afterHeader_alone { w with chan := r.2 } r.1
  | body =>
    rw [Option.map_map]
    refine congrArg (fun g => Option.map g (w.chan.read w.asked k)) (funext fun r => ?_)
    exact afterData_alone { w with chan := r.2 } r.1
  | ended msg => rfl
  | overrun => rfl

theorem step_alone {stores : List Span} {w w' : World} {d : Deed}
    (h : w.alone.feed d = some w'.alone) :
    feeder.step ⟨w.alone, stores⟩ d = some ⟨w'.alone, stores ++ w.alone.stores d⟩ := by
  simp only [feeder, Fed.step, h, Option.map_some]

/-- Behind a header that `mesg_send` has written there is no more data than fits. -/
theorem honest_read_fits {ms : List Mesg} (hms : ∀ m ∈ ms, m.Fits) {w w' : World} {k : ℕ}
    (h : (machine ms).Reach (fun _ _ => True) w) (hs : w.feed (.read k) = some w')
    (stores : List Span) : (⟨w.alone, stores⟩ : Fed).Fits (.read k) := by
  intro hpc
  obtain ⟨m, hm, hlen, -⟩ := (framed_of_reach hms h).body hpc
  obtain ⟨-, hhi⟩ := hms m (List.mem_of_getElem? hm)
  obtain ⟨⟨bs, c⟩, hr, -⟩ := feed_read hs
  have hask : w.asked = m.mesg_len.toInt.toNat := by
    simp only [World.asked, show w.pc = .body from hpc, hlen]
  have hmost : bs.length ≤ w.asked := (Chan.read_eq_some hr).2.2
  rcases read_gets hr with ⟨hbytes, -⟩ | ⟨-, hk⟩
  · exact .inl hbytes
  · right
    simp only at hk
    omega

/-- **What `mesg_send` writes stays inside**: a run with an honest writer is one of these. -/
theorem honest_fits {ms : List Mesg} (hms : ∀ m ∈ ms, m.Fits) {w : World}
    (h : (machine ms).Reach (fun _ _ => True) w) :
    ∃ stores, feeder.Reach Fed.Fits ⟨w.alone, stores⟩ := by
  induction h with
  | init hinit =>
    obtain ⟨m, rfl⟩ := hinit
    exact ⟨[], .init ⟨m, rfl⟩⟩
  | @step w w' a hreach _ hs ih =>
    obtain ⟨stores, hfed⟩ := ih
    cases a with
    | send =>
      obtain ⟨m, todo, htodo, rfl⟩ := World.of_step_send hs
      -- the writer has not closed the stream yet
      have hopen : w.alone.chan.closed ≠ true := by
        intro hclosed
        have hnil := todo_of_closed hreach hclosed
        rw [htodo] at hnil
        cases hnil
      exact ⟨_, hfed.step (a := .arrive (mesg_send m)) trivial (step_alone (if_neg hopen))⟩
    | close =>
      obtain ⟨-, rfl⟩ := World.of_step_close hs
      exact ⟨_, hfed.step (a := .close) trivial (step_alone rfl)⟩
    | read k =>
      have hfeed : w.alone.feed (.read k) = some w'.alone := by
        rw [feed_alone]
        exact Option.map_eq_some_iff.2 ⟨w', hs, rfl⟩
      exact ⟨_, hfed.step (honest_read_fits hms hreach hs stores) (step_alone hfeed)⟩

end Runs

/-! ## A header that lies -/

/-- A header with this length. -/
def headerOf (len : BitVec 32) : List UInt8 := { emptyMesg with mesg_len := len }.header

/-- As many bytes as a header says can come behind it, and one `read` can get them all. -/
theorem reads_all {f : Fed} (h : feeder.Reach (fun _ _ => True) f) (hpc : f.world.pc = .body)
    (hopen : f.world.chan.closed = false) (hempty : f.world.chan.bytes = []) {bs : List UInt8}
    (hlen : bs.length = f.world.asked) (hpos : 0 < bs.length) :
    ∃ f', feeder.Reach (fun _ _ => True) f' ∧ ⟨MESGHDRSIZE, bs.length⟩ ∈ f'.stores := by
  let w : World := { f.world with chan := f.world.chan.write bs }
  have hwrite : f.world.feed (.arrive bs) = some w := if_neg (by rw [hopen]; decide)
  have hbytes : w.chan.bytes = bs := by
    rw [Chan.write_bytes, hempty, List.nil_append]
  have hread := Chan.read_of_le (c := w.chan) hpos (le_of_eq hlen) (by rw [hbytes])
  have hasked : w.asked = f.world.asked := rfl
  have hdest : w.dest = MESGHDRSIZE := by rw [World.dest, show w.pc = .body from hpc]
  have hstores : w.stores (.read bs.length) = [⟨MESGHDRSIZE, bs.length⟩] := by
    rw [World.stores, hasked, hread, hdest, hbytes, List.take_length]
  have hfeed : ∃ w', w.feed (.read bs.length) = some w' := by
    simp only [World.feed, World.step, show w.pc = .body from hpc]
    rw [hasked, hread]
    exact ⟨_, rfl⟩
  obtain ⟨w', hw'⟩ := hfeed
  -- the bytes arrive, and are read
  have harrived := h.step (a := .arrive bs) trivial (Option.map_eq_some_iff.2 ⟨_, hwrite, rfl⟩)
  refine ⟨_, harrived.step (a := .read bs.length) trivial
    (Option.map_eq_some_iff.2 ⟨w', hw', rfl⟩), ?_⟩
  rw [hstores]
  exact List.mem_append_right _ List.mem_cons_self

/-- A message of one byte is received. -/
theorem stays_inside_iff_one : ∃ f : Fed, f.Safe ∧ f.world.got.length = 1 := by
  have hgot : (feeder.exec Fed.Fits ⟨start [] emptyMesg, []⟩
      [.arrive (headerOf 1 ++ [7]), .read 16, .read 1]).map (fun f => f.world.got.length) =
        some 1 := by decide
  obtain ⟨f, hf, hlen⟩ := Option.map_eq_some_iff.1 hgot
  have hfits : feeder.Reach Fed.Fits f := .exec (.init ⟨emptyMesg, rfl⟩) hf
  exact ⟨f, (stays_inside_iff (hfits.mono fun _ _ _ => trivial)).2 hfits, hlen⟩

/-- A header that says 4081, and as many bytes behind it: one is stored too much. -/
theorem stays_inside_missed : ¬ ∀ f, feeder.Reach (fun _ _ => True) f → f.Safe := by
  intro h
  have hhead : (feeder.exec (fun _ _ => True) ⟨start [] emptyMesg, []⟩
      [.arrive (headerOf 4081), .read 16]).map
        (fun f => (f.world.pc, f.world.chan, f.world.asked)) =
        some (.body, ⟨[], false⟩, 4081) := by decide
  obtain ⟨f, hf, heq⟩ := Option.map_eq_some_iff.1 hhead
  obtain ⟨hpc, hchan, hasked⟩ : f.world.pc = .body ∧ f.world.chan = ⟨[], false⟩ ∧
      f.world.asked = 4081 := by simpa using heq
  have hlen : (List.replicate 4081 (7 : UInt8)).length = 4081 := List.length_replicate
  obtain ⟨f', hf', hmem⟩ := reads_all (.exec (.init ⟨emptyMesg, rfl⟩) hf) hpc (by rw [hchan])
    (by rw [hchan]) (hlen.trans hasked.symm) (by rw [hlen]; decide)
  have hin := ((h f' hf').inside _ hmem).2
  rw [hlen] at hin
  revert hin
  decide

end UnixNetProg.StreamMessages

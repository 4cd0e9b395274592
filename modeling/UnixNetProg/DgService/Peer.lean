/-
Whether a service serves its first client only.

Beside the service a second one is run that does not get the datagrams of anybody but the
first client, and what the two do in each turn is recorded: the second one does what should
be done. `first_client_only_iff` says what it takes for the two records to agree. A datagram
from another host but the same port is taken for one of the client; what another one leaves in
the buffer may complete a command; and behind such a datagram an error of `recvfrom` is
overlooked.
-/
import UnixNetProg.DgService.Code

set_option autoImplicit false

namespace UnixNetProg.DgService

open UnixNetProg.Memory UnixNetProg.Runs

/-! ## Two services -/

/-- What is seen of a turn: what is sent, and whether the service goes on. -/
structure Response where
  sent : List Reply
  pc : At
  deriving DecidableEq, Repr

/-- The service, the one that only gets what the first client sends, who that is, the buffer
with only the client's datagrams in it, and what has been seen of the two. -/
structure Twins where
  child : Child
  alone : Child
  first : Option Sockaddr_in
  own : Mem Char
  seen : List Response
  due : List Response

/-- A datagram from another source than the first one. -/
def Twins.Foreign (t : Twins) : Act → Prop
  | .datagram d _ => ∃ c ∈ t.first, d.src ≠ c
  | .fails => False

instance (t : Twins) (a : Act) : Decidable (t.Foreign a) := by
  cases a <;> unfold Twins.Foreign <;> infer_instance

/-- Where a datagram comes from. -/
def Act.src : Act → Option Sockaddr_in
  | .datagram d _ => some d.src
  | .fails => none

/-- A turn of the service that has not ended, and what is seen of it. -/
def Child.respond (s : Service) (w : Child) (a : Act) : Child × Response :=
  ((w.turn s a).1, ⟨(w.turn s a).2, (w.turn s a).1.pc⟩)

/-- The second service leaves out the datagrams of others. -/
def Twins.alonePart (s : Service) (t : Twins) (a : Act) : Child × Response :=
  if t.Foreign a ∨ t.alone.pc ≠ .recvfrom then (t.alone, ⟨[], t.alone.pc⟩)
  else t.alone.respond s a

/-- A datagram of the client is stored over the ones before it. -/
def Twins.ownPart (t : Twins) : Act → Mem Char
  | .datagram d _ => if ∃ c ∈ t.first, d.src ≠ c then t.own else store t.own 0 d.got
  | .fails => t.own

def Twins.step (s : Service) (t : Twins) (a : Act) : Option Twins :=
  if t.child.pc = .recvfrom then
    let r := t.child.respond s a
    let q := t.alonePart s a
    some ⟨r.1, q.1, t.first.or a.src, t.ownPart a, t.seen ++ [r.2], t.due ++ [q.2]⟩
  else none

def twins (s : Service) (mesg : Mem Char) : Machine Twins Act where
  init := fun t => t = ⟨start mesg, start mesg, none, mesg, [], []⟩
  step := Twins.step s

/-- What comes from others makes no difference, and is answered by nothing. -/
def Twins.Right (t : Twins) : Prop := t.seen = t.due

/-- What a turn must be like. The first datagram may be any. After it, a datagram of another
source has another port than the first client; behind one of the client that is a proper
beginning of the command, the rest of the command is in the buffer if and only if the client
has left it there; and `recvfrom` does not fail behind one of another port. With a count that
is 0 again, any datagram would be a first one. -/
def Twins.Harmless (s : Service) (t : Twins) (a : Act) : Prop :=
  ∀ c ∈ t.first,
    match a with
    | .datagram d _ =>
      if d.src = c then
        d.got <+: s.command → d.got ≠ s.command →
          (Holds t.child.mesg d.got.length (s.command.drop d.got.length) ↔
            Holds t.own d.got.length (s.command.drop d.got.length))
      else t.child.msgcnt ≠ 0 ∧ c.sin_port ≠ d.src.sin_port
    | .fails => t.child.msgcnt = 0 ∨ c.sin_port = t.child.pcli_addr.sin_port

instance (s : Service) (t : Twins) (a : Act) : Decidable (t.Harmless s a) := by
  cases a <;> unfold Twins.Harmless <;> infer_instance

/-! ## One turn -/

section Turns

variable {s : Service} {w w' : Child} {d : Datagram} {sent : Bool} {c : Sockaddr_in}

/-- The bytes received are at the front of the buffer. -/
theorem front_accept (w : Child) (d : Datagram) : (w.accept d).front d.got.length = d.got := by
  rw [Child.front, accept_mesg, load_store _ _ (Nat.le_refl _), List.take_length]

/-- What is sent depends on the datagram alone, once it is known whether it is a command. -/
theorem replies_accept (s : Service) (w w' : Child) (d : Datagram) (quits : Bool) :
    s.replies (w.accept d) d.got.length quits = s.replies (w'.accept d) d.got.length quits := by
  cases s with
  | echo => simp only [Service.replies, front_accept, accept_pcli_addr]
  | dis => rfl

/-- It does not look the same for a command and for another datagram. -/
theorem replies_ne (s : Service) (w w' : Child) (d : Datagram) :
    s.replies (w.accept d) d.got.length true ≠ s.replies (w'.accept d) d.got.length false := by
  have hclosing : closing ≠ [] := List.cons_ne_nil _ _
  cases s with
  | echo => simp [Service.replies]
  | dis => simp [Service.replies, hclosing]

theorem ended_ne (s : Service) (sent : Bool) : s.ended sent ≠ .recvfrom := by
  cases s <;> cases sent <;> decide

/-- Anything that is served is answered, or ends the service. -/
theorem respond_accept_ne
    (h : w.msgcnt = 0 ∨ w.first_client.sin_port = d.src.sin_port) :
    (w.respond s (.datagram d sent)).2 ≠ ⟨[], .recvfrom⟩ := by
  rw [Child.respond, turn_accept h]
  by_cases hcmd : s.Commanded (w.accept d).mesg
  · rw [serve_commanded hcmd]
    intro heq
    exact ended_ne s sent (congrArg Response.pc heq)
  · rw [serve_not_commanded hcmd]
    intro heq
    have hnil : s.replies (w.accept d) d.got.length false = [] := congrArg Response.sent heq
    cases s with
    | echo => cases hnil
    | dis => exact absurd (List.append_eq_nil_iff.1 hnil).2 (by simp)

/-- Two services that both serve a datagram respond alike if and only if it is a command in
both buffers or in none. -/
theorem respond_accept_eq_iff (hpc : w.pc = w'.pc)
    (h : w.msgcnt = 0 ∨ w.first_client.sin_port = d.src.sin_port)
    (h' : w'.msgcnt = 0 ∨ w'.first_client.sin_port = d.src.sin_port) :
    (w.respond s (.datagram d sent)).2 = (w'.respond s (.datagram d sent)).2 ↔
      (s.Commanded (store w.mesg 0 d.got) ↔ s.Commanded (store w'.mesg 0 d.got)) := by
  rw [Child.respond, Child.respond, turn_accept h, turn_accept h', ← accept_mesg, ← accept_mesg]
  by_cases hcmd : s.Commanded (w.accept d).mesg
  · by_cases hcmd' : s.Commanded (w'.accept d).mesg
    · rw [serve_commanded hcmd, serve_commanded hcmd', replies_accept s w w']
      exact iff_of_true rfl (iff_of_true hcmd hcmd')
    · rw [serve_commanded hcmd, serve_not_commanded hcmd']
      apply iff_of_false
      · intro heq
        exact replies_ne s w w' d (congrArg Response.sent heq)
      · exact fun hiff => hcmd' (hiff.1 hcmd)
  · by_cases hcmd' : s.Commanded (w'.accept d).mesg
    · rw [serve_not_commanded hcmd, serve_commanded hcmd']
      apply iff_of_false
      · intro heq
        exact replies_ne s w' w d (congrArg Response.sent heq).symm
      · exact fun hiff => hcmd (hiff.2 hcmd')
    · rw [serve_not_commanded hcmd, serve_not_commanded hcmd', replies_accept s w w']
      apply iff_of_true
      · -- whether the service goes on is up to `sendto`
        cases sent with
        | true => simp [Child.answered, hpc]
        | false => rfl
      · exact iff_of_false hcmd hcmd'

/-- An error ends the service, -/
theorem respond_fails (h : w.msgcnt = 0 ∨ w.first_client.sin_port = w.pcli_addr.sin_port) :
    (w.respond s .fails).2 = ⟨[], .failure⟩ ∧ (w.respond s .fails).1.pc = .failure := by
  have htest : ∃ v, w.tested = some v := by
    rw [Child.tested]
    by_cases hzero : w.msgcnt = 0
    · exact ⟨_, if_pos hzero⟩
    · rw [if_neg hzero, if_neg (not_not.2 (h.resolve_left hzero))]
      exact ⟨_, rfl⟩
  obtain ⟨v, hv⟩ := htest
  simp only [Child.respond, Child.turn, hv, and_self]

/-- unless the datagram before it was from another port. -/
theorem turn_fails_ignored (hcnt : w.msgcnt ≠ 0)
    (hport : w.first_client.sin_port ≠ w.pcli_addr.sin_port) : w.turn s .fails = (w, []) := by
  have htest : w.tested = none := by
    rw [Child.tested, if_neg hcnt, if_pos hport]
  simp only [Child.turn, htest]

/-- A service that goes on behind a datagram has answered it. -/
theorem turn_goes_on (h : w.msgcnt = 0 ∨ w.first_client.sin_port = d.src.sin_port)
    (hpc : (w.turn s (.datagram d sent)).1.pc = .recvfrom) :
    (w.turn s (.datagram d sent)).1 = { w.accept d with msgcnt := w.msgcnt + 1 } := by
  rw [turn_accept h] at hpc ⊢
  by_cases hcmd : s.Commanded (w.accept d).mesg
  · rw [serve_commanded hcmd] at hpc
    exact absurd hpc (ended_ne s sent)
  · rw [serve_not_commanded hcmd] at hpc ⊢
    cases sent with
    | true => rfl
    | false => cases hpc

end Turns

/-! ## The two in step -/

/-- The two have ended or not, and go on alike: at first they are the same, and then they
know the same client, which is where the second one's last datagram was from. -/
structure Twins.Linked (t : Twins) : Prop where
  pc : t.child.pc = t.alone.pc
  fresh : t.first = none → t.child.pc = .recvfrom → t.child = t.alone ∧ t.child.msgcnt = 0
  known : ∀ c ∈ t.first, t.child.pc = .recvfrom → t.child.first_client = c ∧
    t.alone.first_client = c ∧ t.alone.pcli_addr = c ∧ t.child.msgcnt = t.alone.msgcnt

section Linked

variable {s : Service} {mesg : Mem Char} {t t' : Twins} {a : Act} {d : Datagram} {sent : Bool}
  {c : Sockaddr_in}

theorem alonePart_of_fresh (hpc : t.alone.pc = .recvfrom) (hfirst : t.first = none) :
    t.alonePart s a = t.alone.respond s a := by
  have hforeign : ¬ t.Foreign a := by
    cases a with
    | datagram d sent =>
      rintro ⟨c, hc, -⟩
      rw [hfirst] at hc
      cases hc
    | fails => exact id
  exact if_neg (not_or.2 ⟨hforeign, not_not.2 hpc⟩)

theorem alonePart_of_client (hpc : t.alone.pc = .recvfrom) (hfirst : t.first = some d.src) :
    t.alonePart s (.datagram d sent) = t.alone.respond s (.datagram d sent) := by
  have hforeign : ¬ t.Foreign (.datagram d sent) := by
    rintro ⟨c, hc, hne⟩
    rw [hfirst] at hc
    exact hne (Option.some.inj hc)
  exact if_neg (not_or.2 ⟨hforeign, not_not.2 hpc⟩)

theorem alonePart_of_foreign (hfirst : t.first = some c) (hne : d.src ≠ c) :
    t.alonePart s (.datagram d sent) = (t.alone, ⟨[], t.alone.pc⟩) :=
  if_pos (.inl ⟨c, hfirst, hne⟩)

theorem alonePart_fails (hpc : t.alone.pc = .recvfrom) :
    t.alonePart s .fails = t.alone.respond s .fails :=
  if_neg (not_or.2 ⟨id, not_not.2 hpc⟩)

/-- **The two respond alike if and only if the turn is harmless.** -/
theorem Twins.Linked.response_iff (h : t.Linked)
    (hown : t.alone.pc = .recvfrom → t.alone.mesg = t.own) (hpc : t.child.pc = .recvfrom) :
    (t.child.respond s a).2 = (t.alonePart s a).2 ↔ t.Harmless s a := by
  have halone : t.alone.pc = .recvfrom := h.pc.symm.trans hpc
  unfold Twins.Harmless
  cases hfirst : t.first with
  | none =>
    rw [alonePart_of_fresh halone hfirst, (h.fresh hfirst hpc).1]
    exact iff_of_true rfl fun c hc => by cases hc
  | some c =>
    obtain ⟨hchild, hfc, hcli, hcnt⟩ := h.known c hfirst hpc
    simp only [Option.mem_def, Option.some.injEq, forall_eq']
    cases a with
    | datagram d sent =>
      simp only
      by_cases hsrc : d.src = c
      · -- both serve it
        subst hsrc
        rw [if_pos rfl, alonePart_of_client halone hfirst]
        rw [← hown halone, ← commanded_store_congr]
        exact respond_accept_eq_iff h.pc (.inr (by rw [hchild])) (.inr (by rw [hfc]))
      · -- the second one does not get it
        rw [if_neg hsrc, alonePart_of_foreign hfirst hsrc, halone]
        by_cases hok : t.child.msgcnt ≠ 0 ∧ c.sin_port ≠ d.src.sin_port
        · rw [← hchild] at hok
          rw [Child.respond, turn_ignore hok.1 hok.2, receive_pc, hpc, ← hchild]
          exact iff_of_true rfl hok
        · refine iff_of_false (respond_accept_ne ?_) hok
          rw [hchild]
          by_contra hnot
          exact hok (not_or.1 hnot)
    | fails =>
      -- the second one ends; it has had no datagram of another port
      simp only
      have hends := (respond_fails (s := s) (w := t.alone) (.inr (by rw [hfc, hcli]))).1
      rw [alonePart_fails halone, hends]
      by_cases hok : t.child.msgcnt = 0 ∨ c.sin_port = t.child.pcli_addr.sin_port
      · refine iff_of_true (respond_fails ?_).1 hok
        rw [hchild]
        exact hok
      · obtain ⟨hne, hport⟩ := not_or.1 hok
        rw [← hchild] at hport
        rw [Child.respond, turn_fails_ignored hne hport, hpc]
        refine iff_of_false (fun heq => ?_) hok
        cases heq

theorem linked_init (mesg : Mem Char) :
    Twins.Linked ⟨start mesg, start mesg, none, mesg, [], []⟩ :=
  ⟨rfl, fun _ _ => ⟨rfl, rfl⟩, fun c hc => by cases hc⟩

theorem alonePart_pc (s : Service) (t : Twins) (a : Act) :
    (t.alonePart s a).1.pc = (t.alonePart s a).2.pc := by
  unfold Twins.alonePart
  split <;> rfl

/-- The second one gets what the client sends, and nothing else. -/
theorem alonePart_mesg (s : Service) (a : Act) (hpc : t.alone.pc = .recvfrom)
    (hown : t.alone.mesg = t.own) : (t.alonePart s a).1.mesg = t.ownPart a := by
  cases a with
  | datagram d sent =>
    by_cases hforeign : ∃ c ∈ t.first, d.src ≠ c
    · rw [Twins.alonePart, if_pos (.inl hforeign), Twins.ownPart, if_pos hforeign]
      exact hown
    · have hserved : ¬ (t.Foreign (.datagram d sent) ∨ t.alone.pc ≠ .recvfrom) :=
        not_or.2 ⟨hforeign, not_not.2 hpc⟩
      rw [Twins.alonePart, if_neg hserved, Twins.ownPart, if_neg hforeign, ← hown]
      exact turn_mesg s t.alone d sent
  | fails =>
    rw [alonePart_fails hpc, Twins.ownPart, ← hown]
    exact turn_fails_mesg s t.alone

/-- What the two are after a datagram of the client that both have answered. -/
theorem known_of_goes_on {w w' : Child} (hfc : w.msgcnt = 0 ∨ w.first_client = d.src)
    (hfc' : w'.msgcnt = 0 ∨ w'.first_client = d.src) (hcnt : w.msgcnt = w'.msgcnt)
    (hpc : (w.turn s (.datagram d sent)).1.pc = .recvfrom)
    (hpc' : (w'.turn s (.datagram d sent)).1.pc = .recvfrom) :
    (w.turn s (.datagram d sent)).1.first_client = d.src ∧
      (w'.turn s (.datagram d sent)).1.first_client = d.src ∧
      (w'.turn s (.datagram d sent)).1.pcli_addr = d.src ∧
      (w.turn s (.datagram d sent)).1.msgcnt = (w'.turn s (.datagram d sent)).1.msgcnt := by
  have hport : ∀ v : Child, v.msgcnt = 0 ∨ v.first_client = d.src →
      v.msgcnt = 0 ∨ v.first_client.sin_port = d.src.sin_port :=
    fun v h => h.imp_right fun heq => by rw [heq]
  have hfirst : ∀ v : Child, v.msgcnt = 0 ∨ v.first_client = d.src →
      (v.accept d).first_client = d.src := by
    intro v h
    rw [Child.accept]
    by_cases hzero : v.msgcnt = 0
    · exact if_pos hzero
    · exact (if_neg hzero).trans (h.resolve_left hzero)
  rw [turn_goes_on (hport w hfc) hpc, turn_goes_on (hport w' hfc') hpc']
  exact ⟨hfirst w hfc, hfirst w' hfc', rfl, by rw [hcnt]⟩

/-- What the two are after a turn, and what was seen of it. -/
def Twins.after (s : Service) (t : Twins) (a : Act) : Twins :=
  ⟨(t.child.respond s a).1, (t.alonePart s a).1, t.first.or a.src, t.ownPart a,
    t.seen ++ [(t.child.respond s a).2], t.due ++ [(t.alonePart s a).2]⟩

theorem Twins.step_eq (h : t.step s a = some t') : t.child.pc = .recvfrom ∧ t' = t.after s a := by
  unfold Twins.step at h
  split at h
  · cases h
    exact ⟨‹_›, rfl⟩
  · cases h

/-- The first datagram makes the same of the two. -/
theorem Twins.Linked.after_fresh (h : t.Linked) (hpc : t.child.pc = .recvfrom)
    (hfirst : t.first = none) : (t.after s a).Linked := by
  have halone : t.alone.pc = .recvfrom := h.pc.symm.trans hpc
  obtain ⟨heq, hzero⟩ := h.fresh hfirst hpc
  rw [Twins.after, alonePart_of_fresh halone hfirst, ← heq, hfirst]
  cases a with
  | datagram d sent =>
    refine ⟨rfl, fun hnone => (by cases hnone), ?_⟩
    intro c hc hgo
    obtain rfl : d.src = c := Option.some.inj hc
    exact known_of_goes_on (.inl hzero) (.inl hzero) rfl hgo hgo
  | fails =>
    have hend := (respond_fails (s := s) (w := t.child) (.inl hzero)).2
    refine ⟨rfl, ?_, fun c hc => by cases hc⟩
    intro _ hgo
    simp only at hgo
    rw [hend] at hgo
    cases hgo

/-- They both know the client after that. -/
theorem Twins.Linked.after_known (h : t.Linked)
    (hown : t.alone.pc = .recvfrom → t.alone.mesg = t.own) (ha : t.Harmless s a)
    (hpc : t.child.pc = .recvfrom) (hfirst : t.first = some c) : (t.after s a).Linked := by
  have halone : t.alone.pc = .recvfrom := h.pc.symm.trans hpc
  have hsame : (t.child.respond s a).1.pc = (t.alonePart s a).1.pc := by
    rw [alonePart_pc, ← (h.response_iff hown hpc).2 ha]
    rfl
  obtain ⟨hchild, hfc, hcli, hcnt⟩ := h.known c hfirst hpc
  have hc := ha c hfirst
  rw [Twins.after, hfirst]
  refine ⟨hsame, fun hnone => (by cases hnone), ?_⟩
  intro c' hc' hgo
  obtain rfl : c = c' := Option.some.inj hc'
  cases a with
  | datagram d sent =>
    by_cases hsrc : d.src = c
    · -- both have answered it
      subst hsrc
      simp only at hgo hsame
      rw [hgo, alonePart_of_client halone hfirst] at hsame
      simp only [alonePart_of_client halone hfirst]
      exact known_of_goes_on (.inr hchild) (.inr hfc) hcnt hgo hsame.symm
    · -- the first one has ignored it, the second one did not get it
      simp only [if_neg hsrc] at hc
      rw [← hchild] at hc
      simp only [alonePart_of_foreign hfirst hsrc, Child.respond, turn_ignore hc.1 hc.2]
      exact ⟨hchild, hfc, hcli, hcnt⟩
  | fails =>
    simp only at hc
    rw [← hchild] at hc
    have hend := (respond_fails (s := s) (w := t.child) hc).2
    simp only at hgo
    rw [hend] at hgo
    cases hgo

/-- Behind a harmless turn the two go on alike. -/
theorem Twins.Linked.step (h : t.Linked)
    (hown : t.alone.pc = .recvfrom → t.alone.mesg = t.own) (ha : t.Harmless s a)
    (hs : t.step s a = some t') :
    t'.Linked := by
  obtain ⟨hpc, rfl⟩ := Twins.step_eq hs
  cases hfirst : t.first with
  | none => exact h.after_fresh hpc hfirst
  | some c => exact h.after_known hown ha hpc hfirst

end Linked

/-! ## Runs -/

section Runs

variable {s : Service} {mesg : Mem Char} {t t' : Twins} {a : Act}

theorem right_step_iff (h : t.step s a = some t') :
    t'.Right ↔ t.Right ∧ (t.child.respond s a).2 = (t.alonePart s a).2 := by
  obtain ⟨-, rfl⟩ := Twins.step_eq h
  show t.seen ++ _ = t.due ++ _ ↔ t.seen = t.due ∧ _
  constructor
  · intro heq
    obtain ⟨hold, hnew⟩ := List.append_inj' heq rfl
    exact ⟨hold, (List.cons.inj hnew).1⟩
  · rintro ⟨hold, hnew⟩
    rw [hold, hnew]

/-- The second one's buffer is the client's. -/
theorem own_of_reach {ok : Twins → Act → Prop} (h : (twins s mesg).Reach ok t) :
    t.alone.pc = .recvfrom → t.alone.mesg = t.own := by
  apply h.invariant (I := fun t => t.alone.pc = .recvfrom → t.alone.mesg = t.own)
  · rintro t rfl _
    rfl
  · intro t a t' _ hown _ hs hpc'
    obtain ⟨-, rfl⟩ := Twins.step_eq hs
    have hpc : t.alone.pc = .recvfrom := by
      by_contra hne
      have hstays : t.alonePart s a = (t.alone, ⟨[], t.alone.pc⟩) := if_pos (.inr hne)
      simp only [Twins.after, hstays] at hpc'
      exact hne hpc'
    exact alonePart_mesg s a hpc (hown hpc)

theorem linked_of_reach (h : (twins s mesg).Reach (Twins.Harmless s) t) : t.Linked := by
  refine h.invariant ?_ fun t a t' hreach hlinked ha hs =>
    hlinked.step (own_of_reach hreach) ha hs
  rintro t rfl
  exact linked_init mesg

/-- **A service serves its first client only, and others change nothing, if and only if
every turn is harmless.** -/
theorem first_client_only_iff (h : (twins s mesg).Reach (fun _ _ => True) t) :
    t.Right ↔ (twins s mesg).Reach (Twins.Harmless s) t := by
  constructor
  · intro hright
    induction h with
    | init hinit => exact .init hinit
    | step _ _ hs ih =>
      obtain ⟨hbefore, hnow⟩ := (right_step_iff hs).1 hright
      have hreach := ih hbefore
      exact .step hreach (((linked_of_reach hreach).response_iff (own_of_reach hreach)
        (Twins.step_eq hs).1).1 hnow) hs
  · intro hharmless
    clear h
    induction hharmless with
    | init hinit =>
      obtain rfl := hinit
      rfl
    | step hreach ha hs ih =>
      have hlinked := linked_of_reach hreach
      exact (right_step_iff hs).2
        ⟨ih, (hlinked.response_iff (own_of_reach hreach) (Twins.step_eq hs).1).2 ha⟩

end Runs

/-- The first client, a host with the same port, and one with another. -/
def here : Sockaddr_in := ⟨1, 1⟩

def samePort : Sockaddr_in := ⟨2, 1⟩

def elsewhere : Sockaddr_in := ⟨2, 2⟩

/-- What comes from another port is ignored. -/
theorem first_client_only_iff_elsewhere : ∃ t : Twins, t.Right ∧ t.seen.length = 2 := by
  have hrun : ((twins .echo fun _ => '\x00').exec (Twins.Harmless .echo)
      ⟨start fun _ => '\x00', start fun _ => '\x00', none, fun _ => '\x00', [], []⟩
      [.datagram ⟨here, ['a']⟩ true, .datagram ⟨elsewhere, ['b']⟩ true]).map
        (fun t => t.seen.length) = some 2 := by decide
  obtain ⟨t, ht, hlen⟩ := Option.map_eq_some_iff.1 hrun
  have hreach : (twins .echo fun _ => '\x00').Reach (Twins.Harmless .echo) t :=
    .exec (.init rfl) ht
  exact ⟨t, (first_client_only_iff (hreach.mono fun _ _ _ => trivial)).2 hreach, hlen⟩

/-- What comes from the same port of another host is sent back to it. -/
theorem first_client_only_missed :
    ¬ ∀ t, (twins .echo fun _ => '\x00').Reach (fun _ _ => True) t → t.Right := by
  intro h
  have hrun : ((twins .echo fun _ => '\x00').exec (fun _ _ => True)
      ⟨start fun _ => '\x00', start fun _ => '\x00', none, fun _ => '\x00', [], []⟩
      [.datagram ⟨here, ['a']⟩ true, .datagram ⟨samePort, ['b']⟩ true]).map
        (fun t => (t.seen, t.due)) =
      some ([⟨[⟨here, ['a']⟩], .recvfrom⟩, ⟨[⟨samePort, ['b']⟩], .recvfrom⟩],
        [⟨[⟨here, ['a']⟩], .recvfrom⟩, ⟨[], .recvfrom⟩]) := by decide
  obtain ⟨t, ht, heq⟩ := Option.map_eq_some_iff.1 hrun
  obtain ⟨hseen, hdue⟩ := Prod.mk.inj heq
  have hright := h t (.exec (.init rfl) ht)
  rw [Twins.Right, hseen, hdue] at hright
  revert hright
  decide

end UnixNetProg.DgService

/-
What the kernel keeps to undo, in terms of what the two have done.

The client has made one `sem_wait (clisem)` before it types the name and one for every message
it has taken; it has signalled `servsem` once for the name and once for every message written
out. So its adjustments grow with the file, and come to the limit of a `short` with a file that
is read in pieces enough. `Duo.Tally` has these counts; the next modules use them to say how many
pieces there may be.
-/
import UnixNetProg.SharedMemory.Duo

set_option autoImplicit false

namespace UnixNetProg.SharedMemory

open UnixNetProg.SysV UnixNetProg.Semaphore UnixNetProg.Runs

/-- The counts of the client, and those of a server that has not begun. -/
structure Duo.Tally (d : Duo) : Prop where
  unsent : d.server.stage.early = true → d.sent = 0 ∧ d.bal = 0
  quiet : d.client.stage.late = false → d.shared.out = []
  taken : d.taken = d.client.stage.waited.toNat + d.shared.out.length +
    (d.client.stage.reads.toNat + d.client.stage.done.toNat)
  given : d.given + d.client.stage.returns.toNat =
    d.client.stage.late.toNat + d.shared.out.length
  fits : d.cliKnown → d.cup = true → d.taken ≤ SEMAEM

namespace Duo.Tally

theorem start : Duo.start.Tally :=
  ⟨fun _ => ⟨rfl, rfl⟩, fun _ => rfl, rfl, rfl, fun _ _ => Nat.zero_le _⟩

variable {v : Version} {e : Env} {a : Act User (Option ℕ)} {d d' : Duo}

theorem untaken (h : d.Tally) (hwaited : d.client.stage.waited = false) : d.taken = 0 := by
  have hlate : d.client.stage.late = false := by
    by_contra hlate
    rw [waited_of_late (by simpa using hlate)] at hwaited
    cases hwaited
  have htaken := h.taken
  rw [h.quiet hlate] at htaken
  revert htaken hwaited
  cases d.client.stage <;> intro hwaited htaken <;>
    first
      | exact Bool.noConfusion hwaited
      | exact htaken

theorem taken_pos (h : d.Tally) (hwaited : d.client.stage.waited = true) : 0 < d.taken := by
  have htaken := h.taken
  rw [hwaited, Bool.toNat_true] at htaken
  omega

theorem ungiven (h : d.Tally) (hlate : d.client.stage.late = false) : d.given = 0 := by
  have hgiven := h.given
  rw [hlate, h.quiet hlate] at hgiven
  exact Nat.eq_zero_of_add_eq_zero_right hgiven

end Duo.Tally

/-! ## What a statement writes out -/

section Out

variable {v : Version} {e : Env} {g : ℤ} {s s' : Shared} {c : Option ℕ}

/-- No statement of the server writes anything out. -/
theorem server_main_out {u : Server} {x : Does Server}
    (hs : server_main v e g s u c = some (s', x)) : s'.out = s.out := by
  obtain ⟨stage, j, n, file, off, clisem, servsem⟩ := u
  cases stage <;> simp only [server_main] at hs
  all_goals
    cases v <;> (try simp only [server, single_server, multi_server] at hs) <;>
      (try split at hs) <;> (try split_ifs at hs) <;> cases hs <;> rfl

/-- Only the client's `write` does, once. -/
theorem client_main_out {u : Client} {x : Does Client}
    (hs : client_main v e s u c = some (s', x)) :
    s'.out = s.out ∨ u.stage = .write ∧ s'.out.length = s.out.length + 1 := by
  obtain ⟨stage, j, n, clisem, servsem⟩ := u
  cases stage <;> simp only [client_main] at hs
  all_goals
    (try split at hs) <;> (try split_ifs at hs) <;> cases hs <;>
      first | exact .inl rfl | exact .inr ⟨rfl, List.length_append⟩

/-- A client that ends leaves the shared memory as it is. -/
theorem client_quit_shared {u : Client} {x : Does Client}
    (hs : client_main v e s u c = some (s', x)) (hx : x = .exit ∨ ∃ msg, x = .err_sys msg) :
    s' = s := by
  have hgo : ∀ u, x ≠ .go u := by
    rintro u rfl
    rcases hx with hx | ⟨msg, hx⟩ <;> cases hx
  obtain ⟨stage, j, n, clisem, servsem⟩ := u
  cases stage <;> simp only [client_main] at hs
  all_goals
    (try split at hs) <;> (try split_ifs at hs) <;> cases hs <;>
      first | rfl | exact absurd rfl (hgo _)

/-- A statement of the client keeps its two sums. -/
theorem client_go_tally {u u' : Client} (hs : client_main v e s u c = some (s', .go u')) :
    s'.out.length + (u'.stage.reads.toNat + u'.stage.done.toNat) =
        s.out.length + (u.stage.reads.toNat + u.stage.done.toNat) ∧
      s'.out.length + u.stage.returns.toNat = s.out.length + u'.stage.returns.toNat := by
  obtain ⟨stage, i, n, clisem, servsem⟩ := u
  cases stage <;> simp only [client_main] at hs
  case write =>
    cases c with
    | none => cases hs
    | some k =>
      cases hs
      simp [ClientStage.reads, ClientStage.done, ClientStage.returns]
  case len =>
    cases hs
    by_cases hn : (s.mesg i).mesg_len ≤ 0
    · rw [if_pos hn]
      exact ⟨rfl, rfl⟩
    · rw [if_neg hn]
      exact ⟨rfl, rfl⟩
  all_goals
    (try split at hs) <;> (try split_ifs at hs) <;> cases hs <;> exact ⟨rfl, rfl⟩

/-- Nothing is written out before the name has been asked for. -/
theorem client_go_quiet {u u' : Client} (hs : client_main v e s u c = some (s', .go u'))
    (hlate : u'.stage.late = false) : s'.out = s.out := by
  rw [client_go_late hs] at hlate
  rcases client_main_out hs with hsame | ⟨hst, -⟩
  · exact hsame
  · rw [hst] at hlate
    cases hlate

/-- The server does not come back to its first statements. -/
theorem server_go_unsent {u u' : Server} (hs : server_main v e g s u c = some (s', .go u'))
    (hearly : u'.stage.early = true) : u.stage.early = true := by
  obtain ⟨stage, i, n, file, off, clisem, servsem⟩ := u
  cases stage <;> first | rfl | skip
  all_goals
    simp only [server_main] at hs
    cases v <;> (try simp only [server, single_server, multi_server] at hs) <;>
      (try split at hs) <;> (try split_ifs at hs) <;> cases hs <;> cases hearly

/-- Nor does a routine lead back there; `sem_create` alone stays among them. -/
theorem server_return_unsent {u : Server} {cl : Call} {x : ℤ} (hr : u.routine = some cl)
    (hearly : (server_return v u x).stage.early = true) :
    u.stage.early = true ∧ ∃ key n, cl = .sem_create key n := by
  obtain ⟨stage, i, n, file, off, clisem, servsem⟩ := u
  cases stage <;> first | (cases hr; done) | skip
  case create1 | create2 => cases hr; exact ⟨rfl, _, _, rfl⟩
  all_goals cases v <;> cases hearly

end Out

/-! ## Every step -/

section Step

variable {v : Version} {e : Env} {a : Act User (Option ℕ)} {d d' : Duo} {cl : Call} {x : ℤ}

/-- Where the client goes on from `sem_wait`. -/
theorem client_return_wait {u : Client} {key : ℤ} {id : ℕ}
    (hr : u.routine = some (.sem_wait key id)) :
    (client_return u x).stage.waited.toNat + ((client_return u x).stage.reads.toNat +
        (client_return u x).stage.done.toNat) =
      u.stage.waited.toNat + (u.stage.reads.toNat + u.stage.done.toNat) + 1 ∧
      (client_return u x).stage.returns = u.stage.returns ∧
      (client_return u x).stage.late = u.stage.late := by
  obtain ⟨stage, i, n, clisem, servsem⟩ := u
  cases stage <;> first | (cases hr; done) | exact ⟨rfl, rfl, rfl⟩

/-- And from `sem_signal`. -/
theorem client_return_signal {u : Client} {key : ℤ} {id : ℕ}
    (hr : u.routine = some (.sem_signal key id)) :
    (client_return u x).stage.waited = u.stage.waited ∧
      (client_return u x).stage.reads = u.stage.reads ∧
      (client_return u x).stage.done = u.stage.done ∧
      (client_return u x).stage.late.toNat + u.stage.returns.toNat =
        u.stage.late.toNat + (client_return u x).stage.returns.toNat + 1 := by
  obtain ⟨stage, i, n, clisem, servsem⟩ := u
  cases stage <;> first | (cases hr; done) | exact ⟨rfl, rfl, rfl, rfl⟩

/-- The other routines of the client change none of the counts. -/
theorem client_return_same {u : Client} (hr : u.routine = some cl)
    (hcl : (∃ key, cl = .sem_open key) ∨ ∃ key id, cl = .sem_close key id) :
    (client_return u x).stage.waited = u.stage.waited ∧
      (client_return u x).stage.reads = u.stage.reads ∧
      (client_return u x).stage.done = u.stage.done ∧
      (client_return u x).stage.late = u.stage.late ∧
      (client_return u x).stage.returns = u.stage.returns := by
  obtain ⟨stage, i, n, clisem, servsem⟩ := u
  cases stage <;> first | (cases hr; done) | exact ⟨rfl, rfl, rfl, rfl, rfl⟩ | skip
  all_goals
    cases hr
    rcases hcl with ⟨_, hcl⟩ | ⟨_, _, hcl⟩ <;> cases hcl

/-- **The counts are right in every state.** -/
theorem Duo.Tally.step (h : d.Tally) (hs : d.Step v e a d') : d'.Tally := by
  have hle := hs.le
  have hfits : d'.taken = d.taken → d'.cliKnown → d'.cup = true → d'.taken ≤ SEMAEM := by
    intro hsame hk hcup
    rw [hsame]
    exact h.fits (hle.cliKnown hk) (hle.cup hcup)
  cases hs with
  | idle => exact h
  | server_go _ _ hgo _ =>
    have hout := server_main_out hgo
    exact ⟨fun hearly => h.unsent (server_go_unsent hgo hearly), by rw [hout]; exact h.quiet,
      by rw [hout]; exact h.taken, by rw [hout]; exact h.given, hfits rfl⟩
  | server_quit _ _ hmain _ _ _ =>
    have hout := server_main_out hmain
    exact ⟨h.unsent, by rw [hout]; exact h.quiet, by rw [hout]; exact h.taken,
      by rw [hout]; exact h.given, hfits rfl⟩
  | server_wait _ hr | server_signal _ hr | server_post _ hr | server_close _ hr =>
    refine ⟨fun hearly => ?_, h.quiet, h.taken, h.given, hfits rfl⟩
    obtain ⟨-, _, _, hcl⟩ := server_return_unsent hr hearly
    cases hcl
  | server_create _ hr =>
    exact ⟨fun hearly => h.unsent (server_return_unsent hr hearly).1, h.quiet, h.taken, h.given,
      hfits rfl⟩
  | server_fail => exact ⟨h.unsent, h.quiet, h.taken, h.given, hfits rfl⟩
  | @client_go _ s u _ _ hgo =>
    obtain ⟨hreads, hreturns⟩ := client_go_tally hgo
    have htaken := h.taken
    have hgiven := h.given
    refine ⟨h.unsent, fun hlate => ?_, ?_, ?_, hfits rfl⟩
    · rw [client_go_quiet hgo hlate]
      rw [client_go_late hgo] at hlate
      exact h.quiet hlate
    · simp only [client_go_waited hgo]
      omega
    · simp only [client_go_late hgo]
      omega
  | client_quit _ _ hmain hx _ _ =>
    obtain rfl := client_quit_shared hmain hx
    exact ⟨h.unsent, h.quiet, h.taken, h.given, hfits rfl⟩
  | client_wait _ hr hlimit _ _ =>
    obtain ⟨hsum, hreturns, hlate⟩ := client_return_wait (x := 0) hr
    have htaken := h.taken
    refine ⟨h.unsent, by rw [hlate]; exact h.quiet, ?_, by rw [hreturns, hlate]; exact h.given,
      fun hk hcup => ?_⟩
    · simp only
      omega
    · exact hlimit (hle.cliKnown hk)
  | client_signal _ hr =>
    obtain ⟨hwaited, hreads, hdone, hsum⟩ := client_return_signal (x := 0) hr
    have hgiven := h.given
    refine ⟨h.unsent, fun hl => h.quiet (client_return_late hl), ?_, ?_, hfits rfl⟩
    · simp only [hwaited, hreads, hdone]
      exact h.taken
    · simp only
      omega
  | @client_open _ x _ _ _ hr =>
    obtain ⟨hwaited, hreads, hdone, hlate, hreturns⟩ :=
      client_return_same (x := x) hr (.inl ⟨_, rfl⟩)
    refine ⟨h.unsent, fun hl => h.quiet (client_return_late hl), ?_, ?_, hfits rfl⟩
    · simp only [hwaited, hreads, hdone]
      exact h.taken
    · simp only [hlate, hreturns]
      exact h.given
  | @client_close _ x _ _ _ _ hr =>
    obtain ⟨hwaited, hreads, hdone, hlate, hreturns⟩ :=
      client_return_same (x := x) hr (.inr ⟨_, _, rfl⟩)
    refine ⟨h.unsent, fun hl => h.quiet (client_return_late hl), ?_, ?_, hfits rfl⟩
    · simp only [hwaited, hreads, hdone]
      exact h.taken
    · simp only [hlate, hreturns]
      exact h.given
  | client_fail => exact ⟨h.unsent, h.quiet, h.taken, h.given, hfits rfl⟩

end Step

end UnixNetProg.SharedMemory

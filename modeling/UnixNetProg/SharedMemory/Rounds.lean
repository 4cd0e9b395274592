/-
A long run of the programs with several buffers.

The modules before say what every run does; this one makes one. The file is read one byte at a
time, and each byte goes through its buffer before the next is read: a round, after which both
wait again and only the counts of the adjustments have gone up. `Stands` is the world with
everything a round looks at, the `Duo` of the two being its record; each step of a round has its
lemma, and `Rounds.next` puts them together.

With its 32768th `sem_wait (clisem)` the client comes to the end: the kernel refuses it, and the
program ends in its loop (`refused_of_rounds`).
-/
import UnixNetProg.Lib.Ring
import UnixNetProg.SharedMemory.Shutdown

set_option autoImplicit false

namespace UnixNetProg.SharedMemory

open UnixNetProg.SysV UnixNetProg.Semaphore UnixNetProg.Runs

/-! ## The world, as far as a round looks at it -/

/-- The first set under a key, with `[0]` and the adjustments of the two processes for it. -/
def Counts (sl : Slot 3) (val : ℕ) (adj₀ adj₁ : ℤ) : Prop :=
  ∃ S, sl.cur = some (0, S) ∧ S.val 0 = val ∧ S.adj 0 0 = adj₀ ∧ S.adj 1 0 = adj₁

/-- The world is at `d`. -/
structure Stands (w : World Shared User) (d : Duo) (pc₀ pc₁ : Pc) : Prop where
  procs : ∃ h₀ h₁, w.procs = [⟨.server d.server, h₀, pc₀⟩, ⟨.client d.client, h₁, pc₁⟩]
  shared : w.shared = d.shared
  clisem : Counts (w.sem SEMKEY1) d.cli (-d.sent) d.taken
  servsem : Counts (w.sem SEMKEY2) d.serv d.bal (-d.given)

section Counts

variable {sl : Slot 3} {val m : ℕ} {adj₀ adj₁ n : ℤ}

/-- An operation of `sem_op` that neither waits nor passes a limit. -/
theorem semop_op_done {S : SemSet 3} {p : ℕ} (hn : n ≠ 0) (hval : (S.val 0 : ℤ) + n = m)
    (hle : m ≤ SEMVMX) (hfits : UndoFits (S.adj p 0 - n)) :
    S.semop p (op_op n) = .done (S.shift p 0 n) := by
  have hlo : ¬ (S.val 0 : ℤ) + n < 0 := by omega
  have hhi : ¬ (SEMVMX : ℤ) < (S.val 0 : ℤ) + n := by omega
  simp [op_op, SemSet.semop, SemSet.apply1, hn, hlo, hhi, hfits]

/-- A `Counts` to be looked at. -/
theorem Counts.of_map
    (h : sl.cur.map (fun c => (c.1, c.2.val 0, c.2.adj 0 0, c.2.adj 1 0)) =
      some (0, val, adj₀, adj₁)) : Counts sl val adj₀ adj₁ := by
  obtain ⟨⟨i, S⟩, hcur, heq⟩ := Option.map_eq_some_iff.1 h
  cases heq
  exact ⟨S, hcur, rfl, rfl, rfl⟩

/-- Such an operation of the server. -/
theorem Counts.server (h : Counts sl val adj₀ adj₁) (hn : n ≠ 0) (hval : (val : ℤ) + n = m)
    (hle : m ≤ SEMVMX) (hfits : UndoFits (adj₀ - n)) :
    ∃ S S', sl.cur = some (0, S) ∧ S.semop 0 (op_op n) = .done S' ∧
      Counts (sl.put 0 S') m (adj₀ - n) adj₁ := by
  obtain ⟨S, hcur, rfl, rfl, rfl⟩ := h
  exact ⟨S, S.shift 0 0 n, hcur, semop_op_done hn hval hle hfits, _, rfl,
    by simp [clamp_eq hval hle], by simp, by simp⟩

/-- And of the client. -/
theorem Counts.client (h : Counts sl val adj₀ adj₁) (hn : n ≠ 0) (hval : (val : ℤ) + n = m)
    (hle : m ≤ SEMVMX) (hfits : UndoFits (adj₁ - n)) :
    ∃ S S', sl.cur = some (0, S) ∧ S.semop 1 (op_op n) = .done S' ∧
      Counts (sl.put 0 S') m adj₀ (adj₁ - n) := by
  obtain ⟨S, hcur, rfl, rfl, rfl⟩ := h
  exact ⟨S, S.shift 1 0 n, hcur, semop_op_done hn hval hle hfits, _, rfl,
    by simp [clamp_eq hval hle], by simp, by simp⟩

end Counts

/-! ## The steps of a round -/

section Steps

variable {v : Version} {e : Env} {w : World Shared User} {d : Duo} {pc₀ pc₁ : Pc} {s : Shared}
  {cl : Call} {pt : Point} {b : Bool}

/-- The system call of `sem_op` returns. -/
theorem step_op {p : ℕ} {key n : ℤ} {q : Proc User} {S S' : SemSet 3}
    (hq : w.procs[p]? = some q) (hpc : q.pc = .lib key (.op_semop 0 n) b)
    (hcur : (w.sem key).cur = some (0, S)) (hop : S.semop p (op_op n) = .done S') :
    ∃ w', w.step (program v e) (.sys p) = some w' ∧
      (∃ h', w'.procs = w.procs.set p ⟨(program v e).ret q.user 0, h', .user⟩) ∧
      w'.sem = Function.update w.sem key ((w.sem key).put 0 S') ∧ w'.shared = w.shared := by
  have hperf : (Point.op_semop 0 n).perform (w.sem key) p b =
      some ((w.sem key).put 0 S', .ok 0) := by
    simp [Point.perform, Point.call, Slot.call, Slot.find_eq_some.2 hcur, hop]
  have hstep : w.step (program v e) (.sys p) = some (w.complete (program v e) p q key
      (.op_semop 0 n) ((w.sem key).put 0 S') (.ok 0)) := by
    simp only [World.step, hq, hpc, hperf]
  exact ⟨_, hstep, ⟨_, rfl⟩, rfl, rfl⟩

/-- A statement of the server. -/
theorem Stands.server_go {u : Server} (h : Stands w d .user pc₁)
    (hw : (both v e).Reach calm w) (c : ℕ)
    (hmain : ∀ g, server_main v e g d.shared d.server (some c) = some (s, .go u)) :
    ∃ w', (both v e).Reach calm w' ∧
      Stands w' { d with server := u, shared := s } .user pc₁ := by
  obtain ⟨⟨h₀, h₁, hprocs⟩, hshared, hclisem, hservsem⟩ := h
  have hstep : w.step (program v e) (.user 0 (some c)) = some { w with
      shared := s, procs := [⟨.server u, h₀, .user⟩, ⟨.client d.client, h₁, pc₁⟩] } := by
    simp [World.step, hprocs, program, hshared, hmain, Does.map, World.does, World.setProc]
  exact ⟨_, hw.step (a := .user 0 (some c)) (by simp [calm]) hstep, ⟨_, _, rfl⟩, rfl, hclisem,
    hservsem⟩

/-- The server calls a routine. -/
theorem Stands.server_call {u : Server} (h : Stands w d .user pc₁)
    (hw : (both v e).Reach calm w)
    (hmain : ∀ g, server_main v e g d.shared d.server (some 0) = some (s, .call cl u))
    (hstart : cl.start = .goto pt) :
    ∃ w', (both v e).Reach calm w' ∧
      Stands w' { d with server := u, shared := s } (.lib cl.key pt false) pc₁ := by
  obtain ⟨⟨h₀, h₁, hprocs⟩, hshared, hclisem, hservsem⟩ := h
  have hstep : w.step (program v e) (.user 0 (some 0)) = some { w with
      shared := s, log := w.log ++ [.call 0 cl],
      procs := [⟨.server u, h₀, .lib cl.key pt false⟩, ⟨.client d.client, h₁, pc₁⟩] } := by
    simp [World.step, hprocs, program, hshared, hmain, Does.map, World.does, World.setProc,
      World.note, hstart]
  exact ⟨_, hw.step (a := .user 0 (some 0)) (by simp [calm]) hstep, ⟨_, _, rfl⟩, rfl, hclisem,
    hservsem⟩

/-- A statement of the client. -/
theorem Stands.client_go {u : Client} (h : Stands w d pc₀ .user)
    (hw : (both v e).Reach calm w)
    (hmain : client_main v e d.shared d.client (some 0) = some (s, .go u)) :
    ∃ w', (both v e).Reach calm w' ∧
      Stands w' { d with client := u, shared := s } pc₀ .user := by
  obtain ⟨⟨h₀, h₁, hprocs⟩, hshared, hclisem, hservsem⟩ := h
  have hstep : w.step (program v e) (.user 1 (some 0)) = some { w with
      shared := s, procs := [⟨.server d.server, h₀, pc₀⟩, ⟨.client u, h₁, .user⟩] } := by
    simp [World.step, hprocs, program, hshared, hmain, Does.map, World.does, World.setProc]
  exact ⟨_, hw.step (a := .user 1 (some 0)) (by simp [calm]) hstep, ⟨_, _, rfl⟩, rfl, hclisem,
    hservsem⟩

/-- The client calls a routine. -/
theorem Stands.client_call {u : Client} (h : Stands w d pc₀ .user)
    (hw : (both v e).Reach calm w)
    (hmain : client_main v e d.shared d.client (some 0) = some (s, .call cl u))
    (hstart : cl.start = .goto pt) :
    ∃ w', (both v e).Reach calm w' ∧
      Stands w' { d with client := u, shared := s } pc₀ (.lib cl.key pt false) := by
  obtain ⟨⟨h₀, h₁, hprocs⟩, hshared, hclisem, hservsem⟩ := h
  have hstep : w.step (program v e) (.user 1 (some 0)) = some { w with
      shared := s, log := w.log ++ [.call 1 cl],
      procs := [⟨.server d.server, h₀, pc₀⟩, ⟨.client u, h₁, .lib cl.key pt false⟩] } := by
    simp [World.step, hprocs, program, hshared, hmain, Does.map, World.does, World.setProc,
      World.note, hstart]
  exact ⟨_, hw.step (a := .user 1 (some 0)) (by simp [calm]) hstep, ⟨_, _, rfl⟩, rfl, hclisem,
    hservsem⟩

/-- `sem_wait (servsem)` of the server. -/
theorem Stands.server_wait (h : Stands w d (.lib SEMKEY2 (.op_semop 0 (-1)) b) pc₁)
    (hw : (both v e).Reach calm w) (hpos : 0 < d.serv) (hfits : UndoFits (d.bal + 1)) :
    ∃ w', (both v e).Reach calm w' ∧
      Stands w' { d with
        server := server_return v d.server 0, serv := d.serv - 1, bal := d.bal + 1 } .user pc₁ := by
  obtain ⟨⟨h₀, h₁, hprocs⟩, hshared, hclisem, hservsem⟩ := h
  have hle : d.serv ≤ SEMVMX := by
    obtain ⟨S, -, hval, -⟩ := hservsem
    exact hval ▸ S.val_le 0
  obtain ⟨S, S', hcur, hop, hcounts⟩ := hservsem.server (n := -1) (m := d.serv - 1) (by decide)
    (by omega) (by omega) (by rw [sub_neg_eq_add]; exact hfits)
  obtain ⟨w', hstep, ⟨h', hp⟩, hsem, hs⟩ :=
    step_op (v := v) (e := e) (p := 0) (by rw [hprocs]; rfl) rfl hcur hop
  refine ⟨w', hw.step (a := .sys 0) trivial hstep, ⟨_, _, by rw [hp, hprocs]; rfl⟩,
    hs.trans hshared, ?_, ?_⟩
  · rw [hsem, Function.update_of_ne (by decide)]
    exact hclisem
  · rw [hsem, Function.update_self]
    exact hcounts

/-- `sem_signal (clisem)` of the server. -/
theorem Stands.server_signal (h : Stands w d (.lib SEMKEY1 (.op_semop 0 1) b) pc₁)
    (hw : (both v e).Reach calm w) (hle : d.cli < SEMVMX) (hfits : d.sent ≤ SEMAEM) :
    ∃ w', (both v e).Reach calm w' ∧
      Stands w' { d with
        server := server_return v d.server 0, cli := d.cli + 1, sent := d.sent + 1 } .user pc₁ := by
  obtain ⟨⟨h₀, h₁, hprocs⟩, hshared, hclisem, hservsem⟩ := h
  obtain ⟨S, S', hcur, hop, hcounts⟩ := hclisem.server (n := 1) (m := d.cli + 1) (by decide)
    (by omega) (by omega) ⟨by omega, by omega⟩
  obtain ⟨w', hstep, ⟨h', hp⟩, hsem, hs⟩ :=
    step_op (v := v) (e := e) (p := 0) (by rw [hprocs]; rfl) rfl hcur hop
  refine ⟨w', hw.step (a := .sys 0) trivial hstep, ⟨_, _, by rw [hp, hprocs]; rfl⟩,
    hs.trans hshared, ?_, ?_⟩
  · rw [hsem, Function.update_self]
    simpa [sub_eq_add_neg, add_comm] using hcounts
  · rw [hsem, Function.update_of_ne (by decide)]
    exact hservsem

/-- `sem_wait (clisem)` of the client. -/
theorem Stands.client_wait (h : Stands w d pc₀ (.lib SEMKEY1 (.op_semop 0 (-1)) b))
    (hw : (both v e).Reach calm w) (hpos : 0 < d.cli) (hfits : d.taken < SEMAEM) :
    ∃ w', (both v e).Reach calm w' ∧
      Stands w' { d with
        client := client_return d.client 0, cli := d.cli - 1, taken := d.taken + 1 } pc₀ .user := by
  obtain ⟨⟨h₀, h₁, hprocs⟩, hshared, hclisem, hservsem⟩ := h
  have hle : d.cli ≤ SEMVMX := by
    obtain ⟨S, -, hval, -⟩ := hclisem
    exact hval ▸ S.val_le 0
  obtain ⟨S, S', hcur, hop, hcounts⟩ := hclisem.client (n := -1) (m := d.cli - 1) (by decide)
    (by omega) (by omega) ⟨by omega, by omega⟩
  obtain ⟨w', hstep, ⟨h', hp⟩, hsem, hs⟩ :=
    step_op (v := v) (e := e) (p := 1) (by rw [hprocs]; rfl) rfl hcur hop
  refine ⟨w', hw.step (a := .sys 1) trivial hstep, ⟨_, _, by rw [hp, hprocs]; rfl⟩,
    hs.trans hshared, ?_, ?_⟩
  · rw [hsem, Function.update_self]
    exact hcounts
  · rw [hsem, Function.update_of_ne (by decide)]
    exact hservsem

/-- `sem_signal (servsem)` of the client. -/
theorem Stands.client_signal (h : Stands w d pc₀ (.lib SEMKEY2 (.op_semop 0 1) b))
    (hw : (both v e).Reach calm w) (hle : d.serv < SEMVMX) (hfits : d.given ≤ SEMAEM) :
    ∃ w', (both v e).Reach calm w' ∧
      Stands w' { d with
        client := client_return d.client 0, serv := d.serv + 1, given := d.given + 1 }
        pc₀ .user := by
  obtain ⟨⟨h₀, h₁, hprocs⟩, hshared, hclisem, hservsem⟩ := h
  obtain ⟨S, S', hcur, hop, hcounts⟩ := hservsem.client (n := 1) (m := d.serv + 1) (by decide)
    (by omega) (by omega) ⟨by omega, by omega⟩
  obtain ⟨w', hstep, ⟨h', hp⟩, hsem, hs⟩ :=
    step_op (v := v) (e := e) (p := 1) (by rw [hprocs]; rfl) rfl hcur hop
  refine ⟨w', hw.step (a := .sys 1) trivial hstep, ⟨_, _, by rw [hp, hprocs]; rfl⟩,
    hs.trans hshared, ?_, ?_⟩
  · rw [hsem, Function.update_of_ne (by decide)]
    exact hclisem
  · rw [hsem, Function.update_self]
    simpa [sub_eq_add_neg, add_comm] using hcounts

end Steps

/-! ## A round -/

/-- After `k` rounds: the server waits for a buffer and the client for a message. -/
def Rounds (n : ℕ) (data : List Char) (k : ℕ) (w : World Shared User) : Prop :=
  ∃ n₀ n₁ s, s.out.flatten.length ≤ k ∧ Stands w
    ⟨⟨.wait, k % n, n₀, some data, k, 0, 0⟩, ⟨.wait, k % n, n₁, 0, 0⟩, true, true, 0, n, k, s,
      1 + k - n, k + 1, k + 1⟩
    (.lib SEMKEY2 (.op_semop 0 (-1)) false) (.lib SEMKEY1 (.op_semop 0 (-1)) false)

section Rounds

variable {n : ℕ} {e : Env} {data : List Char} {k : ℕ} {w : World Shared User}

/-- The server's half: the next byte is in its buffer, and the client has been signalled. -/
def Sent (n : ℕ) (data : List Char) (k : ℕ) (w : World Shared User) : Prop :=
  ∃ n₁ s, s.out.flatten.length ≤ k ∧ (s.mesg (k % n)).mesg_len = 1 ∧ Stands w
    ⟨⟨.wait, (k + 1) % n, 1, some data, k + 1, 0, 0⟩, ⟨.wait, k % n, n₁, 0, 0⟩, true, true, 1,
      n - 1, k + 1, s, 1 + ((k + 1 : ℕ) : ℤ) - n, k + 1, k + 1⟩
    (.lib SEMKEY2 (.op_semop 0 (-1)) false) (.lib SEMKEY1 (.op_semop 0 (-1)) false)

/-- The server takes a buffer, reads one byte into it and sends it. -/
theorem Rounds.sends (h : Rounds n data k w) (hw : (both (.multi n) e).Reach calm w)
    (hn : 0 < n) (hmax : n ≤ SEMVMX) (hk : k < SEMAEM) (hdata : k < data.length) :
    ∃ w', (both (.multi n) e).Reach calm w' ∧ Sent n data k w' := by
  obtain ⟨n₀, n₁, s, hout, h⟩ := h
  have hlimit : SEMVMX = SEMAEM := rfl
  have hroom : 0 < SEMVMX := by decide
  have hread : canRead data k 1 := ⟨by decide, by omega, by omega⟩
  obtain ⟨w₁, hw₁, h₁⟩ := h.server_wait hw hn ⟨by simp only; omega, by simp only; omega⟩
  dsimp only [server_return, multi_return] at h₁
  obtain ⟨w₂, hw₂, h₂⟩ := h₁.server_go hw₁ 1 (s := s.fill (k % n) ((data.drop k).take 1))
    (u := ⟨.len, k % n, 1, some data, k + 1, 0, 0⟩) fun _ => by
      simp [server_main, server, multi_server, hread]
  dsimp only at h₂
  obtain ⟨w₃, hw₃, h₃⟩ := h₂.server_go hw₂ 0 fun _ => rfl
  dsimp only at h₃
  obtain ⟨w₄, hw₄, h₄⟩ := h₃.server_call hw₃ (fun _ => rfl) rfl
  dsimp only [Call.key, Int.toNat_zero] at h₄
  obtain ⟨w₅, hw₅, h₅⟩ := h₄.server_signal hw₄ hroom (by simp only; omega)
  dsimp only [server_return, multi_return] at h₅
  obtain ⟨w₆, hw₆, h₆⟩ := h₅.server_go hw₅ 0 fun _ => rfl
  dsimp only at h₆
  obtain ⟨w₇, hw₇, h₇⟩ := h₆.server_call hw₆ (fun _ => rfl) rfl
  dsimp only [Call.key, Int.toNat_zero] at h₇
  rw [Ring.next_mod hn rfl, show (1 + (k : ℤ) - n + 1) = 1 + ((k + 1 : ℕ) : ℤ) - n by omega] at h₇
  refine ⟨w₇, hw₇, n₁, _, ?_, ?_, h₇⟩
  · exact hout
  · simp [Shared.setLen, Shared.put]

/-- The client takes the byte, writes it out and gives the buffer back. -/
theorem Sent.taken (h : Sent n data k w) (hw : (both (.multi n) e).Reach calm w)
    (hn : 0 < n) (hmax : n ≤ SEMVMX) (hk : k + 1 < SEMAEM) :
    ∃ w', (both (.multi n) e).Reach calm w' ∧ Rounds n data (k + 1) w' := by
  obtain ⟨n₁, s, hout, hlen, h⟩ := h
  obtain ⟨w₁, hw₁, h₁⟩ := h.client_wait hw Nat.one_pos hk
  dsimp only [client_return] at h₁
  obtain ⟨w₂, hw₂, h₂⟩ := h₁.client_go hw₁ (s := s) (u := ⟨.write, k % n, 1, 0, 0⟩) (by
    simp [client_main, hlen])
  dsimp only at h₂
  obtain ⟨w₃, hw₃, h₃⟩ := h₂.client_go hw₂ rfl
  dsimp only at h₃
  obtain ⟨w₄, hw₄, h₄⟩ := h₃.client_call hw₃ rfl rfl
  dsimp only [Call.key, Int.toNat_zero] at h₄
  obtain ⟨w₅, hw₅, h₅⟩ := h₄.client_signal hw₄ (by simp only; omega) (by simp only; omega)
  dsimp only [client_return] at h₅
  obtain ⟨w₆, hw₆, h₆⟩ := h₅.client_go hw₅ (s := _) (u := ⟨.wait, (k + 1) % n, 1, 0, 0⟩) (by
    rw [← Ring.next_mod hn rfl]
    rfl)
  dsimp only at h₆
  obtain ⟨w₇, hw₇, h₇⟩ := h₆.client_call hw₆ rfl rfl
  dsimp only [Call.key, Int.toNat_zero] at h₇
  rw [Nat.sub_add_cancel hn] at h₇
  refine ⟨w₇, hw₇, 1, 1, _, ?_, h₇⟩
  -- one byte at most has been written
  rw [List.flatten_append, List.flatten_singleton, List.length_append]
  refine Nat.add_le_add hout (Nat.le_of_eq ?_)
  simp [Mesg.bytes]
  omega

/-- **As many rounds as the client's adjustment allows.** -/
theorem Rounds.reach (h : Rounds n data 0 w) (hw : (both (.multi n) e).Reach calm w) (hn : 0 < n)
    (hmax : n ≤ SEMVMX) (hk : k < SEMAEM) (hdata : k ≤ data.length) :
    ∃ w', (both (.multi n) e).Reach calm w' ∧ Rounds n data k w' := by
  induction k with
  | zero => exact ⟨w, hw, h⟩
  | succ k ih =>
    obtain ⟨w₁, hw₁, h₁⟩ := ih (by omega) (by omega)
    obtain ⟨w₂, hw₂, h₂⟩ := h₁.sends hw₁ hn hmax (by omega) (by omega)
    exact h₂.taken hw₂ hn hmax hk

/-- A wait of the client that is refused ends it, and gives `clisem` back what it has taken. -/
theorem Stands.client_refused {v : Version} {d : Duo} {pc₀ : Pc} {b : Bool}
    (h : Stands w d pc₀ (.lib SEMKEY1 (.op_semop 0 (-1)) b)) (hw : (both v e).Reach calm w)
    (hpos : 0 < d.cli) (hlimit : d.taken = SEMAEM) :
    ∃ w', (both v e).Reach calm w' ∧ serverOf w' = some (d.server, pc₀) ∧
      clientOf w' = some (d.client, .dead) ∧ (w'.sem SEMKEY1).value 0 = SEMVMX ∧
      w'.shared = d.shared := by
  obtain ⟨⟨h₀, h₁, hprocs⟩, hshared, ⟨S, hcur, hval, -, hadj⟩, -⟩ := h
  have hrefused : ¬ UndoFits (S.adj 1 0 - -1) := by
    rw [hadj, hlimit]
    decide
  have hlo : ¬ (S.val 0 : ℤ) + -1 < 0 := by omega
  have hhi : ¬ (SEMVMX : ℤ) < (S.val 0 : ℤ) + -1 := by
    have := S.val_le 0
    omega
  have hop : S.semop 1 (op_op (-1)) = .fail .ERANGE := by
    simp only [op_op, SemSet.semop, SemSet.apply1]
    rw [if_neg (by decide), if_neg hlo, if_neg hhi, if_pos trivial, if_neg hrefused]
  have hperf : (Point.op_semop 0 (-1)).perform (w.sem SEMKEY1) 1 b =
      some (w.sem SEMKEY1, .error .ERANGE) := by
    simp [Point.perform, Point.call, Slot.call, Slot.find_eq_some.2 hcur, hop]
  have hq : w.procs[1]? = some ⟨.client d.client, h₁, .lib SEMKEY1 (.op_semop 0 (-1)) b⟩ := by
    rw [hprocs]
    rfl
  have hstep : w.step (program v e) (.sys 1) = some (w.complete (program v e) 1
      ⟨.client d.client, h₁, .lib SEMKEY1 (.op_semop 0 (-1)) b⟩ SEMKEY1 (.op_semop 0 (-1))
      (w.sem SEMKEY1) (.error .ERANGE)) := by
    simp only [World.step, hq, hperf]
  refine ⟨_, hw.step (a := .sys 1) trivial hstep, ?_, ?_, ?_, hshared⟩
  · simp [World.complete, Point.resume, World.kill, World.note, serverOf, hprocs]
  · simp [World.complete, Point.resume, World.kill, World.note, clientOf, hprocs]
  · -- what is given back is more than there is room for
    have hval' : ((w.sem SEMKEY1).exit 1).value 0 = clamp d.cli SEMAEM := by
      rw [Slot.exit_value, Slot.value_of_cur hcur, Slot.undo_of_cur hcur, hval, hadj, hlimit]
    simp only [World.complete, Point.resume, World.kill, World.note, Function.update_eq_self]
    rw [hval']
    unfold clamp
    have : SEMVMX = SEMAEM := rfl
    omega

/-- **With too many bytes, read one by one, the client ends in its loop.** It has not written
the file, and the server, which is there, finds `clisem` at its largest value. -/
theorem refused_of_rounds (h : Rounds n data 0 w) (hw : (both (.multi n) e).Reach calm w)
    (hn : 0 < n) (hmax : n ≤ SEMVMX) (hdata : SEMAEM ≤ data.length) :
    ∃ w' u x, (both (.multi n) e).Reach calm w' ∧
      (∃ key pt b, serverOf w' = some (u, .lib key pt b)) ∧ u.stage = .wait ∧
      clientOf w' = some (x, .dead) ∧ x.stage = .wait ∧ (w'.sem SEMKEY1).value 0 = SEMVMX ∧
      w'.shared.out.flatten ≠ data := by
  have hlimit : SEMAEM - 1 < SEMAEM := by decide
  obtain ⟨w₁, hw₁, h₁⟩ := h.reach (k := SEMAEM - 1) hw hn hmax hlimit (by omega)
  obtain ⟨w₂, hw₂, n₁, s, hout, -, h₂⟩ := h₁.sends hw₁ hn hmax hlimit (by omega)
  obtain ⟨w₃, hw₃, hserver, hclient, hval, hshared⟩ :=
    h₂.client_refused hw₂ Nat.one_pos (Nat.sub_add_cancel (by decide))
  refine ⟨w₃, _, _, hw₃, ⟨_, _, _, hserver⟩, rfl, hclient, rfl, hval, ?_⟩
  rw [hshared]
  intro hall
  rw [← hall] at hdata
  have : SEMAEM ≤ SEMAEM - 1 := hdata.trans hout
  omega

end Rounds

end UnixNetProg.SharedMemory

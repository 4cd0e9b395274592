/-
Whether a datagram ends the service can depend on the ones before it.

Two services that have begun with the same buffer, have answered as many datagrams of the
same client, and have not received a command, get the same datagram. Their buffers can
differ behind it. `decides_iff` says for which datagrams that matters: those that the command
goes on from, and the empty one, for which it is datagrams from other ports that put the
command together.
-/
import UnixNetProg.DgService.Code

set_option autoImplicit false

namespace UnixNetProg.DgService

open UnixNetProg.Memory UnixNetProg.Runs

/-! ## What should hold -/

/-- The datagram received is not a command. -/
def Plain (s : Service) (_ : Child) : Act → Prop
  | .datagram d _ => ¬ s.command <+: d.data
  | .fails => True

/-- The service ends at this datagram, if what it sends is sent. -/
def Child.Quits (s : Service) (w : Child) (d : Datagram) : Prop :=
  (w.turn s (.datagram d true)).1.pc = .quit

/-- The service decides by the datagram alone: two runs that agree on the client and the
count decide the same, and it is a command that ends them. -/
def Decides (s : Service) (data : List Char) : Prop :=
  ∀ (mesg : Mem Char) (w w' : Child) (client : Sockaddr_in),
    (service s mesg).Reach (Plain s) w → (service s mesg).Reach (Plain s) w' →
    w.pc = .recvfrom → w'.pc = .recvfrom →
    w.msgcnt = w'.msgcnt → w.first_client = w'.first_client →
    w.msgcnt = 0 ∨ client = w.first_client →
      (w.Quits s ⟨client, data⟩ ↔ w'.Quits s ⟨client, data⟩) ∧
        (w.Quits s ⟨client, data⟩ ↔ s.command <+: data)

/-! ## Datagrams that are no beginning of the command -/

section Decided

variable {s : Service} {w : Child} {client : Sockaddr_in} {data : List Char}

/-- The bytes left in the buffer do not matter. -/
theorem commanded_of_not_begins {mesg : Mem Char} {d : Datagram}
    (h : ¬ (d.data <+: s.command ∧ d.data ≠ s.command)) :
    s.Commanded (store mesg 0 d.got) ↔ s.command <+: d.data := by
  have hlen : s.command.length < MAXMESG := by cases s <;> decide
  rw [commanded_store_iff, prefix_got_iff]
  constructor
  · rintro (hcmd | ⟨hbegins, -⟩)
    · exact hcmd
    · -- so short a datagram is received whole
      have hgot : d.got = d.data := by
        have hshort := hbegins.length_le
        unfold Datagram.got at *
        rw [List.length_take] at hshort
        exact List.take_of_length_le (by omega)
      rw [hgot] at hbegins
      have heq : d.data = s.command := by
        by_contra hne
        exact h ⟨hbegins, hne⟩
      exact ⟨[], by rw [List.append_nil, heq]⟩
  · exact .inl

theorem quits_of_not_begins (hpc : w.pc = .recvfrom)
    (hclient : w.msgcnt = 0 ∨ client = w.first_client)
    (h : ¬ (data <+: s.command ∧ data ≠ s.command)) :
    w.Quits s ⟨client, data⟩ ↔ s.command <+: data := by
  have hport : w.msgcnt = 0 ∨ w.first_client.sin_port = client.sin_port :=
    hclient.imp_right fun heq => by rw [heq]
  exact (turn_quit_iff hpc hport).trans (commanded_of_not_begins (d := ⟨client, data⟩) h)

end Decided

/-! ## Two runs -/

section TwoRuns

variable {s : Service} {data : List Char}

/-- A client, and somebody at another port. -/
def client : Sockaddr_in := ⟨1, 1⟩

def other : Sockaddr_in := ⟨2, 2⟩

/-- A buffer of null bytes. -/
def zeros : Mem Char := fun _ => '\x00'

/-- One datagram of the client has been answered, and was not a command. -/
def answered : Child :=
  { start zeros with pcli_addr := client, first_client := client, msgcnt := 1 }

/-- And then the other one has put the command into the buffer, in two datagrams. -/
def prepared (s : Service) : Child :=
  (answered.receive ⟨other, '\x00' :: s.command.tail⟩).receive ⟨other, s.command.take 1⟩

theorem nul_notMem_command (s : Service) : '\x00' ∉ s.command := by
  cases s <;> decide

/-- A beginning of the command is received whole. -/
theorem got_of_begins (c : Sockaddr_in) (h : data <+: s.command) :
    Datagram.got ⟨c, data⟩ = data := by
  have hlen : s.command.length ≤ MAXMESG := by cases s <;> decide
  exact List.take_of_length_le (Nat.le_trans h.length_le hlen)

theorem not_commanded_zeros (s : Service) : ¬ s.Commanded zeros := by
  intro h
  obtain ⟨c, cmd, hcmd⟩ := List.exists_cons_of_ne_nil (command_ne_nil s)
  rw [Service.Commanded, hcmd, holds_cons] at h
  -- the first byte of the command would be a null byte
  apply nul_notMem_command s
  rw [hcmd, ← h.1]
  exact List.mem_cons_self

theorem reach_answered (s : Service) : (service s zeros).Reach (Plain s) answered := by
  have hplain : Plain s (start zeros) (.datagram ⟨client, []⟩ true) := by
    intro h
    exact command_ne_nil s (List.prefix_nil.1 h)
  have hgot : store zeros 0 (Datagram.got ⟨client, []⟩) = zeros := store_nil
  have hnone : ¬ s.Commanded ((start zeros).accept ⟨client, []⟩).mesg := by
    rw [accept_mesg]
    exact hgot ▸ not_commanded_zeros s
  have hturn : ((start zeros).turn s (.datagram ⟨client, []⟩ true)).1 = answered := by
    rw [turn_accept (.inl rfl), serve_not_commanded hnone]
    unfold Child.accept Child.receive
    simp only [start, hgot]
    rfl
  apply Machine.Reach.step (.init rfl) hplain
  rw [service_step _ rfl, hturn]

/-- What the other one sends is ignored, and left in the buffer. -/
theorem reach_other {w : Child} {data : List Char} (h : (service s zeros).Reach (Plain s) w)
    (hpc : w.pc = .recvfrom) (hcnt : w.msgcnt = 1) (hclient : w.first_client = client)
    (hplain : ¬ s.command <+: data) :
    (service s zeros).Reach (Plain s) (w.receive ⟨other, data⟩) := by
  have hport : w.first_client.sin_port ≠ other.sin_port := by
    rw [hclient]
    decide
  have hne : w.msgcnt ≠ 0 := by
    rw [hcnt]
    decide
  have hok : Plain s w (.datagram ⟨other, data⟩ true) := hplain
  apply h.step hok
  rw [service_step _ hpc, turn_ignore hne hport]

theorem reach_prepared (s : Service) : (service s zeros).Reach (Plain s) (prepared s) := by
  have hfirst : ¬ s.command <+: '\x00' :: s.command.tail := by cases s <;> decide
  have hsecond : ¬ s.command <+: s.command.take 1 := by cases s <;> decide
  exact reach_other (reach_other (reach_answered s) rfl rfl rfl hfirst) rfl rfl rfl hsecond

/-- Neither datagram is the command, but together they leave it behind. -/
theorem commanded_prepared (s : Service) : s.Commanded (prepared s).mesg := by
  have hgot : Datagram.got ⟨other, s.command.take 1⟩ = s.command.take 1 :=
    got_of_begins other (List.take_prefix 1 s.command)
  have hbefore : Datagram.got ⟨other, '\x00' :: s.command.tail⟩ = '\x00' :: s.command.tail := by
    cases s <;> decide
  have hone : (s.command.take 1).length = 1 := by cases s <;> decide
  have hrest := (holds_cons.1 (holds_store zeros 0 ('\x00' :: s.command.tail))).2
  rw [prepared, receive_mesg, receive_mesg, hgot, hbefore, commanded_store_iff, hone]
  right
  rw [List.drop_one]
  exact ⟨List.take_prefix _ _, hrest⟩

/-- A beginning of the command leaves the command where it is, -/
theorem quits_prepared (h : data <+: s.command) : (prepared s).Quits s ⟨client, data⟩ := by
  apply (turn_quit_iff rfl (.inr rfl)).2
  rw [got_of_begins client h, commanded_store_iff]
  -- the rest of the command is behind what is stored
  right
  obtain ⟨r, hr⟩ := h
  have hcmd := commanded_prepared s
  rw [Service.Commanded, ← hr] at hcmd
  rw [← hr, List.drop_left]
  have hbehind := (holds_append.1 hcmd).2
  rw [Nat.zero_add] at hbehind
  exact ⟨List.prefix_append _ _, hbehind⟩

/-- and null bytes as they are. -/
theorem not_quits_answered (h : data <+: s.command) (hne : data ≠ s.command) :
    ¬ answered.Quits s ⟨client, data⟩ := by
  intro hquits
  have hcmd := (turn_quit_iff rfl (.inr rfl)).1 hquits
  rw [got_of_begins client h, commanded_store_iff] at hcmd
  obtain ⟨r, hr⟩ := h
  rcases hcmd with hpre | ⟨-, hrest⟩
  · exact hne (List.IsPrefix.eq_of_length ⟨r, hr⟩ (Nat.le_antisymm
      (List.IsPrefix.length_le ⟨r, hr⟩) hpre.length_le))
  · -- what is behind the datagram is null bytes
    rw [← hr, List.drop_left] at hrest
    cases r with
    | nil => exact hne (by rw [← hr, List.append_nil])
    | cons c r =>
      apply nul_notMem_command s
      rw [← hr, ← (holds_cons.1 hrest).1]
      exact List.mem_append_right _ List.mem_cons_self

end TwoRuns

/-- The two runs do not agree on a beginning of the command. -/
theorem not_decides {s : Service} {data : List Char} (h : data <+: s.command)
    (hne : data ≠ s.command) : ¬ Decides s data := by
  intro hdec
  have hsame := (hdec zeros _ _ client (reach_prepared s) (reach_answered s) rfl rfl rfl rfl
    (.inr rfl)).1
  exact not_quits_answered h hne (hsame.1 (quits_prepared h))

/-- **A service decides by the datagram alone if and only if that is not a beginning of the
command**, short of it. -/
theorem decides_iff (s : Service) (data : List Char) :
    Decides s data ↔ ¬ (data <+: s.command ∧ data ≠ s.command) := by
  constructor
  · rintro h ⟨hbegins, hne⟩
    exact not_decides hbegins hne h
  · intro h mesg w w' c _ _ hpc hpc' hcnt hfirst hc
    have hquits := quits_of_not_begins hpc hc h
    rw [hcnt, hfirst] at hc
    exact ⟨hquits.trans (quits_of_not_begins hpc' hc h).symm, hquits⟩

/-- `"udpqui"` ends `dg_echo` where the rest of the command has been left in its buffer. -/
theorem decides_missed : ¬ Decides .echo "udpqui".toList :=
  not_decides (by decide) (by decide)

end UnixNetProg.DgService

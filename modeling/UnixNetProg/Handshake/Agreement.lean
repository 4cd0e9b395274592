/-
Client and server agree on the header, if every read takes a whole message.

`sent` is what the server has sent where it is, and `Talk` says what the client has
taken of it: the answers, one after the other, while the header is as it should be.
A read that takes less than a message leaves the rest to the next one, which then
finds an answer that it does not know, and goes on; `whole` says which reads do no
harm: those of a whole message, and those that go far enough for the one that reads
to see that it does not go on.
-/
import UnixNetProg.Handshake.Code

set_option autoImplicit false

namespace UnixNetProg.Handshake

open UnixNetProg.Bytes UnixNetProg.Channel UnixNetProg.Runs

/-! ## What the two should agree on -/

/-- The version is 1, and the name of the protocol is that of the server. -/
def Request.Accepted (q : Request) : Prop :=
  q.header.version = 1 ∧ ascii PROTOCOL_NAME ++ [0] <+: q.header.protocol_name

/-- Whether the client has gone on, or given up. -/
def CliAt.settled : CliAt → Bool
  | .str_cli | .ended _ => true
  | _ => false

/-- Whether the server has gone on, or given up. -/
def ServAt.settled : ServAt → Bool
  | .str_echo | .ended _ => true
  | _ => false

/-- The client goes on if and only if the server does; the server goes on exactly
with the headers to be accepted; and when both have gone on nothing of the handshake
is left unread. -/
structure Agreed (q : Request) (w : World) : Prop where
  both : w.cli.pc.settled = true → w.serv.pc.settled = true →
    (w.cli.pc = .str_cli ↔ w.serv.pc = .str_echo)
  exact : w.serv.pc.settled = true → (w.serv.pc = .str_echo ↔ q.Accepted)
  clean : w.cli.pc = .str_cli → w.serv.pc = .str_echo → w.toServ.bytes = [] ∧ w.toCli.bytes = []

/-- The stream begins with an error, and `k` bytes of it are enough to see that. -/
def Shows (c : Chan UInt8) (s : String) (k : ℕ) : Prop :=
  (ascii s).length < k ∧ ascii s ++ [0] <+: c.bytes

/-- Reads take a whole message, or enough of it not to go on. -/
def whole (q : Request) (w : World) (a : Act) : Prop :=
  reliable w a ∧
    match a with
    | .serv k => w.serv.pc = .readv → k = q.bytes.length ∨ HEADER_SIZE ≤ k ∧ ¬ q.Accepted
    | .cli k =>
      (w.cli.pc = .recv_version → k = MESSAGE_SIZE ∨ Shows w.toCli VERSION_ERROR k) ∧
        (w.cli.pc = .recv_protocol → k = MESSAGE_SIZE ∨ Shows w.toCli PROTO_NAME_ERR k)
    | _ => True

/-! ## Messages -/

section Messages

variable {q : Request} {s : String} {k : ℕ}

theorem length_header (h : Header) : h.bytes.length = HEADER_SIZE := by
  simp [Header.bytes, h.name_size, h.padding_size, HEADER_SIZE]

/-- Whether a buffer holds one of the strings. -/
theorem holds_iff {buffer : List UInt8} (hs : 0 ∉ ascii s)
    (hlen : (ascii s).length < buffer.length) :
    holds buffer s = true ↔ ascii s ++ [0] <+: buffer := by
  rw [holds, decide_eq_true_eq]
  exact strncmp_eq_zero_iff hs hlen

/-- The server's first answer. -/
def versionReply (q : Request) : List UInt8 :=
  charArray MESSAGE_SIZE (if q.header.version ≠ 1 then VERSION_ERROR else NO_VERSION_ERROR)

/-- The server's second answer. -/
def protocolReply (q : Request) : List UInt8 :=
  charArray MESSAGE_SIZE
    (if holds q.header.protocol_name PROTOCOL_NAME = false then PROTO_NAME_ERR
      else NO_PROTO_NAME_ERR)

@[simp] theorem length_versionReply (q : Request) : (versionReply q).length = MESSAGE_SIZE := by
  unfold versionReply
  split_ifs <;> exact length_charArray (by decide)

@[simp] theorem length_protocolReply (q : Request) : (protocolReply q).length = MESSAGE_SIZE := by
  unfold protocolReply
  split_ifs <;> exact length_charArray (by decide)

/-- The first answer is an error if and only if the version is wrong. -/
theorem versionReply_error (q : Request) :
    ascii VERSION_ERROR ++ [0] <+: versionReply q ↔ q.header.version ≠ 1 := by
  unfold versionReply
  split_ifs with hversion
  · exact iff_of_true (prefix_charArray (by decide)) hversion
  · exact iff_of_false (by decide) hversion

theorem holds_name (q : Request) :
    holds q.header.protocol_name PROTOCOL_NAME = true ↔
      ascii PROTOCOL_NAME ++ [0] <+: q.header.protocol_name :=
  holds_iff (by decide) (by rw [q.header.name_size]; decide)

/-- The second answer is an error if and only if the name is wrong. -/
theorem protocolReply_error (q : Request) :
    ascii PROTO_NAME_ERR ++ [0] <+: protocolReply q ↔
      ¬ ascii PROTOCOL_NAME ++ [0] <+: q.header.protocol_name := by
  rw [← holds_name]
  unfold protocolReply
  split_ifs with hholds
  · exact iff_of_true (prefix_charArray (by decide)) (by simp [hholds])
  · exact iff_of_false (by decide) (by simpa using hholds)

/-- What a buffer holds after a message was read to it that begins the stream:
either all of the message was read, or enough of it to see that it is an error. -/
theorem holds_overwrite {response bs reply : List UInt8} {c c' : Chan UInt8} {n : ℕ}
    (hs : 0 ∉ ascii s) (hlen : (ascii s).length < MESSAGE_SIZE)
    (hresponse : response.length = MESSAGE_SIZE)
    (hreply : reply.length = MESSAGE_SIZE) (hfront : reply <+: c.bytes)
    (hread : c.read n k = some (bs, c')) (hk : k = MESSAGE_SIZE ∨ Shows c s k) :
    (holds (overwrite response bs) s = true ↔ ascii s ++ [0] <+: reply) ∧
      (holds (overwrite response bs) s = false → bs = reply) := by
  have hne : bs ≠ [] := by
    rintro rfl
    rw [(Chan.read_nil hread).1, List.prefix_nil] at hfront
    rw [hfront] at hreply
    cases hreply
  obtain ⟨hbytes, -, -⟩ := Chan.read_eq_some hread
  obtain ⟨hlength, -, -⟩ := Chan.length_of_read hread hne
  have hprefix : bs <+: c.bytes := ⟨c'.bytes, hbytes.symm⟩
  have hlong : (ascii s).length < (overwrite response bs).length := by
    rw [overwrite, List.length_append, List.length_drop]
    omega
  rw [holds_iff hs hlong]
  rcases hk with rfl | ⟨hlt, hshows⟩
  · -- the whole message
    have hwhole : bs = reply := by
      apply List.IsPrefix.eq_of_length (List.prefix_of_prefix_length_le hprefix hfront (by omega))
      omega
    have hover : overwrite response bs = reply := by
      rw [overwrite, hwhole, List.drop_eq_nil_of_le (by omega), List.append_nil]
    rw [hover]
    exact ⟨Iff.rfl, fun _ => hwhole⟩
  · -- an error, and enough of it
    have hstart : ascii s ++ [0] <+: bs := by
      apply List.prefix_of_prefix_length_le hshows hprefix
      rw [List.length_append, List.length_singleton]
      omega
    have hreply' : ascii s ++ [0] <+: reply := by
      apply List.prefix_of_prefix_length_le hshows hfront
      rw [List.length_append, List.length_singleton]
      omega
    have hover : ascii s ++ [0] <+: overwrite response bs := hstart.trans (List.prefix_append _ _)
    refine ⟨iff_of_true hover hreply', ?_⟩
    intro hnone
    rw [(holds_iff hs hlong).2 hover] at hnone
    cases hnone

end Messages

/-! ## Where the two are -/

/-- What the server has sent. -/
def sent (q : Request) : ServAt → List UInt8
  | .readv | .send_version => []
  | .send_protocol => versionReply q
  | .shutdown | .str_echo | .ended _ => versionReply q ++ protocolReply q

/-- The client has taken the answers one after the other, while there was no error. -/
def CliOk (q : Request) (w : World) : Prop :=
  match w.cli.pc with
  | .writev => w.serv.pc = .readv
  | .recv_version => w.toCli.bytes = sent q w.serv.pc
  | .recv_protocol => q.header.version = 1 ∧ versionReply q ++ w.toCli.bytes = sent q w.serv.pc
  | .str_cli => q.Accepted ∧ versionReply q ++ protocolReply q ++ w.toCli.bytes = sent q w.serv.pc
  | .ended _ => ¬ q.Accepted ∧ w.serv.pc ≠ .readv

/-- The server has the header as it was sent. -/
def ServOk (q : Request) (w : World) : Prop :=
  match w.serv.pc with
  | .readv =>
    w.serv.is_valid_version = false ∧
      (w.cli.pc = .writev ∧ w.toServ.bytes = [] ∧ w.toServ.closed = false ∧ w.toCli.bytes = [] ∨
        w.cli.pc = .recv_version ∧ w.toServ.bytes = q.bytes)
  | .send_version =>
    w.serv.version = q.header.version ∧ w.serv.protocol_name = q.header.protocol_name ∧
      w.serv.is_valid_version = false
  | .send_protocol =>
    w.serv.protocol_name = q.header.protocol_name ∧
      (w.serv.is_valid_version = true ↔ q.header.version ≠ 1)
  | .str_echo => q.Accepted
  | .shutdown | .ended _ => ¬ q.Accepted

structure Talk (q : Request) (w : World) : Prop where
  size : w.cli.response.length = MESSAGE_SIZE
  cli : CliOk q w
  serv : ServOk q w
  left : q.Accepted → w.serv.pc ≠ .readv → w.toServ.bytes = []
  closed : w.toCli.closed = true → ∃ msg, w.serv.pc = .ended msg

namespace Talk

variable {q : Request} {w w' : World} {k : ℕ}

theorem start {response header_message : List UInt8} (hsize : response.length = MESSAGE_SIZE) :
    Talk q (start response header_message) where
  size := hsize
  cli := rfl
  serv := ⟨rfl, .inl ⟨rfl, rfl, rfl, rfl⟩⟩
  left := fun _ hne => absurd rfl hne
  closed := nofun

/-- The client sends its header. -/
theorem writev (h : Talk q w) (hpc : w.cli.pc = .writev) :
    Talk q { w with
      cli := { w.cli with pc := .recv_version }, toServ := w.toServ.write q.bytes } := by
  have hcli := h.cli
  rw [CliOk, hpc] at hcli
  have hreadv : w.serv.pc = .readv := hcli
  have hserv := h.serv
  simp only [ServOk, hreadv] at hserv
  obtain ⟨hfresh, ⟨-, hempty, -, hnone⟩ | ⟨hother, -⟩⟩ := hserv
  · refine ⟨h.size, ?_, ?_, ?_, h.closed⟩
    · show w.toCli.bytes = sent q w.serv.pc
      rw [hnone, hreadv]
      rfl
    · simp only [ServOk, hreadv]
      refine ⟨hfresh, .inr ⟨trivial, ?_⟩⟩
      rw [Chan.write_bytes, hempty, List.nil_append]
    · exact fun _ hne => absurd hreadv hne
  · rw [hpc] at hother
    cases hother

/-- Before the server has ended the client waits at an empty stream. -/
theorem read_empty (h : Talk q w) {n : ℕ} (hempty : w.toCli.bytes = [])
    (hlive : ∀ msg, w.serv.pc ≠ .ended msg) : w.toCli.read n k = none := by
  have hopen : ¬ w.toCli.closed = true := by
    intro hclosed
    obtain ⟨msg, hend⟩ := h.closed hclosed
    exact hlive msg hend
  rw [Chan.read, if_pos hempty, if_neg hopen]

/-- What the server has does not depend on the client, once it has the header. -/
theorem servOk_of_eq (h : ServOk q w) (hne : w.serv.pc ≠ .readv) (heq : w'.serv = w.serv) :
    ServOk q w' := by
  unfold ServOk at h ⊢
  rw [heq]
  cases hpc : w.serv.pc with
  | readv => exact absurd hpc hne
  | _ => simpa only [hpc] using h

/-- The client takes something that the server has sent. -/
theorem takes (h : Talk q w) (hne : w.serv.pc ≠ .readv) {cli : Client} {c : Chan UInt8}
    (hsize : cli.response.length = MESSAGE_SIZE) (hcli : CliOk q ({ w with toCli := c }.setCli cli))
    (hclosed : c.closed = w.toCli.closed) : Talk q ({ w with toCli := c }.setCli cli) := by
  refine ⟨hsize, hcli, servOk_of_eq h.serv hne rfl, ?_, ?_⟩
  · intro haccepted _
    have hleft := h.left haccepted hne
    simp only [World.setCli]
    split_ifs
    · exact hleft
    · exact hleft
  · intro htrue
    exact h.closed (hclosed.symm.trans htrue)

theorem versionReply_ne_nil (rest : List UInt8) : versionReply q ++ rest ≠ [] := by
  intro hnil
  have hlen := congrArg List.length (List.append_eq_nil_iff.1 hnil).1
  rw [length_versionReply] at hlen
  cases hlen

/-- Nothing has been sent, or the first answer. -/
theorem sent_cases (q : Request) (pc : ServAt) :
    (sent q pc = [] ∧ ∀ msg, pc ≠ .ended msg) ∨ ∃ rest, sent q pc = versionReply q ++ rest := by
  cases pc with
  | readv => exact .inl ⟨rfl, fun _ => nofun⟩
  | send_version => exact .inl ⟨rfl, fun _ => nofun⟩
  | send_protocol => exact .inr ⟨[], (List.append_nil _).symm⟩
  | shutdown => exact .inr ⟨_, rfl⟩
  | str_echo => exact .inr ⟨_, rfl⟩
  | ended msg => exact .inr ⟨_, rfl⟩

/-- After the first answer comes the second one, or nothing yet. -/
theorem rest_cases {pc : ServAt} {rest : List UInt8} (h : versionReply q ++ rest = sent q pc) :
    (rest = [] ∧ ∀ msg, pc ≠ .ended msg) ∨ rest = protocolReply q := by
  cases pc with
  | readv => exact absurd h (versionReply_ne_nil rest)
  | send_version => exact absurd h (versionReply_ne_nil rest)
  | send_protocol => exact .inl ⟨List.append_right_eq_self.1 h, fun _ => nofun⟩
  | shutdown => exact .inr (List.append_cancel_left h)
  | str_echo => exact .inr (List.append_cancel_left h)
  | ended msg => exact .inr (List.append_cancel_left h)

/-- Once something has been sent the server has the header. -/
theorem not_readv {pc : ServAt} {rest : List UInt8} (h : sent q pc = versionReply q ++ rest) :
    pc ≠ .readv := by
  rintro rfl
  exact versionReply_ne_nil rest h.symm

theorem size_overwrite {response bs : List UInt8} (hsize : response.length = MESSAGE_SIZE)
    (hle : bs.length ≤ MESSAGE_SIZE) : (overwrite response bs).length = MESSAGE_SIZE := by
  rw [overwrite, List.length_append, List.length_drop]
  omega

/-- The client takes the first answer. -/
theorem recv_version (h : Talk q w) (hpc : w.cli.pc = .recv_version) {bs : List UInt8}
    {c : Chan UInt8}
    (hk : k = MESSAGE_SIZE ∨ Shows w.toCli VERSION_ERROR k)
    (hread : w.toCli.read MESSAGE_SIZE k = some (bs, c)) :
    Talk q ({ w with toCli := c }.setCli (w.cli.recv_version bs)) := by
  have hcli := h.cli
  simp only [CliOk, hpc] at hcli
  obtain ⟨hbytes, hclosed, hle⟩ := Chan.read_eq_some hread
  -- The client can only read once the server has sent its answer.
  rcases sent_cases q w.serv.pc with ⟨hnone, hlive⟩ | ⟨rest, hrest⟩
  · rw [h.read_empty (hcli.trans hnone) hlive] at hread
    cases hread
  have hne := not_readv hrest
  -- The answer is in front of what is on the way, also where it is the error.
  have hfront : versionReply q <+: w.toCli.bytes := ⟨rest, by rw [hcli, hrest]⟩
  obtain ⟨herror, hwhole⟩ := holds_overwrite (by decide) (by decide) h.size (length_versionReply q)
    hfront
    hread hk
  rw [versionReply_error] at herror
  apply h.takes hne (size_overwrite h.size hle) _ hclosed
  -- What the client goes by is whether the error is in its buffer.
  by_cases hholds : holds (overwrite w.cli.response bs) VERSION_ERROR = true
  · simp only [Client.recv_version, hholds, if_true, CliOk, World.setCli, CliAt.gone]
    exact ⟨fun haccepted => herror.1 hholds haccepted.1, hne⟩
  · have hfalse : holds (overwrite w.cli.response bs) VERSION_ERROR = false := by simpa using hholds
    have hversion : q.header.version = 1 := by
      by_contra hwrong
      exact hholds (herror.2 hwrong)
    simp only [Client.recv_version, hfalse, Bool.false_eq_true, if_false, CliOk, World.setCli,
      CliAt.gone]
    refine ⟨hversion, ?_⟩
    rw [← hwhole hfalse, ← hbytes, hcli]

/-- The client takes the second answer. -/
theorem recv_protocol (h : Talk q w) (hpc : w.cli.pc = .recv_protocol) {bs : List UInt8}
    {c : Chan UInt8}
    (hk : k = MESSAGE_SIZE ∨ Shows w.toCli PROTO_NAME_ERR k)
    (hread : w.toCli.read MESSAGE_SIZE k = some (bs, c)) :
    Talk q ({ w with toCli := c }.setCli (w.cli.recv_protocol bs)) := by
  have hcli := h.cli
  simp only [CliOk, hpc] at hcli
  obtain ⟨hversion, hsent⟩ := hcli
  obtain ⟨hbytes, hclosed, hle⟩ := Chan.read_eq_some hread
  rcases rest_cases hsent with ⟨hnone, hlive⟩ | hrest
  · rw [h.read_empty hnone hlive] at hread
    cases hread
  have hne := not_readv hsent.symm
  have hfront : protocolReply q <+: w.toCli.bytes := ⟨[], by rw [hrest, List.append_nil]⟩
  obtain ⟨herror, hwhole⟩ := holds_overwrite (by decide) (by decide) h.size
    (length_protocolReply q) hfront
    hread hk
  rw [protocolReply_error] at herror
  apply h.takes hne (size_overwrite h.size hle) _ hclosed
  -- what the client finds in its buffer tells it whether the name was accepted
  by_cases hholds : holds (overwrite w.cli.response bs) PROTO_NAME_ERR = true
  · simp only [Client.recv_protocol, hholds, if_true, CliOk, World.setCli, CliAt.gone]
    exact ⟨fun haccepted => herror.1 hholds haccepted.2, hne⟩
  · have hfalse : holds (overwrite w.cli.response bs) PROTO_NAME_ERR = false := by
      simpa using hholds
    have hname : ascii PROTOCOL_NAME ++ [0] <+: q.header.protocol_name := by
      by_contra hwrong
      exact hholds (herror.2 hwrong)
    simp only [Client.recv_protocol, hfalse, Bool.false_eq_true, if_false, CliOk, World.setCli,
      CliAt.gone]
    refine ⟨⟨hversion, hname⟩, ?_⟩
    rw [← hwhole hfalse, List.append_assoc, ← hbytes, hsent]

/-- The header is read as it was sent. -/
theorem header_readv (serv : Server) {bs : List UInt8}
    (hbs : bs.take HEADER_SIZE = q.header.bytes) :
    (serv.readv bs).version = q.header.version ∧
      (serv.readv bs).protocol_name = q.header.protocol_name := by
  have hfront : ((serv.readv bs).header_message.drop 4).take 4 = ofWord 4 q.header.version := by
    simp only [Server.readv, overwrite, hbs, Header.bytes, List.append_assoc]
    rw [List.drop_left' (length_ofWord 4 _), List.take_left' (length_ofWord 4 _)]
  have hname : ((serv.readv bs).header_message.drop 8).take 10 = q.header.protocol_name := by
    have hlen : (ofWord 4 q.header.type ++ ofWord 4 q.header.version).length = 8 := by simp
    simp only [Server.readv, overwrite, hbs, Header.bytes]
    rw [List.append_assoc, List.append_assoc, List.drop_left' hlen,
      List.take_left' q.header.name_size]
  refine ⟨?_, hname⟩
  rw [Server.version, hfront]
  exact toWord_ofWord 4 _

/-- The server takes the header. -/
theorem readv (h : Talk q w) (hpc : w.serv.pc = .readv) {bs : List UInt8} {c : Chan UInt8} {n : ℕ}
    (hk : k = q.bytes.length ∨ HEADER_SIZE ≤ k ∧ ¬ q.Accepted)
    (hread : w.toServ.read n k = some (bs, c)) :
    Talk q { w with serv := w.serv.readv bs, toServ := c } := by
  have hserv := h.serv
  simp only [ServOk, hpc] at hserv
  rcases hserv with ⟨hfresh, ⟨-, hempty, hopen, -⟩ | ⟨hcli, hbytes⟩⟩
  · rw [Chan.read, if_pos hempty, hopen] at hread
    cases hread
  obtain ⟨hsplit, -, -⟩ := Chan.read_eq_some hread
  have hlen : q.bytes.length = HEADER_SIZE + q.greeting.length := by
    rw [Request.bytes, List.length_append, length_header]
  have hne : bs ≠ [] := by
    rintro rfl
    have hnil := (Chan.read_nil hread).1
    rw [hbytes] at hnil
    rw [hnil] at hlen
    simp [HEADER_SIZE] at hlen
    omega
  have hgot : bs.length = k := (Chan.length_of_read hread hne).1
  -- at least the header was read
  have hheader : bs.take HEADER_SIZE = q.header.bytes := by
    have hlong : HEADER_SIZE ≤ bs.length := by
      rcases hk with rfl | ⟨hle, -⟩ <;> omega
    have hfront := congrArg (List.take HEADER_SIZE) (hbytes.symm.trans hsplit)
    rw [List.take_append_of_le_length hlong, Request.bytes, List.take_left' (length_header _)]
      at hfront
    exact hfront.symm
  obtain ⟨hversion, hname⟩ := header_readv w.serv hheader
  have hrecv := h.cli
  simp only [CliOk, hcli, hpc] at hrecv
  refine ⟨h.size, ?_, ?_, ?_, ?_⟩
  · simp only [CliOk, hcli]
    exact hrecv
  · exact ⟨hversion, hname, hfresh⟩
  · intro haccepted _
    have hwhole : k = q.bytes.length := hk.resolve_right fun hbad => hbad.2 haccepted
    have hrest := congrArg List.length (hbytes.symm.trans hsplit)
    rw [List.length_append] at hrest
    have hzero : c.bytes.length = 0 := by omega
    exact List.length_eq_zero_iff.1 hzero
  · intro hclosed
    obtain ⟨msg, hend⟩ := h.closed hclosed
    rw [hpc] at hend
    cases hend

/-- The server sends an answer: the client has it to read, behind what it had. -/
theorem answers (h : Talk q w) {serv : Server} {reply : List UInt8} (hpc : w.serv.pc ≠ .readv)
    (hlive : ∀ msg, w.serv.pc ≠ .ended msg) (hnext : serv.pc ≠ .readv)
    (hsent : sent q serv.pc = sent q w.serv.pc ++ reply)
    (hserv : ∀ w', w'.serv = serv → ServOk q w') :
    Talk q { w with serv := serv, toCli := w.toCli.write reply } := by
  have hcli := h.cli
  refine ⟨h.size, ?_, hserv _ rfl, fun haccepted _ => h.left haccepted hpc, ?_⟩
  · unfold CliOk at hcli ⊢
    -- a reply goes behind what the client has not read yet
    cases hat : w.cli.pc with
    | writev =>
      simp only [hat] at hcli
      exact absurd hcli hpc
    | recv_version =>
      simp only [hat, Chan.write_bytes, hsent] at hcli ⊢
      rw [hcli]
    | recv_protocol =>
      simp only [hat, Chan.write_bytes, hsent] at hcli ⊢
      exact ⟨hcli.1, by rw [← List.append_assoc, hcli.2]⟩
    | str_cli =>
      simp only [hat, Chan.write_bytes, hsent] at hcli ⊢
      exact ⟨hcli.1, by rw [← List.append_assoc, hcli.2]⟩
    | ended msg =>
      simp only [hat] at hcli ⊢
      exact ⟨hcli.1, hnext⟩
  · intro hclosed
    obtain ⟨msg, hend⟩ := h.closed hclosed
    exact absurd hend (hlive msg)

/-- The server sends its first answer. -/
theorem send_version (h : Talk q w) (hpc : w.serv.pc = .send_version) : Talk q w.send_version := by
  have hserv := h.serv
  simp only [ServOk, hpc] at hserv
  obtain ⟨hversion, hname, hfresh⟩ := hserv
  unfold World.send_version
  rw [hversion]
  split_ifs with hwrong
  · apply h.answers (by simp [hpc]) (by simp [hpc])
    · exact nofun
    · simp only [sent, hpc, versionReply, if_pos hwrong, List.nil_append]
    · intro w' heq
      simp only [ServOk, heq]
      exact ⟨hname, iff_of_true trivial hwrong⟩
  · apply h.answers (by simp [hpc]) (by simp [hpc])
    · exact nofun
    · simp only [sent, hpc, versionReply, if_neg hwrong, List.nil_append]
    · intro w' heq
      simp only [ServOk, heq]
      exact ⟨hname, iff_of_false (by simp [hfresh]) hwrong⟩

/-- The server sends its second answer, and goes on if the header is right. -/
theorem send_protocol (h : Talk q w) (hpc : w.serv.pc = .send_protocol) :
    Talk q w.send_protocol := by
  have hserv := h.serv
  simp only [ServOk, hpc] at hserv
  obtain ⟨hname, hflag⟩ := hserv
  have hholds := holds_name q
  unfold World.send_protocol
  rw [hname]
  -- a wrong name, a wrong version that was flagged before, or neither
  split_ifs with hwrong hversion
  · apply h.answers (by simp [hpc]) (by simp [hpc])
    · exact nofun
    · simp only [sent, hpc, protocolReply, if_pos hwrong]
    · intro w' heq
      simp only [ServOk, heq]
      intro haccepted
      rw [hholds.2 haccepted.2] at hwrong
      cases hwrong
  · apply h.answers (by simp [hpc]) (by simp [hpc])
    · exact nofun
    · simp only [sent, hpc, protocolReply, if_neg hwrong]
    · intro w' heq
      simp only [ServOk, heq]
      exact fun haccepted => hflag.1 hversion haccepted.1
  · apply h.answers (by simp [hpc]) (by simp [hpc])
    · exact nofun
    · simp only [sent, hpc, protocolReply, if_neg hwrong]
    · intro w' heq
      simp only [ServOk, heq]
      refine ⟨?_, hholds.1 (by simpa using hwrong)⟩
      by_contra hbad
      exact hversion (hflag.2 hbad)

/-- The server ends the connection: the client has given up, or finds an error. -/
theorem ends (h : Talk q w) (hne : w.serv.pc ≠ .readv) (hrejected : ¬ q.Accepted) (msg : String)
    (hsent : (∃ msg, w.cli.pc = .ended msg) ∨ w.serv.pc = .shutdown) :
    Talk q { w with serv := { w.serv with pc := .ended msg }, toCli := w.toCli.close } := by
  have hcli := h.cli
  refine ⟨h.size, ?_, hrejected, fun haccepted => absurd haccepted hrejected, fun _ => ⟨msg, rfl⟩⟩
  unfold CliOk at hcli ⊢
  rcases hsent with ⟨why, hend⟩ | hshut
  · simp only [hend] at hcli ⊢
    exact ⟨hrejected, nofun⟩
  · cases hat : w.cli.pc with
    | writev =>
      simp only [hat] at hcli
      exact absurd hcli hne
    | ended why => exact ⟨hrejected, nofun⟩
    | _ => simpa only [hat, hshut, sent, Chan.close_bytes] using hcli

/-- **Every step keeps it.** -/
theorem step {a : Act} (h : Talk q w) (hok : whole q w a) (hs : w.step q a = some w') :
    Talk q w' := by
  obtain ⟨hreliable, hwhole⟩ := hok
  cases a with
  | cli k =>
    simp only [World.step, World.cliStep] at hs
    split at hs
    · rename_i hpc
      cases hs
      exact h.writev hpc
    · rename_i hpc
      obtain ⟨⟨bs, c⟩, hread, rfl⟩ := Option.map_eq_some_iff.1 hs
      exact h.recv_version hpc (hwhole.1 hpc) hread
    · rename_i hpc
      obtain ⟨⟨bs, c⟩, hread, rfl⟩ := Option.map_eq_some_iff.1 hs
      exact h.recv_protocol hpc (hwhole.2 hpc) hread
    · cases hs
    · cases hs
  | serv k =>
    simp only [World.step, World.servStep] at hs
    split at hs
    · rename_i hpc
      obtain ⟨⟨bs, c⟩, hread, rfl⟩ := Option.map_eq_some_iff.1 hs
      exact h.readv hpc (hwhole hpc) hread
    · rename_i hpc
      cases hs
      exact h.send_version hpc
    · rename_i hpc
      cases hs
      exact h.send_protocol hpc
    · rename_i hpc
      cases hs
      have hrejected := h.serv
      simp only [ServOk, hpc] at hrejected
      exact h.ends (by simp [hpc]) hrejected _ (.inr hpc)
    · cases hs
    · cases hs
  | cliFails => exact absurd hreliable id
  | servFails =>
    obtain ⟨msg, -, rfl⟩ := Option.map_eq_some_iff.1 hs
    -- the client has given up, and had a reason to
    have hcli := h.cli
    have hgone : w.cli.pc.gone = true := hreliable
    cases hat : w.cli.pc with
    | ended why =>
      simp only [CliOk, hat] at hcli
      exact h.ends hcli.2 hcli.1 msg (.inl ⟨why, hat⟩)
    | _ =>
      rw [hat] at hgone
      cases hgone

/-- The two agree. -/
theorem agreed (h : Talk q w) : Agreed q w := by
  have hcli := h.cli
  have hserv := h.serv
  have hexact : w.serv.pc.settled = true → (w.serv.pc = .str_echo ↔ q.Accepted) := by
    intro hsettled
    cases hpc : w.serv.pc with
    | str_echo =>
      simp only [ServOk, hpc] at hserv
      exact iff_of_true rfl hserv
    | ended msg =>
      simp only [ServOk, hpc] at hserv
      exact iff_of_false nofun hserv
    | _ => simp [hpc, ServAt.settled] at hsettled
  -- both have looked at the same two conditions
  refine ⟨?_, hexact, ?_⟩
  · intro hsettled hserv_settled
    rw [hexact hserv_settled]
    cases hpc : w.cli.pc with
    | str_cli =>
      simp only [CliOk, hpc] at hcli
      exact iff_of_true rfl hcli.1
    | ended msg =>
      simp only [CliOk, hpc] at hcli
      exact iff_of_false nofun hcli.1
    | _ => simp [hpc, CliAt.settled] at hsettled
  · intro hpc hecho
    simp only [CliOk, hpc, hecho, sent] at hcli
    exact ⟨h.left hcli.1 (by simp [hecho]), List.append_right_eq_self.1 hcli.2⟩

end Talk

/-! ## To the end -/

/-- How far the client is from having gone on or given up. -/
def CliAt.rank : CliAt → ℕ
  | .writev => 3
  | .recv_version => 2
  | .recv_protocol => 1
  | .str_cli | .ended _ => 0

/-- How far the server is from having gone on or given up. -/
def ServAt.rank : ServAt → ℕ
  | .readv => 4
  | .send_version => 3
  | .send_protocol => 2
  | .shutdown => 1
  | .str_echo | .ended _ => 0

section Progress

variable {q : Request} {w : World}

theorem rank_recv_version (c : Client) (bs : List UInt8) : (c.recv_version bs).pc.rank < 2 := by
  simp only [Client.recv_version]
  split_ifs <;> decide +revert

theorem rank_recv_protocol (c : Client) (bs : List UInt8) : (c.recv_protocol bs).pc.rank < 1 := by
  simp only [Client.recv_protocol]
  split_ifs <;> decide +revert

theorem rank_send_version (w : World) :
    w.send_version.serv.pc.rank = 2 ∧ w.send_version.cli = w.cli := by
  unfold World.send_version
  split_ifs <;> exact ⟨rfl, rfl⟩

theorem rank_send_protocol (w : World) :
    w.send_protocol.serv.pc.rank ≤ 1 ∧ w.send_protocol.cli = w.cli := by
  unfold World.send_protocol
  split_ifs
  · exact ⟨Nat.le_refl 1, rfl⟩
  · exact ⟨Nat.le_refl 1, rfl⟩
  · exact ⟨Nat.zero_le 1, rfl⟩

/-- The server can go on, or the client has not sent its header. -/
theorem Talk.serv_down (h : Talk q w) (hserv : w.serv.pc.settled = false) :
    ∃ a w', whole q w a ∧ w.step q a = some w' ∧
      w'.cli.pc.rank + w'.serv.pc.rank < w.cli.pc.rank + w.serv.pc.rank := by
  have hok := h.serv
  cases hpc : w.serv.pc with
  | readv =>
    simp only [ServOk, hpc] at hok
    -- the header is not sent yet, or all of it is there to be read
    rcases hok.2 with ⟨hcli, -⟩ | ⟨hcli, hbytes⟩
    · have hstep : w.step q (.cli 0) = some { w with
          cli := { w.cli with pc := .recv_version }, toServ := w.toServ.write q.bytes } := by
        simp only [World.step, World.cliStep, hcli]
      refine ⟨.cli 0, _, ⟨trivial, by simp [hcli]⟩, hstep, ?_⟩
      simp [hcli, hpc, CliAt.rank]
    · have hlen : q.bytes.length = HEADER_SIZE + q.greeting.length := by
        rw [Request.bytes, List.length_append, length_header]
      have hsize := q.size
      have hread := Chan.read_of_le (c := w.toServ) (n := HEADER_SIZE + MESSAGE_SIZE)
        (k := q.bytes.length)
        (by simp only [hlen, HEADER_SIZE]; omega) (by omega) (by rw [hbytes])
      have hstep : w.step q (.serv q.bytes.length) = some { w with
          serv := w.serv.readv (w.toServ.bytes.take q.bytes.length)
          toServ := { w.toServ with bytes := w.toServ.bytes.drop q.bytes.length } } := by
        simp only [World.step, World.servStep, hpc, hread, Option.map_some]
      refine ⟨.serv q.bytes.length, _, ⟨trivial, fun _ => .inl rfl⟩, hstep, ?_⟩
      simp [Server.readv, ServAt.rank]
  | send_version =>
    obtain ⟨hrank, hcli⟩ := rank_send_version w
    refine ⟨.serv 0, w.send_version, ⟨trivial, by simp [hpc]⟩, ?_, ?_⟩
    · simp only [World.step, World.servStep, hpc]
    · rw [hrank, hcli]
      exact Nat.add_lt_add_left (by decide) _
  | send_protocol =>
    obtain ⟨hrank, hcli⟩ := rank_send_protocol w
    refine ⟨.serv 0, w.send_protocol, ⟨trivial, by simp [hpc]⟩, ?_, ?_⟩
    · simp only [World.step, World.servStep, hpc]
    · rw [hcli]
      exact Nat.add_lt_add_left (Nat.lt_succ_of_le hrank) _
  | shutdown =>
    have hstep : ∃ w', w.step q (.serv 0) = some w' ∧ w'.serv.pc.rank = 0 ∧ w'.cli = w.cli := by
      simp only [World.step, World.servStep, hpc]
      exact ⟨_, rfl, rfl, rfl⟩
    obtain ⟨w', hstep, hrank, hcli⟩ := hstep
    refine ⟨.serv 0, w', ⟨trivial, by simp [hpc]⟩, hstep, ?_⟩
    rw [hrank, hcli]
    exact Nat.add_lt_add_left (by decide) _
  | str_echo => simp [hpc, ServAt.settled] at hserv
  | ended msg => simp [hpc, ServAt.settled] at hserv

/-- Once the server has answered the client can go on. -/
theorem Talk.cli_down (h : Talk q w) (hserv : w.serv.pc.settled = true)
    (hcli : w.cli.pc.settled = false) :
    ∃ a w', whole q w a ∧ w.step q a = some w' ∧
      w'.cli.pc.rank + w'.serv.pc.rank < w.cli.pc.rank + w.serv.pc.rank := by
  have hok := h.cli
  -- a server that has settled has sent both replies
  have hsent : sent q w.serv.pc = versionReply q ++ protocolReply q := by
    cases hpc : w.serv.pc with
    | str_echo => rfl
    | ended msg => rfl
    | _ => simp [hpc, ServAt.settled] at hserv
  cases hpc : w.cli.pc with
  | writev =>
    simp only [CliOk, hpc] at hok
    simp [hok, ServAt.settled] at hserv
  | recv_version =>
    simp only [CliOk, hpc, hsent] at hok
    have hread := Chan.read_of_le (c := w.toCli) (by decide) (le_refl MESSAGE_SIZE)
      (by rw [hok, List.length_append, length_versionReply]; omega)
    have hstep : w.step q (.cli MESSAGE_SIZE) = some ({ w with
        toCli := { w.toCli with bytes := w.toCli.bytes.drop MESSAGE_SIZE } }.setCli
          (w.cli.recv_version (w.toCli.bytes.take MESSAGE_SIZE))) := by
      simp only [World.step, World.cliStep, hpc, hread, Option.map_some]
    refine ⟨.cli MESSAGE_SIZE, _, ⟨trivial, fun _ => .inl rfl, fun _ => .inl rfl⟩, hstep, ?_⟩
    exact Nat.add_lt_add_right (rank_recv_version _ _) _
  | recv_protocol =>
    simp only [CliOk, hpc, hsent] at hok
    have hread := Chan.read_of_le (c := w.toCli) (by decide) (le_refl MESSAGE_SIZE)
      (by rw [List.append_cancel_left hok.2, length_protocolReply])
    have hstep : w.step q (.cli MESSAGE_SIZE) = some ({ w with
        toCli := { w.toCli with bytes := w.toCli.bytes.drop MESSAGE_SIZE } }.setCli
          (w.cli.recv_protocol (w.toCli.bytes.take MESSAGE_SIZE))) := by
      simp only [World.step, World.cliStep, hpc, hread, Option.map_some]
    refine ⟨.cli MESSAGE_SIZE, _, ⟨trivial, fun _ => .inl rfl, fun _ => .inl rfl⟩, hstep, ?_⟩
    exact Nat.add_lt_add_right (rank_recv_protocol _ _) _
  | str_cli => simp [hpc, CliAt.settled] at hcli
  | ended msg => simp [hpc, CliAt.settled] at hcli

end Progress

/-! ## In every run -/

theorem talk_of_reach {q : Request} {w : World} (h : (machine q).Reach (whole q) w) : Talk q w := by
  apply h.invariant (I := Talk q)
  · rintro w ⟨response, header_message, hsize, -, rfl⟩
    exact Talk.start hsize
  · intro w a w' _ hinv hok hs
    exact hinv.step hok hs

/-- **Client and server agree**, in every run in which reads take whole messages, or
enough of them; and from every state of such a run both come to a decision. -/
theorem handshake (q : Request) (w : World) (h : (machine q).Reach (whole q) w) :
    Agreed q w ∧ ∃ w', ((machine q).startedAt w).Reach (whole q) w' ∧
      w'.cli.pc.settled = true ∧ w'.serv.pc.settled = true := by
  refine ⟨(talk_of_reach h).agreed, ?_⟩
  apply h.finishes fun w => w.cli.pc.rank + w.serv.pc.rank
  intro w hw hopen
  have htalk := talk_of_reach hw
  by_cases hserv : w.serv.pc.settled = true
  · apply htalk.cli_down hserv
    by_contra hcli
    exact hopen ⟨by simpa using hcli, hserv⟩
  · exact htalk.serv_down (by simpa using hserv)

/-- What the client of the repository sends. -/
def firstMessage : Request where
  header :=
    { type := 0, version := 1, protocol_name := charArray 10 PROTOCOL_NAME, padding := [0, 0]
      name_size := by decide, padding_size := rfl }
  greeting := ascii "Header, I/O vectors!"
  size := by decide

def zeroed : World := start (List.replicate MESSAGE_SIZE 0) (List.replicate HEADER_SIZE 0)

theorem zeroed_init : (machine firstMessage).init zeroed :=
  ⟨_, _, List.length_replicate, List.length_replicate, rfl⟩

theorem handshake_firstMessage : ∃ w', ((machine firstMessage).startedAt zeroed).Reach
    (whole firstMessage) w' ∧ w'.cli.pc.settled = true ∧ w'.serv.pc.settled = true :=
  (handshake firstMessage zeroed (.init zeroed_init)).2

set_option maxRecDepth 8192 in
/-- The server takes the header, and not the greeting behind it; both go on, and the
greeting is in front of the first line. -/
theorem greeting_left : ¬ ∀ q w, (machine q).Reach reliable w → Agreed q w := by
  intro h
  have hrun : ((machine firstMessage).exec reliable zeroed
      [.cli 0, .serv 20, .serv 0, .serv 0, .cli 128, .cli 128]).isSome = true := by decide
  have hagreed := h firstMessage _
    (Machine.Reach.run (machine firstMessage) reliable zeroed_init _ hrun)
  exact absurd (hagreed.clean rfl rfl).1 (List.cons_ne_nil _ _)

end UnixNetProg.Handshake

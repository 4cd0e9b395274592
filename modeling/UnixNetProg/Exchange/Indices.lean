/-
The name of the file goes from the client to the server, and an error message back, through
one buffer on either side: which indices of these buffers are used?

`5_fifo`, `8_multiplexing_messages` and `11_multi_buffer` exchange the name in the same way,
and `Version` names the differences. An index may be one in front of the buffer, where the
byte is `before`, since `fgets` can deliver a string of length 0: a line that begins with a
null byte. What the file system answers is the parameter `fs`; a `read` of a FIFO may get a
part of what is in it.

The models of the three programs carry the buffers as lists. Their names are the name here,
and they overrun a buffer where an index here is outside: the last section.
-/
import UnixNetProg.Lib.Memory
import UnixNetProg.MessageQueue.Code
import UnixNetProg.SharedMemory.Code
import UnixNetProg.TwoFifos.Code

set_option autoImplicit false

namespace UnixNetProg.Exchange

open UnixNetProg.Memory UnixNetProg.Stdio

/-! ## The three programs -/

inductive Version
  | messages
  | shared
  | fifo
  deriving DecidableEq, Repr

/-- `MAXMESGDATA`, or `MAXBUFF`. -/
def Version.size : Version → ℕ
  | messages => MessageQueue.MAXMESGDATA
  | shared => SharedMemory.MAXMESGDATA
  | fifo => TwoFifos.MAXBUFF

/-- `errmesg`, for what `sys_err_str` returns. -/
def Version.errmesg (err : List Char) : Version → List Char
  | messages => MessageQueue.Prog.multiplexing_messages.errmesg err
  | shared => ": can't open, ".toList ++ err
  | fifo => TwoFifos.errmesg err

/-- `client` (`5_fifo/fifo.c:9-49`, `8_multiplexing_messages/client.c:57-102`), up to where the
name is sent: `fgets` stores the line, the byte in front of its end is tested, and with messages
a null byte is put behind the name. -/
def client (v : Version) (before : Char) (line : List Char) : List Span :=
  let n := TwoFifos.count before line
  [⟨0, line.length + 1⟩, ⟨(strlen line : ℤ) - 1, 1⟩] ++
    match v with
    | .messages => [⟨n, 1⟩]
    | .shared | .fifo => []

/-- The length the server gets with the name, if it goes on: a message without data, or a
FIFO without any, ends it; in shared memory it takes what is there. `part + 1` is the most
that the `read` of the FIFO gets. -/
def arrives (v : Version) (part : ℕ) (n : ℤ) : Option ℤ :=
  match v with
  | .messages => if 0 < n then some n else none
  | .shared => some n
  | .fifo => if 0 < n then some (min (part + 1) n) else none

/-- `server` (`5_fifo/fifo.c:51-93`, `8_multiplexing_messages/server.c:54-99`), up to where the
file is open or the error message is complete: the name is received, except where it is in
shared memory, a null byte is put behind it, and the error message at its end. -/
def server (v : Version) (fs : List Char → Option (List Char)) (line : List Char) (n : ℤ) :
    List Span :=
  let name := cstr (line.take n.toNat)
  (match v with
    | .messages | .fifo => [⟨0, n.toNat⟩]
    | .shared => []) ++
  [⟨n, 1⟩] ++
  match fs name with
  | none => []
  | some err => [⟨strlen name, (v.errmesg err).length + 1⟩]

/-- Everything that is used in the two buffers for a line. -/
def exchange (v : Version) (before : Char) (fs : List Char → Option (List Char)) (part : ℕ)
    (line : List Char) : List Span :=
  client v before line ++
    match arrives v part (TwoFifos.count before line) with
    | none => []
    | some n => server v fs line n

/-! ## The name -/

/-- The name in a line: the string, without the newline at its end. -/
def name (line : List Char) : List Char :=
  let s := cstr line
  if s.getLast? = some '\n' then s.dropLast else s

/-- The name that the server opens. -/
def Version.opens (part : ℕ) (line : List Char) : Version → List Char
  | .messages | .shared => name line
  | .fifo => (name line).take (part + 1)

theorem name_take (line : List Char) : line.take (name line).length = name line := by
  have hpre : name line <+: line := by
    unfold name
    simp only
    split
    · exact (List.dropLast_prefix _).trans (List.takeWhile_prefix _)
    · exact List.takeWhile_prefix _
  exact (List.prefix_iff_eq_take.1 hpre).symm

theorem length_name_le (line : List Char) : (name line).length ≤ strlen line := by
  unfold name strlen
  simp only
  split
  · rw [List.length_dropLast]
    omega
  · exact Nat.le_refl _

theorem name_nil {line : List Char} (hzero : strlen line = 0) : name line = [] := by
  have hle := length_name_le line
  exact List.length_eq_zero_iff.1 (by omega)

/-- The last character of the string is where the programs look for it. -/
theorem getLast?_cstr (s : List Char) (hpos : 0 < strlen s) :
    (cstr s).getLast? = s[strlen s - 1]? := by
  have hpre : cstr s <+: s := List.takeWhile_prefix _
  rw [List.getLast?_eq_getElem?]
  have hlt : (cstr s).length - 1 < (cstr s).length := by
    unfold strlen at hpos
    omega
  rw [List.getElem?_eq_getElem hlt, hpre.getElem hlt, strlen,
    List.getElem?_eq_getElem (Nat.lt_of_lt_of_le hlt hpre.length_le)]

/-- **The length that is sent is that of the name**, where the line has a character. -/
theorem count_eq (before : Char) {line : List Char} (hpos : 0 < strlen line) :
    TwoFifos.count before line = (name line).length := by
  have hlast := getLast?_cstr line hpos
  unfold TwoFifos.count name
  simp only [if_neg (Nat.pos_iff_ne_zero.1 hpos), hlast]
  split
  · rw [List.length_dropLast]
    unfold strlen at *
    omega
  · rfl

theorem strlen_pos {line : List Char} (hne : line ≠ []) (hhead : line.head? ≠ some '\x00') :
    0 < strlen line := by
  cases line with
  | nil => exact absurd rfl hne
  | cons c line =>
    have hc : (c != '\x00') = true := by
      rw [bne_iff_ne]
      rintro rfl
      exact hhead rfl
    rw [strlen, cstr, List.takeWhile_cons_of_pos (p := (· != Stdio.nul)) hc, List.length_cons]
    omega

theorem strlen_nul (line : List Char) (hhead : line.head? = some '\x00') : strlen line = 0 := by
  cases line with
  | nil => cases hhead
  | cons c line =>
    obtain rfl := Option.some.inj hhead
    rfl

/-! ## The indices -/

section Indices

variable {v : Version} {before : Char} {fs : List Char → Option (List Char)} {part : ℕ}
  {stdin line : List Char}

theorem size_gt (v : Version) : 270 < v.size := by
  cases v <;> decide

theorem length_errmesg_le (v : Version) (err : List Char) :
    (v.errmesg err).length ≤ err.length + 15 := by
  have hmessages : (MessageQueue.Prog.cant_open .multiplexing_messages).length = 13 := by decide
  have hothers : TwoFifos.cant_open.length = 14 := by decide
  cases v with
  | messages =>
    have heq : Version.messages.errmesg err =
        errmesg (MessageQueue.Prog.cant_open .multiplexing_messages) err := rfl
    rw [heq, length_errmesg, hmessages]
    omega
  | shared =>
    have heq : Version.shared.errmesg err = TwoFifos.cant_open ++ err := rfl
    rw [heq, List.length_append, hothers]
    omega
  | fifo =>
    have heq : Version.fifo.errmesg err = errmesg TwoFifos.cant_open err := rfl
    rw [heq, length_errmesg, hothers]
    omega

/-- The client stays inside if the line does not begin with a null byte. -/
theorem client_inside_iff (h : fgets v.size stdin = some line) :
    (∀ a ∈ client v before line, a.Inside v.size) ↔ line.head? ≠ some '\x00' := by
  constructor
  · intro hall hhead
    -- the byte in front of the end is the byte in front of the buffer
    have hin := hall ⟨(strlen line : ℤ) - 1, 1⟩ (by simp [client])
    rw [strlen_nul line hhead] at hin
    exact absurd hin.1 (by decide)
  · intro hhead
    have hsize := size_gt v
    have hpos := strlen_pos (fgets_ne_nil (by omega) h) hhead
    have hlt := length_fgets_lt (by omega) h
    have hle : strlen line ≤ line.length := (List.takeWhile_prefix _).length_le
    have hname := length_name_le line
    intro a ha
    simp only [client, List.mem_append, List.mem_cons, List.not_mem_nil, or_false] at ha
    rcases ha with (rfl | rfl) | ha
    · exact ⟨Int.le_refl _, by push_cast; omega⟩
    · exact ⟨by simp only; omega, by simp only; omega⟩
    · rw [count_eq before hpos] at ha
      cases v with
      | messages =>
        obtain rfl := List.mem_singleton.1 ha
        exact ⟨by simp only; omega, by simp only; omega⟩
      | shared => cases ha
      | fifo => cases ha

/-- The server stays inside if the error message does, where there is one. -/
theorem server_inside_iff (h : fgets v.size stdin = some line) {n : ℕ}
    (hn : n ≤ (name line).length) :
    (∀ a ∈ server v fs line n, a.Inside v.size) ↔ ∀ err, fs (line.take n) = some err →
      n + (v.errmesg err).length < v.size := by
  have hsize := size_gt v
  have hlt := length_fgets_lt (by omega) h
  have hle : strlen line ≤ line.length := (List.takeWhile_prefix _).length_le
  have hname := length_name_le line
  have hstr : cstr (line.take n) = line.take n := cstr_take (by omega)
  have hlen : strlen (line.take n) = n := by
    rw [strlen, hstr, List.length_take]
    omega
  unfold server
  simp only [Int.toNat_natCast, hstr, hlen]
  constructor
  · intro hall err herr
    have hin := hall ⟨n, (v.errmesg err).length + 1⟩ (by rw [herr]; simp)
    have hright := hin.2
    simp only at hright
    omega
  · intro hfits a ha
    rcases List.mem_append.1 ha with ha | ha
    · rcases List.mem_append.1 ha with ha | ha
      · -- what is received
        have hall : a = ⟨0, n⟩ := by
          cases v with
          | messages => exact List.mem_singleton.1 ha
          | shared => cases ha
          | fifo => exact List.mem_singleton.1 ha
        rw [hall]
        exact ⟨Int.le_refl _, by simp only; omega⟩
      · -- the null byte behind it
        obtain rfl := List.mem_singleton.1 ha
        exact ⟨by simp only; omega, by simp only; omega⟩
    · -- the error message
      cases herr : fs (line.take n) with
      | none =>
        rw [herr] at ha
        cases ha
      | some err =>
        rw [herr] at ha
        have hfit := hfits err herr
        obtain rfl := List.mem_singleton.1 ha
        exact ⟨by simp only; omega, by simp only; omega⟩

/-- What arrives is the length of the name that is opened, or nothing if that is empty. -/
theorem arrives_eq (v : Version) (part : ℕ) (line : List Char) :
    (v.opens part line).length ≤ (name line).length ∧
      line.take (v.opens part line).length = v.opens part line ∧
      (arrives v part (name line).length = some ((v.opens part line).length : ℤ) ∨
        arrives v part (name line).length = none ∧ v.opens part line = []) := by
  have hall := name_take line
  cases v with
  | messages =>
    refine ⟨Nat.le_refl _, hall, ?_⟩
    by_cases hpos : 0 < (name line).length
    · exact .inl (if_pos (by exact_mod_cast hpos))
    · have hnil : name line = [] := List.length_eq_zero_iff.1 (by omega)
      exact .inr ⟨if_neg (by exact_mod_cast hpos), hnil⟩
  | shared => exact ⟨Nat.le_refl _, hall, .inl rfl⟩
  | fifo =>
    have htake : line.take ((name line).take (part + 1)).length = (name line).take (part + 1) := by
      rw [List.length_take, ← List.take_take, hall]
    refine ⟨List.length_take_le' _ _, htake, ?_⟩
    by_cases hpos : 0 < (name line).length
    · -- a part of the name is received
      left
      apply (if_pos (by exact_mod_cast hpos)).trans
      rw [Version.opens, List.length_take]
      congr 1
      omega
    · right
      have hnil : name line = [] := List.length_eq_zero_iff.1 (by omega)
      refine ⟨if_neg (by exact_mod_cast hpos), ?_⟩
      rw [Version.opens, hnil]
      rfl

/-- **The exchange stays inside its buffers if and only if the line does not begin with a
null byte, and the error message fits behind the name** where the file does not open. -/
theorem exchange_inside_iff (h : fgets v.size stdin = some line)
    (htext : ∀ name err, fs name = some err → err.length ≤ 255) :
    (∀ a ∈ exchange v before fs part line, a.Inside v.size) ↔
      line.head? ≠ some '\x00' ∧ ∀ err, fs (v.opens part line) = some err →
        (v.opens part line).length + (v.errmesg err).length < v.size := by
  have hsplit : (∀ a ∈ exchange v before fs part line, a.Inside v.size) ↔
      (∀ a ∈ client v before line, a.Inside v.size) ∧
        ∀ n, arrives v part (TwoFifos.count before line) = some n →
          ∀ a ∈ server v fs line n, a.Inside v.size := by
    unfold exchange
    rw [List.forall_mem_append]
    cases arrives v part (TwoFifos.count before line) <;> simp
  rw [hsplit, client_inside_iff h]
  apply and_congr_right
  intro hhead
  obtain ⟨hle, htake, harr⟩ := arrives_eq v part line
  have hsize := size_gt v
  rw [count_eq before (strlen_pos (fgets_ne_nil (by omega) h) hhead)]
  have hserver := @server_inside_iff v fs stdin line h _ hle
  rw [htake] at hserver
  rcases harr with harr | ⟨harr, hnil⟩
  · rw [harr, ← hserver]
    simp
  · -- the server receives nothing, and a message fits behind no name
    rw [harr, hnil]
    apply iff_of_true (fun n hn => by cases hn)
    intro err herr
    have hlen := length_errmesg_le v err
    have htext := htext _ _ herr
    rw [List.length_nil]
    omega

end Indices

/-- No file has the name `f`. -/
theorem exchange_inside_iff_short :
    (exchange .fifo '\x00' (fun _ => some ['n', 'o']) 0 ['f', '\n']).all
      (fun a => decide (a.Inside TwoFifos.MAXBUFF)) = true := by
  have hin := (@exchange_inside_iff .fifo '\x00' (fun _ => some ['n', 'o']) 0 ['f', '\n']
    ['f', '\n'] (by decide) (fun _ _ h => by cases h; decide)).2
    ⟨by decide, fun _ h => by cases h; decide⟩
  rw [List.all_eq_true]
  intro a ha
  exact decide_eq_true (hin a ha)

/-- The line begins with a null byte: the client looks at the byte in front of its buffer. -/
theorem exchange_in_front :
    fgets Version.messages.size ['\x00', '\n'] = some ['\x00', '\n'] ∧
      ¬ ∀ a ∈ exchange .messages '\x00' (fun _ => none) 0 ['\x00', '\n'],
        a.Inside Version.messages.size := by
  decide

/-! ## The models of the programs -/

section Models

variable (before : Char) (line name : List Char)

/-- With messages, the name that is sent is the name in the line. -/
theorem filename_eq : MessageQueue.filename line = Exchange.name line := by
  by_cases hpos : 0 < strlen line
  · have hcount := count_eq '\x00' hpos
    rw [← name_take line]
    unfold TwoFifos.count at hcount
    unfold MessageQueue.filename
    simp only [if_neg (Nat.pos_iff_ne_zero.1 hpos), hpos, true_and] at hcount ⊢
    split at hcount
    · rw [if_pos ‹_›]
      congr 1
      omega
    · rw [if_neg ‹_›]
      congr 1
      omega
  · have hzero : strlen line = 0 := by omega
    rw [name_nil hzero, MessageQueue.filename, hzero, if_neg (by simp), List.take_zero]

/-- So is what is written to the FIFO. -/
theorem request_eq : TwoFifos.request before line = Exchange.name line := by
  by_cases hpos : 0 < strlen line
  · rw [TwoFifos.request, count_eq before hpos, Int.toNat_natCast, name_take]
  · have hzero : strlen line = 0 := by omega
    rw [name_nil hzero, TwoFifos.request, TwoFifos.count, hzero]
    simp only [if_true]
    split <;> rfl

/-- In shared memory its length is left behind. -/
theorem namelen_eq : SharedMemory.namelen line = (Exchange.name line).length := by
  have heq := filename_eq line
  have hle : strlen line ≤ line.length := (List.takeWhile_prefix _).length_le
  rw [← heq, SharedMemory.namelen, MessageQueue.filename]
  split
  · rw [List.length_take]
    omega
  · rw [List.length_take]
    omega

/-- The null byte behind a message that is not empty. -/
theorem recv_overrun_iff (t : ℕ) (hne : name ≠ []) :
    (MessageQueue.Server.recv .multiplexing_messages ⟨t, name⟩).pc = .overrun ↔
      ¬ Span.Inside ⟨name.length, 1⟩ Version.messages.size := by
  have hsize : Version.messages.size = MessageQueue.MAXMESGDATA := rfl
  have hpos : name.length ≠ 0 := fun h => hne (List.length_eq_zero_iff.1 h)
  rw [hsize, Span.Inside, MessageQueue.Server.recv]
  simp only [if_neg hpos]
  split
  · simp only [reduceCtorEq, false_iff, not_not]
    omega
  · simp only [true_iff]
    omega

/-- The null byte behind what has been read of a FIFO. -/
theorem named_overrun_iff :
    TwoFifos.ServAt.named name = .overrun ↔ ¬ Span.Inside ⟨name.length, 1⟩ Version.fifo.size := by
  have hsize : Version.fifo.size = TwoFifos.MAXBUFF := rfl
  rw [hsize, Span.Inside, TwoFifos.ServAt.named]
  split
  · simp only [reduceCtorEq, false_iff, not_not]
    omega
  · simp only [true_iff]
    omega

/-- The error message behind the name, with messages. -/
theorem errmesg_overrun_iff (s : MessageQueue.Server) (err : MessageQueue.ErrStr) :
    (s.errmesg .multiplexing_messages name err).pc = .overrun ↔
      ¬ Span.Inside ⟨name.length, (Version.messages.errmesg err.1).length + 1⟩
        Version.messages.size := by
  have hlen := length_errmesg_le .messages err.1
  have herr := err.2
  have hsize : Version.messages.size = MessageQueue.MAXMESGDATA := rfl
  have hmesg : Version.messages.errmesg err.1 =
      MessageQueue.Prog.multiplexing_messages.errmesg err := rfl
  have hfits : (Version.messages.errmesg err.1).length < MessageQueue.ERRMESG := by
    have hnum : MessageQueue.ERRMESG = 256 := rfl
    omega
  rw [hsize, Span.Inside, MessageQueue.Server.errmesg]
  simp only [← hmesg, hfits, true_and, List.length_append]
  split
  · simp only [reduceCtorEq, false_iff, not_not]
    omega
  · simp only [true_iff]
    omega

/-- The error message behind the name, with FIFOs. -/
theorem opened_overrun_iff (err : TwoFifos.ErrStr) :
    TwoFifos.ServAt.opened name (.cannot err) = .overrun ↔
      ¬ Span.Inside ⟨name.length, (Version.fifo.errmesg err.1).length + 1⟩ Version.fifo.size := by
  have hlen := length_errmesg_le .fifo err.1
  have herr := err.2
  have hsize : Version.fifo.size = TwoFifos.MAXBUFF := rfl
  have hmesg : Version.fifo.errmesg err.1 = TwoFifos.errmesg err := rfl
  have hfits : (Version.fifo.errmesg err.1).length < TwoFifos.ERRMESG := by
    have hnum : TwoFifos.ERRMESG = 256 := rfl
    omega
  rw [hsize, Span.Inside, TwoFifos.ServAt.opened]
  simp only [← hmesg, hfits, true_and, List.length_append]
  split
  · simp only [reduceCtorEq, false_iff, not_not]
    omega
  · simp only [true_iff]
    omega

/-- The error message behind the name, in shared memory: the list that stands for the buffer
becomes longer than the buffer is. -/
theorem complain_overrun_iff (s : SharedMemory.Shared) (e : SharedMemory.Env)
    (hlen : (s.mesg 0).mesg_data.length ≤ SharedMemory.MAXMESGDATA) :
    SharedMemory.MAXMESGDATA < ((s.complain e).mesg 0).mesg_data.length ↔
      ¬ Span.Inside ⟨strlen (s.mesg 0).mesg_data, (Version.shared.errmesg e.sys_err_str).length + 1⟩
        Version.shared.size := by
  have hsize : Version.shared.size = SharedMemory.MAXMESGDATA := rfl
  have hle : strlen (s.mesg 0).mesg_data ≤ (s.mesg 0).mesg_data.length :=
    (List.takeWhile_prefix _).length_le
  have hdata : ((s.complain e).mesg 0).mesg_data = Files.fwrite (s.mesg 0).mesg_data
      (strlen (s.mesg 0).mesg_data) (Version.shared.errmesg e.sys_err_str ++ ['\x00']) := by
    unfold SharedMemory.Shared.complain SharedMemory.Shared.put
    simp only [Function.update_self]
    rfl
  rw [hsize, Span.Inside, hdata, Files.fwrite]
  simp only [List.length_append, List.length_take, List.length_replicate, List.length_drop,
    List.length_singleton]
  omega

end Models

end UnixNetProg.Exchange

/-
`6_stream_messages`: the client and the server that talk in messages over two FIFOs.

The parent is the client, its child the server. The client sends the name of a file as
one message; the server answers with a message for each `read` of the file, or with one
that says why it cannot open it, and then with an empty one. Both keep their message in
a `Mesg` of their own, which is null at the start, and send and receive it as in `Code`.

Each process is given by its system calls, one after the other. A message is no longer
than a FIFO takes in one piece, so a `write` of one waits until there is room for all of
it. What the file system answers is the parameter `fs`; `mknod`, `fork` and the calls at
the end succeed, and writing to the standard output does. `unlink` is left out.

However the two are scheduled, neither ever finds a part of a message (`Phase.settled`),
so the order of their steps makes no difference.
-/
import UnixNetProg.Exchange.Errmesg
import UnixNetProg.Lib.Duplex
import UnixNetProg.StreamMessages.Framing

set_option autoImplicit false

namespace UnixNetProg.StreamMessages.Conversation

open UnixNetProg.Bytes UnixNetProg.Duplex UnixNetProg.Runs UnixNetProg.Runs.Machine
open UnixNetProg.Stdio

/-! ## Files -/

/-- The size of `errmesg`. -/
def ERRMESG : ℕ := 256

/-- What `sys_err_str` returns; no null byte is in it. -/
abbrev ErrStr := {s : Exchange.ErrStr UInt8 // nul ∉ s.1}

/-- What a `read` gets that is not the last. -/
abbrev Chunk := Exchange.Chunk UInt8 MAXMESGDATA

/-- What `fstat` finds. -/
inductive Stat
  | fails
  | directory
  | other
  deriving DecidableEq, Repr

/-- What the file system has under a name: nothing that opens, or a file that is read in
these chunks, and then `read` returns 0, or -1 if it `fails`. -/
inductive File
  | cannot (err : ErrStr)
  | opens (stat : Stat) (chunks : List Chunk) (fails : Bool)

/-- `errmesg`, for what `sys_err_str` returns. -/
def errmesg (err : List UInt8) : List UInt8 := Exchange.errmesg (ascii ": can't open, ") err

theorem nul_notMem_errmesg (err : ErrStr) : nul ∉ errmesg err.1.1 := by
  have htext : nul ∉ ascii ": can't open, " := by decide
  have hne : (nul : UInt8) ≠ newline := by decide
  simp [errmesg, Exchange.errmesg, htext, err.2, hne]

/-! ## A message -/

theorem length_null : (List.replicate MAXMESGDATA (0 : UInt8)).length = MAXMESGDATA :=
  List.length_replicate

/-- All null. -/
def Mesg.null : Mesg := ⟨0, 0, 0, List.replicate MAXMESGDATA 0, length_null⟩

/-- `bs` is stored at the start of `mesg_data`, if it has room there. -/
def Mesg.put (m : Mesg) (bs : List UInt8) : Option Mesg :=
  if h : bs.length ≤ MAXMESGDATA then some (m.readData bs h) else none

/-- `mesg_len` is set. -/
def Mesg.setLen (m : Mesg) (n : ℤ) : Mesg := { m with mesg_len := BitVec.ofInt 32 n }

/-- How `mesg_recv` goes on after a `read`: it returns, makes the second one, or ends the
program; `overrun` is a read past the end of `mesg_data`. -/
inductive Recv
  | ret (n : ℤ)
  | body
  | err_sys (msg : String)
  | overrun
  deriving DecidableEq, Repr

/-- `mesg_recv` (`6_stream_messages/msg.c:47-73`) after its first `read`, which got `bs`. -/
def recvHeader (m : Mesg) (bs : List UInt8) : Mesg × Recv :=
  if bs.length = 0 then (m, .ret 0)
  else if bs.length ≠ MESGHDRSIZE then (m, .err_sys "message header read error")
  else
    let m := m.readHeader bs
    (m, if 0 < m.mesg_len.toInt then .body else .ret m.mesg_len.toInt)

/-- `mesg_recv` after its second `read`, which got `bs`. -/
def recvData (m : Mesg) (bs : List UInt8) : Mesg × Recv :=
  if h : bs.length ≤ MAXMESGDATA then
    if (bs.length : ℤ) ≠ m.mesg_len.toInt then (m, .err_sys "data read error")
    else (m.readData bs h, .ret m.mesg_len.toInt)
  else (m, .overrun)

/-- The reader of `Code` goes on in the same way. -/
def World.goes (w : World) : Mesg × Recv → World
  | (m, .ret n) => { w with mesg := m }.ret n
  | (m, .body) => { w with mesg := m, pc := .body }
  | (m, .err_sys msg) => { w with mesg := m, pc := .ended msg }
  | (m, .overrun) => { w with mesg := m, pc := .overrun }

/-- **It is the `mesg_recv` of `Code`.** -/
theorem afterHeader_eq (w : World) (bs : List UInt8) :
    w.afterHeader bs = World.goes w (recvHeader w.mesg bs) := by
  simp only [World.afterHeader, recvHeader, World.afterLen]
  split_ifs <;> rfl

theorem afterData_eq (w : World) (bs : List UInt8) :
    w.afterData bs = World.goes w (recvData w.mesg bs) := by
  simp only [World.afterData, recvData]
  split_ifs <;> rfl

/-! ## The client -/

inductive CliAt
  | open1
  | open2
  | fgets
  | send
  | recv
  | body
  | write (n : ℕ)
  | wait
  | closewrite
  | closeread
  | exit
  | done
  | err_sys (msg : String)
  | ended (msg : String)
  | killed
  | overrun
  deriving DecidableEq, Repr

structure Client where
  stdin : List UInt8
  stdout : List UInt8
  mesg : Mesg
  pc : CliAt

/-- `n--`, where the byte in front of the end of the string is a newline. For an empty
string that is the last byte of the header. -/
def namelen (m : Mesg) : ℤ :=
  let n := strlen m.mesg_data
  if m.bytes[MESGHDRSIZE + n - 1]? = some newline then n - 1 else n

/-- The line is read to `mesg_data`, and the message is filled in. -/
def Client.fgets (c : Client) : Client :=
  match Stdio.fgets MAXMESGDATA c.stdin with
  | none => { c with pc := .err_sys "filename read error" }
  | some line =>
    match Mesg.put c.mesg (line ++ [0]) with
    | none => { c with pc := .overrun }
    | some m =>
      { c with
        stdin := c.stdin.drop line.length
        mesg := { Mesg.setLen m (namelen m) with mesg_type := 1 }
        pc := .send }

/-- The loop of the client around `mesg_recv`. -/
def Client.received (c : Client) : Mesg × Recv → Client
  | (m, .ret n) =>
    { c with
      mesg := m
      pc := if 0 < n then .write n.toNat else if n < 0 then .err_sys "data read error" else .wait }
  | (m, .body) => { c with mesg := m, pc := .body }
  | (m, .err_sys msg) => { c with mesg := m, pc := .err_sys msg }
  | (m, .overrun) => { c with mesg := m, pc := .overrun }

def Client.ask (c : Client) : Req UInt8 :=
  match c.pc with
  | .open1 => .openWrite
  | .open2 => .openRead
  | .fgets | .write _ => .own
  | .send => .write (mesg_send c.mesg)
  | .recv => .read MESGHDRSIZE
  | .body => .read c.mesg.mesg_len.toInt.toNat
  | .wait => .wait
  | .closewrite => .closeWrite
  | .closeread => .closeRead
  | .exit | .err_sys _ => .exit
  | .done | .ended _ | .killed | .overrun => .ended

/-- `client` (`6_stream_messages/ipc_client.c:24-59`) after a call. -/
def Client.next (c : Client) (bs : List UInt8) : Client :=
  match c.pc with
  | .open1 => { c with pc := .open2 }
  | .open2 => { c with pc := .fgets }
  | .fgets => c.fgets
  | .send => { c with pc := .recv }
  | .recv => c.received (recvHeader c.mesg bs)
  | .body => c.received (recvData c.mesg bs)
  | .write n => { c with stdout := c.stdout ++ c.mesg.mesg_data.take n, pc := .recv }
  | .wait => { c with pc := .closewrite }
  | .closewrite => { c with pc := .closeread }
  | .closeread => { c with pc := .exit }
  | .exit => { c with pc := .done }
  | .err_sys msg => { c with pc := .ended msg }
  | .done | .ended _ | .killed | .overrun => c

/-! ## The server -/

/-- Where the server is. The three sends are of a chunk of the file, of the error
message, and of the empty message. -/
inductive ServAt
  | open1
  | open2
  | recv
  | body
  | openfile
  | fstat (stat : Stat) (chunks : List Chunk) (fails : Bool)
  | readfile (chunks : List Chunk) (fails : Bool)
  | senddata (chunks : List Chunk) (fails : Bool)
  | senderr
  | sendend
  | closeread
  | closewrite
  | exit
  | done
  | err_sys (msg : String)
  | ended (msg : String)
  | killed
  | overrun

structure Server where
  mesg : Mesg
  pc : ServAt

/-- `server` after `mesg_recv`: the name is ended with a null byte. -/
def Server.received : Mesg × Recv → Server
  | (m, .ret n) =>
    if n ≤ 0 then ⟨m, .err_sys "server: filename read error"⟩
    else
      match Mesg.put m (m.mesg_data.take n.toNat ++ [0]) with
      | some m => ⟨m, .openfile⟩
      | none => ⟨m, .overrun⟩
  | (m, .body) => ⟨m, .body⟩
  | (m, .err_sys msg) => ⟨m, .err_sys msg⟩
  | (m, .overrun) => ⟨m, .overrun⟩

/-- `open`: where it fails, the error message is put behind the name. -/
def Server.openfile (fs : List UInt8 → File) (s : Server) : Server :=
  let name := cstr s.mesg.mesg_data
  match fs name with
  | .opens stat chunks fails => { s with pc := .fstat stat chunks fails }
  | .cannot err =>
    if (errmesg err).length < ERRMESG then
      match Mesg.put s.mesg (name ++ errmesg err ++ [0]) with
      | some m => ⟨Mesg.setLen m (strlen m.mesg_data), .senderr⟩
      | none => { s with pc := .overrun }
    else { s with pc := .overrun }

/-- `read` of the file, up to the next message. -/
def Server.readfile (s : Server) : List Chunk → Bool → Server
  | c :: cs, fails =>
    ⟨Mesg.setLen (s.mesg.readData c.1 c.2.2) c.1.length, .senddata cs fails⟩
  | [], true => { s with pc := .err_sys "server: read error" }
  | [], false => ⟨Mesg.setLen s.mesg 0, .sendend⟩

def Server.ask (s : Server) : Req UInt8 :=
  match s.pc with
  | .open1 => .openRead
  | .open2 => .openWrite
  | .recv => .read MESGHDRSIZE
  | .body => .read s.mesg.mesg_len.toInt.toNat
  | .openfile | .fstat .. | .readfile .. => .own
  | .senddata .. | .senderr | .sendend => .write (mesg_send s.mesg)
  | .closeread => .closeRead
  | .closewrite => .closeWrite
  | .exit | .err_sys _ => .exit
  | .done | .ended _ | .killed | .overrun => .ended

/-- `server` (`6_stream_messages/ipc_server.c:35-90`) after a call. -/
def Server.next (fs : List UInt8 → File) (s : Server) (bs : List UInt8) : Server :=
  match s.pc with
  | .open1 => { s with pc := .open2 }
  | .open2 => ⟨{ s.mesg with mesg_type := 1 }, .recv⟩
  | .recv => .received (recvHeader s.mesg bs)
  | .body => .received (recvData s.mesg bs)
  | .openfile => s.openfile fs
  | .fstat .fails _ _ => { s with pc := .err_sys "[ERROR] cannot check the opened file" }
  | .fstat .directory _ _ => { s with pc := .err_sys "server: cannot open directory" }
  | .fstat .other chunks fails => { s with pc := .readfile chunks fails }
  | .readfile chunks fails => s.readfile chunks fails
  | .senddata chunks fails => { s with pc := .readfile chunks fails }
  | .senderr => ⟨Mesg.setLen s.mesg 0, .sendend⟩
  | .sendend => { s with pc := .closeread }
  | .closeread => { s with pc := .closewrite }
  | .closewrite => { s with pc := .exit }
  | .exit => { s with pc := .done }
  | .err_sys msg => { s with pc := .ended msg }
  | .done | .ended _ | .killed | .overrun => s

/-! ## Together -/

/-- The parent or the child. -/
inductive Proc
  | client (c : Client)
  | server (s : Server)

def program (fs : List UInt8 → File) : Program Proc UInt8 where
  ask := fun
    | .client c => c.ask
    | .server s => s.ask
  next := fun q bs =>
    match q with
    | .client c => .client (c.next bs)
    | .server s => .server (s.next fs bs)
  killed := fun
    | .client c => .client { c with pc := .killed }
    | .server s => .server ⟨s.mesg, .killed⟩

/-- The two after the `fork` (`6_stream_messages/main.c:24-80`). -/
def forked (stdin : List UInt8) : Side → Proc
  | .first => .client ⟨stdin, [], Mesg.null, .open1⟩
  | .second => .server ⟨Mesg.null, .open1⟩

/-- The parent and the child, and FIFOs that can hold so many bytes. -/
def machine (fs : List UInt8 → File) (capacity : Side → ℕ) (stdin : List UInt8) :
    Machine (Duplex.World Proc UInt8) Side :=
  Duplex.machine (program fs) capacity (forked stdin)

/-! ## Whole messages -/

/-- A FIFO whose reader still has to read `want` bytes of a message: these, and whole
messages, of which `Q` holds. -/
def Framed (Q : Mesg → Prop) (want : ℕ) (bytes : List UInt8) : Prop :=
  ∃ (d : List UInt8) (ms : List Mesg),
    bytes = d ++ ms.flatMap mesg_send ∧ d.length = want ∧ ∀ m ∈ ms, m.Fits ∧ Q m

section Messages

variable {Q Q' : Mesg → Prop} {m m₀ : Mesg} {want : ℕ} {bytes : List UInt8} {n : ℤ}

@[simp] theorem framed_nil : Framed Q 0 [] := ⟨[], [], rfl, rfl, nofun⟩

theorem Framed.mono (h : Framed Q want bytes) (hQ : ∀ m, Q m → Q' m) : Framed Q' want bytes := by
  obtain ⟨d, ms, hbytes, hlen, hms⟩ := h
  exact ⟨d, ms, hbytes, hlen, fun m hm => ⟨(hms m hm).1, hQ m (hms m hm).2⟩⟩

/-- A message is written. -/
theorem Framed.append (h : Framed Q want bytes) (hm : m.Fits) (hQ : Q m) :
    Framed Q want (bytes ++ mesg_send m) := by
  obtain ⟨d, ms, rfl, hlen, hms⟩ := h
  refine ⟨d, ms ++ [m], by simp, hlen, fun m' hm' => ?_⟩
  rcases List.mem_append.1 hm' with hm' | hm'
  · exact hms m' hm'
  · rw [List.mem_singleton.1 hm']
    exact ⟨hm, hQ⟩

/-- Where there is anything, there is all that is asked for. -/
theorem Framed.whole (h : Framed Q want bytes) (hne : bytes ≠ []) :
    want ≤ bytes.length ∧ (want = 0 → MESGHDRSIZE ≤ bytes.length) := by
  obtain ⟨d, ms, rfl, hlen, hms⟩ := h
  refine ⟨by rw [List.length_append]; omega, fun hzero => ?_⟩
  obtain rfl : d = [] := List.length_eq_zero_iff.1 (hlen.trans hzero)
  cases ms with
  | nil => exact absurd rfl hne
  | cons m ms =>
    rw [List.nil_append, List.flatMap_cons, mesg_send_eq (hms m List.mem_cons_self).1,
      List.length_append, List.length_append, length_header]
    omega

/-- **The first `read` of `mesg_recv` gets a header.** -/
theorem Framed.recvHeader (h : Framed Q 0 bytes) (hne : bytes ≠ []) (m₀ : Mesg) :
    ∃ m, m.Fits ∧ Q m ∧ (m₀.readHeader m.header).mesg_len = m.mesg_len ∧
      Conversation.recvHeader m₀ (bytes.take MESGHDRSIZE) =
        (m₀.readHeader m.header,
          if 0 < m.mesg_len.toInt then .body else .ret m.mesg_len.toInt) ∧
      Framed Q m.mesg_len.toInt.toNat (bytes.drop MESGHDRSIZE) := by
  obtain ⟨d, ms, rfl, hlen, hms⟩ := h
  obtain rfl : d = [] := List.length_eq_zero_iff.1 hlen
  cases ms with
  | nil => exact absurd rfl hne
  | cons m ms =>
    obtain ⟨hfits, hQ⟩ := hms m List.mem_cons_self
    have hread := (readHeader_header m₀ m).1
    have hbytes : [] ++ (m :: ms).flatMap mesg_send =
        m.header ++ (m.data ++ ms.flatMap mesg_send) := by
      rw [List.nil_append, List.flatMap_cons, mesg_send_eq hfits, List.append_assoc]
    refine ⟨m, hfits, hQ, hread, ?_, m.data, ms, ?_, length_data hfits,
      fun m' hm' => hms m' (List.mem_cons_of_mem m hm')⟩
    · rw [hbytes, List.take_left' (length_header m), Conversation.recvHeader, length_header,
        if_neg (by decide), if_neg (by simp)]
      simp only [hread]
    · rw [hbytes, List.drop_left' (length_header m)]

/-- **The second one gets the data.** -/
theorem Framed.recvData (h : Framed Q m₀.mesg_len.toInt.toNat bytes)
    (hpos : 0 < m₀.mesg_len.toInt) (hle : m₀.mesg_len.toInt ≤ MAXMESGDATA) :
    ∃ hlen, Conversation.recvData m₀ (bytes.take m₀.mesg_len.toInt.toNat) =
        (m₀.readData (bytes.take m₀.mesg_len.toInt.toNat) hlen, .ret m₀.mesg_len.toInt) ∧
      Framed Q 0 (bytes.drop m₀.mesg_len.toInt.toNat) := by
  obtain ⟨d, ms, rfl, hlen, hms⟩ := h
  have htake : (d ++ ms.flatMap mesg_send).take m₀.mesg_len.toInt.toNat = d :=
    List.take_left' hlen
  have hroom : d.length ≤ MAXMESGDATA := by omega
  refine ⟨by rw [htake]; exact hroom, ?_, [], ms, ?_, rfl, hms⟩
  · simp only [htake, Conversation.recvData, dif_pos hroom]
    rw [if_neg (by omega)]
  · rw [List.drop_left' hlen]
    rfl

/-- A length in range. -/
theorem toInt_setLen (h : 0 ≤ n) (h' : n ≤ MAXMESGDATA) : (Mesg.setLen m n).mesg_len.toInt = n := by
  simp only [MAXMESGDATA] at h'
  rw [Mesg.setLen, BitVec.toInt_ofInt, Int.bmod_eq_of_le] <;> omega

theorem fits_setLen (h : 0 ≤ n) (h' : n ≤ MAXMESGDATA) : (Mesg.setLen m n).Fits := by
  rw [Mesg.Fits, toInt_setLen h h']
  exact ⟨h, h'⟩

/-- What is sent is not empty. -/
theorem mesg_send_ne_nil (h : m.Fits) : mesg_send m ≠ [] := by
  rw [mesg_send_eq h]
  intro hnil
  have := congrArg List.length hnil
  rw [List.length_append, length_header] at this
  simp [MESGHDRSIZE] at this

end Messages

end UnixNetProg.StreamMessages.Conversation

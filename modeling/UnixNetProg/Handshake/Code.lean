/-
`6.syscalls`: the header a client sends before the first line, and the server's
two answers to it.

The client sends its header and a greeting with one `writev`; the server takes them
with one `readv`, and answers with two arrays of 128 bytes, about the version and
about the name of the protocol. The client takes each of them with one `recv`. Only
whether these calls fail is looked at, not how many bytes they got, so what a buffer
held before shows through where a call got less than a message.

Once both have looked at the answers they go on to `str_cli` and `str_echo`, which
are `1.tcp`'s and not modelled here again; what they print is left out.
-/
import UnixNetProg.Lib.Bytes
import UnixNetProg.Lib.Channel
import UnixNetProg.Lib.Runs

set_option autoImplicit false

namespace UnixNetProg.Handshake

open UnixNetProg.Bytes UnixNetProg.Channel UnixNetProg.Runs

/-! ## The messages -/

/-- `struct header_format` (`6.syscalls/common.h:8-12`) in memory; `padding` is what makes its
size a multiple of four. -/
structure Header where
  type : BitVec 32
  version : BitVec 32
  protocol_name : List UInt8
  padding : List UInt8
  name_size : protocol_name.length = 10
  padding_size : padding.length = 2

def Header.bytes (h : Header) : List UInt8 :=
  ofWord 4 h.type ++ ofWord 4 h.version ++ h.protocol_name ++ h.padding

/-- `sizeof (struct header_format)`. -/
def HEADER_SIZE : ℕ := 20

/-- Of `dummy_message`, `version_status`, `protocol_status` and `response`. -/
def MESSAGE_SIZE : ℕ := 128

def PROTOCOL_NAME : String := "UNP"

def VERSION_ERROR : String := "[ERROR] Different Version"

def NO_VERSION_ERROR : String := "[SUCCESS] Same Version"

def PROTO_NAME_ERR : String := "[ERROR] Invalid Protocol"

def NO_PROTO_NAME_ERR : String := "[SUCCESS] Valid Protocol"

/-- Whether a buffer holds the string: `strncmp (buffer, s, sizeof (s)) == 0`. -/
def holds (buffer : List UInt8) (s : String) : Bool :=
  strncmp ((ascii s).length + 1) buffer (ascii s ++ [0]) = 0

/-! ## The server -/

/-- Where the server is; `msg` is what it ends with. -/
inductive ServAt
  | readv
  | send_version
  | send_protocol
  | shutdown
  | str_echo
  | ended (msg : String)
  deriving DecidableEq, Repr

/-- The server: the memory of `header_message`, and what it has found. -/
structure Server where
  header_message : List UInt8
  is_valid_version : Bool
  is_valid_protocol : Bool
  pc : ServAt

def Server.version (s : Server) : BitVec 32 := toWord 4 ((s.header_message.drop 4).take 4)

def Server.protocol_name (s : Server) : List UInt8 := (s.header_message.drop 8).take 10

/-- `readv` got `bs`: what is behind the header goes to `dummy_message`. -/
def Server.readv (s : Server) (bs : List UInt8) : Server :=
  { s with header_message := overwrite s.header_message (bs.take HEADER_SIZE), pc := .send_version }

/-- The message the server ends with when the call it makes fails. -/
def ServAt.error : ServAt → Option String
  | .readv => some "concurrent server: header read error."
  | .send_version => some "concurrent server: cannot send version status message"
  | .send_protocol => some "concurrent server: cannot send protocol message"
  | .shutdown => some ("concurrent server: failed to close down socket with mismatched " ++
      "version number and/or protocol name.")
  | .str_echo | .ended _ => none

/-! ## The client -/

/-- Where the client is. -/
inductive CliAt
  | writev
  | recv_version
  | recv_protocol
  | str_cli
  | ended (msg : String)
  deriving DecidableEq, Repr

structure Client where
  response : List UInt8
  pc : CliAt

/-- The first `recv` got `bs`. -/
def Client.recv_version (c : Client) (bs : List UInt8) : Client :=
  let response := overwrite c.response bs
  { response := response
    pc := if holds response VERSION_ERROR then .ended "client: version error received. Exiting."
      else .recv_protocol }

/-- The second `recv` got `bs`. -/
def Client.recv_protocol (c : Client) (bs : List UInt8) : Client :=
  let response := overwrite c.response bs
  { response := response
    pc := if holds response PROTO_NAME_ERR then .ended "client: invalid protocol received. Exiting."
      else .str_cli }

/-- The client has shut down the connection. -/
def CliAt.gone : CliAt → Bool
  | .ended _ => true
  | _ => false

/-- The message the client ends with when the call it makes fails. -/
def CliAt.error : CliAt → Option String
  | .writev => some "client: header type error."
  | .recv_version | .recv_protocol => some "client: failed to receive header response from server."
  | .str_cli | .ended _ => none

/-! ## Together -/

/-- Client and server, with the streams from the one to the other. -/
structure World where
  cli : Client
  serv : Server
  toServ : Chan UInt8
  toCli : Chan UInt8

/-- What the client sends: a header and a greeting. -/
structure Request where
  header : Header
  greeting : List UInt8
  size : greeting.length < MESSAGE_SIZE

def Request.bytes (q : Request) : List UInt8 := q.header.bytes ++ q.greeting

/-- A step of one side, or a failing call of it; a read gets `k` bytes. -/
inductive Act
  | cli (k : ℕ)
  | serv (k : ℕ)
  | cliFails
  | servFails

/-- A client that ends shuts down the connection. -/
def World.setCli (w : World) (c : Client) : World :=
  { w with
    cli := c
    toServ := if c.pc.gone then w.toServ.close else w.toServ }

/-- The client: `main` from the `writev` on (`6.syscalls/client.c:124-179`). -/
def World.cliStep (w : World) (q : Request) (k : ℕ) : Option World :=
  match w.cli.pc with
  | .writev =>
    some { w with cli := { w.cli with pc := .recv_version }, toServ := w.toServ.write q.bytes }
  | .recv_version => (w.toCli.read MESSAGE_SIZE k).map fun r =>
    { w with toCli := r.2 }.setCli (w.cli.recv_version r.1)
  | .recv_protocol => (w.toCli.read MESSAGE_SIZE k).map fun r =>
    { w with toCli := r.2 }.setCli (w.cli.recv_protocol r.1)
  | .str_cli | .ended _ => none

/-- The server sends what it has found out about the version. -/
def World.send_version (w : World) : World :=
  if w.serv.version ≠ 1 then
    { w with
      serv := { w.serv with is_valid_version := true, pc := .send_protocol }
      toCli := w.toCli.write (charArray MESSAGE_SIZE VERSION_ERROR) }
  else
    { w with
      serv := { w.serv with pc := .send_protocol }
      toCli := w.toCli.write (charArray MESSAGE_SIZE NO_VERSION_ERROR) }

/-- The server sends what it has found out about the protocol, and goes on if both
are right. -/
def World.send_protocol (w : World) : World :=
  if holds w.serv.protocol_name PROTOCOL_NAME = false then
    { w with
      serv := { w.serv with is_valid_protocol := true, pc := .shutdown }
      toCli := w.toCli.write (charArray MESSAGE_SIZE PROTO_NAME_ERR) }
  else
    { w with
      serv := { w.serv with pc := if w.serv.is_valid_version then .shutdown else .str_echo }
      toCli := w.toCli.write (charArray MESSAGE_SIZE NO_PROTO_NAME_ERR) }

/-- The child of the server: `main` from the `readv` on (`6.syscalls/server.c:134-217`). -/
def World.servStep (w : World) (k : ℕ) : Option World :=
  match w.serv.pc with
  | .readv => (w.toServ.read (HEADER_SIZE + MESSAGE_SIZE) k).map fun r =>
    { w with serv := w.serv.readv r.1, toServ := r.2 }
  | .send_version => some w.send_version
  | .send_protocol => some w.send_protocol
  | .shutdown =>
    some { w with
      serv := { w.serv with
        pc := .ended
          "[LOG] Disconnected from server with mismatched version number and/or protocol name." }
      toCli := w.toCli.close }
  | .str_echo | .ended _ => none

def World.step (q : Request) (w : World) : Act → Option World
  | .cli k => w.cliStep q k
  | .serv k => w.servStep k
  | .cliFails => w.cli.pc.error.map fun msg => w.setCli { w.cli with pc := .ended msg }
  | .servFails => w.serv.pc.error.map fun msg =>
    { w with serv := { w.serv with pc := .ended msg }, toCli := w.toCli.close }

/-- A connection, whatever the memory of the two holds. -/
def start (response header_message : List UInt8) : World where
  cli := ⟨response, .writev⟩
  serv := ⟨header_message, false, false, .readv⟩
  toServ := .empty
  toCli := .empty

def machine (q : Request) : Machine World Act where
  init := fun w => ∃ response header_message,
    response.length = MESSAGE_SIZE ∧ header_message.length = HEADER_SIZE ∧
      w = start response header_message
  step := World.step q

/-- The streams are reliable: no call fails, but for one of the server when the
client has shut down the connection. -/
def reliable (w : World) (a : Act) : Prop :=
  match a with
  | .cliFails => False
  | .servFails => w.cli.pc.gone = true
  | _ => True

instance (w : World) (a : Act) : Decidable (reliable w a) := by
  unfold reliable
  split <;> infer_instance

end UnixNetProg.Handshake

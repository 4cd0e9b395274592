/-
What a request, and the reply to it, look like in the queues.

A conversation has three parts (`Phase`): the client has not asked yet, the request
is in its queue, or the server has taken it and everything in the queues is the
reply. What the server will send is fixed by the name and the file system
(`script`), and in the third part it is what it has sent and what it has still to
send from where it is (`ServAt.todo`). So the two types of message of the single
queue are never in it together, and a queue that holds the reply is first in, first
out for the client.
-/
import UnixNetProg.MessageQueue.Code

set_option autoImplicit false

namespace UnixNetProg.MessageQueue

open UnixNetProg.MsgQueue UnixNetProg.Runs UnixNetProg.Runs.Machine UnixNetProg.Stdio

/-! ## Names -/

section Names

variable {line stdin : List Char}

theorem filename_eq (line : List Char) : ∃ n ≤ strlen line, filename line = line.take n := by
  unfold filename
  dsimp only
  split_ifs
  · exact ⟨_, Nat.sub_le _ _, rfl⟩
  · exact ⟨_, le_rfl, rfl⟩

/-- A name has no null byte in it. -/
theorem cstr_filename : cstr (filename line) = filename line := by
  obtain ⟨n, hn, hname⟩ := filename_eq line
  rw [hname, cstr_take hn]

/-- A name leaves room for the null byte behind it. -/
theorem length_filename_lt (h : Stdio.fgets MAXMESGDATA stdin = some line) :
    (filename line).length < MAXMESGDATA := by
  obtain ⟨n, -, hname⟩ := filename_eq line
  have hline := length_fgets_lt (by decide) h
  rw [hname, List.length_take]
  omega

end Names

/-! ## What the server sends -/

/-- `name` and the error message behind it are not too long for `mesg_data`. -/
def Fits (prog : Prog) (name : List Char) (err : ErrStr) : Prop :=
  (name ++ prog.errmesg err).length < MAXMESGDATA

instance (prog : Prog) (name : List Char) (err : ErrStr) : Decidable (Fits prog name err) :=
  inferInstanceAs (Decidable (_ < _))

/-- The rest of a file. -/
def ofRead (chunks : List Chunk) (fails : Bool) : List (List Char) :=
  chunks.map Subtype.val ++ if fails then [] else [[]]

def ofStat (stat : Stat) (chunks : List Chunk) (fails : Bool) : List (List Char) :=
  if stat = .other then ofRead chunks fails else []

def ofFile (prog : Prog) (name : List Char) : File → List (List Char)
  | .cannot err => if Fits prog name err then [name ++ prog.errmesg err, []] else []
  | .opens stat chunks fails =>
    if prog.checks then ofStat stat chunks fails else ofRead chunks fails

/-- The data of the messages that answer `name`. -/
def script (prog : Prog) (fs : List Char → File) (name : List Char) : List (List Char) :=
  if name = [] then [] else ofFile prog name (fs name)

/-- What is still to be sent. -/
def ServAt.todo (prog : Prog) (fs : List Char → File) : ServAt → List (List Char)
  | .open name => ofFile prog name (fs name)
  | .fstat stat chunks fails => ofStat stat chunks fails
  | .read chunks fails => ofRead chunks fails
  | .senddata data chunks fails => data.1 :: ofRead chunks fails
  | .senderr data => [data, []]
  | .sendend => [[]]
  | .recv | .done | .ended _ | .overrun => []

section Script

variable {prog : Prog} {fs : List Char → File} {name d : List Char} {err : ErrStr} {s : Server}
  {stat : Stat} {chunks : List Chunk} {fails : Bool} {pc pc' : ServAt} {file : File} {m : Msg Char}

/-- `errmesg` is long enough for every error message. -/
theorem length_errmesg_lt (prog : Prog) (err : ErrStr) : (prog.errmesg err).length < ERRMESG :=
  Exchange.length_errmesg_lt err.2 (by cases prog <;> decide)

/-- Only the last message may be empty. -/
def Marked (l : List (List Char)) : Prop :=
  ∀ front d back, l = front ++ d :: back → d = [] → back = []

theorem Marked.cons {l : List (List Char)} (hd : d ≠ []) (h : Marked l) : Marked (d :: l) := by
  intro front e back heq he
  cases front with
  | nil =>
    obtain ⟨rfl, -⟩ := List.cons.inj heq
    exact absurd he hd
  | cons f front => exact h front e back (List.cons.inj heq).2 he

theorem marked_nil : Marked [] := by
  intro front d back heq
  simp at heq

theorem marked_end : Marked [[]] := by
  intro front d back heq _
  cases front with
  | nil => exact (List.cons.inj heq).2.symm
  | cons f front => simp at heq

theorem marked_ofRead : Marked (ofRead chunks fails) := by
  unfold ofRead
  induction chunks with
  | nil =>
    cases fails with
    | true => exact marked_nil
    | false => exact marked_end
  | cons c cs ih => exact ih.cons (List.length_pos_iff.1 c.2.1)

theorem short_ofRead (hd : d ∈ ofRead chunks fails) : d.length ≤ MAXMESGDATA := by
  rcases List.mem_append.1 hd with hd | hd
  · obtain ⟨c, -, rfl⟩ := List.mem_map.1 hd
    exact c.2.2
  · cases fails with
    | true => simp at hd
    | false =>
      obtain rfl : d = [] := by simpa using hd
      exact Nat.zero_le _

theorem ofFile_cases (prog : Prog) (name : List Char) (file : File) :
    ofFile prog name file = [] ∨ (∃ err, Fits prog name err ∧
        ofFile prog name file = [name ++ prog.errmesg err, []]) ∨
      ∃ chunks fails, ofFile prog name file = ofRead chunks fails := by
  cases file with
  | cannot err =>
    simp only [ofFile]
    split_ifs with hfits
    · exact .inr (.inl ⟨err, hfits, rfl⟩)
    · exact .inl rfl
  | opens stat chunks fails =>
    simp only [ofFile, ofStat]
    split_ifs
    · exact .inr (.inr ⟨_, _, rfl⟩)
    · exact .inl rfl
    · exact .inr (.inr ⟨_, _, rfl⟩)

/-- **An empty message is the last one**, whatever is asked for. -/
theorem marked_script (hname : name ≠ []) : Marked (script prog fs name) := by
  rw [script, if_neg hname]
  rcases ofFile_cases prog name (fs name) with h | ⟨err, -, h⟩ | ⟨chunks, fails, h⟩
  · rw [h]
    exact marked_nil
  · rw [h]
    exact marked_end.cons (by simp [hname])
  · rw [h]
    exact marked_ofRead

/-- Every message fits the receiver. -/
theorem short_script (hd : d ∈ script prog fs name) : d.length ≤ MAXMESGDATA := by
  unfold script at hd
  split_ifs at hd with hname
  · simp at hd
  · rcases ofFile_cases prog name (fs name) with h | ⟨err, hfits, h⟩ | ⟨chunks, fails, h⟩
    · simp [h] at hd
    · rw [h] at hd
      simp only [List.mem_cons, List.not_mem_nil, or_false] at hd
      rcases hd with rfl | rfl
      · exact Nat.le_of_lt hfits
      · exact Nat.zero_le _
    · rw [h] at hd
      exact short_ofRead hd

theorem todo_recv (hm : m.data.length < MAXMESGDATA) (hnul : cstr m.data = m.data) :
    (Server.recv prog m).pc.todo prog fs = script prog fs m.data := by
  unfold Server.recv script
  by_cases hnil : m.data = []
  · rw [if_pos (by rw [hnil]; rfl), if_pos hnil]
    rfl
  · rw [if_neg (by rwa [List.length_eq_zero_iff]), if_pos hm, if_neg hnil, hnul]
    rfl

/-- How many steps there may be before the next message. -/
def ServAt.silent : ServAt → ℕ
  | .open _ => 4
  | .fstat .. => 3
  | .read .. => 2
  | .senddata .. | .senderr _ => 1
  | .recv | .sendend | .done | .ended _ | .overrun => 0

theorem silent_le (pc : ServAt) : pc.silent ≤ 4 := by
  cases pc <;> simp [ServAt.silent]

theorem silent_sends (h : pc.sends = some (d, pc')) : pc'.silent ≤ pc.silent + 1 := by
  cases pc <;> cases h <;> simp [ServAt.silent]

/-- `s'` is the server `s` after a step in which nothing is sent or received. -/
structure Server.Silent (prog : Prog) (fs : List Char → File) (s s' : Server) : Prop where
  todo : s'.pc.todo prog fs = s.pc.todo prog fs
  taken : s'.pc ≠ .recv
  type : s'.mesg_type = s.mesg_type
  closer : s'.pc.silent < s.pc.silent

theorem open_silent (hpc : s.pc = .open name) : s.Silent prog fs (s.open prog name (fs name)) := by
  have htodo : s.pc.todo prog fs = ofFile prog name (fs name) := by rw [hpc]; rfl
  cases hfile : fs name with
  | cannot err =>
    rw [hfile] at htodo
    simp only [Server.open, Server.errmesg, ofFile] at htodo ⊢
    by_cases hfits : Fits prog name err
    · rw [if_pos hfits] at htodo
      rw [if_pos ⟨length_errmesg_lt prog err, hfits⟩]
      exact ⟨htodo.symm, by simp, rfl, by simp [hpc, ServAt.silent]⟩
    · rw [if_neg hfits] at htodo
      rw [if_neg fun h => hfits h.2]
      exact ⟨htodo.symm, by simp, rfl, by simp [hpc, ServAt.silent]⟩
  | opens stat chunks fails =>
    rw [hfile] at htodo
    simp only [Server.open, ofFile] at htodo ⊢
    cases hchecks : prog.checks with
    | true =>
      rw [hchecks] at htodo
      exact ⟨htodo.symm, by simp, rfl, by simp [hpc, ServAt.silent]⟩
    | false =>
      rw [hchecks] at htodo
      exact ⟨htodo.symm, by simp, rfl, by simp [hpc, ServAt.silent]⟩

theorem fstat_silent (hpc : s.pc = .fstat stat chunks fails) :
    s.Silent prog fs (s.fstat stat chunks fails) := by
  have htodo : s.pc.todo prog fs = ofStat stat chunks fails := by rw [hpc]; rfl
  cases stat <;>
    exact ⟨htodo.symm, by simp [Server.fstat], rfl, by simp [hpc, ServAt.silent, Server.fstat]⟩

theorem read_silent (hpc : s.pc = .read chunks fails) :
    s.Silent prog fs (s.read chunks fails) := by
  have htodo : s.pc.todo prog fs = ofRead chunks fails := by rw [hpc]; rfl
  cases chunks with
  | nil =>
    cases fails <;>
      exact ⟨htodo.symm, by simp [Server.read], rfl, by simp [hpc, ServAt.silent, Server.read]⟩
  | cons c cs =>
    exact ⟨htodo.symm, by simp [Server.read], rfl, by simp [hpc, ServAt.silent, Server.read]⟩

/-- A server that sends has not ended, and goes on to another place. -/
theorem sends_taken (h : pc.sends = some (d, pc')) : ¬ pc.gone ∧ pc' ≠ .recv := by
  cases pc <;> cases h <;> exact ⟨id, by simp⟩

theorem todo_sends (h : pc.sends = some (d, pc')) : pc.todo prog fs = d :: pc'.todo prog fs := by
  cases pc <;> cases h <;> rfl

/-- Before the end of the server the next message it sends is not empty, or it is
the last. -/
theorem sends_end (h : pc.sends = some (d, pc')) (hmarked : Marked (pc.todo prog fs)) :
    pc'.gone ∨ d ≠ [] := by
  by_cases hd : d = []
  · left
    have hnil := hmarked [] d _ (todo_sends h) hd
    cases pc <;> cases h
    · rename_i c cs fails
      exact absurd hd (List.length_pos_iff.1 c.2.1)
    · simp [ServAt.todo] at hnil
    · trivial
  · exact .inr hd

end Script

/-! ## The queues -/

/-- The queue `id` holds `ms`, and the other one is empty. -/
def Holds (queues : Queues) (id : QueueId) (ms : List (Msg Char)) : Prop :=
  ∀ i, (queues i).messages = if i = id then ms else []

/-- A queue can hold the longest message. -/
def Roomy (queues : Queues) : Prop := ∀ i, MAXMESGDATA ≤ (queues i).qbytes

section Queues

variable {queues queues' : Queues} {id i : QueueId} {m : Msg Char} {ms : List (Msg Char)} {t : ℕ}

theorem Holds.nil (h : Holds queues id []) (i : QueueId) : Holds queues i [] := by
  intro j
  rw [h j]
  split_ifs <;> rfl

/-- What a call that changes one queue leaves. -/
theorem Holds.update {q : Queue Char} (h : Holds queues id ms) :
    Holds (Function.update queues id q) id q.messages := by
  intro i
  by_cases hi : i = id
  · rw [hi, Function.update_self, if_pos rfl]
  · rw [Function.update_of_ne hi, h i, if_neg hi, if_neg hi]

theorem Roomy.update {q : Queue Char} (h : Roomy queues) (hq : q.qbytes = (queues id).qbytes) :
    Roomy (Function.update queues id q) := by
  intro i
  by_cases hi : i = id
  · rw [hi, Function.update_self, hq]
    exact h id
  · rw [Function.update_of_ne hi]
    exact h i

/-- A message is sent behind the others. -/
theorem holds_of_mesg_send (h : mesg_send queues id m = some queues') (hq : Holds queues id ms)
    (hroom : Roomy queues) : Holds queues' id (ms ++ [m]) ∧ Roomy queues' := by
  obtain ⟨q, hsnd, rfl⟩ := Option.map_eq_some_iff.1 h
  obtain rfl := Queue.msgsnd_eq_some hsnd
  have hmessages : (queues id).messages = ms := by rw [hq id, if_pos rfl]
  refine ⟨?_, hroom.update rfl⟩
  have hupdate := hq.update (q := { queues id with messages := (queues id).messages ++ [m] })
  rwa [hmessages] at hupdate ⊢

/-- Nobody waits to send into an empty queue. -/
theorem mesg_send_of_empty (hq : Holds queues id []) (hroom : Roomy queues)
    (hm : m.data.length ≤ MAXMESGDATA) : ∃ queues', mesg_send queues id m = some queues' := by
  have hempty : (queues id).messages = [] := by rw [hq id, if_pos rfl]
  have hbytes := hroom id
  have hsnd := Queue.msgsnd_of_empty hempty (by simp only [MAXMESGDATA] at hbytes; omega)
    (hm.trans hbytes)
  exact ⟨_, Option.map_eq_some_iff.2 ⟨_, hsnd, rfl⟩⟩

/-- A message of the type asked for that is the first is received. -/
theorem mesg_recv_of_holds (hq : Holds queues id (m :: ms)) (hroom : Roomy queues)
    (ht : m.type = t) (hm : m.data.length ≤ MAXMESGDATA) :
    ∃ queues', mesg_recv queues id t = some (some (m, queues')) ∧ Holds queues' id ms ∧
      Roomy queues' := by
  have hmessages : (queues id).messages = m :: ms := by rw [hq id, if_pos rfl]
  have hrcv := Queue.msgrcv_of_head hmessages
    (by simp [Queue.wanted, ht] : Queue.wanted t m = true) hm
  refine ⟨_, Option.map_eq_some_iff.2 ⟨_, hrcv, rfl⟩, hq.update, hroom.update rfl⟩

/-- The receiver waits at an empty queue, and at one that holds another type. -/
theorem mesg_recv_eq_none (hq : Holds queues id ms)
    (h : i = id → ∀ m ∈ ms, Queue.wanted t m = false) : mesg_recv queues i t = none := by
  unfold mesg_recv
  rw [Queue.msgrcv_eq_none, Option.map_none]
  rw [hq i]
  split_ifs with hi
  · exact h hi
  · simp

end Queues

/-! ## The conversation -/

/-- The data of some messages. -/
def text (ms : List (Msg Char)) : List Char := (ms.map Msg.data).flatten

/-- Nothing has been received or sent, but perhaps the request. -/
structure Quiet (w : World) : Prop where
  room : Roomy w.queues
  serv : w.serv = ⟨1, .recv⟩
  served : w.served = []
  sent : w.sent = []
  got : w.got = []
  stdout : w.cli.stdout = []

/-- The client has not asked. -/
structure Asking (stdin : List Char) (w : World) : Prop extends Quiet w where
  queue : Holds w.queues .first []
  cli : w.cli.pc = .fgets ∧ w.cli.stdin = stdin ∨
    (∃ line, Stdio.fgets MAXMESGDATA stdin = some line ∧ w.cli.pc = .send (filename line) ∧
      w.cli.mesg_type = 1) ∨
    stdin = [] ∧ w.cli.pc = .ended "filename read error"

/-- The request is in its queue. -/
structure Requested (prog : Prog) (name : List Char) (w : World) : Prop extends Quiet w where
  queue : Holds w.queues .first [⟨1, name⟩]
  pc : w.cli.pc = .recv
  type : w.cli.mesg_type = prog.retype 1

/-- Where the client is with what it has received. -/
def Client.Reading (prog : Prog) (got : List (Msg Char)) (c : Client) : Prop :=
  match c.pc with
  | .recv => c.mesg_type = prog.retype 1 ∧ (∀ m ∈ got, m.data ≠ []) ∧ c.stdout = text got
  | .write data =>
    c.mesg_type = prog.retype 1 ∧ (∀ m ∈ got, m.data ≠ []) ∧ c.stdout ++ data = text got
  | .done => (∃ m ∈ got, m.data = []) ∧ c.stdout = text got
  | .ended msg => msg = "data write error"
  | .fgets | .send _ => False

/-- The server has taken the request, and `rest` is on its way to the client. -/
structure Replying (prog : Prog) (fs : List Char → File) (name : List Char) (w : World)
    (rest : List (Msg Char)) : Prop where
  room : Roomy w.queues
  queue : Holds w.queues prog.reply_id rest
  served : w.served = [⟨1, name⟩]
  sent : w.sent = w.got ++ rest
  types : ∀ m ∈ w.sent, m.type = prog.retype 1
  said : w.sent.map Msg.data ++ w.serv.pc.todo prog fs = script prog fs name
  taken : w.serv.pc ≠ .recv
  goesOn : w.serv.pc.gone ∨ w.serv.mesg_type = prog.retype 1 ∧ ∀ m ∈ w.sent, m.data ≠ []
  reading : w.cli.Reading prog w.got

/-- How far the conversation about the line is. -/
inductive Phase (prog : Prog) (fs : List Char → File) (stdin : List Char) (w : World) : Prop
  | asking (h : Asking stdin w)
  | requested (line : List Char) (hline : Stdio.fgets MAXMESGDATA stdin = some line)
      (h : Requested prog (filename line) w)
  | replying (line : List Char) (rest : List (Msg Char))
      (hline : Stdio.fgets MAXMESGDATA stdin = some line)
      (h : Replying prog fs (filename line) w rest)

section Steps

variable {prog : Prog} {fs : List Char → File} {stdin line name : List Char} {w w' : World}
  {rest : List (Msg Char)} {a : Act}

/-- In the one queue the request is not of the type of the reply, and in the other
case it is not in the queue of the reply. -/
theorem Requested.cliWaits (h : Requested prog name w) : w.cliStep prog = none := by
  unfold World.cliStep
  rw [h.pc]
  dsimp only
  rw [mesg_recv_eq_none h.queue, Option.map_none]
  intro hid m hm
  obtain rfl := List.mem_singleton.1 hm
  rw [h.type]
  cases prog with
  | system_v_ipc => cases hid
  | multiplexing_messages => rfl

theorem Asking.servWaits (h : Asking stdin w) : w.servStep prog fs = none := by
  unfold World.servStep
  rw [h.serv]
  dsimp only
  rw [mesg_recv_eq_none h.queue (by simp), Option.map_none]

theorem Asking.cliStep (h : Asking stdin w) (hstep : w.cliStep prog = some w') :
    Phase prog fs stdin w' := by
  unfold World.cliStep at hstep
  rcases h.cli with ⟨hpc, hstdin⟩ | ⟨line, hline, hpc, htype⟩ | ⟨-, hpc⟩
  · rw [hpc] at hstep
    obtain rfl := Option.some.inj hstep
    apply Phase.asking
    cases hget : Stdio.fgets MAXMESGDATA w.cli.stdin with
    | none =>
      -- there is no line
      have hcli : w.cli.fgets = { w.cli with pc := .ended "filename read error" } := by
        rw [Client.fgets, hget]
      rw [hcli]
      have hnil : stdin = [] := by rwa [hstdin, fgets_eq_none_iff] at hget
      exact { h with cli := .inr (.inr ⟨hnil, rfl⟩) }
    | some line =>
      have hcli : w.cli.fgets = { w.cli with
          stdin := w.cli.stdin.drop line.length, mesg_type := 1, pc := .send (filename line) } := by
        rw [Client.fgets, hget]
      rw [hcli]
      rw [hstdin] at hget
      exact { h with cli := .inr (.inl ⟨line, hget, rfl, rfl⟩) }
  · rw [hpc] at hstep
    -- the name is sent
    obtain ⟨queues, hsend, rfl⟩ := Option.map_eq_some_iff.1 hstep
    obtain ⟨hqueue, hroom⟩ := holds_of_mesg_send hsend h.queue h.room
    rw [htype, List.nil_append] at hqueue
    exact .requested line hline
      { h with queue := hqueue, room := hroom, pc := rfl, type := by rw [Client.sent, htype] }
  · rw [hpc] at hstep
    cases hstep

/-- The server takes the request. -/
theorem Requested.servStep (h : Requested prog name w) (fs : List Char → File)
    (hlen : name.length < MAXMESGDATA) (hnul : cstr name = name) :
    ∃ queues, w.servStep prog fs = some { w with
        serv := .recv prog ⟨1, name⟩, queues := queues, served := w.served ++ [⟨1, name⟩] } ∧
      Replying prog fs name { w with
        serv := .recv prog ⟨1, name⟩, queues := queues, served := w.served ++ [⟨1, name⟩] } [] := by
  obtain ⟨queues, hrecv, hqueue, hroom⟩ :=
    mesg_recv_of_holds h.queue h.room (t := 1) rfl (Nat.le_of_lt hlen)
  refine ⟨queues, ?_, ?_⟩
  · unfold World.servStep
    rw [h.serv]
    dsimp only
    rw [hrecv]
    rfl
  · -- either it ends there, or it is about to reply
    have hserv : (Server.recv prog ⟨1, name⟩).pc ≠ .recv ∧ ((Server.recv prog ⟨1, name⟩).pc.gone ∨
        (Server.recv prog ⟨1, name⟩).mesg_type = prog.retype 1) := by
      unfold Server.recv
      split_ifs
      · exact ⟨by simp, .inl trivial⟩
      · exact ⟨by simp, .inr rfl⟩
    exact {
      room := hroom
      queue := hqueue.nil _
      served := by rw [h.served, List.nil_append]
      sent := by rw [h.sent, h.got]; rfl
      types := by rw [h.sent]; simp
      said := by
        rw [h.sent]
        exact todo_recv (m := ⟨1, name⟩) hlen hnul
      taken := hserv.1
      goesOn := hserv.2.imp_right fun htype => ⟨htype, by rw [h.sent]; simp⟩
      reading := by
        simp [Client.Reading, h.pc, h.type, h.got, h.stdout, text] }

/-- What is on its way fits the client. -/
theorem Replying.short (h : Replying prog fs name w rest) {m : Msg Char} (hm : m ∈ rest) :
    m.data.length ≤ MAXMESGDATA := by
  apply short_script
  rw [← h.said, h.sent]
  apply List.mem_append_left
  exact List.mem_map_of_mem (List.mem_append_right _ hm)

/-- A client that is done has the end of the conversation. -/
theorem Replying.gone_of_done (h : Replying prog fs name w rest) (hpc : w.cli.pc = .done) :
    w.serv.pc.gone := by
  have hreading := h.reading
  simp only [Client.Reading, hpc] at hreading
  obtain ⟨m, hm, hnil⟩ := hreading.1
  rcases h.goesOn with hgone | ⟨-, hne⟩
  · exact hgone
  · exact absurd hnil (hne m (by rw [h.sent]; exact List.mem_append_left _ hm))

/-- What the client does next. -/
theorem Replying.cliStep (h : Replying prog fs name w rest) (hstep : w.cliStep prog = some w') :
    ∃ rest', Replying prog fs name w' rest' := by
  have hreading := h.reading
  unfold World.cliStep at hstep
  unfold Client.Reading at hreading
  cases hpc : w.cli.pc with
  | fgets => simp [hpc] at hreading
  | send name => simp [hpc] at hreading
  | recv =>
    simp only [hpc] at hstep hreading
    obtain ⟨htype, hne, hout⟩ := hreading
    have hqueue := h.queue
    cases rest with
    | nil =>
      -- nothing is on its way
      rw [mesg_recv_eq_none hqueue (by simp)] at hstep
      cases hstep
    | cons m ms =>
      have hmem : m ∈ w.sent := by rw [h.sent]; simp
      obtain ⟨queues, hrecv, hqueue', hroom⟩ := mesg_recv_of_holds hqueue h.room
        ((h.types m hmem).trans htype.symm) (h.short List.mem_cons_self)
      rw [hrecv] at hstep
      obtain rfl := Option.some.inj hstep
      refine ⟨ms, { h with
        room := hroom
        queue := hqueue'
        sent := by rw [h.sent, List.append_assoc]; rfl
        reading := ?_ }⟩
      have htext : text (w.got ++ [m]) = text w.got ++ m.data := by simp [text]
      simp only [Client.recv]
      by_cases hdata : m.data = []
      · rw [if_neg (by simp [hdata])]
        -- the empty message ends the reply
        refine ⟨⟨m, by simp, hdata⟩, ?_⟩
        rw [htext, hdata, List.append_nil]
        exact hout
      · rw [if_pos (List.length_pos_iff.2 hdata)]
        refine ⟨h.types m hmem, ?_, ?_⟩
        · intro m' hm'
          rcases List.mem_append.1 hm' with hm' | hm'
          · exact hne m' hm'
          · obtain rfl := List.mem_singleton.1 hm'
            exact hdata
        · rw [htext]
          exact congrArg (· ++ m.data) hout
  | write data =>
    simp only [hpc] at hstep hreading
    obtain rfl := Option.some.inj hstep
    exact ⟨rest, { h with reading := hreading }⟩
  | done =>
    simp only [hpc] at hstep
    cases hstep
  | ended msg =>
    simp only [hpc] at hstep
    cases hstep

/-- The server does something, but sends nothing. -/
theorem Replying.silent (h : Replying prog fs name w rest) (hgone : ¬ w.serv.pc.gone) {s : Server}
    (hs : w.serv.Silent prog fs s) : Replying prog fs name { w with serv := s } rest :=
  { h with
    said := by
      rw [← h.said]
      exact congrArg _ hs.todo
    taken := hs.taken
    goesOn := by
      rw [hs.type]
      exact .inr (h.goesOn.resolve_left hgone) }

/-- The server sends. -/
theorem Replying.send (h : Replying prog fs name w rest) {d : List Char} {pc' : ServAt}
    {queues : Queues} (hsends : w.serv.pc.sends = some (d, pc'))
    (hsend : mesg_send w.queues prog.reply_id ⟨w.serv.mesg_type, d⟩ = some queues) :
    Replying prog fs name
      { w with
        serv := { w.serv with pc := pc' }
        queues := queues
        sent := w.sent ++ [⟨w.serv.mesg_type, d⟩] }
      (rest ++ [⟨w.serv.mesg_type, d⟩]) := by
  obtain ⟨hgone, htaken⟩ := sends_taken hsends
  obtain ⟨htype, hne⟩ := h.goesOn.resolve_left hgone
  obtain ⟨hqueue, hroom⟩ := holds_of_mesg_send hsend h.queue h.room
  have htodo : w.serv.pc.todo prog fs = d :: pc'.todo prog fs := todo_sends hsends
  have hsaid := h.said
  rw [htodo] at hsaid
  -- there is something to send, so a name was asked for
  have hname : name ≠ [] := by
    intro hnil
    rw [script, if_pos hnil] at hsaid
    simp at hsaid
  have hscript : Marked (script prog fs name) := marked_script hname
  have hmarked : Marked (w.serv.pc.todo prog fs) := by
    intro front e back heq he
    refine hscript (w.sent.map Msg.data ++ front) e back ?_ he
    rw [List.append_assoc, ← heq]
    exact h.said.symm
  exact { h with
    room := hroom
    queue := hqueue
    sent := by rw [h.sent, List.append_assoc]
    types := by
      intro m hm
      rcases List.mem_append.1 hm with hm | hm
      · exact h.types m hm
      · obtain rfl := List.mem_singleton.1 hm
        exact htype
    said := by
      rw [← hsaid, List.map_append, List.append_assoc]
      rfl
    taken := htaken
    goesOn := by
      refine (sends_end hsends hmarked).imp_right fun hd => ⟨htype, ?_⟩
      intro m hm
      rcases List.mem_append.1 hm with hm | hm
      · exact hne m hm
      · obtain rfl := List.mem_singleton.1 hm
        exact hd }

/-- A server that has something to send. -/
theorem servStep_sends {d : List Char} {pc' : ServAt} (hsends : w.serv.pc.sends = some (d, pc')) :
    w.servStep prog fs = (mesg_send w.queues prog.reply_id ⟨w.serv.mesg_type, d⟩).map fun queues =>
      { w with
        serv := { w.serv with pc := pc' }
        queues := queues
        sent := w.sent ++ [⟨w.serv.mesg_type, d⟩] } := by
  unfold World.servStep
  cases hpc : w.serv.pc <;> rw [hpc] at hsends <;> cases hsends <;> rfl

/-- A server that has not, and that has the request. -/
theorem servStep_silent (prog : Prog) (fs : List Char → File) (hsends : w.serv.pc.sends = none)
    (hgone : ¬ w.serv.pc.gone)
    (htaken : w.serv.pc ≠ .recv) :
    ∃ s, w.servStep prog fs = some { w with serv := s } ∧ w.serv.Silent prog fs s := by
  unfold World.servStep
  cases hpc : w.serv.pc with
  | recv => exact absurd hpc htaken
  | «open» name => exact ⟨_, rfl, open_silent hpc⟩
  | fstat stat chunks fails => exact ⟨_, rfl, fstat_silent hpc⟩
  | read chunks fails => exact ⟨_, rfl, read_silent hpc⟩
  | senddata | senderr | sendend =>
    rw [hpc] at hsends
    cases hsends
  | done | ended | overrun =>
    rw [hpc] at hgone
    exact absurd trivial hgone

theorem servStep_gone (hgone : w.serv.pc.gone) : w.servStep prog fs = none := by
  unfold World.servStep
  cases hpc : w.serv.pc <;> simp [hpc, ServAt.gone] at hgone ⊢

/-- What the server does next. -/
theorem Replying.servStep (h : Replying prog fs name w rest)
    (hstep : w.servStep prog fs = some w') :
    ∃ rest', Replying prog fs name w' rest' := by
  have hgone : ¬ w.serv.pc.gone := by
    intro hgone
    rw [servStep_gone hgone] at hstep
    cases hstep
  cases hsends : w.serv.pc.sends with
  | some p =>
    rw [servStep_sends hsends] at hstep
    obtain ⟨queues, hsend, rfl⟩ := Option.map_eq_some_iff.1 hstep
    exact ⟨_, h.send hsends hsend⟩
  | none =>
    obtain ⟨s, hserv, hs⟩ := servStep_silent prog fs hsends hgone h.taken
    rw [hserv] at hstep
    obtain rfl := Option.some.inj hstep
    exact ⟨rest, h.silent hgone hs⟩

/-- **Every step keeps to the conversation.** -/
theorem Phase.step (h : Phase prog fs stdin w) (hstep : w.step prog fs a = some w') :
    Phase prog fs stdin w' := by
  cases a with
  | cli =>
    rcases h with h | ⟨line, hline, h⟩ | ⟨line, rest, hline, h⟩
    · exact h.cliStep hstep
    · -- there is no reply in the queue
      rw [World.step, h.cliWaits] at hstep
      cases hstep
    · obtain ⟨rest', h'⟩ := h.cliStep hstep
      exact .replying line rest' hline h'
  | serv =>
    rcases h with h | ⟨line, hline, h⟩ | ⟨line, rest, hline, h⟩
    · -- there is no request
      rw [World.step, h.servWaits] at hstep
      cases hstep
    · obtain ⟨queues, hstep', h'⟩ := h.servStep fs (length_filename_lt hline) cstr_filename
      rw [World.step, hstep'] at hstep
      obtain rfl := Option.some.inj hstep
      exact .replying line [] hline h'
    · obtain ⟨rest', h'⟩ := h.servStep hstep
      exact .replying line rest' hline h'
  | cliFails =>
    cases hpc : w.cli.pc with
    | write data =>
      simp only [World.step, hpc] at hstep
      obtain rfl := Option.some.inj hstep
      rcases h with h | ⟨line, hline, h⟩ | ⟨line, rest, hline, h⟩
      · rcases h.cli with ⟨h', -⟩ | ⟨_, -, h', -⟩ | ⟨-, h'⟩ <;> rw [hpc] at h' <;> cases h'
      · have h' := h.pc
        rw [hpc] at h'
        cases h'
      · exact .replying line rest hline { h with reading := rfl }
    | fgets | send | recv | done | ended =>
      simp only [World.step, hpc] at hstep
      cases hstep

end Steps

end UnixNetProg.MessageQueue

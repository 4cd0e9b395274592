/-
Messages come out as they went in.

`Framed` says where the stream stands: between two calls of `mesg_recv` it is at
the header of the next message, between the two reads of a call it is at that
message's data. It holds however the stream is split (`framed_of_reach`), so
what the calls return is always a beginning of what was sent, never anything
else. A read that gets fewer bytes than it asked for ends the program, by the
design of `mesg_recv` (`short_read_ends`); while there is none, the calls return
all the messages and then 0 (`stream_messages`). A message is no longer than
`sizeof (Mesg)`, which is what a pipe takes in one piece.
-/
import UnixNetProg.StreamMessages.Code

set_option autoImplicit false

namespace UnixNetProg.StreamMessages

open UnixNetProg.Bytes UnixNetProg.Channel UnixNetProg.Runs

/-! ## A message in memory -/

/-- The caller's promise: the length is that of a part of `mesg_data`. -/
def Mesg.Fits (m : Mesg) : Prop := 0 ≤ m.mesg_len.toInt ∧ m.mesg_len.toInt ≤ MAXMESGDATA

/-- The used part of the data. -/
def Mesg.data (m : Mesg) : List UInt8 := m.mesg_data.take m.mesg_len.toInt.toNat

/-- The same message: length, type and the used part of the data. -/
structure Mesg.Same (m m' : Mesg) : Prop where
  len : m'.mesg_len = m.mesg_len
  type : m'.mesg_type = m.mesg_type
  data : m'.data = m.data

section Memory

variable {m m' : Mesg}

@[simp] theorem length_header (m : Mesg) : m.header.length = MESGHDRSIZE := by
  simp [Mesg.header, MESGHDRSIZE]

theorem length_data (h : m.Fits) : m.data.length = m.mesg_len.toInt.toNat := by
  obtain ⟨hlo, hhi⟩ := h
  rw [Mesg.data, List.length_take, m.size]
  omega

/-- `mesg_send` writes the header and the used part of the data. -/
theorem mesg_send_eq (h : m.Fits) : mesg_send m = m.header ++ m.data := by
  obtain ⟨hlo, hhi⟩ := h
  have hsum : (MESGHDRSIZE + m.mesg_len.toInt).toNat =
      m.header.length + m.mesg_len.toInt.toNat := by
    rw [length_header]
    omega
  rw [mesg_send, Mesg.bytes, hsum, List.take_length_add_append, Mesg.data]

/-- A header that was written is read back as it was. -/
theorem readHeader_header (m₀ m : Mesg) :
    (m₀.readHeader m.header).mesg_len = m.mesg_len ∧
      (m₀.readHeader m.header).mesg_type = m.mesg_type := by
  have hlen : m.header.take 4 = ofWord 4 m.mesg_len := by
    rw [Mesg.header, List.append_assoc]
    exact List.take_left' (length_ofWord 4 _)
  have htype : (m.header.drop 8).take 8 = ofWord 8 m.mesg_type := by
    have hfront : (ofWord 4 m.mesg_len ++ ofWord 4 m.hole).length = 8 := by simp
    rw [Mesg.header, List.drop_left' hfront]
    exact List.take_of_length_le (by simp)
  constructor
  · rw [Mesg.readHeader, hlen]
    exact toWord_ofWord 4 m.mesg_len
  · rw [Mesg.readHeader, htype]
    exact toWord_ofWord 8 m.mesg_type

/-- Data read behind a header makes the message it belongs to. -/
theorem same_readData (hlen : m'.mesg_len = m.mesg_len) (htype : m'.mesg_type = m.mesg_type)
    (hfits : m.Fits) (h : m.data.length ≤ MAXMESGDATA) : m.Same (m'.readData m.data h) := by
  refine ⟨hlen, htype, ?_⟩
  show (m.data ++ m'.mesg_data.drop m.data.length).take m'.mesg_len.toInt.toNat = m.data
  rw [hlen]
  exact List.take_left' (length_data hfits)

/-- A message without data is its header. -/
theorem same_of_header (hlen : m'.mesg_len = m.mesg_len) (htype : m'.mesg_type = m.mesg_type)
    (hzero : m.mesg_len.toInt ≤ 0) : m.Same m' := by
  have hnone : m.mesg_len.toInt.toNat = 0 := by omega
  refine ⟨hlen, htype, ?_⟩
  rw [Mesg.data, Mesg.data, hlen, hnone, List.take_zero, List.take_zero]

end Memory

/-! ## Where the stream stands -/

/-- What the writer has sent and the reader has not read, and what it has not
sent yet. -/
def World.ahead (w : World) : List UInt8 := w.chan.bytes ++ w.todo.flatMap mesg_send

/-- What call number `i` returned, if it is one for the message `m` sent as
number `i`, or one after the end. -/
def Answers (m : Option Mesg) (r : ℤ × Mesg) : Prop :=
  match m with
  | some m => r.1 = m.mesg_len.toInt ∧ m.Same r.2
  | none => r.1 = 0

/-- The reader has returned messages as they were sent, and the stream is where
it should be for the next read. -/
structure Framed (ms : List Mesg) (w : World) : Prop where
  got : ∀ (i : ℕ) (r : ℤ × Mesg), w.got[i]? = some r → Answers ms[i]? r
  idle : w.pc = .idle → w.ahead = (ms.drop w.got.length).flatMap mesg_send
  body : w.pc = .body → ∃ m, ms[w.got.length]? = some m ∧ w.mesg.mesg_len = m.mesg_len ∧
    w.mesg.mesg_type = m.mesg_type ∧ 0 < m.mesg_len.toInt ∧
    w.ahead = m.data ++ (ms.drop (w.got.length + 1)).flatMap mesg_send
  ended : ∀ msg, w.pc = .ended msg → msg = "message header read error" ∨ msg = "data read error"
  inside : w.pc ≠ .overrun
  closed : w.chan.closed = true → w.todo = []

namespace Framed

variable {ms : List Mesg} {w w' : World} {m : Mesg} {bs : List UInt8} {c : Chan UInt8} {k : ℕ}

theorem start (ms : List Mesg) (m : Mesg) : Framed ms (start ms m) where
  got := nofun
  idle := fun _ => rfl
  body := nofun
  ended := nofun
  inside := nofun
  closed := nofun

/-- The writer moves a message from its list to the stream. -/
theorem send (h : Framed ms w) {todo : List Mesg} (htodo : w.todo = m :: todo) :
    Framed ms { w with todo := todo, chan := w.chan.write (mesg_send m) } := by
  have hahead : ({ w with todo := todo, chan := w.chan.write (mesg_send m) } : World).ahead
      = w.ahead := by
    simp [World.ahead, htodo]
  refine ⟨h.got, ?_, ?_, h.ended, h.inside, ?_⟩
  · intro hpc
    rw [hahead]
    exact h.idle hpc
  · intro hpc
    rw [hahead]
    exact h.body hpc
  · intro hclosed
    have hnil := h.closed hclosed
    rw [htodo] at hnil
    cases hnil

/-- A call of `mesg_recv` returns. -/
theorem ret (h : Framed ms w) {mesg : Mesg} {n : ℤ} (hans : Answers ms[w.got.length]? (n, mesg))
    (hclosed : c.closed = true → w.todo = [])
    (hahead : c.bytes ++ w.todo.flatMap mesg_send
      = (ms.drop (w.got.length + 1)).flatMap mesg_send) :
    Framed ms ({ w with chan := c, mesg := mesg }.ret n) := by
  refine ⟨?_, ?_, nofun, nofun, nofun, hclosed⟩
  · intro i r hr
    simp only [World.ret] at hr
    rcases Nat.lt_or_ge i w.got.length with hi | hi
    · rw [List.getElem?_append_left hi] at hr
      exact h.got i r hr
    · rw [List.getElem?_append_right hi] at hr
      obtain rfl : i = w.got.length := by
        by_contra hne
        rw [List.getElem?_eq_none (by simp; omega)] at hr
        cases hr
      rw [Nat.sub_self, List.getElem?_cons_zero, Option.some.injEq] at hr
      rw [← hr]
      exact hans
  · intro _
    simpa [World.ret, World.ahead] using hahead

/-- Something is ahead of the reader, so a message is. -/
theorem next (h : Framed ms w) (hpc : w.pc = .idle) (hne : w.ahead ≠ []) :
    ∃ m, ms[w.got.length]? = some m ∧
      w.ahead = mesg_send m ++ (ms.drop (w.got.length + 1)).flatMap mesg_send := by
  rcases Nat.lt_or_ge w.got.length ms.length with hlt | hge
  · refine ⟨ms[w.got.length], List.getElem?_eq_getElem hlt, ?_⟩
    rw [h.idle hpc, List.drop_eq_getElem_cons hlt, List.flatMap_cons]
  · refine absurd ?_ hne
    rw [h.idle hpc, List.drop_eq_nil_of_le hge, List.flatMap_nil]

/-- The header read says how the call goes on. -/
theorem afterLen (h : Framed ms w) (hm : ms[w.got.length]? = some m)
    (hclosed : c.closed = true → w.todo = [])
    (hahead : c.bytes ++ w.todo.flatMap mesg_send
      = m.data ++ (ms.drop (w.got.length + 1)).flatMap mesg_send) :
    Framed ms { w with chan := c, mesg := w.mesg.readHeader m.header }.afterLen := by
  obtain ⟨hlen, htype⟩ := readHeader_header w.mesg m
  unfold World.afterLen
  by_cases hdata : 0 < m.mesg_len.toInt
  · rw [if_pos (by rw [hlen]; exact hdata)]
    exact ⟨h.got, nofun, fun _ => ⟨m, hm, hlen, htype, hdata, hahead⟩, nofun, nofun, hclosed⟩
  · have hzero : m.mesg_len.toInt ≤ 0 := Int.not_lt.1 hdata
    have hnone : m.data = [] := by
      rw [Mesg.data, Int.toNat_of_nonpos hzero, List.take_zero]
    rw [hnone, List.nil_append] at hahead
    rw [if_neg (by rw [hlen]; exact hdata)]
    apply h.ret _ hclosed hahead
    rw [hm]
    exact ⟨congrArg BitVec.toInt hlen, same_of_header hlen htype hzero⟩

/-- After the first read the reader has the header of the next message, or has
ended. -/
theorem afterHeader (h : Framed ms w) (hms : ∀ m ∈ ms, m.Fits) (hpc : w.pc = .idle)
    (hr : w.chan.read MESGHDRSIZE k = some (bs, c)) :
    Framed ms ({ w with chan := c }.afterHeader bs) := by
  obtain ⟨hbytes, hc, -⟩ := Chan.read_eq_some hr
  have hclosed : c.closed = true → w.todo = [] := by
    rw [hc]
    exact h.closed
  unfold World.afterHeader
  by_cases hnil : bs = []
  · -- the end of the file: everything has been sent, and read
    subst hnil
    obtain ⟨hempty, heof, rfl⟩ := Chan.read_nil hr
    have hahead : w.ahead = [] := by
      rw [World.ahead, hempty, h.closed heof]
      rfl
    have hend : ms.length ≤ w.got.length := by
      by_contra hlt
      have hlt' : w.got.length < ms.length := by omega
      have hcons := h.idle hpc
      rw [hahead, List.drop_eq_getElem_cons hlt', List.flatMap_cons,
        mesg_send_eq (hms _ (List.getElem_mem hlt'))] at hcons
      have hlen := congrArg List.length hcons
      simp [MESGHDRSIZE] at hlen
      omega
    rw [if_pos List.length_nil]
    apply h.ret
    · rw [List.getElem?_eq_none hend]
      rfl
    · exact hclosed
    · rw [List.drop_eq_nil_of_le (by omega), List.flatMap_nil]
      exact hahead
  · have hpos : bs.length ≠ 0 := fun h0 => hnil (List.length_eq_zero_iff.1 h0)
    rw [if_neg hpos]
    by_cases hshort : bs.length = MESGHDRSIZE
    · -- the header was read as a whole, and is the next message's
      rw [if_neg (not_not.2 hshort)]
      have hne : w.ahead ≠ [] := by
        rw [World.ahead, hbytes]
        simp [hnil]
      obtain ⟨m, hm, hahead⟩ := h.next hpc hne
      have hfits := hms m (List.mem_of_getElem? hm)
      rw [World.ahead, hbytes, mesg_send_eq hfits, List.append_assoc, List.append_assoc] at hahead
      obtain ⟨rfl, hrest⟩ := List.append_inj hahead (hshort.trans (length_header m).symm)
      exact h.afterLen hm hclosed hrest
    · rw [if_pos hshort]
      exact ⟨h.got, nofun, nofun, fun msg hmsg => .inl (At.ended.inj hmsg).symm, nofun, hclosed⟩

/-- After the second read the reader has the whole message, or has ended. -/
theorem afterData (h : Framed ms w) (hms : ∀ m ∈ ms, m.Fits) (hpc : w.pc = .body)
    (hr : w.chan.read w.mesg.mesg_len.toInt.toNat k = some (bs, c)) :
    Framed ms ({ w with chan := c }.afterData bs) := by
  obtain ⟨hbytes, hc, hle⟩ := Chan.read_eq_some hr
  have hclosed : c.closed = true → w.todo = [] := by
    rw [hc]
    exact h.closed
  obtain ⟨m, hm, hlen, htype, hpos, hahead⟩ := h.body hpc
  have hfits := hms m (List.mem_of_getElem? hm)
  have hdata := length_data hfits
  obtain ⟨hlo, hhi⟩ := hfits
  unfold World.afterData
  split_ifs with hsize hshort
  · exact ⟨h.got, nofun, nofun, fun msg hmsg => .inr (At.ended.inj hmsg).symm, nofun, hclosed⟩
  · -- the data was read as a whole
    have heq : (bs.length : ℤ) = w.mesg.mesg_len.toInt := not_not.1 hshort
    have hwhole : bs.length = m.data.length := by
      rw [hdata, ← hlen]
      omega
    rw [World.ahead, hbytes, List.append_assoc] at hahead
    obtain ⟨rfl, hrest⟩ := List.append_inj hahead hwhole
    apply h.ret _ hclosed hrest
    rw [hm]
    exact ⟨congrArg BitVec.toInt hlen, same_readData hlen htype ⟨hlo, hhi⟩ hsize⟩
  · rw [hlen] at hle
    omega

/-- **Every step keeps the stream in frame.** -/
theorem step {a : Act} (h : Framed ms w) (hms : ∀ m ∈ ms, m.Fits) (hs : w.step a = some w') :
    Framed ms w' := by
  cases a with
  | send =>
    obtain ⟨m, todo, htodo, rfl⟩ := World.of_step_send hs
    exact h.send htodo
  | close =>
    obtain ⟨htodo, rfl⟩ := World.of_step_close hs
    exact ⟨h.got, h.idle, h.body, h.ended, h.inside, fun _ => htodo⟩
  | read k =>
    obtain ⟨bs, c, hr, ⟨hpc, rfl⟩ | ⟨hpc, rfl⟩⟩ := World.of_step_read hs
    · rw [World.asked, hpc] at hr
      exact h.afterHeader hms hpc hr
    · rw [World.asked, hpc] at hr
      exact h.afterData hms hpc hr

end Framed

/-! ## Reads that get what they ask for -/

/-- A read gets as many bytes as it asked for, unless it is at the end of the
file. -/
def World.full (w : World) (a : Act) : Prop :=
  match a with
  | .read k => w.chan.bytes ≠ [] → k = w.asked
  | _ => True

instance (w : World) (a : Act) : Decidable (w.full a) := by
  cases a <;> unfold World.full <;> infer_instance

section Full

variable {ms : List Mesg} {w w' : World} {bs : List UInt8} {c : Chan UInt8} {k : ℕ}

/-- With the header read, `mesg_recv` does not end the program. -/
theorem afterLen_goes_on (w : World) (msg : String) : w.afterLen.pc ≠ .ended msg := by
  unfold World.afterLen
  split_ifs <;> exact nofun

/-- Between the two reads there is data for the second one. -/
theorem Framed.data_there (h : Framed ms w) (hms : ∀ m ∈ ms, m.Fits) (hpc : w.pc = .body) :
    0 < w.asked ∧ w.asked ≤ w.ahead.length := by
  obtain ⟨m, hm, hlen, -, hpos, hahead⟩ := h.body hpc
  rw [World.asked, hpc, hahead, List.length_append, length_data (hms m (List.mem_of_getElem? hm))]
  simp only [hlen]
  omega

/-- A read that gets what it asked for does not end the program. -/
theorem Framed.full_step {a : Act} (h : Framed ms w) (hms : ∀ m ∈ ms, m.Fits) (hfull : w.full a)
    (hlive : ∀ msg, w.pc ≠ .ended msg) (hs : w.step a = some w') (msg : String) :
    w'.pc ≠ .ended msg := by
  cases a with
  | send =>
    obtain ⟨m, todo, -, rfl⟩ := World.of_step_send hs
    exact hlive msg
  | close =>
    obtain ⟨-, rfl⟩ := World.of_step_close hs
    exact hlive msg
  | read k =>
    obtain ⟨bs, c, hr, ⟨hpc, rfl⟩ | ⟨hpc, rfl⟩⟩ := World.of_step_read hs
    · by_cases hnil : bs = []
      · subst hnil
        exact nofun
      · have hne : w.chan.bytes ≠ [] := by
          rw [(Chan.read_eq_some hr).1]
          simp [hnil]
        obtain ⟨hlen, hpos, -⟩ := Chan.length_of_read hr hnil
        have hk : k = MESGHDRSIZE := by simpa [World.asked, hpc] using hfull hne
        show (World.afterHeader _ bs).pc ≠ _
        rw [World.afterHeader, if_neg (by omega), if_neg (by omega)]
        exact afterLen_goes_on _ msg
    · obtain ⟨hpos, hle⟩ := h.data_there hms hpc
      by_cases hnil : bs = []
      · -- the end of the file is not reached in the middle of a message
        subst hnil
        obtain ⟨hempty, heof, -⟩ := Chan.read_nil hr
        rw [World.ahead, hempty, h.closed heof, List.flatMap_nil] at hle
        simp at hle
        omega
      · have hne : w.chan.bytes ≠ [] := by
          rw [(Chan.read_eq_some hr).1]
          simp [hnil]
        obtain ⟨hlen, -, -⟩ := Chan.length_of_read hr hnil
        have hasked : w.asked = w.mesg.mesg_len.toInt.toNat := by rw [World.asked, hpc]
        have hk : k = w.asked := hfull hne
        have hwhole : (bs.length : ℤ) = w.mesg.mesg_len.toInt := by omega
        show (World.afterData _ bs).pc ≠ _
        unfold World.afterData
        split_ifs with hsize hshort
        · exact absurd hwhole hshort
        · exact nofun
        · exact nofun

/-- A read that gets fewer bytes than it asked for, and some, ends the program. -/
theorem short_read_ends (hne : w.chan.bytes ≠ []) (hk : k ≠ w.asked)
    (hs : w.step (.read k) = some w') (hsafe : w'.pc ≠ .overrun) : ∃ msg, w'.pc = .ended msg := by
  obtain ⟨bs, c, hr, hwhere⟩ := World.of_step_read hs
  obtain ⟨hlen, hpos⟩ : bs.length = k ∧ 0 < k := by
    by_cases hbs : bs = []
    · subst hbs
      exact absurd (Chan.read_nil hr).1 hne
    · obtain ⟨hlen, hpos, -⟩ := Chan.length_of_read hr hbs
      exact ⟨hlen, hpos⟩
  rcases hwhere with ⟨hpc, rfl⟩ | ⟨hpc, rfl⟩
  · have hk' : k ≠ MESGHDRSIZE := by simpa [World.asked, hpc] using hk
    refine ⟨"message header read error", ?_⟩
    show (World.afterHeader _ bs).pc = _
    rw [World.afterHeader, if_neg (by omega), if_pos (by omega)]
  · have hk' : k ≠ w.mesg.mesg_len.toInt.toNat := by simpa [World.asked, hpc] using hk
    refine ⟨"data read error", ?_⟩
    revert hsafe
    show (World.afterData _ bs).pc ≠ _ → (World.afterData _ bs).pc = _
    unfold World.afterData
    split_ifs with hsize hshort
    · exact fun _ => rfl
    · -- a short read does not pass for the whole of the data
      have heq : (bs.length : ℤ) = w.mesg.mesg_len.toInt := not_not.1 hshort
      omega
    · exact fun hsafe => absurd rfl hsafe

end Full

/-! ## In every run -/

section Runs

variable {ms : List Mesg} {w : World}

theorem framed_of_reach {ok : World → Act → Prop} (hms : ∀ m ∈ ms, m.Fits)
    (h : (machine ms).Reach ok w) : Framed ms w := by
  apply h.invariant (I := Framed ms)
  · rintro w ⟨m, rfl⟩
    exact Framed.start ms m
  · intro w a w' _ hinv _ hs
    exact hinv.step hms hs

theorem goes_on_of_full (hms : ∀ m ∈ ms, m.Fits) (h : (machine ms).Reach World.full w)
    (msg : String) : w.pc ≠ .ended msg := by
  revert msg
  apply h.invariant (I := fun w => ∀ msg, w.pc ≠ .ended msg)
  · rintro w ⟨m, rfl⟩
    exact fun _ => nofun
  · intro w a w' hw hlive hfull hs
    exact (framed_of_reach hms hw).full_step hms hfull hlive hs

/-- What is left to do, until the call that returns 0 at the end of the file. -/
def World.left (ms : List Mesg) (w : World) : ℕ :=
  w.ahead.length + w.todo.length + (!w.chan.closed).toNat + (ms.length + 1 - w.got.length)

/-- What the rest of a call leaves as it is: the stream and the writer. -/
structure World.Rest (w w' : World) : Prop where
  chan : w'.chan = w.chan
  todo : w'.todo = w.todo
  got : w.got.length ≤ w'.got.length

theorem rest_ret (w : World) (mesg : Mesg) (n : ℤ) : w.Rest ({ w with mesg := mesg }.ret n) := by
  refine ⟨rfl, rfl, ?_⟩
  simp only [World.ret, List.length_append]
  omega

theorem rest_afterHeader (w : World) (bs : List UInt8) : w.Rest (w.afterHeader bs) := by
  unfold World.afterHeader World.afterLen
  split_ifs
  · exact rest_ret w w.mesg 0
  · exact ⟨rfl, rfl, le_rfl⟩
  · exact ⟨rfl, rfl, le_rfl⟩
  · exact rest_ret w _ _

theorem rest_afterData (w : World) (bs : List UInt8) : w.Rest (w.afterData bs) := by
  unfold World.afterData
  split_ifs
  · exact ⟨rfl, rfl, le_rfl⟩
  · exact rest_ret w _ _
  · exact ⟨rfl, rfl, le_rfl⟩

/-- A read that gets something leaves less to do. -/
theorem World.Rest.left_lt {w' : World} {bs : List UInt8} {c : Chan UInt8}
    (h : { w with chan := c }.Rest w') (hc : c.closed = w.chan.closed)
    (hbytes : w.chan.bytes = bs ++ c.bytes) (hne : bs ≠ []) : w'.left ms < w.left ms := by
  have hpos : 0 < bs.length := List.length_pos_iff.2 hne
  have hgot : w.got.length ≤ w'.got.length := h.got
  simp only [World.left, World.ahead, h.chan, h.todo, hbytes, hc, List.length_append]
  omega

/-- The writer has something to do, or it has closed the stream. -/
theorem write_down (w : World) (hopen : w.chan.closed = false) :
    ∃ a w', w.full a ∧ w.step a = some w' ∧ w'.left ms < w.left ms := by
  cases htodo : w.todo with
  | cons m todo =>
    refine ⟨.send, { w with todo := todo, chan := w.chan.write (mesg_send m) }, trivial, ?_, ?_⟩
    · simp only [World.step, htodo]
    · simp [World.left, World.ahead, htodo]
  | nil =>
    refine ⟨.close, { w with chan := w.chan.close }, trivial, ?_, ?_⟩
    · rw [World.step, if_pos ⟨htodo, hopen⟩]
    · simp [World.left, World.ahead, htodo, hopen]

/-- While not everything has been returned, some step leads on, and its reads
get what they ask for. -/
theorem Framed.down (h : Framed ms w) (hms : ∀ m ∈ ms, m.Fits) (hlive : ∀ msg, w.pc ≠ .ended msg)
    (hleft : ¬ ms.length < w.got.length) :
    ∃ a w', w.full a ∧ w.step a = some w' ∧ w'.left ms < w.left ms := by
  by_cases hopen : w.chan.closed = false
  · exact write_down w hopen
  -- all that is ahead of the reader is in the stream
  have hclosed : w.chan.closed = true := by simpa using hopen
  have hahead : w.ahead = w.chan.bytes := by
    rw [World.ahead, h.closed hclosed, List.flatMap_nil, List.append_nil]
  cases hpc : w.pc with
  | idle =>
    by_cases hnil : w.chan.bytes = []
    · refine ⟨.read 0, w.ret 0, fun hne => absurd hnil hne, ?_, ?_⟩
      · simp [World.step, hpc, Chan.read, hnil, hclosed, World.afterHeader]
        rfl
      · simp only [World.left, World.ret, World.ahead, List.length_append, List.length_singleton]
        omega
    · obtain ⟨m, hm, hnext⟩ := h.next hpc (by rw [hahead]; exact hnil)
      have hlen : MESGHDRSIZE ≤ w.chan.bytes.length := by
        rw [← hahead, hnext, mesg_send_eq (hms m (List.mem_of_getElem? hm))]
        simp
      have hr := Chan.read_of_le (by decide) (le_refl MESGHDRSIZE) hlen
      have hget := Chan.read_eq_some hr
      refine ⟨.read MESGHDRSIZE, _, fun _ => by rw [World.asked, hpc], ?_,
        (rest_afterHeader _ (w.chan.bytes.take MESGHDRSIZE)).left_lt hget.2.1 hget.1 ?_⟩
      · simp only [World.step, hpc, World.asked, hr, Option.map_some]
      · rw [ne_eq, List.take_eq_nil_iff]
        exact fun hor => hor.elim (by decide) hnil
  | body =>
    obtain ⟨hpos, hle⟩ := h.data_there hms hpc
    rw [hahead] at hle
    have hr := Chan.read_of_le hpos (le_refl w.asked) hle
    have hget := Chan.read_eq_some hr
    refine ⟨.read w.asked, _, fun _ => rfl, ?_,
      (rest_afterData _ (w.chan.bytes.take w.asked)).left_lt hget.2.1 hget.1 ?_⟩
    · simp only [World.step, hpc, hr, Option.map_some]
    · rw [ne_eq, ← List.length_eq_zero_iff, List.length_take]
      omega
  | ended msg => exact absurd hpc (hlive msg)
  | overrun => exact absurd hpc h.inside

/-- While every read gets what it asks for, all the messages can still be
returned, and then the end of the file. -/
theorem finishes_of_full (hms : ∀ m ∈ ms, m.Fits) (h : (machine ms).Reach World.full w) :
    ∃ w', ((machine ms).startedAt w).Reach World.full w' ∧ ms.length < w'.got.length := by
  apply h.finishes (World.left ms)
  intro w hw hleft
  exact (framed_of_reach hms hw).down hms (goes_on_of_full hms hw) hleft

/-- No message is longer than the structure. -/
theorem length_mesg_send_le (m : Mesg) (h : m.Fits) : (mesg_send m).length ≤ 4096 := by
  obtain ⟨hlo, hhi⟩ := h
  rw [mesg_send_eq ⟨hlo, hhi⟩, List.length_append, length_header, length_data ⟨hlo, hhi⟩]
  simp only [MAXMESGDATA, MESGHDRSIZE] at *
  omega

/-- **Messages come out as they went in.** However the stream is split, what the
calls of `mesg_recv` return is what was sent, in order, then 0, and each call
that returns leaves the stream at the next header. While every read gets what it
asks for the program goes on, and all the messages and the end of the file can
be returned; a read that gets less ends it. -/
theorem stream_messages (ms : List Mesg) (hms : ∀ m ∈ ms, m.Fits) :
    (∀ w, (machine ms).Reach (fun _ _ => True) w → Framed ms w) ∧
    (∀ w, (machine ms).Reach World.full w → (∀ msg, w.pc ≠ .ended msg) ∧
      ∃ w', ((machine ms).startedAt w).Reach World.full w' ∧ ms.length < w'.got.length) ∧
    (∀ w k w', (machine ms).Reach (fun _ _ => True) w → w.chan.bytes ≠ [] → k ≠ w.asked →
      w.step (.read k) = some w' → ∃ msg, w'.pc = .ended msg) := by
  refine ⟨fun w hw => framed_of_reach hms hw, ?_, ?_⟩
  · intro w hw
    exact ⟨goes_on_of_full hms hw, finishes_of_full hms hw⟩
  · intro w k w' hw hne hk hs
    have hframed : Framed ms w' := (framed_of_reach hms hw).step hms hs
    exact short_read_ends hne hk hs hframed.inside

/-- A message without data. -/
def emptyMesg : Mesg := ⟨0, 0, 1, List.replicate MAXMESGDATA 0, List.length_replicate⟩

theorem emptyMesg_fits : ∀ m ∈ [emptyMesg], m.Fits := by
  intro m hm
  obtain rfl := List.mem_singleton.1 hm
  constructor <;> decide

/-- A message with the data "hi". -/
def hiMesg : Mesg :=
  ⟨2, 0, 1, [104, 105] ++ List.replicate (MAXMESGDATA - 2) 0, by
    rw [List.length_append, List.length_replicate]
    decide⟩

theorem twoMesgs_fit : ∀ m ∈ [hiMesg, emptyMesg], m.Fits := by
  intro m hm
  rcases List.mem_cons.1 hm with rfl | hm
  · constructor <;> decide
  · exact emptyMesg_fits m hm

/-- A message with data and one without are sent and received, and the end of the file: the
first call has returned 2, with the two bytes. -/
theorem stream_messages_two : ∃ w', ((machine [hiMesg, emptyMesg]).startedAt
    (start [hiMesg, emptyMesg] emptyMesg)).Reach World.full w' ∧ 2 < w'.got.length ∧
      ∃ r, w'.got[0]? = some r ∧ r.1 = 2 ∧ r.2.data = [104, 105] := by
  obtain ⟨hframed, hfull, -⟩ := stream_messages [hiMesg, emptyMesg] twoMesgs_fit
  have hstart : (machine [hiMesg, emptyMesg]).Reach World.full
      (start [hiMesg, emptyMesg] emptyMesg) := .init ⟨emptyMesg, rfl⟩
  obtain ⟨w', hw', hlen⟩ := (hfull _ hstart).2
  have hlen : 2 < w'.got.length := hlen
  have hgot := (hframed w' ((hstart.append hw').mono fun _ _ _ => trivial)).got 0
    (w'.got.get ⟨0, by omega⟩) (List.getElem?_eq_getElem (by omega))
  have hdata : hiMesg.data = [104, 105] := by
    rw [Mesg.data, show hiMesg.mesg_len.toInt.toNat = 2 by decide]
    rfl
  exact ⟨w', hw', hlen, _, List.getElem?_eq_getElem (by omega), hgot.1.trans (by decide),
    hgot.2.data.trans hdata⟩

/-- The stream after the message was sent: a read may get the first half of the
header, and then the program ends. -/
theorem half_header_ends : ¬ ∀ ms : List Mesg, (∀ m ∈ ms, m.Fits) →
    ∀ w, (machine ms).Reach (fun _ _ => True) w → ∀ msg, w.pc ≠ .ended msg := by
  intro h
  have hrun : ((machine [emptyMesg]).exec (fun _ _ => True) (start [emptyMesg] emptyMesg)
      [.send, .read 8]).isSome = true := by decide
  have hreach := Machine.Reach.run (machine [emptyMesg]) (fun _ _ => True)
    (s := start [emptyMesg] emptyMesg) ⟨emptyMesg, rfl⟩ _ hrun
  exact h _ emptyMesg_fits _ hreach "message header read error" rfl

end Runs

end UnixNetProg.StreamMessages

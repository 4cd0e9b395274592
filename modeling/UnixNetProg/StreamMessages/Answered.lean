/-
What comes of a conversation.

The two are taken through it in turns: whoever has something to do next does it. The
client opens the FIFOs and sends the name it reads; the server answers with a message for
each chunk of the file, and the client writes each to the standard output before the next
one is sent. The end of the answer is an empty message or the end of the file, and the
two go. As the order of the steps makes no difference, what this one schedule comes to,
`ending`, is what every conversation comes to.
-/
import UnixNetProg.StreamMessages.AnyOrder

set_option autoImplicit false

namespace UnixNetProg.StreamMessages.Conversation

open UnixNetProg.Bytes UnixNetProg.Duplex UnixNetProg.Runs UnixNetProg.Runs.Machine
open UnixNetProg.Stdio

/-! ## The name -/

/-- The name in a line: up to a null byte or a newline. -/
def filename (line : List UInt8) : List UInt8 := line.takeWhile fun b => b != nul && b != newline

section Name

variable {input line u : List UInt8} {n : ℕ}

/-- A line is ended by its newline, if it has one. -/
theorem line_eq (h : Stdio.fgets n input = some line) :
    ∃ u, newline ∉ u ∧ (line = u ∨ line = u ++ [newline]) := by
  unfold Stdio.fgets at h
  split_ifs at h with hnil
  have hpre : newline ∉ input.takeWhile (· != newline) := by
    intro hmem
    simpa using List.mem_takeWhile_imp hmem
  have hcut : ∀ k, newline ∉ (input.takeWhile (· != newline)).take k := fun k hmem =>
    hpre (List.mem_of_mem_take hmem)
  simp only [Option.some.injEq] at h
  split_ifs at h with hshort
  · by_cases hk : n - 1 ≤ (input.takeWhile (· != newline)).length
    · rw [List.take_append_of_le_length hk] at h
      exact ⟨_, hcut _, .inl h.symm⟩
    · rw [List.take_of_length_le (by rw [List.length_append, List.length_singleton]; omega)] at h
      exact ⟨_, hpre, .inr h.symm⟩
  · exact ⟨_, hcut _, .inl h.symm⟩

/-- Where there is no newline, the name is the string. -/
theorem filename_eq_cstr (h : newline ∉ u) : filename u = cstr u := by
  induction u with
  | nil => rfl
  | cons b u ih =>
    obtain ⟨hb, hu⟩ := not_or.1 (fun hor => h (List.mem_cons.2 hor))
    simp only [filename, cstr, List.takeWhile_cons] at ih ⊢
    by_cases h0 : b = nul
    · simp [h0]
    · simp [h0, Ne.symm hb, ih hu]

/-- Where there is one behind it, the string has it, or ends before it. -/
theorem cstr_append_newline (h : newline ∉ u) :
    cstr (u ++ [newline]) = filename (u ++ [newline]) ∧ newline ∉ cstr (u ++ [newline]) ∨
      cstr (u ++ [newline]) = filename (u ++ [newline]) ++ [newline] := by
  induction u with
  | nil => exact .inr rfl
  | cons b u ih =>
    obtain ⟨hb, hu⟩ := not_or.1 (fun hor => h (List.mem_cons.2 hor))
    by_cases h0 : b = nul
    · subst h0
      exact .inl ⟨rfl, nofun⟩
    · have hstr : cstr (b :: u ++ [newline]) = b :: cstr (u ++ [newline]) :=
        List.takeWhile_cons_of_pos (by simpa using h0)
      have hname : filename (b :: u ++ [newline]) = b :: filename (u ++ [newline]) :=
        List.takeWhile_cons_of_pos (by simpa using ⟨h0, Ne.symm hb⟩)
      rw [hstr, hname]
      rcases ih hu with ⟨heq, hmem⟩ | heq
      · exact .inl ⟨congrArg _ heq, by simp [hb, hmem]⟩
      · exact .inr (congrArg _ heq)

/-- **The string that is read is the name, or the name and a newline.** -/
theorem cstr_line (h : Stdio.fgets n input = some line) :
    cstr line = filename line ∧ newline ∉ cstr line ∨ cstr line = filename line ++ [newline] := by
  obtain ⟨u, hu, rfl | rfl⟩ := line_eq h
  · have hmem : newline ∉ cstr line := fun hmem => hu ((List.takeWhile_prefix _).subset hmem)
    exact .inl ⟨(filename_eq_cstr hu).symm, hmem⟩
  · exact cstr_append_newline hu

theorem data_put {m m' : Mesg} {bs : List UInt8} (hput : Mesg.put m bs = some m') :
    m'.header = m.header ∧ bs <+: m'.mesg_data := by
  unfold Mesg.put at hput
  split_ifs at hput with hroom
  cases hput
  exact ⟨rfl, List.prefix_append _ _⟩

/-- A byte of the string, behind the header. -/
theorem getElem_bytes {m : Mesg} {s : List UInt8} (hs : s <+: m.mesg_data) {k : ℕ}
    (hk : k < s.length) : m.bytes[MESGHDRSIZE + k]? = s[k]? := by
  obtain ⟨rest, hrest⟩ := hs
  rw [Mesg.bytes, List.getElem?_append_right (by rw [length_header]; omega), length_header,
    Nat.add_sub_cancel_left, ← hrest, List.getElem?_append_left hk]

/-- **What the client sends is the name.** -/
theorem namelen_eq (h : Stdio.fgets n input = some line) {m : Mesg}
    (hput : Mesg.put Mesg.null (line ++ [0]) = some m) :
    namelen m = (filename line).length := by
  obtain ⟨hheader, hdata⟩ := data_put hput
  have hpre : cstr line <+: m.mesg_data :=
    (List.takeWhile_prefix _).trans ((List.prefix_append _ _).trans hdata)
  have hstr : strlen m.mesg_data = (cstr line).length := congrArg List.length (cstr_put hput)
  rw [namelen, hstr]
  rcases cstr_line h with ⟨heq, hmem⟩ | heq
  · rw [← heq]
    apply if_neg
    intro hlast
    cases hlen : (cstr line).length with
    | zero =>
      -- the byte in front of `mesg_data` is null
      have hbyte : ∀ d : List UInt8, (Mesg.null.header ++ d)[15]? = some 0 := fun _ => rfl
      rw [hlen, Mesg.bytes, hheader] at hlast
      exact absurd ((hbyte _).symm.trans hlast) (by decide)
    | succ k =>
      rw [hlen] at hlast
      have hin : (cstr line)[k]? = some newline :=
        (getElem_bytes hpre (by omega)).symm.trans hlast
      exact hmem (List.mem_of_getElem? hin)
  · have hlen : (cstr line).length = (filename line).length + 1 := by simp [heq]
    have hlast : m.bytes[MESGHDRSIZE + (cstr line).length - 1]? = some newline := by
      rw [hlen]
      refine (getElem_bytes hpre (by omega)).trans ?_
      rw [heq]
      simp
    simp only [hlast, if_true]
    omega

/-- **The request**: the name, in a message. -/
theorem fgets_request (h : Stdio.fgets MAXMESGDATA input = some line) (stdout : List UInt8) :
    ∃ m : Mesg, m.Fits ∧ m.mesg_len.toInt = (filename line).length ∧ m.data = filename line ∧
      Client.fgets ⟨input, stdout, Mesg.null, .fgets⟩ =
        ⟨input.drop line.length, stdout, m, .send⟩ := by
  obtain ⟨m, hput, hlo, hhi⟩ := fits_fgets h
  have hname := namelen_eq h hput
  have hfits : (Mesg.setLen m (namelen m)).Fits := fits_setLen hlo hhi
  have hlen : (Mesg.setLen m (namelen m)).mesg_len.toInt = (filename line).length :=
    (toInt_setLen hlo hhi).trans hname
  refine ⟨{ Mesg.setLen m (namelen m) with mesg_type := 1 }, hfits, hlen, ?_, ?_⟩
  · -- the name is at the start of the line
    have hpre : filename line <+: m.mesg_data :=
      (List.takeWhile_prefix _).trans ((List.prefix_append _ _).trans (data_put hput).2)
    show m.mesg_data.take (Mesg.setLen m (namelen m)).mesg_len.toInt.toNat = filename line
    rw [hlen]
    exact (List.prefix_iff_eq_take.1 hpre).symm
  · simp only [Client.fgets, h, hput]

end Name

/-! ## A message is received -/

section Received

variable {m m₀ : Mesg}

/-- The first `read` gets the header. -/
theorem recvHeader_sent (hm : m.Fits) (m₀ : Mesg) :
    recvHeader m₀ ((mesg_send m).take MESGHDRSIZE) =
        (m₀.readHeader m.header,
          if 0 < m.mesg_len.toInt then .body else .ret m.mesg_len.toInt) ∧
      (mesg_send m).drop MESGHDRSIZE = m.data := by
  have hread := (readHeader_header m₀ m).1
  rw [mesg_send_eq hm, List.take_left' (length_header m), List.drop_left' (length_header m)]
  refine ⟨?_, rfl⟩
  rw [recvHeader, length_header, if_neg (by decide), if_neg (by simp)]
  simp only [hread]

/-- The second one gets the data. -/
theorem recvData_sent (hm : m.Fits) (hlen : m₀.mesg_len = m.mesg_len) :
    ∃ m₁, recvData m₀ m.data = (m₁, .ret m.mesg_len.toInt) ∧
      m₁.mesg_data.take m.mesg_len.toInt.toNat = m.data := by
  have hdata := length_data hm
  obtain ⟨hlo, hhi⟩ := hm
  have hroom : m.data.length ≤ MAXMESGDATA := by omega
  refine ⟨m₀.readData m.data hroom, ?_, ?_⟩
  · rw [recvData, dif_pos hroom, if_neg (by rw [hlen]; omega), hlen]
  · rw [← hdata]
    exact List.take_left

end Received

/-! ## The schedule -/

/-- Open at both ends, with nothing in it. -/
def io : Pipe UInt8 := ⟨[], .opened, .opened⟩

/-- The message of a server that has not received anything. -/
def Mesg.typed : Mesg := { Mesg.null with mesg_type := 1 }

section Schedule

variable {fs : List UInt8 → File} {capacity : Side → ℕ} {stdin input stdout : List UInt8}
  {c c' : Client} {s s' : Server} {m m₀ : Mesg} {p p' q q' : Pipe UInt8} {wm : WMove UInt8}
  {rm : RMove} {oc : Outcome UInt8}

/-- The client makes its call. -/
theorem leads_first
    (h : c.ask.perform (capacity .first) p p' (s.ask.isEnded = true) = some (wm, rm, oc))
    (hc : (program fs).after (.client c) oc = .client c') (hq : wm.apply p = q)
    (hq' : rm.apply p' = q') :
    (machine fs capacity stdin).Leads (.of (.client c) (.server s) p p')
      (.of (.client c') (.server s) q q') := by
  rw [← hc, ← hq, ← hq']
  exact ⟨1, path_first h⟩

/-- The server makes its call. -/
theorem leads_second
    (h : s.ask.perform (capacity .second) p' p (c.ask.isEnded = true) = some (wm, rm, oc))
    (hs : (program fs).after (.server s) oc = .server s') (hq : rm.apply p = q)
    (hq' : wm.apply p' = q') :
    (machine fs capacity stdin).Leads (.of (.client c) (.server s) p p')
      (.of (.client c) (.server s') q q') := by
  rw [← hs, ← hq, ← hq']
  exact ⟨1, path_second h⟩

/-- The two open the FIFOs. -/
theorem leads_opened :
    (machine fs capacity stdin).Leads (.start (forked stdin))
      (.of (.client ⟨stdin, [], Mesg.null, .fgets⟩)
        (.server ⟨Mesg.typed, .recv⟩) io io) := by
  rw [World.start_eq]
  -- each opens its end of FIFO1, and goes on as both have
  refine (leads_first rfl rfl rfl rfl).trans ?_
  refine (leads_second rfl rfl rfl rfl).trans ?_
  refine (leads_first rfl rfl rfl rfl).trans ?_
  refine (leads_second rfl rfl rfl rfl).trans ?_
  -- and the same of FIFO2
  refine (leads_first rfl rfl rfl rfl).trans ?_
  refine (leads_second rfl rfl rfl rfl).trans ?_
  refine (leads_first rfl rfl rfl rfl).trans ?_
  refine (leads_second rfl rfl rfl rfl).trans ?_
  exact .refl _

/-- A write of a message into an empty FIFO. -/
theorem perform_send {room : ℕ} {q : Pipe UInt8} {gone : Prop} [Decidable gone] (hm : m.Fits)
    (hroom : 4096 ≤ room) :
    (Req.write (mesg_send m)).perform room io q gone =
      some (.append (mesg_send m), .stay, .go []) :=
  perform_write rfl rfl rfl (mesg_send_ne_nil hm) ((length_mesg_send_le _ hm).trans hroom)

variable (fs capacity stdin)

/-- The client is about to read. -/
def Client.recv (stdin stdout : List UInt8) (m : Mesg) : Client := ⟨stdin, stdout, m, .recv⟩

/-- A message with data goes to the standard output. -/
theorem leads_message (hcap : ∀ b, 4096 ≤ capacity b) (hm : Mesg.Full m) {pc : ServAt}
    (hask : Server.ask ⟨m, pc⟩ = .write (mesg_send m)) (hnext : Server.next fs ⟨m, pc⟩ [] = s')
    (input stdout : List UInt8) (m₀ : Mesg) (p : Pipe UInt8) :
    ∃ m₁, (machine fs capacity stdin).Leads
      (.of (.client (.recv input stdout m₀)) (.server ⟨m, pc⟩) p io)
      (.of (.client (.recv input (stdout ++ m.data) m₁)) (.server s') p io) := by
  have hfits := fits_of_full hm
  obtain ⟨hheader, hrest⟩ := recvHeader_sent hfits m₀
  have hread := (readHeader_header m₀ m).1
  obtain ⟨m₁, hdata, htake⟩ := recvData_sent hfits hread
  have hlen := length_data hfits
  have hne : m.data ≠ [] := List.ne_nil_of_length_pos (hlen ▸ want_pos hm.1)
  have hsent : (machine fs capacity stdin).Leads
      (.of (.client (.recv input stdout m₀)) (.server ⟨m, pc⟩) p io)
      (.of (.client (.recv input stdout m₀)) (.server s') p ⟨mesg_send m, .opened, .opened⟩) := by
    have hperf : (Server.ask ⟨m, pc⟩).perform (capacity .second) io p
        ((Client.ask (.recv input stdout m₀)).isEnded = true) =
          some (.append (mesg_send m), .stay, .go []) := by
      rw [hask]
      exact perform_send hfits (hcap _)
    exact leads_second hperf (congrArg Proc.server hnext) rfl rfl
  have hbody : (machine fs capacity stdin).Leads
      (.of (.client (.recv input stdout m₀)) (.server s') p ⟨mesg_send m, .opened, .opened⟩)
      (.of (.client ⟨input, stdout, m₀.readHeader m.header, .body⟩) (.server s') p
        ⟨m.data, .opened, .opened⟩) := by
    refine leads_first (perform_read rfl (mesg_send_ne_nil hfits)) (congrArg Proc.client ?_) rfl
      (congrArg (Pipe.mk · End.opened End.opened) hrest)
    show Client.received _ (recvHeader m₀ ((mesg_send m).take MESGHDRSIZE)) = _
    rw [hheader, if_pos hm.1]
    rfl
  have hwrite : (machine fs capacity stdin).Leads
      (.of (.client ⟨input, stdout, m₀.readHeader m.header, .body⟩) (.server s') p
        ⟨m.data, .opened, .opened⟩)
      (.of (.client ⟨input, stdout, m₁, .write m.mesg_len.toInt.toNat⟩) (.server s') p io) := by
    have hall : m.data.take (m₀.readHeader m.header).mesg_len.toInt.toNat = m.data := by
      rw [hread, ← hlen, List.take_length]
    have hnone : m.data.drop (m₀.readHeader m.header).mesg_len.toInt.toNat = [] := by
      rw [hread, ← hlen, List.drop_length]
    refine leads_first (perform_read rfl hne) (congrArg Proc.client ?_) rfl
      (congrArg (Pipe.mk · End.opened End.opened) hnone)
    show Client.received _ (recvData (m₀.readHeader m.header) (m.data.take _)) = _
    rw [hall, hdata]
    simp [Client.received, hm.1]
  refine ⟨m₁, hsent.trans (hbody.trans (hwrite.trans ?_))⟩
  refine leads_first rfl (congrArg Proc.client ?_) rfl rfl
  show (⟨input, stdout ++ m₁.mesg_data.take _, m₁, .recv⟩ : Client) = _
  rw [htake]
  rfl

variable {stdin}

/-- The client sends the name. -/
theorem leads_asked (hcap : ∀ b, 4096 ≤ capacity b) {line : List UInt8}
    (h : Stdio.fgets MAXMESGDATA stdin = some line) :
    ∃ m : Mesg, m.Fits ∧ m.mesg_len.toInt = (filename line).length ∧ m.data = filename line ∧
      (machine fs capacity stdin).Leads (.start (forked stdin))
        (.of (.client (.recv (stdin.drop line.length) [] m))
          (.server ⟨Mesg.typed, .recv⟩)
          ⟨mesg_send m, .opened, .opened⟩ io) := by
  obtain ⟨m, hfits, hlen, hdata, hreq⟩ := fgets_request h []
  have hread : (machine fs capacity stdin).Leads
      (.of (.client ⟨stdin, [], Mesg.null, .fgets⟩) (.server ⟨Mesg.typed, .recv⟩) io io)
      (.of (.client ⟨stdin.drop line.length, [], m, .send⟩) (.server ⟨Mesg.typed, .recv⟩) io io) :=
    leads_first rfl (congrArg Proc.client hreq) rfl rfl
  refine ⟨m, hfits, hlen, hdata, leads_opened.trans (hread.trans ?_)⟩
  exact leads_first (perform_send hfits (hcap _)) rfl rfl rfl

/-- An empty name is not a request. -/
theorem leads_empty (hcap : ∀ b, 4096 ≤ capacity b) {line : List UInt8}
    (h : Stdio.fgets MAXMESGDATA stdin = some line) (hname : filename line = []) :
    ∃ m m', (machine fs capacity stdin).Leads (.start (forked stdin))
      (.of (.client (.recv (stdin.drop line.length) [] m))
        (.server ⟨m', .err_sys "server: filename read error"⟩) io io) := by
  obtain ⟨m, hfits, hlen, hdata, hasked⟩ := leads_asked fs capacity hcap h
  obtain ⟨hheader, hrest⟩ := recvHeader_sent hfits Mesg.typed
  refine ⟨m, Mesg.typed.readHeader m.header, hasked.trans ?_⟩
  refine leads_second (perform_read rfl (mesg_send_ne_nil hfits)) (congrArg Proc.server ?_)
    (congrArg (Pipe.mk · End.opened End.opened) ?_) rfl
  · show Server.received (recvHeader _ ((mesg_send m).take MESGHDRSIZE)) = _
    rw [hheader, hlen, hname]
    rfl
  · exact hrest.trans (hdata.trans hname)

/-- **The server gets the name.** -/
theorem leads_named (hcap : ∀ b, 4096 ≤ capacity b) {line : List UInt8}
    (h : Stdio.fgets MAXMESGDATA stdin = some line) (hname : filename line ≠ []) :
    ∃ m m', cstr m'.mesg_data = filename line ∧
      (machine fs capacity stdin).Leads (.start (forked stdin))
        (.of (.client (.recv (stdin.drop line.length) [] m)) (.server ⟨m', .openfile⟩) io io) := by
  obtain ⟨m, hfits, hlen, hdata, hasked⟩ := leads_asked fs capacity hcap h
  obtain ⟨hheader, hrest⟩ := recvHeader_sent hfits Mesg.typed
  have hread := (readHeader_header Mesg.typed m).1
  obtain ⟨m₁, hrecv, htake⟩ := recvData_sent hfits hread
  have hpos : 0 < m.mesg_len.toInt := by
    rw [hlen]
    exact_mod_cast List.length_pos_iff.2 hname
  have hbody : (machine fs capacity stdin).Leads
      (.of (.client (.recv (stdin.drop line.length) [] m))
        (.server ⟨Mesg.typed, .recv⟩) ⟨mesg_send m, .opened, .opened⟩ io)
      (.of (.client (.recv (stdin.drop line.length) [] m))
        (.server ⟨Mesg.typed.readHeader m.header, .body⟩)
        ⟨m.data, .opened, .opened⟩ io) := by
    refine leads_second (perform_read rfl (mesg_send_ne_nil hfits)) (congrArg Proc.server ?_)
      (congrArg (Pipe.mk · End.opened End.opened) hrest) rfl
    show Server.received (recvHeader _ ((mesg_send m).take MESGHDRSIZE)) = _
    rw [hheader, if_pos hpos]
    rfl
  have htyped : (Mesg.typed.readHeader m.header).mesg_len.toInt.toNat = m.data.length := by
    rw [hread, length_data hfits]
  obtain ⟨m₂, hput, hstr⟩ : ∃ m₂, Mesg.put m₁ (m₁.mesg_data.take m.mesg_len.toInt.toNat ++ [0]) =
      some m₂ ∧ cstr m₂.mesg_data = filename line := by
    have hroom : (filename line ++ [0]).length ≤ MAXMESGDATA := by
      have hline := length_fgets h
      have hshort : (filename line).length ≤ line.length := (List.takeWhile_prefix _).length_le
      rw [List.length_append]
      simp only [MAXMESGDATA, List.length_singleton] at hline ⊢
      omega
    rw [htake, hdata]
    refine ⟨_, put_eq hroom, (cstr_put (put_eq hroom)).trans (cstr_of_nul_free ?_)⟩
    intro h0
    simpa using List.mem_takeWhile_imp h0
  refine ⟨m, m₂, hstr, hasked.trans (hbody.trans ?_)⟩
  have hne : m.data ≠ [] := by rwa [hdata]
  refine leads_second (perform_read rfl hne) (congrArg Proc.server ?_)
    (congrArg (Pipe.mk · End.opened End.opened) ?_) rfl
  · show Server.received (recvData _ (m.data.take _)) = _
    rw [htyped, List.take_length, hrecv]
    simp only [Server.received, if_neg (Int.not_le.2 hpos), hput]
  · rw [htyped, List.drop_length]

variable (stdin)

/-- Once the server has ended, the client goes. -/
theorem leads_leave (hs : s.ask = .ended) (input stdout : List UInt8) (m : Mesg)
    (p p' : Pipe UInt8) :
    ∃ q q', (machine fs capacity stdin).Leads
      (.of (.client ⟨input, stdout, m, .wait⟩) (.server s) p p')
      (.of (.client ⟨input, stdout, m, .done⟩) (.server s) q q') := by
  have hgone : (Client.ask ⟨input, stdout, m, .wait⟩).perform (capacity .first) p p'
      (s.ask.isEnded = true) = some (.stay, .stay, .go []) := if_pos (congrArg Req.isEnded hs)
  refine ⟨⟨p.bytes, p.w.close.close, p.r⟩, ⟨p'.bytes, p'.w, p'.r.close.close⟩, ?_⟩
  refine (leads_first hgone rfl rfl rfl).trans ?_
  refine (leads_first rfl rfl rfl rfl).trans ?_
  refine (leads_first rfl rfl rfl rfl).trans ?_
  exact leads_first rfl rfl rfl rfl

/-- A server that ends with an error ends the answer. -/
theorem leads_gone (input stdout : List UInt8) (m m₀ : Mesg) (msg : String) (p : Pipe UInt8) :
    ∃ q q', (machine fs capacity stdin).Leads
      (.of (.client (.recv input stdout m₀)) (.server ⟨m, .err_sys msg⟩) p io)
      (.of (.client ⟨input, stdout, m₀, .done⟩) (.server ⟨m, .ended msg⟩) q q') := by
  have hended : Server.ask ⟨m, .ended msg⟩ = .ended := rfl
  obtain ⟨q, q', hleave⟩ := leads_leave fs capacity stdin hended input stdout m₀
    ⟨p.bytes, p.w, p.r.close⟩ ⟨[], .closed, .opened⟩
  refine ⟨q, q', (leads_second rfl rfl rfl rfl).trans (.trans ?_ hleave)⟩
  exact leads_first rfl rfl rfl rfl

/-- The empty message ends the answer. -/
theorem leads_end (hcap : ∀ b, 4096 ≤ capacity b) (hm : m.mesg_len.toInt = 0)
    (input stdout : List UInt8) (m₀ : Mesg) (p : Pipe UInt8) :
    ∃ m₁ q q', (machine fs capacity stdin).Leads
      (.of (.client (.recv input stdout m₀)) (.server ⟨m, .sendend⟩) p io)
      (.of (.client ⟨input, stdout, m₁, .done⟩) (.server ⟨m, .done⟩) q q') := by
  have hfits : m.Fits := by
    rw [Mesg.Fits, hm]
    decide
  obtain ⟨hheader, -⟩ := recvHeader_sent hfits m₀
  have hsent : (machine fs capacity stdin).Leads
      (.of (.client (.recv input stdout m₀)) (.server ⟨m, .sendend⟩) p io)
      (.of (.client (.recv input stdout m₀)) (.server ⟨m, .closeread⟩) p
        ⟨mesg_send m, .opened, .opened⟩) :=
    leads_second (perform_send hfits (hcap _)) rfl rfl rfl
  have hlast : (machine fs capacity stdin).Leads
      (.of (.client (.recv input stdout m₀)) (.server ⟨m, .closeread⟩) p
        ⟨mesg_send m, .opened, .opened⟩)
      (.of (.client (.recv input stdout m₀)) (.server ⟨m, .done⟩)
        ⟨p.bytes, p.w, p.r.close.close⟩ ⟨mesg_send m, .closed, .opened⟩) := by
    refine (leads_second rfl rfl rfl rfl).trans ?_
    refine (leads_second rfl rfl rfl rfl).trans ?_
    exact leads_second rfl rfl rfl rfl
  have hended : Server.ask ⟨m, .done⟩ = .ended := rfl
  obtain ⟨q, q', hleave⟩ := leads_leave fs capacity stdin hended input stdout
    (m₀.readHeader m.header) ⟨p.bytes, p.w, p.r.close.close⟩
    ⟨(mesg_send m).drop MESGHDRSIZE, .closed, .opened⟩
  refine ⟨m₀.readHeader m.header, q, q', hsent.trans (hlast.trans (.trans ?_ hleave))⟩
  refine leads_first (perform_read rfl (mesg_send_ne_nil hfits)) (congrArg Proc.client ?_) rfl rfl
  show Client.received _ (recvHeader m₀ ((mesg_send m).take MESGHDRSIZE)) = _
  rw [hheader, hm]
  rfl

/-- The file goes to the standard output, a chunk at a time. -/
theorem leads_chunks (hcap : ∀ b, 4096 ≤ capacity b) (input stdout : List UInt8)
    (chunks : List Chunk) (fails : Bool) (m m₀ : Mesg) (p : Pipe UInt8) :
    ∃ m' m₁, (machine fs capacity stdin).Leads
      (.of (.client (.recv input stdout m₀)) (.server ⟨m, .readfile chunks fails⟩) p io)
      (.of (.client (.recv input (stdout ++ chunks.flatMap fun chunk => chunk.1) m₁))
        (.server ⟨m', .readfile [] fails⟩) p io) := by
  induction chunks generalizing stdout m m₀ with
  | nil =>
    refine ⟨m, m₀, ?_⟩
    rw [List.flatMap_nil, List.append_nil]
    exact .refl _
  | cons chunk chunks ih =>
    obtain ⟨chunk, hpos, hle⟩ := chunk
    have hlen : (Mesg.setLen (m.readData chunk hle) chunk.length).mesg_len.toInt = chunk.length :=
      toInt_setLen (by omega) (by omega)
    have hdata : (Mesg.setLen (m.readData chunk hle) chunk.length).data = chunk := by
      rw [Mesg.data, hlen]
      exact List.take_left
    have hfull : Mesg.Full (Mesg.setLen (m.readData chunk hle) chunk.length) :=
      full_setLen hpos hle
    have hask : Server.ask ⟨Mesg.setLen (m.readData chunk hle) chunk.length,
        .senddata chunks fails⟩ = .write (mesg_send _) := rfl
    obtain ⟨m₁, hsent⟩ := leads_message fs capacity stdin hcap hfull hask rfl input stdout m₀ p
    obtain ⟨m', m₂, hrest⟩ := ih (stdout ++ chunk) _ m₁
    refine ⟨m', m₂, (leads_second rfl rfl rfl rfl).trans (hsent.trans ?_)⟩
    rw [hdata, List.flatMap_cons, ← List.append_assoc]
    exact hrest

end Schedule

/-! ## The end -/

/-- What the client has written in the end, and how the two have ended. -/
structure Ending where
  stdout : List UInt8
  cli : CliAt
  serv : ServAt

/-- What comes of a request for `name`. A server that puts its error message behind a name
that leaves no room for it writes past the end of `mesg_data`. -/
def answer (name : List UInt8) : File → Ending
  | .cannot err =>
    if name.length + (errmesg err.1.1).length < MAXMESGDATA then
      ⟨name ++ errmesg err.1.1, .done, .done⟩
    else ⟨[], .recv, .overrun⟩
  | .opens .fails _ _ => ⟨[], .done, .ended "[ERROR] cannot check the opened file"⟩
  | .opens .directory _ _ => ⟨[], .done, .ended "server: cannot open directory"⟩
  | .opens .other chunks fails =>
    ⟨chunks.flatMap fun chunk => chunk.1, .done,
      if fails then .ended "server: read error" else .done⟩

/-- What comes of the input. -/
def ending (fs : List UInt8 → File) (stdin : List UInt8) : Ending :=
  match Stdio.fgets MAXMESGDATA stdin with
  | none => ⟨[], .ended "filename read error", .ended "server: filename read error"⟩
  | some line =>
    if filename line = [] then ⟨[], .done, .ended "server: filename read error"⟩
    else answer (filename line) (fs (filename line))

/-- The two have come to this end. -/
def Ending.Of (e : Ending) (w : Duplex.World Proc UInt8) : Prop :=
  ∃ c s, w.st .first = .client c ∧ w.st .second = .server s ∧
    c.stdout = e.stdout ∧ c.pc = e.cli ∧ s.pc = e.serv

section End

variable {fs : List UInt8 → File} {capacity : Side → ℕ} {stdin input : List UInt8} {m m' : Mesg}
  {e : Ending} {w : Duplex.World Proc UInt8}

/-- One conversation comes to this end. -/
def Comes (fs : List UInt8 → File) (capacity : Side → ℕ) (stdin : List UInt8)
    (w : Duplex.World Proc UInt8) (e : Ending) : Prop :=
  ∃ f, (machine fs capacity stdin).Leads w f ∧ (machine fs capacity stdin).Final f ∧ e.Of f

theorem Comes.of_leads {w' : Duplex.World Proc UInt8}
    (h : (machine fs capacity stdin).Leads w w') (h' : Comes fs capacity stdin w' e) :
    Comes fs capacity stdin w e := by
  obtain ⟨f, hf, hrest⟩ := h'
  exact ⟨f, h.trans hf, hrest⟩

/-- A server that ends with an error. -/
theorem comes_gone (stdout : List UInt8) (msg : String) :
    Comes fs capacity stdin
      (.of (.client (.recv input stdout m)) (.server ⟨m', .err_sys msg⟩) io io)
      ⟨stdout, .done, .ended msg⟩ := by
  obtain ⟨q, q', h⟩ := leads_gone fs capacity stdin input stdout m' m msg io
  exact ⟨_, h, final_of_ended rfl rfl, _, _, rfl, rfl, rfl, rfl, rfl⟩

/-- A server that sends the empty message. -/
theorem comes_end (hcap : ∀ b, 4096 ≤ capacity b) (stdout : List UInt8)
    (hm' : m'.mesg_len.toInt = 0) :
    Comes fs capacity stdin (.of (.client (.recv input stdout m)) (.server ⟨m', .sendend⟩) io io)
      ⟨stdout, .done, .done⟩ := by
  obtain ⟨m₁, q, q', h⟩ := leads_end fs capacity stdin hcap hm' input stdout m io
  exact ⟨_, h, final_of_ended rfl rfl, _, _, rfl, rfl, rfl, rfl, rfl⟩

theorem length_errmesg_lt (err : ErrStr) : (errmesg err.1.1).length < ERRMESG :=
  Exchange.length_errmesg_lt err.1.2 (by decide)

/-- The error message goes behind the name. -/
theorem openfile_cannot {name : List UInt8} {err : ErrStr} (hname : cstr m'.mesg_data = name)
    (hfile : fs name = .cannot err) (hroom : name.length + (errmesg err.1.1).length < MAXMESGDATA) :
    ∃ m₁, Server.openfile fs ⟨m', .openfile⟩ = ⟨m₁, .senderr⟩ ∧ Mesg.Full m₁ ∧
      m₁.data = name ++ errmesg err.1.1 := by
  subst hname
  obtain ⟨m₁, hput⟩ :
      ∃ m₁, Mesg.put m' (cstr m'.mesg_data ++ errmesg err.1.1 ++ [0]) = some m₁ := by
    refine ⟨_, put_eq ?_⟩
    rw [List.length_append, List.length_append, List.length_singleton]
    exact hroom
  have hnul : nul ∉ cstr m'.mesg_data ++ errmesg err.1.1 := by
    simp [nul_notMem_cstr, nul_notMem_errmesg]
  have hstr : cstr m₁.mesg_data = cstr m'.mesg_data ++ errmesg err.1.1 :=
    (cstr_put hput).trans (cstr_of_nul_free hnul)
  have hlen : (Mesg.setLen m₁ (strlen m₁.mesg_data)).mesg_len.toInt = strlen m₁.mesg_data :=
    toInt_setLen (by omega) (by exact_mod_cast (strlen_le _).trans_eq m₁.size)
  refine ⟨Mesg.setLen m₁ (strlen m₁.mesg_data), ?_, full_errmesg hput, ?_⟩
  · simp only [Server.openfile, hfile, if_pos (length_errmesg_lt err), hput]
  · show m₁.mesg_data.take (Mesg.setLen m₁ (strlen m₁.mesg_data)).mesg_len.toInt.toNat = _
    rw [hlen, ← hstr]
    exact take_strlen m₁.mesg_data

/-- Where there is no room behind it, it overruns the message. -/
theorem openfile_overrun {name : List UInt8} {err : ErrStr} (hname : cstr m'.mesg_data = name)
    (hfile : fs name = .cannot err)
    (hroom : ¬ name.length + (errmesg err.1.1).length < MAXMESGDATA) :
    Server.openfile fs ⟨m', .openfile⟩ = ⟨m', .overrun⟩ := by
  have hput : Mesg.put m' (name ++ errmesg err.1.1 ++ [0]) = none := by
    apply dif_neg
    simp only [List.length_append, List.length_singleton]
    omega
  simp only [Server.openfile, hname, hfile, if_pos (length_errmesg_lt err), hput]

/-- **What comes of a name.** -/
theorem comes_answer (hcap : ∀ b, 4096 ≤ capacity b) {name : List UInt8}
    (hname : cstr m'.mesg_data = name) :
    Comes fs capacity stdin (.of (.client (.recv input [] m)) (.server ⟨m', .openfile⟩) io io)
      (answer name (fs name)) := by
  cases hfile : fs name with
  | cannot err =>
    by_cases hroom : name.length + (errmesg err.1.1).length < MAXMESGDATA
    · obtain ⟨m₁, hopen, hfull, hdata⟩ := openfile_cannot hname hfile hroom
      have herr : (machine fs capacity stdin).Leads
          (.of (.client (.recv input [] m)) (.server ⟨m', .openfile⟩) io io)
          (.of (.client (.recv input [] m)) (.server ⟨m₁, .senderr⟩) io io) :=
        leads_second rfl (congrArg Proc.server hopen) rfl rfl
      have hask : Server.ask ⟨m₁, .senderr⟩ = .write (mesg_send m₁) := rfl
      obtain ⟨m₂, hsent⟩ := leads_message fs capacity stdin hcap hfull hask rfl input [] m io
      rw [hdata] at hsent
      rw [answer, if_pos hroom]
      exact (comes_end hcap _ (toInt_setLen le_rfl (by decide))).of_leads (herr.trans hsent)
    · rw [answer, if_neg hroom]
      have hopen := openfile_overrun hname hfile hroom
      refine ⟨_, leads_second rfl (congrArg Proc.server hopen) rfl rfl, ?_, _, _, rfl, rfl, rfl,
        rfl, rfl⟩
      intro b
      cases b <;> rfl
  | opens stat chunks fails =>
    have hopen : (machine fs capacity stdin).Leads
        (.of (.client (.recv input [] m)) (.server ⟨m', .openfile⟩) io io)
        (.of (.client (.recv input [] m)) (.server ⟨m', .fstat stat chunks fails⟩) io io) := by
      refine leads_second rfl (congrArg Proc.server ?_) rfl rfl
      show Server.openfile fs ⟨m', .openfile⟩ = _
      simp only [Server.openfile, hname, hfile]
    cases stat with
    | fails =>
      exact (comes_gone [] _).of_leads (hopen.trans (leads_second rfl rfl rfl rfl))
    | directory =>
      exact (comes_gone [] _).of_leads (hopen.trans (leads_second rfl rfl rfl rfl))
    | other =>
      obtain ⟨m₁, m₂, hread⟩ := leads_chunks fs capacity stdin hcap input [] chunks fails m' m io
      have hfile := hopen.trans ((leads_second rfl rfl rfl rfl).trans hread)
      cases fails with
      | true => exact (comes_gone _ _).of_leads (hfile.trans (leads_second rfl rfl rfl rfl))
      | false =>
        exact (comes_end hcap _ (toInt_setLen le_rfl (by decide))).of_leads
          (hfile.trans (leads_second rfl rfl rfl rfl))

/-- Without a line there is no request. -/
theorem comes_left (h : Stdio.fgets MAXMESGDATA stdin = none) :
    Comes fs capacity stdin (.start (forked stdin))
      ⟨[], .ended "filename read error", .ended "server: filename read error"⟩ := by
  have hleft : (machine fs capacity stdin).Leads
      (.of (.client ⟨stdin, [], Mesg.null, .fgets⟩) (.server ⟨Mesg.typed, .recv⟩) io io)
      (.of (.client ⟨stdin, [], Mesg.null, .err_sys "filename read error"⟩)
        (.server ⟨Mesg.typed, .recv⟩) io io) := by
    refine leads_first rfl (congrArg Proc.client ?_) rfl rfl
    show Client.fgets _ = _
    simp only [Client.fgets, h]
  refine ⟨.of (.client ⟨stdin, [], Mesg.null, .ended "filename read error"⟩)
    (.server ⟨Mesg.typed, .ended "server: filename read error"⟩) ⟨[], .closed, .closed⟩
    ⟨[], .closed, .closed⟩, leads_opened.trans (hleft.trans ?_), final_of_ended rfl rfl,
    _, _, rfl, rfl, rfl, rfl, rfl⟩
  -- the client goes, and the server finds the end of the file
  refine (leads_first rfl rfl rfl rfl).trans ?_
  refine (leads_second rfl rfl rfl rfl).trans ?_
  exact leads_second rfl rfl rfl rfl

/-- One conversation comes to `ending`. -/
theorem comes_ending (hcap : ∀ b, 4096 ≤ capacity b) :
    Comes fs capacity stdin (.start (forked stdin)) (ending fs stdin) := by
  unfold ending
  cases hline : Stdio.fgets MAXMESGDATA stdin with
  | none => exact comes_left hline
  | some line =>
    simp only
    split_ifs with hname
    · obtain ⟨m, m', hempty⟩ := leads_empty fs capacity hcap hline hname
      exact (comes_gone [] _).of_leads hempty
    · obtain ⟨m, m', hstr, hnamed⟩ := leads_named fs capacity hcap hline hname
      exact (comes_answer hcap hstr).of_leads hnamed

/-- **Every conversation comes to the same end, after the same number of steps**, however
the two are scheduled: the file on the standard output of the client, or what else there
is to say of it. -/
theorem conversation (fs : List UInt8 → File) (capacity : Side → ℕ) (stdin : List UInt8)
    (hcap : ∀ b, 4096 ≤ capacity b) :
    ∃ n f, (ending fs stdin).Of f ∧ (machine fs capacity stdin).Final f ∧
      ∀ w, (machine fs capacity stdin).Reach (fun _ _ => True) w →
        ∃ m k, Path (machine fs capacity stdin) m (.start (forked stdin)) w ∧ m + k = n ∧
          Path (machine fs capacity stdin) k w f := by
  obtain ⟨f, ⟨n, hf⟩, hfinal, hof⟩ : Comes fs capacity stdin _ (ending fs stdin) :=
    comes_ending hcap
  exact ⟨n, f, hof, hfinal, fun w hw => one_schedule hf hfinal hw⟩

/-- A file of two chunks under every name. -/
def letters (_ : List UInt8) : File :=
  .opens .other [⟨[65, 66], by decide⟩, ⟨[67], by decide⟩] false

theorem conversation_letters :
    ending letters (ascii "abc\n") = ⟨ascii "ABC", .done, .done⟩ ∧
      ∃ n f, (ending letters (ascii "abc\n")).Of f ∧
        (machine letters (fun _ => 65536) (ascii "abc\n")).Final f ∧
        ∀ w, (machine letters (fun _ => 65536) (ascii "abc\n")).Reach (fun _ _ => True) w →
          ∃ m k, Path (machine letters (fun _ => 65536) (ascii "abc\n")) m
              (.start (forked (ascii "abc\n"))) w ∧ m + k = n ∧
            Path (machine letters (fun _ => 65536) (ascii "abc\n")) k w f :=
  ⟨rfl, conversation letters (fun _ => 65536) (ascii "abc\n") fun _ => by decide⟩

end End

end UnixNetProg.StreamMessages.Conversation

/-
`2.udp` over a network that may lose datagrams.

Nothing is sent a second time, so a client whose datagram is lost waits for ever (`Lost`). But
this is all that goes wrong. What it has put out is right, and so is what the others put out;
and as long as nothing of a client has been lost it can be served to the end, whatever has
been lost of the others (`lost_iff`).

To see the last, let the server work off what it has received, and only then let the client
or the network move: `left` goes down with every step.
-/
import UnixNetProg.UdpEcho.Faithful

set_option autoImplicit false

namespace UnixNetProg.UdpEcho

open UnixNetProg.Datagrams UnixNetProg.Runs UnixNetProg.Runs.Machine UnixNetProg.Stdio

variable {κ : Type} [DecidableEq κ]

/-! ## The network -/

/-- A step of the reliable system, or the network loses or doubles a datagram. -/
inductive NetAct (κ : Type)
  | does (a : Act κ)
  | loses (d : Datagram (Addr κ) Char)
  | doubles (d : Datagram (Addr κ) Char)

def World.netStep (w : World κ) : NetAct κ → Option (World κ)
  | .does a => w.step a
  | .loses d => (w.net.lose d).map fun net => { w with net := net }
  | .doubles d => (w.net.double d).map fun net => { w with net := net }

def unreliable (input : κ → List Char) : Machine (World κ) (NetAct κ) where
  init := (machine input).init
  step := World.netStep

/-- The network doubles nothing. -/
def NetAct.single : NetAct κ → Prop
  | .does _ | .loses _ => True
  | .doubles _ => False

/-- Nothing is lost or doubled, and no call fails. -/
def NetAct.fine : NetAct κ → Prop
  | .does (.cli _) | .does .serv | .does (.arrive _) => True
  | .does (.cliFails _) | .does .servFails | .loses _ | .doubles _ => False

instance (a : NetAct κ) : Decidable a.single := by
  cases a <;> unfold NetAct.single <;> infer_instance

/-- What the client has sent, and not got back, is nowhere. -/
def Lost (w : World κ) (a : κ) : Prop := (w.cli a).pc = .recvfrom ∧ w.about a = []

instance (w : World κ) (a : κ) : Decidable (Lost w a) := inferInstanceAs (Decidable (_ ∧ _))

/-! ## What is put out -/

section Safety

variable {input : κ → List Char} {w w' : World κ} {act : NetAct κ}

/-- A datagram is lost. -/
theorem Own.loses (h : Own input w) {d : Datagram (Addr κ) Char} {net : Net (Addr κ) Char}
    (hlose : w.net.lose d = some net) : Own input { w with net := net } := by
  have hall := Net.all_lose hlose
  refine ⟨h.cli, fun b => ?_, fun e he => h.routed e (hall.mem_iff.2 (List.mem_cons_of_mem _ he)),
    h.addr⟩
  have habout : (w.about b).Perm (if isOf b d = true then
      d.data :: World.about { w with net := net } b else World.about { w with net := net } b) :=
    about_cons (w := { w with net := net }) hall rfl
  by_cases hof : isOf b d = true
  · rw [if_pos hof] at habout
    exact .inl (data_of_about (h.flight b) habout).2.1
  · rw [if_neg hof] at habout
    exact flight_of_perm (h.flight b) habout.symm

theorem Own.netStep (h : Own input w) (hsingle : act.single) (hs : w.netStep act = some w') :
    Own input w' := by
  cases act with
  | does a => exact h.step hs
  | loses d =>
    obtain ⟨net, hlose, rfl⟩ := Option.map_eq_some_iff.1 hs
    exact h.loses hlose
  | doubles d => exact hsingle.elim

theorem own_of_reach (htext : ∀ a, '\x00' ∉ input a)
    (h : (unreliable input).Reach (fun _ a => a.single) w) : Own input w := by
  refine h.invariant ?_ fun s a t _ hinv hok hs => hinv.netStep hok hs
  rintro w ⟨mesg, n, addr, rfl⟩
  exact ⟨fun a => Client.Own.start (htext a), fun _ => .inl rfl,
    fun _ hd => absurd hd List.not_mem_nil, fun hpc => ServAt.noConfusion hpc⟩

end Safety

/-! ## A client whose datagram is lost -/

section Lost

variable {input : κ → List Char} {w w' : World κ} {a : κ} {act : NetAct κ}

theorem about_eq_nil_iff : w.about a = [] ↔ (∀ d ∈ w.net.all, ¬ isOf a d = true) ∧
    ¬ (w.serv.pc = .sendto ∧ w.serv.pcli_addr = .cli a) := by
  rw [World.about, List.append_eq_nil_iff, List.map_eq_nil_iff, List.filter_eq_nil_iff,
    Server.held]
  refine and_congr_right' ?_
  by_cases hheld : w.serv.pc = .sendto ∧ w.serv.pcli_addr = .cli a
  · rw [if_pos hheld]
    exact iff_of_false (List.cons_ne_nil _ _) fun h => h hheld
  · rw [if_neg hheld]
    exact iff_of_true rfl hheld

theorem not_isOf {d : Datagram (Addr κ) Char} (h : ¬ isOf a d = true) :
    d.src ≠ .cli a ∧ d.dst ≠ .cli a := by
  constructor <;> intro heq <;> exact h (by simp [isOf, heq])

/-- **It waits for ever**, whatever happens, or gives up. -/
theorem Lost.step (h : (w.cli a).Waits ∧ w.about a = []) (hs : w.netStep act = some w') :
    ((w'.cli a).Waits ∧ w'.about a = []) ∧ (w'.cli a).stdout = (w.cli a).stdout := by
  obtain ⟨hwaits, habout⟩ := h
  obtain ⟨hnet, hheld⟩ := about_eq_nil_iff.1 habout
  -- another client changes nothing of this one
  have other {b : κ} {c : Client} {net : Net (Addr κ) Char} (hb : a ≠ b)
      (hall : ∀ d ∈ net.all, ¬ isOf a d = true) :
      let u : World κ := { w with net := net }.setCli b c
      ((u.cli a).Waits ∧ u.about a = []) ∧ (u.cli a).stdout = (w.cli a).stdout := by
    intro u
    have hsame : u.cli a = w.cli a := setCli_of_ne hb
    rw [hsame]
    exact ⟨⟨hwaits, about_eq_nil_iff.2 ⟨hall, hheld⟩⟩, rfl⟩
  -- and the rest of the world none of the clients
  have rest {net : Net (Addr κ) Char} {serv : Server κ} (hall : ∀ d ∈ net.all, ¬ isOf a d = true)
      (hserv : ¬ (serv.pc = .sendto ∧ serv.pcli_addr = .cli a)) :
      let u : World κ := ⟨net, serv, w.cli⟩
      ((u.cli a).Waits ∧ u.about a = []) ∧ (u.cli a).stdout = (w.cli a).stdout :=
    ⟨⟨hwaits, about_eq_nil_iff.2 ⟨hall, hserv⟩⟩, rfl⟩
  cases act with
  | does act =>
    cases act with
    | cli b =>
      by_cases hb : a = b
      · -- there is nothing for it to receive
        subst hb
        rcases hwaits with hpc | ⟨msg, hpc⟩
        · simp only [World.netStep, World.step, World.cliStep, hpc] at hs
          obtain ⟨⟨d, net⟩, hrecv, -⟩ := Option.map_eq_some_iff.1 hs
          obtain ⟨hdst, hall⟩ := Net.all_recvfrom hrecv
          exact absurd hdst (not_isOf (hnet d (hall.mem_iff.2 List.mem_cons_self))).2
        · simp only [World.netStep, World.step, World.cliStep, hpc] at hs
          cases hs
      · simp only [World.netStep, World.step, World.cliStep] at hs
        split at hs
        · cases hs
          exact other hb hnet
        · cases hs
          refine other hb fun d hd => ?_
          rcases List.mem_cons.1 hd with rfl | hd
          · simp [isOf, Ne.symm hb]
          · exact hnet d hd
        · obtain ⟨⟨d, net⟩, hrecv, rfl⟩ := Option.map_eq_some_iff.1 hs
          obtain ⟨-, hall⟩ := Net.all_recvfrom hrecv
          exact other hb fun e he => hnet e (hall.mem_iff.2 (List.mem_cons_of_mem _ he))
        · cases hs
          exact other hb hnet
        · cases hs
        · cases hs
    | serv =>
      simp only [World.netStep, World.step, World.servStep] at hs
      split at hs
      · obtain ⟨⟨d, net⟩, hrecv, rfl⟩ := Option.map_eq_some_iff.1 hs
        obtain ⟨-, hall⟩ := Net.all_recvfrom hrecv
        refine rest (fun e he => hnet e (hall.mem_iff.2 (List.mem_cons_of_mem _ he))) fun hsrc => ?_
        exact (not_isOf (hnet d (hall.mem_iff.2 List.mem_cons_self))).1 hsrc.2
      · rename_i hpc
        cases hs
        refine rest (fun d hd => ?_) fun hsend => ServAt.noConfusion hsend.1
        rcases List.mem_cons.1 hd with rfl | hd
        · have haddr : w.serv.pcli_addr ≠ .cli a := fun haddr => hheld ⟨hpc, haddr⟩
          simp [isOf, haddr]
        · exact hnet d hd
      · cases hs
    | arrive d =>
      obtain ⟨net, harrive, rfl⟩ := Option.map_eq_some_iff.1 hs
      exact rest (fun e he => hnet e ((Net.all_arrive harrive).mem_iff.1 he)) hheld
    | cliFails b =>
      obtain ⟨msg, -, rfl⟩ := Option.map_eq_some_iff.1 hs
      by_cases hb : a = b
      · subst hb
        rw [setCli_self, setCli_about]
        exact ⟨⟨.inr ⟨msg, rfl⟩, habout⟩, rfl⟩
      · exact other hb hnet
    | servFails =>
      obtain ⟨msg, -, rfl⟩ := Option.map_eq_some_iff.1 hs
      exact rest hnet fun hsend => ServAt.noConfusion hsend.1
  | loses d =>
    obtain ⟨net, hlose, rfl⟩ := Option.map_eq_some_iff.1 hs
    have hall := Net.all_lose hlose
    exact rest (fun e he => hnet e (hall.mem_iff.2 (List.mem_cons_of_mem _ he))) hheld
  | doubles d =>
    obtain ⟨net, hdouble, rfl⟩ := Option.map_eq_some_iff.1 hs
    obtain ⟨hd, hall⟩ := Net.all_double hdouble
    refine rest (fun e he => ?_) hheld
    rw [hall] at he
    rcases List.mem_cons.1 he with rfl | he
    · exact hnet _ hd
    · exact hnet e he

theorem Lost.run (h : Lost w a)
    (hrun : ((unreliable input).startedAt w).Reach (fun _ _ => True) w') :
    (w'.cli a).Waits ∧ (w'.cli a).stdout = (w.cli a).stdout := by
  suffices hall : ((w'.cli a).Waits ∧ w'.about a = []) ∧ (w'.cli a).stdout = (w.cli a).stdout from
    ⟨hall.1.1, hall.2⟩
  induction hrun with
  | init hinit =>
    obtain rfl := hinit
    exact ⟨⟨.inl h.1, h.2⟩, rfl⟩
  | step _ _ hs ih =>
    obtain ⟨hkeeps, hsame⟩ := Lost.step ih.1 hs
    exact ⟨hkeeps, hsame.trans ih.2⟩

end Lost

/-! ## The way to the end -/

/-- How far the datagram of a client that waits is: in front of the server it has two ways
through the network to go, behind it one. -/
def World.place (w : World κ) (a : κ) : ℕ :=
  if w.net.flying.any fun d => d.src = .cli a then 4
  else if w.net.arrived.any fun d => d.dst = .cli a then 2
  else 3

/-- The steps that a client has left, with those of the network. -/
def Client.left (c : Client) (place : ℕ) : ℕ :=
  match c.pc with
  | .fgets => 6 * (chunks MAXLINE c.stdin).length + 1
  | .sendto => 6 * (chunks MAXLINE c.stdin).length + 6
  | .recvfrom => 6 * (chunks MAXLINE c.stdin).length + place + 1
  | .fputs => 6 * (chunks MAXLINE c.stdin).length + 2
  | .done | .ended _ => 0

/-- What the server has received, or has waiting. -/
def World.queued (w : World κ) : ℕ :=
  2 * (w.net.arrived.countP fun d => d.dst = .serv) + if w.serv.pc = .sendto then 1 else 0

/-- One step of the client or the network is worth more than it can give the server to do. -/
def World.left (w : World κ) (a : κ) : ℕ := 3 * (w.cli a).left (w.place a) + w.queued

section Way

variable {input : κ → List Char} {w w' : World κ} {a : κ}

theorem place_congr (hflying : (w'.net.flying.any fun d => d.src = .cli a) =
      w.net.flying.any fun d => d.src = .cli a)
    (harrived : (w'.net.arrived.any fun d => d.dst = .cli a) =
      w.net.arrived.any fun d => d.dst = .cli a) : w'.place a = w.place a := by
  rw [World.place, World.place, hflying, harrived]

/-- The server has something to do, and does it. -/
theorem server_down (hqueued : 0 < w.queued) (hserv : ∀ msg, w.serv.pc ≠ .ended msg) :
    ∃ w', w.step .serv = some w' ∧ w'.left a < w.left a := by
  cases hpc : w.serv.pc with
  | ended msg => exact absurd hpc (hserv msg)
  | sendto =>
    refine ⟨_, by rw [World.step, World.servStep, hpc], ?_⟩
    -- what is sent does not come from a client
    have hplace : World.place { w with
        net := w.net.sendto ⟨.serv, w.serv.pcli_addr, w.serv.mesg.take w.serv.n⟩
        serv := { w.serv with pc := .recvfrom } } a = w.place a :=
      place_congr (by simp [Net.sendto]) rfl
    rw [World.left, World.left, hplace]
    simp only [World.queued, hpc, Net.sendto, if_true, reduceCtorEq, if_false]
    omega
  | recvfrom =>
    have hpos : 0 < w.net.arrived.countP fun d => d.dst = .serv := by
      simp only [World.queued, hpc, reduceCtorEq, if_false] at hqueued
      omega
    obtain ⟨d, hd, hdst⟩ := List.countP_pos_iff.1 hpos
    obtain ⟨e, hfind⟩ : ∃ e, w.net.arrived.find? (fun d => decide (d.dst = .serv)) = some e := by
      rw [← Option.isSome_iff_exists, List.find?_isSome]
      exact ⟨d, hd, hdst⟩
    have hmem := List.mem_of_find?_eq_some hfind
    have hserv : e.dst = .serv := by simpa using List.find?_some hfind
    have hrecv : w.net.recvfrom .serv =
        some (e, { w.net with arrived := w.net.arrived.erase e }) := by
      rw [Net.recvfrom, hfind, Option.map_some]
    refine ⟨_, by rw [World.step, World.servStep, hpc]; simp only [hrecv]; rfl, ?_⟩
    -- what is received does not go to a client
    have hperm := List.perm_cons_erase hmem
    have hplace : World.place { w with
        net := { w.net with arrived := w.net.arrived.erase e }
        serv := w.serv.recvfrom e } a = w.place a := by
      have hany := hperm.any_eq (f := fun d => decide (d.dst = .cli a))
      rw [List.any_cons, hserv] at hany
      simp only [reduceCtorEq, decide_false, Bool.false_or] at hany
      exact place_congr rfl hany.symm
    have hcount := hperm.countP_eq fun d => decide (d.dst = .serv)
    rw [List.countP_cons_of_pos (by simpa using hserv)] at hcount
    rw [World.left, World.left, hplace]
    simp only [World.queued, hpc, Server.recvfrom, reduceCtorEq, if_false, if_true]
    omega

/-- There is one datagram of a client at most, so it is not under way when one has arrived. -/
theorem Own.alone (h : Own input w) {d e : Datagram (Addr κ) Char} (hd : d ∈ w.net.flying)
    (he : e ∈ w.net.arrived) (hof : isOf a d = true) : ¬ isOf a e = true := by
  intro hof'
  have hone := h.faithful.flight a
  rw [World.about, List.length_append, List.length_map, Net.all, List.filter_append,
    List.length_append] at hone
  have hflying := List.length_pos_of_mem (List.mem_filter.2 ⟨hd, hof⟩)
  have harrived := List.length_pos_of_mem (List.mem_filter.2 ⟨he, hof'⟩)
  omega

theorem place_of_flying {d : Datagram (Addr κ) Char} (hd : d ∈ w.net.flying)
    (hsrc : d.src = .cli a) : w.place a = 4 :=
  if_pos (List.any_eq_true.2 ⟨d, hd, decide_eq_true hsrc⟩)

theorem place_of_none (h : ∀ d ∈ w.net.flying, d.src ≠ .cli a) :
    w.place a = if w.net.arrived.any fun d => d.dst = .cli a then 2 else 3 := by
  refine if_neg fun hany => ?_
  obtain ⟨d, hd, hsrc⟩ := List.any_eq_true.1 hany
  exact h d hd (of_decide_eq_true hsrc)

theorem two_le_place (w : World κ) (a : κ) : 2 ≤ w.place a := by
  unfold World.place
  split_ifs <;> omega

theorem three_le_place (h : ∀ d ∈ w.net.arrived, d.dst ≠ .cli a) : 3 ≤ w.place a := by
  have hnone : ¬ (w.net.arrived.any fun d => d.dst = .cli a) = true := by
    intro hany
    obtain ⟨d, hd, hdst⟩ := List.any_eq_true.1 hany
    exact h d hd (of_decide_eq_true hdst)
  unfold World.place
  rw [if_neg hnone]
  split_ifs <;> omega

/-- Where the server has nothing to do, the datagram of a client that waits arrives or is
received. -/
theorem datagram_down (h : Own input w) (hqueued : w.queued = 0) (hpc : (w.cli a).pc = .recvfrom)
    (hlost : ¬ Lost w a) :
    ∃ act w', NetAct.fine (.does act) ∧ w.step act = some w' ∧ w'.left a < w.left a := by
  -- it is in the network
  have hidle : ¬ (w.serv.pc = .sendto ∧ w.serv.pcli_addr = .cli a) := by
    rintro ⟨hsend, -⟩
    simp [World.queued, hsend] at hqueued
  have hnone : ∀ d ∈ w.net.arrived, d.dst ≠ .serv := by
    intro d hd hdst
    have hpos : 0 < w.net.arrived.countP fun d => d.dst = .serv :=
      List.countP_pos_iff.2 ⟨d, hd, decide_eq_true hdst⟩
    simp only [World.queued] at hqueued
    omega
  obtain ⟨d, hd, hof⟩ : ∃ d ∈ w.net.all, isOf a d = true := by
    by_contra hall
    push Not at hall
    exact hlost ⟨hpc, about_eq_nil_iff.2 ⟨hall, hidle⟩⟩
  have hrouted := h.routed d hd
  rcases List.mem_append.1 hd with hd | hd
  · -- under way, and arrives
    have harrive : w.net.arrive d = some ⟨w.net.flying.erase d, w.net.arrived ++ [d]⟩ := if_pos hd
    have hstep : w.step (.arrive d) =
        some { w with net := ⟨w.net.flying.erase d, w.net.arrived ++ [d]⟩ } := by
      rw [World.step, harrive, Option.map_some]
    have hafter := h.step hstep
    have hflying : ∀ e ∈ w.net.flying.erase d, e.src ≠ .cli a := by
      intro e he hsrc
      have hmem : d ∈ w.net.arrived ++ [d] := List.mem_append_right _ List.mem_cons_self
      exact hafter.alone he hmem (by simp [isOf, hsrc]) hof
    refine ⟨.arrive d, _, trivial, hstep, ?_⟩
    have hcount : ((w.net.arrived ++ [d]).countP fun d => d.dst = .serv) =
        (w.net.arrived.countP fun d => d.dst = .serv) + [d].countP fun d => d.dst = .serv :=
      List.countP_append
    have hplace : World.place { w with net := ⟨w.net.flying.erase d, w.net.arrived ++ [d]⟩ } a =
        if (w.net.arrived ++ [d]).any fun d => d.dst = .cli a then 2 else 3 :=
      place_of_none hflying
    rw [World.left, World.left, hplace]
    simp only [Client.left, hpc, World.queued, hcount, List.countP_singleton] at hqueued ⊢
    rcases hrouted with ⟨b, hsrc, hdst⟩ | ⟨b, hsrc, hdst⟩
    · -- at the server
      obtain rfl : a = b := by simpa [isOf, hsrc, hdst, eq_comm] using hof
      rw [place_of_flying hd hsrc]
      split_ifs at hqueued ⊢ <;> omega
    · -- at the client
      obtain rfl : a = b := by simpa [isOf, hsrc, hdst, eq_comm] using hof
      have hfar : 3 ≤ w.place a :=
        three_le_place fun e he hcli => h.alone hd he hof (by simp [isOf, hcli])
      have hnear : ((w.net.arrived ++ [d]).any fun d => d.dst = .cli a) = true := by simp [hdst]
      rw [if_pos hnear]
      simp only [hdst, reduceCtorEq, decide_false, Bool.false_eq_true, if_false]
      omega
  · -- it has arrived, and is received
    obtain ⟨b, hsrc, hdst⟩ : ∃ b, d.src = .serv ∧ d.dst = .cli b := by
      refine hrouted.resolve_left ?_
      rintro ⟨b, -, hdst⟩
      exact hnone d hd hdst
    obtain rfl : a = b := by simpa [isOf, hsrc, hdst, eq_comm] using hof
    obtain ⟨e, hfind⟩ : ∃ e, w.net.arrived.find? (fun d => decide (d.dst = .cli a)) = some e := by
      rw [← Option.isSome_iff_exists, List.find?_isSome]
      exact ⟨d, hd, decide_eq_true hdst⟩
    have hrecv : w.net.recvfrom (.cli a) =
        some (e, { w.net with arrived := w.net.arrived.erase e }) := by
      rw [Net.recvfrom, hfind, Option.map_some]
    refine ⟨.cli a, _, trivial, by rw [World.step, World.cliStep, hpc]; simp only [hrecv]; rfl, ?_⟩
    have hcount : ((w.net.arrived.erase e).countP fun d => d.dst = .serv) ≤
        w.net.arrived.countP fun d => d.dst = .serv :=
      List.erase_sublist.countP_le
    have hqueue : World.queued
        ({ w with net := { w.net with arrived := w.net.arrived.erase e } }.setCli a
          ((w.cli a).recvfrom e.data)) ≤ w.queued :=
      Nat.add_le_add_right (Nat.mul_le_mul_left 2 hcount) _
    have hplace := two_le_place w a
    rw [World.left, World.left]
    refine Nat.lt_of_le_of_lt (Nat.add_le_add_left hqueue _) ?_
    rw [setCli_self]
    simp only [Client.recvfrom, Client.left, hpc]
    omega

/-- The client makes a call that does not wait. -/
theorem client_down (hpc : (w.cli a).pc = .fgets ∨ (w.cli a).pc = .sendto ∨ (w.cli a).pc = .fputs) :
    ∃ w', w.step (.cli a) = some w' ∧ w'.left a < w.left a := by
  rcases hpc with hpc | hpc | hpc
  · refine ⟨w.setCli a (w.cli a).fgets, by rw [World.step, World.cliStep, hpc], ?_⟩
    show 3 * ((w.setCli a (w.cli a).fgets).cli a).left (w.place a) + w.queued < w.left a
    rw [setCli_self, World.left]
    cases hget : Stdio.fgets MAXLINE (w.cli a).stdin with
    | none =>
      simp only [Client.fgets, hget, Client.left, hpc]
      omega
    | some chunk =>
      have hchunks := congrArg List.length (chunks_cons (by decide : 1 < MAXLINE) hget)
      simp only [Client.fgets, hget, Client.left, hpc, hchunks, List.length_cons]
      omega
  · refine ⟨_, by rw [World.step, World.cliStep, hpc], ?_⟩
    have hplace : World.place ({ w with net := w.net.sendto ⟨.cli a, .serv, (w.cli a).sendline.take
        (strlen (w.cli a).sendline)⟩ }.setCli a { w.cli a with pc := .recvfrom }) a = 4 :=
      place_of_flying List.mem_cons_self rfl
    rw [World.left, World.left, hplace, setCli_self]
    simp only [Client.left, hpc]
    show 3 * (6 * (chunks MAXLINE (w.cli a).stdin).length + 4 + 1) + w.queued < _
    omega
  · refine ⟨w.setCli a (w.cli a).fputs, by rw [World.step, World.cliStep, hpc], ?_⟩
    show 3 * ((w.setCli a (w.cli a).fputs).cli a).left (w.place a) + w.queued < w.left a
    rw [setCli_self, World.left]
    simp only [Client.fputs, Client.left, hpc]
    omega

/-- The server and the client have not given up, and nothing of the client is lost. -/
structure Served (w : World κ) (a : κ) : Prop where
  serv : ∀ msg, w.serv.pc ≠ .ended msg
  cli : ∀ msg, (w.cli a).pc ≠ .ended msg
  kept : ¬ Lost w a

/-- **Some step leads closer to the end.** -/
theorem served_down (h : Own input w) (hserved : Served w a) (hdone : (w.cli a).pc ≠ .done) :
    ∃ act w', NetAct.fine (.does act) ∧ w.step act = some w' ∧ w'.left a < w.left a := by
  by_cases hqueued : 0 < w.queued
  · obtain ⟨w', hstep, hlt⟩ := server_down (a := a) hqueued hserved.serv
    exact ⟨.serv, w', trivial, hstep, hlt⟩
  cases hpc : (w.cli a).pc with
  | fgets =>
    obtain ⟨w', hstep, hlt⟩ := client_down (.inl hpc)
    exact ⟨.cli a, w', trivial, hstep, hlt⟩
  | sendto =>
    obtain ⟨w', hstep, hlt⟩ := client_down (.inr (.inl hpc))
    exact ⟨.cli a, w', trivial, hstep, hlt⟩
  | fputs =>
    obtain ⟨w', hstep, hlt⟩ := client_down (.inr (.inr hpc))
    exact ⟨.cli a, w', trivial, hstep, hlt⟩
  | recvfrom => exact datagram_down h (by omega) hpc hserved.kept
  | done => exact absurd hpc hdone
  | ended msg => exact absurd hpc (hserved.cli msg)

/-- Nothing is lost if it is somewhere. -/
theorem not_lost_of (h : (w.cli a).pc = .recvfrom → (∃ d ∈ w.net.all, isOf a d = true) ∨
    (w.serv.pc = .sendto ∧ w.serv.pcli_addr = .cli a)) : ¬ Lost w a := by
  rintro ⟨hpc, hnil⟩
  obtain ⟨hnet, hserv⟩ := about_eq_nil_iff.1 hnil
  rcases h hpc with ⟨d, hd, hof⟩ | hheld
  · exact hnet d hd hof
  · exact hserv hheld

theorem of_not_lost (h : ¬ Lost w a) (hpc : (w.cli a).pc = .recvfrom) :
    (∃ d ∈ w.net.all, isOf a d = true) ∨ (w.serv.pc = .sendto ∧ w.serv.pcli_addr = .cli a) := by
  by_contra hnone
  push Not at hnone
  exact h ⟨hpc, about_eq_nil_iff.2 ⟨hnone.1, fun hheld => hnone.2 hheld.1 hheld.2⟩⟩

/-- Another client leaves it served, if it takes nothing of it away. -/
theorem Served.other (hserved : Served w a) {b : κ} (hb : a ≠ b) (c : Client)
    {net : Net (Addr κ) Char} (hall : ∀ d ∈ w.net.all, isOf a d = true → d ∈ net.all) :
    Served ({ w with net := net }.setCli b c) a := by
  have hsame : ({ w with net := net }.setCli b c).cli a = w.cli a := setCli_of_ne hb
  refine ⟨hserved.serv, fun msg => hsame ▸ hserved.cli msg, not_lost_of fun hpc => ?_⟩
  rw [hsame] at hpc
  refine (of_not_lost hserved.kept hpc).imp_left ?_
  rintro ⟨d, hd, hof⟩
  exact ⟨d, hall d hd hof, hof⟩

/-- And so does the server, which keeps what it takes. -/
theorem Served.rest (hserved : Served w a) {net : Net (Addr κ) Char} {serv : Server κ}
    (hserv : ∀ msg, serv.pc ≠ .ended msg)
    (hall : (w.cli a).pc = .recvfrom → (∃ d ∈ w.net.all, isOf a d = true) ∨
      (w.serv.pc = .sendto ∧ w.serv.pcli_addr = .cli a) →
      (∃ d ∈ net.all, isOf a d = true) ∨ (serv.pc = .sendto ∧ serv.pcli_addr = .cli a)) :
    Served ⟨net, serv, w.cli⟩ a :=
  ⟨hserv, hserved.cli, not_lost_of fun hpc => hall hpc (of_not_lost hserved.kept hpc)⟩

/-- Without failures and losses it stays so. -/
theorem Served.step {act : NetAct κ} (hserved : Served w a) (h : Own input w) (hfine : act.fine)
    (hs : w.netStep act = some w') : Served w' a := by
  cases act with
  | loses d | doubles d => exact hfine.elim
  | does act =>
    cases act with
    | cliFails b | servFails => exact hfine.elim
    | cli b =>
      by_cases hb : a = b
      · subst hb
        simp only [World.netStep, World.step, World.cliStep] at hs
        split at hs
        · cases hs
          refine ⟨hserved.serv, fun msg hpc => ?_, not_lost_of fun hpc => ?_⟩ <;>
            rw [setCli_self, Client.fgets] at hpc <;> split at hpc <;> cases hpc
        · cases hs
          refine ⟨hserved.serv, fun msg hpc => ?_, not_lost_of fun _ => ?_⟩
          · rw [setCli_self] at hpc
            cases hpc
          · exact .inl ⟨_, List.mem_cons_self, by simp [isOf]⟩
        · obtain ⟨⟨d, net⟩, -, rfl⟩ := Option.map_eq_some_iff.1 hs
          refine ⟨hserved.serv, fun msg hpc => ?_, not_lost_of fun hpc => ?_⟩ <;>
            rw [setCli_self] at hpc <;> cases hpc
        · cases hs
          refine ⟨hserved.serv, fun msg hpc => ?_, not_lost_of fun hpc => ?_⟩ <;>
            rw [setCli_self] at hpc <;> cases hpc
        · cases hs
        · cases hs
      · simp only [World.netStep, World.step, World.cliStep] at hs
        split at hs
        · cases hs
          exact hserved.other hb _ fun d hd _ => hd
        · cases hs
          exact hserved.other hb _ fun d hd _ => List.mem_cons_of_mem _ hd
        · obtain ⟨⟨d, net⟩, hrecv, rfl⟩ := Option.map_eq_some_iff.1 hs
          obtain ⟨hdst, hall⟩ := Net.all_recvfrom hrecv
          -- what the other client receives is its own
          refine hserved.other hb _ fun e he hof => ?_
          rcases List.mem_cons.1 (hall.mem_iff.1 he) with rfl | he
          · exact absurd ((isOf_iff (h.routed e he) (.inl hdst) a).1 hof) hb
          · exact he
        · cases hs
          exact hserved.other hb _ fun d hd _ => hd
        · cases hs
        · cases hs
    | serv =>
      simp only [World.netStep, World.step, World.servStep] at hs
      split at hs
      · rename_i hpc
        obtain ⟨⟨d, net⟩, hrecv, rfl⟩ := Option.map_eq_some_iff.1 hs
        obtain ⟨hdst, hall⟩ := Net.all_recvfrom hrecv
        refine hserved.rest (fun msg => ServAt.noConfusion) fun _ hkept => ?_
        rcases hkept with ⟨e, he, hof⟩ | ⟨hsend, -⟩
        · rcases List.mem_cons.1 (hall.mem_iff.1 he) with rfl | he
          · -- it is in the buffer
            have hsrc : e.src = .cli a := by simpa [isOf, hdst] using hof
            exact .inr ⟨rfl, hsrc⟩
          · exact .inl ⟨e, he, hof⟩
        · rw [hpc] at hsend
          cases hsend
      · cases hs
        refine hserved.rest (fun msg => ServAt.noConfusion) fun _ hkept => .inl ?_
        rcases hkept with ⟨e, he, hof⟩ | ⟨-, haddr⟩
        · exact ⟨e, List.mem_cons_of_mem _ he, hof⟩
        · exact ⟨_, List.mem_cons_self, by simp [isOf, haddr]⟩
      · cases hs
    | arrive d =>
      obtain ⟨net, harrive, rfl⟩ := Option.map_eq_some_iff.1 hs
      refine hserved.rest hserved.serv fun _ hkept => hkept.imp_left ?_
      rintro ⟨e, he, hof⟩
      exact ⟨e, (Net.all_arrive harrive).mem_iff.2 he, hof⟩

end Way

/-! ## Every run -/

section Runs

variable {input : κ → List Char} {w w' : World κ} {a : κ}

omit [DecidableEq κ] in
theorem NetAct.single_of_fine {act : NetAct κ} (h : act.fine) : act.single := by
  cases act with
  | does act => trivial
  | loses d => trivial
  | doubles d => exact h

/-- What is served comes to its end. -/
theorem served_ends (htext : ∀ a, '\x00' ∉ input a)
    (h : (unreliable input).Reach (fun _ a => a.single) w) (hserved : Served w a) :
    ∃ w', ((unreliable input).startedAt w).Reach (fun _ a => a.fine) w' ∧
      (w'.cli a).pc = .done ∧ (w'.cli a).stdout.flatten = input a := by
  have hown {u : World κ} (hu : ((unreliable input).startedAt w).Reach (fun _ a => a.fine) u) :
      Own input u := own_of_reach htext (h.append (hu.mono fun _ _ => NetAct.single_of_fine))
  have hserved {u : World κ} (hu : ((unreliable input).startedAt w).Reach (fun _ a => a.fine) u) :
      Served u a := by
    induction hu with
    | init hu =>
      obtain rfl := hu
      exact hserved
    | step hu hok hs ih => exact ih.step (hown hu) hok hs
  have hstart : ((unreliable input).startedAt w).Reach (fun _ a => a.fine) w := .init rfl
  have hdown : ∀ u, ((unreliable input).startedAt w).Reach (fun _ a => a.fine) u →
      ¬ (u.cli a).pc = .done → ∃ act u', NetAct.fine act ∧
        ((unreliable input).startedAt w).step u act = some u' ∧ u'.left a < u.left a := by
    intro u hu hnot
    obtain ⟨act, u', hfine, hstep, hlt⟩ := served_down (hown hu) (hserved hu) hnot
    exact ⟨.does act, u', hfine, hstep, hlt⟩
  obtain ⟨w', hw', hdone⟩ := hstart.finishes (fun u => u.left a) hdown
  exact ⟨w', hw', hdone, (hown hw').faithful.finished a hdone⟩

/-- **A lost datagram costs its client the rest, and nobody else anything.** Any number of
clients, and a network that delays, reorders and loses datagrams: what every client has put
out is a beginning of its input, and all of it at the end. Where client and server have not
given up, the client can still come to its end if and only if none of its datagrams is lost;
and one that has lost a datagram puts out nothing more, whatever happens. -/
theorem lost_iff (input : κ → List Char) (htext : ∀ a, '\x00' ∉ input a) (w : World κ)
    (h : (unreliable input).Reach (fun _ a => a.single) w) :
    Faithful input w ∧
    (∀ a, (∀ msg, w.serv.pc ≠ .ended msg) → (∀ msg, (w.cli a).pc ≠ .ended msg) →
      ((∃ w', ((unreliable input).startedAt w).Reach (fun _ a => a.fine) w' ∧
        (w'.cli a).pc = .done ∧ (w'.cli a).stdout.flatten = input a) ↔ ¬ Lost w a)) ∧
    ∀ a, Lost w a → ∀ w', ((unreliable input).startedAt w).Reach (fun _ _ => True) w' →
      (w'.cli a).Waits ∧ (w'.cli a).stdout = (w.cli a).stdout := by
  refine ⟨(own_of_reach htext h).faithful, fun a hserv hcli => ⟨?_, ?_⟩, fun a hlost w' hw' => ?_⟩
  · rintro ⟨w', hw', hdone, -⟩ hlost
    have hwaits := (Lost.run hlost (hw'.mono fun _ _ _ => trivial)).1
    rcases hwaits with hpc | ⟨msg, hpc⟩ <;> rw [hdone] at hpc <;> cases hpc
  · exact fun hkept => served_ends htext h ⟨hserv, hcli, hkept⟩
  · exact Lost.run hlost hw'

end Runs

/-- Both clients send, and the datagram of the first one is lost. -/
def oneLost : List (NetAct Bool) :=
  [.does (.cli true), .does (.cli false), .does (.cli true), .does (.cli false),
    .loses ⟨.cli true, .serv, ['h', 'i', '\n']⟩]

theorem oneLost_runs : ((unreliable twoInputs).exec (fun _ a => a.single) twoStart oneLost).isSome =
    true := by decide

/-- It waits for ever, and the other one is served. -/
theorem lost_iff_two :
    let w := ((unreliable twoInputs).exec (fun _ a => a.single) twoStart oneLost).get oneLost_runs
    (∀ w', ((unreliable twoInputs).startedAt w).Reach (fun _ _ => True) w' →
      (w'.cli true).stdout = []) ∧
      ∃ w', ((unreliable twoInputs).startedAt w).Reach (fun _ a => a.fine) w' ∧
        (w'.cli false).stdout.flatten = ['x'] := by
  intro w
  have hrun : (unreliable twoInputs).Reach (fun _ a => a.single) w :=
    Machine.Reach.run (unreliable twoInputs) (fun _ a => a.single) ⟨[], 0, .serv, rfl⟩ oneLost
      oneLost_runs
  obtain ⟨-, hserved, hlost⟩ := lost_iff twoInputs (by decide) w hrun
  refine ⟨fun w' hw' => (hlost true (by decide) w' hw').2, ?_⟩
  obtain ⟨w', hw', -, hout⟩ := (hserved false (fun _ => ServAt.noConfusion)
    (fun _ => CliAt.noConfusion)).2 (by decide)
  exact ⟨w', hw', hout⟩

end UnixNetProg.UdpEcho

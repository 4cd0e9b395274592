/-
What `mycat` makes of a list of files.

`my_open` closes both ends of its socket pair, and hands out a descriptor that `mycat`
does not close. So every file that opens costs one descriptor for good, and once fewer
than two are left the socket pair cannot be made and nothing opens any more.

`taken` is what is written with a number of free descriptors, `wanted` is the contents of
the files that can be opened.
-/
import UnixNetProg.MyCat.Code

set_option autoImplicit false

namespace UnixNetProg.MyCat

open UnixNetProg.FdTable

/-! ## `my_open` -/

section Open

variable {env : Env} {t : Table Desc} {filename : String}

/-- With fewer than two numbers left there is no socket pair. -/
theorem s_pipe_full (h : t.free env.limit < 2) : s_pipe env.limit t = none := by
  rw [s_pipe]
  by_cases hzero : t.free env.limit = 0
  · rw [Table.alloc_of_full hzero, Option.bind_none]
  · obtain ⟨i, hi, hfree, halloc⟩ := Table.alloc_of_free (Nat.pos_of_ne_zero hzero) .socket
    have hcount := Table.free_update hi hfree Desc.socket
    have hnone : Table.free env.limit (Function.update t i (some Desc.socket)) = 0 := by omega
    rw [halloc, Option.bind_some, Table.alloc_of_full hnone, Option.map_none]

/-- With two there is one. -/
theorem s_pipe_of_free (h : 2 ≤ t.free env.limit) :
    ∃ sfd0 sfd1, sfd0 < env.limit ∧ sfd1 < env.limit ∧ sfd0 ≠ sfd1 ∧ t sfd0 = none ∧
      t sfd1 = none ∧ s_pipe env.limit t = some (sfd0, sfd1,
        Function.update (Function.update t sfd0 (some .socket)) sfd1 (some .socket)) := by
  have hpos : 0 < t.free env.limit := by omega
  obtain ⟨i, hi, hfree, halloc⟩ := Table.alloc_of_free hpos Desc.socket
  have hcount := Table.free_update hi hfree Desc.socket
  have hpos' : 0 < Table.free env.limit (Function.update t i (some Desc.socket)) := by omega
  obtain ⟨j, hj, hfree', halloc'⟩ := Table.alloc_of_free hpos' Desc.socket
  have hne : i ≠ j := by
    rintro rfl
    rw [Function.update_self] at hfree'
    cases hfree'
  rw [Function.update_of_ne hne.symm] at hfree'
  refine ⟨i, j, hi, hj, hne, hfree, hfree', ?_⟩
  rw [s_pipe, halloc, Option.bind_some, halloc', Option.map_some]

theorem my_open_full (h : t.free env.limit < 2) : my_open env t filename = .ok (t, -1) := by
  rw [my_open, s_pipe_full h]

/-- A file that cannot be opened leaves no descriptor behind. -/
theorem my_open_cannot {errno : Errno} (hfs : env.fs filename = .cannot errno) :
    my_open env t filename = .ok (t, -1) := by
  by_cases h : t.free env.limit < 2
  · exact my_open_full h
  · obtain ⟨i, j, hi, hj, hne, hfree, hfree', hpipe⟩ := s_pipe_of_free (Nat.not_lt.1 h)
    obtain ⟨e, hpos, hlt⟩ := errno
    have hstatus : (Child.exits e).status % 256 = 0 := by rw [Child.status, Nat.mul_mod_left]
    have hcode : (Child.exits e).status / 256 % 256 ≠ 0 := by
      rw [Child.status, Nat.mul_div_cancel _ (by decide), Nat.mod_mod, Nat.mod_eq_of_lt hlt]
      omega
    have hclose :
        Table.close (Function.update (Function.update t i (some .socket)) j (some .socket)) j =
        Function.update t i (some Desc.socket) := by
      rw [Table.close_update]
      rw [Function.update_of_ne hne.symm, hfree']
    simp only [my_open, hpipe, hfs, openfile, if_neg (not_not.2 hstatus), if_neg hcode]
    rw [hclose, Table.close_update hfree]

/-- **A file that opens costs one descriptor**, and the descriptor is the file's. -/
theorem my_open_opens {chunks : List Chunk} {fails : Bool} (h : 2 ≤ t.free env.limit)
    (hfs : env.fs filename = .opens chunks fails) :
    ∃ fd : ℕ, fd < env.limit ∧ t fd = none ∧
      my_open env t filename =
        .ok (Function.update t fd (some (.file chunks fails)), (fd : ℤ)) := by
  obtain ⟨i, j, hi, hj, hne, hfree, hfree', hpipe⟩ := s_pipe_of_free h
  -- the child has the second end, and a number left for the file
  have hchild :
      Table.close (Function.update (Function.update t i (some .socket)) j (some .socket)) i =
      Function.update t j (some Desc.socket) := by
    rw [Function.update_comm hne, Table.close_update]
    rw [Function.update_of_ne hne, hfree]
  have hchildFree := Table.free_update hj hfree' Desc.socket
  have hpos : 0 < Table.free env.limit (Function.update t j (some Desc.socket)) := by omega
  obtain ⟨k, -, -, hopen⟩ := Table.alloc_of_free hpos (Desc.file chunks fails)
  -- the parent has the first end, and a number left for what is passed
  have hparent :
      Table.close (Function.update (Function.update t i (some .socket)) j (some .socket)) j =
      Function.update t i (some Desc.socket) := by
    rw [Table.close_update]
    rw [Function.update_of_ne hne.symm, hfree']
  have hparentFree := Table.free_update hi hfree Desc.socket
  have hpos' : 0 < Table.free env.limit (Function.update t i (some Desc.socket)) := by omega
  obtain ⟨fd, hfd, hfdFree, hrecv⟩ := Table.alloc_of_free hpos' (Desc.file chunks fails)
  have hne' : i ≠ fd := by
    rintro rfl
    rw [Function.update_self] at hfdFree
    cases hfdFree
  rw [Function.update_of_ne hne'.symm] at hfdFree
  refine ⟨fd, hfd, hfdFree, ?_⟩
  simp only [my_open, hpipe, hfs, openfile, hchild, hopen, Child.status, hparent, my_recvfile,
    hrecv]
  rw [if_neg (by simp), if_pos (by simp), Except.map, Function.update_comm hne', Table.close_update]
  rw [Function.update_of_ne hne', hfree]

end Open

/-! ## The loop -/

/-- No `read` and no `write` fails. -/
structure Env.Reliable (env : Env) : Prop where
  files : ∀ name chunks fails, env.fs name = .opens chunks fails → fails = false
  stdin : env.stdinFails = false
  stdout : env.capacity = none

/-- What is read in pieces. -/
def contents (chunks : List Chunk) : List UInt8 := (chunks.map Subtype.val).flatten

/-- What there is to read, of a file that can be opened. -/
def File.content : File → List UInt8
  | .cannot _ => []
  | .opens chunks _ => contents chunks

def File.openable : File → Bool
  | .cannot _ => false
  | .opens _ _ => true

section Loop

variable {env : Env} {names : List String} {name : String}

/-- The inner loop writes what it reads. -/
theorem copy_eq (hr : env.Reliable) (chunks : List Chunk) (stdout : List UInt8) :
    copy env false chunks stdout = (stdout ++ contents chunks, none) := by
  induction chunks generalizing stdout with
  | nil => simp [copy, contents]
  | cons c chunks ih =>
    have htakes : env.takes stdout c.val.length = true := by rw [Env.takes, hr.stdout]
    have hput : env.put stdout c.val = stdout ++ c.val := by rw [Env.put, hr.stdout]
    rw [copy, if_pos htakes, hput, ih, contents, contents, List.map_cons, List.flatten_cons,
      List.append_assoc]

theorem World.copy_eq (hr : env.Reliable) {w : World} {fd : ℕ} {chunks : List Chunk}
    (hfd : w.table fd = some (.file chunks false)) :
    w.copy env fd =
      (⟨Function.update w.table fd (some (.file [] false)), w.stdout ++ contents chunks⟩,
      none) := by
  simp only [World.copy, hfd, MyCat.copy_eq hr]

/-- What is written of the files, with so many numbers free. -/
def Env.taken (env : Env) : ℕ → List String → List UInt8
  | _, [] => []
  | n, name :: names =>
    if (env.fs name).openable && 2 ≤ n then (env.fs name).content ++ env.taken (n - 1) names
    else env.taken n names

/-- How many numbers are free behind them. -/
def Env.left (env : Env) : ℕ → List String → ℕ
  | n, [] => n
  | n, name :: names =>
    if (env.fs name).openable && 2 ≤ n then env.left (n - 1) names else env.left n names

/-- One file: it is opened and written, and its descriptor stays, or nothing happens. -/
theorem files_cons (hr : env.Reliable) (w : World) :
    if (env.fs name).openable && 2 ≤ w.table.free env.limit then
      ∃ t : Table Desc, t.free env.limit + 1 = w.table.free env.limit ∧
        w.files env (name :: names) =
          World.files env names ⟨t, w.stdout ++ (env.fs name).content⟩
    else w.files env (name :: names) = w.files env names := by
  have hnone : my_open env w.table name = .ok (w.table, -1) →
      w.files env (name :: names) = w.files env names := by
    intro hopen
    simp only [World.files, hopen]
    rw [if_pos (by decide)]
  cases hfs : env.fs name with
  | cannot errno => simpa [File.openable] using hnone (my_open_cannot hfs)
  | opens chunks fails =>
    obtain rfl := hr.files name chunks fails hfs
    by_cases h : 2 ≤ w.table.free env.limit
    · -- `my_cat` reads the file to its end, and nobody closes `fd`
      obtain ⟨fd, hfd, hfree, hopen⟩ := my_open_opens h hfs
      simp only [File.openable, h, decide_true, Bool.and_true, if_true]
      refine ⟨Function.update w.table fd (some (.file [] false)), Table.free_update hfd hfree _, ?_⟩
      have hself : Function.update w.table fd (some (Desc.file chunks false)) fd =
          some (.file chunks false) := Function.update_self _ _ _
      have hcopy := World.copy_eq hr (w := { w with table := Function.update w.table fd _ }) hself
      simp only [World.files, hopen, Int.toNat_natCast, hcopy, Function.update_idem, File.content]
      rw [if_neg (by omega)]
    · simpa [File.openable, h] using hnone (my_open_full (Nat.not_le.1 h))

/-- **What the loop writes, and what it leaves open.** -/
theorem files_eq (hr : env.Reliable) (names : List String) (w : World) :
    ∃ t : Table Desc, t.free env.limit = env.left (w.table.free env.limit) names ∧
      w.files env names = (⟨t, w.stdout ++ env.taken (w.table.free env.limit) names⟩, none) := by
  induction names generalizing w with
  | nil => exact ⟨w.table, rfl, by simp [World.files, Env.taken]⟩
  | cons name names ih =>
    have hcons := @files_cons env names name hr w
    rw [Env.left, Env.taken]
    split at hcons
    · -- the arguments behind it find one number less
      rename_i hopen
      obtain ⟨t, hfree, heq⟩ := hcons
      obtain ⟨t', hleft, hrest⟩ := ih ⟨t, w.stdout ++ (env.fs name).content⟩
      have hpred : t.free env.limit = w.table.free env.limit - 1 := by omega
      rw [if_pos hopen, if_pos hopen]
      refine ⟨t', ?_, ?_⟩
      · rw [hleft, hpred]
      · rw [heq, hrest, hpred, List.append_assoc]
    · rename_i hopen
      obtain ⟨t', hleft, hrest⟩ := ih w
      rw [if_neg hopen, if_neg hopen]
      exact ⟨t', hleft, by rw [hcons, hrest]⟩

end Loop

/-! ## The whole program -/

/-- What `mycat` is for: the contents of the files that can be opened, or standard input. -/
def Env.wanted (env : Env) (names : List String) : List UInt8 :=
  if names = [] then contents env.stdin else names.flatMap fun name => (env.fs name).content

/-- The descriptors after these arguments. -/
def Env.after (env : Env) (names : List String) : Table Desc :=
  (World.files env names ⟨env.table, []⟩).1.table

/-- No iteration of the loop leaves more descriptors open than there were. -/
def Env.Closes (env : Env) (names : List String) : Prop :=
  ∀ before name behind, names = before ++ name :: behind →
    (env.after (before ++ [name])).opened env.limit ≤ (env.after before).opened env.limit

/-- How many of the files can be opened. -/
def Env.openable (env : Env) (names : List String) : ℕ :=
  names.countP fun name => (env.fs name).openable

section Results

variable {env : Env}

theorem taken_full {n : ℕ} (hn : n < 2) (names : List String) : env.taken n names = [] := by
  induction names with
  | nil => rfl
  | cons name names ih =>
    rw [Env.taken, if_neg (by simp; omega), ih]

theorem left_append (n : ℕ) (names names' : List String) :
    env.left n (names ++ names') = env.left (env.left n names) names' := by
  induction names generalizing n with
  | nil => rfl
  | cons name names ih =>
    rw [List.cons_append, Env.left, Env.left]
    split
    · exact ih _
    · exact ih _

/-- Without a file that opens, nothing is left open. -/
theorem left_of_openable {n : ℕ} {names : List String}
    (h : ∀ name ∈ names, (env.fs name).openable = false) : env.left n names = n := by
  induction names with
  | nil => rfl
  | cons name names ih =>
    rw [Env.left, if_neg (by simp [h name List.mem_cons_self])]
    exact ih fun name' hmem => h name' (List.mem_cons_of_mem _ hmem)

theorem content_of_not_openable {f : File} (h : f.openable = false) : f.content = [] := by
  cases f with
  | cannot errno => rfl
  | opens chunks fails => cases h

/-- Enough numbers are free for every file that is not empty. -/
def Env.Fits (env : Env) (n : ℕ) (names : List String) : Prop :=
  ∀ before name behind, names = before ++ name :: behind → (env.fs name).content ≠ [] →
    env.openable before + 2 ≤ n

theorem fits_nil (n : ℕ) : env.Fits n [] := by
  intro before name behind hsplit
  simp at hsplit

theorem fits_cons {n : ℕ} {name : String} {names : List String} :
    env.Fits n (name :: names) ↔ ((env.fs name).content ≠ [] → 2 ≤ n) ∧
      ∀ before name' behind, names = before ++ name' :: behind → (env.fs name').content ≠ [] →
        env.openable before + (env.fs name).openable.toNat + 2 ≤ n := by
  have hcons : ∀ before, env.openable (name :: before) =
      env.openable before + (env.fs name).openable.toNat := by
    intro before
    rw [Env.openable, Env.openable, List.countP_cons]
    cases (env.fs name).openable <;> rfl
  constructor
  · intro h
    refine ⟨fun hne => ?_, fun before name' behind hsplit hne => ?_⟩
    · simpa [Env.openable] using h [] name names rfl hne
    · have hfits := h (name :: before) name' behind (by rw [hsplit, List.cons_append]) hne
      rwa [hcons] at hfits
  · rintro ⟨hfirst, hrest⟩ before name' behind hsplit hne
    -- either the file is the first one, or the first one is among those before it
    cases before with
    | nil =>
      obtain ⟨rfl, rfl⟩ := List.cons.inj hsplit
      simpa [Env.openable] using hfirst hne
    | cons b before =>
      obtain ⟨rfl, rfl⟩ := List.cons.inj hsplit
      rw [hcons]
      exact hrest before name' behind rfl hne

/-- All is written if and only if enough numbers are free for every file. -/
theorem taken_eq_iff (n : ℕ) (names : List String) :
    env.taken n names = (names.flatMap fun name => (env.fs name).content) ↔ env.Fits n names := by
  induction names generalizing n with
  | nil => exact ⟨fun _ => fits_nil n, fun _ => rfl⟩
  | cons name names ih =>
    rw [fits_cons, Env.taken, List.flatMap_cons]
    by_cases hopen : (env.fs name).openable
    · by_cases hn : 2 ≤ n
      · rw [if_pos (by simp [hopen, hn]), List.append_right_inj, ih, hopen]
        constructor
        · intro h
          refine ⟨fun _ => hn, fun before name' behind hsplit hne => ?_⟩
          have hfits := h before name' behind hsplit hne
          rw [Bool.toNat_true]
          omega
        · rintro ⟨-, h⟩ before name' behind hsplit hne
          have hfits := h before name' behind hsplit hne
          rw [Bool.toNat_true] at hfits
          omega
      · -- nothing opens any more, so the files must all be empty
        rw [if_neg (by simp [hn]), taken_full (Nat.not_le.1 hn), eq_comm, List.append_eq_nil_iff,
          List.flatMap_eq_nil_iff]
        constructor
        · rintro ⟨hfirst, hrest⟩
          refine ⟨fun hne => absurd hfirst hne, fun before name' behind hsplit hne => ?_⟩
          exact absurd (hrest name' (by simp [hsplit])) hne
        · rintro ⟨hfirst, hrest⟩
          refine ⟨by_contra fun hne => hn (hfirst hne), fun name' hmem => ?_⟩
          by_contra hne
          obtain ⟨before, behind, hsplit⟩ := List.append_of_mem hmem
          have hfits := hrest before name' behind hsplit hne
          omega
    · rw [Bool.not_eq_true] at hopen
      have hempty := content_of_not_openable hopen
      rw [if_neg (by simp [hopen]), hempty, List.nil_append, ih, hopen]
      constructor
      · intro h
        exact ⟨fun hne => absurd rfl hne, h⟩
      · rintro ⟨-, h⟩
        exact h

theorem after_free (hr : env.Reliable) (names : List String) :
    (env.after names).free env.limit = env.left (env.table.free env.limit) names := by
  obtain ⟨t, hfree, heq⟩ := files_eq hr names ⟨env.table, []⟩
  rw [Env.after, heq]
  exact hfree

/-- **Nothing is left open if and only if nothing opens.** -/
theorem closes_iff (hr : env.Reliable) (hlimit : 2 ≤ env.table.free env.limit)
    (names : List String) :
    env.Closes names ↔ ∀ name ∈ names, (env.fs name).openable = false := by
  have hopened : ∀ names', (env.after names').opened env.limit +
      env.left (env.table.free env.limit) names' = env.limit := by
    intro names'
    rw [← after_free hr]
    exact Table.opened_add_free _ _
  constructor
  · -- the first file that opens would stay open
    intro hcloses name hmem
    by_contra hname
    rw [Bool.not_eq_false] at hname
    obtain ⟨name', hfind⟩ := Option.isSome_iff_exists.1
      (List.find?_isSome (p := fun b => (env.fs b).openable).2 ⟨name, hmem, hname⟩)
    obtain ⟨hopen, before, behind, hsplit, hfirst⟩ := List.find?_eq_some_iff_append.1 hfind
    have hbefore : ∀ b ∈ before, (env.fs b).openable = false := by
      intro b hb
      simpa using hfirst b hb
    have hle := hcloses before name' behind hsplit
    have h1 := hopened before
    have h2 := hopened (before ++ [name'])
    rw [left_append, left_of_openable hbefore] at h2
    rw [left_of_openable hbefore] at h1
    rw [Env.left, if_pos (by simp [hopen, hlimit]), Env.left] at h2
    omega
  · intro h before name behind hsplit
    have hbefore : ∀ b ∈ before, (env.fs b).openable = false := by
      intro b hb
      exact h b (by simp [hsplit, hb])
    have h1 := hopened before
    have h2 := hopened (before ++ [name])
    rw [left_append, left_of_openable hbefore, left_of_openable] at h2
    · rw [left_of_openable hbefore] at h1
      omega
    · intro b hb
      obtain rfl := List.mem_singleton.1 hb
      exact h b (by simp [hsplit])

/-- **What `mycat` does with any list of files.** It writes what it should if and only if
each file with something in it finds two descriptors free, where every file before it that
opened has taken one; and its loop leaves no descriptor open if and only if none of the
files opens. -/
theorem mycat_concatenates_iff (hr : env.Reliable) (hlimit : 2 ≤ env.table.free env.limit)
    (names : List String) :
    ((mycat env names).1.stdout = env.wanted names ↔
      ∀ before name behind, names = before ++ name :: behind → (env.fs name).content ≠ [] →
        env.openable before + 2 ≤ env.table.free env.limit) ∧
    (env.Closes names ↔ ∀ name ∈ names, (env.fs name).openable = false) := by
  refine ⟨?_, closes_iff hr hlimit names⟩
  by_cases hnil : names = []
  · subst hnil
    have hstdin : env.table 0 = some (.file env.stdin false) := by
      rw [Env.table, Function.update_self, hr.stdin]
    have hcopy := @World.copy_eq env hr ⟨env.table, []⟩ 0 env.stdin hstdin
    refine ⟨fun _ => fits_nil _, fun _ => ?_⟩
    simp only [mycat, Env.wanted, if_true, hcopy, List.nil_append]
  · obtain ⟨t, -, heq⟩ := files_eq hr names ⟨env.table, []⟩
    have hout : (mycat env names).1.stdout = env.taken (env.table.free env.limit) names := by
      simp only [mycat, if_neg hnil, heq, List.nil_append]
    rw [hout, Env.wanted, if_neg hnil]
    exact taken_eq_iff _ names

end Results

/-! ## Two files -/

/-- Two files of one byte, and a limit of five descriptors. -/
def twoFiles : Env where
  fs := fun name =>
    if name = "a" then .opens [⟨[97], by decide⟩] false
    else if name = "b" then .opens [⟨[98], by decide⟩] false
    else .cannot ⟨2, by decide⟩
  limit := 5
  inherited := fun fd => if fd < 3 then some .other else none
  stdin := []
  stdinFails := false
  capacity := none

theorem twoFiles_reliable : twoFiles.Reliable where
  files := by
    intro name chunks fails h
    simp only [twoFiles] at h
    split_ifs at h
    · cases h
      rfl
    · cases h
      rfl
  stdin := rfl
  stdout := rfl

/-- The same files, and a limit of twenty. -/
def roomy : Env := { twoFiles with limit := 20 }

theorem roomy_reliable : roomy.Reliable := ⟨twoFiles_reliable.files, rfl, rfl⟩

/-- Both are written. -/
theorem mycat_concatenates_iff_twoFiles :
    (mycat roomy ["a", "b"]).1.stdout = [97, 98] ∧
    ((mycat roomy ["a", "b"]).1.stdout = roomy.wanted ["a", "b"] ↔
      ∀ before name behind, ["a", "b"] = before ++ name :: behind →
        (roomy.fs name).content ≠ [] →
        roomy.openable before + 2 ≤ roomy.table.free roomy.limit) ∧
    (roomy.Closes ["a", "b"] ↔ ∀ name ∈ ["a", "b"], (roomy.fs name).openable = false) :=
  ⟨by decide, mycat_concatenates_iff roomy_reliable (by decide) ["a", "b"]⟩

/-- The limit suffices to open one file at a time, but the second file is not written, and
the first one stays open. -/
theorem mycat_twoFiles : twoFiles.Reliable ∧ 2 ≤ twoFiles.table.free twoFiles.limit ∧
    (mycat twoFiles ["a", "b"]).1.stdout ≠ twoFiles.wanted ["a", "b"] ∧
    ¬ twoFiles.Closes ["a", "b"] := by
  refine ⟨twoFiles_reliable, by decide, by decide, ?_⟩
  rw [closes_iff twoFiles_reliable (by decide)]
  decide

end UnixNetProg.MyCat

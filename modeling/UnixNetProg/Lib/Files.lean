/-
Files as the programs here use them: a directory of names, and the bytes of an
open file.

A `Dir` maps names to inodes. Each system call that changes it is one step, and
the ones that must not replace an existing name say so by `EEXIST`: that is all
the lock files rely on. The number of links of an inode is kept as the kernel
keeps it, changed by `link` and `unlink`.

`fread` and `fwrite` work on the bytes of a regular file at an offset: what is
written replaces what was there, and leaves the rest of the file.
-/
import Mathlib.Tactic.Common
import Mathlib.Logic.Function.Basic

set_option autoImplicit false

namespace UnixNetProg.Files

/-! ## Directories -/

/-- The name of a file. -/
abbrev Name := List Char

/-- The errors of the calls below. -/
inductive Errno
  | ENOENT
  | EEXIST
  | EACCES
  deriving DecidableEq, Repr

/-- What is kept about a file: its permission bits and its number of links. -/
structure Inode where
  mode : ℕ
  nlink : ℕ
  deriving DecidableEq, Repr

/-- A directory. Inode numbers from `next` on have not been used. -/
structure Dir where
  entry : Name → Option ℕ
  inode : ℕ → Inode
  next : ℕ
  entry_lt : ∀ {n i}, entry n = some i → i < next

/-- Any of the write bits. -/
def S_IWUGO : ℕ := 0o222

/-- The calls that work on names. -/
inductive Syscall
  | creat (name : Name) (mode : ℕ)
  | openExcl (name : Name) (mode : ℕ)
  | link (old new : Name)
  | unlink (name : Name)
  deriving DecidableEq, Repr

namespace Dir

/-- A directory with no names in it. -/
def empty : Dir := ⟨fun _ => none, fun _ => ⟨0, 0⟩, 0, fun h => by cases h⟩

/-- A new file, under a name that is not in use. -/
def make (d : Dir) (name : Name) (mode : ℕ) : Dir where
  entry := Function.update d.entry name (some d.next)
  inode := Function.update d.inode d.next ⟨mode, 1⟩
  next := d.next + 1
  entry_lt := fun {n i} h => by
    by_cases hn : n = name
    · rw [hn, Function.update_self] at h
      cases h
      exact Nat.lt_succ_self _
    · rw [Function.update_of_ne hn] at h
      exact Nat.lt_succ_of_lt (d.entry_lt h)

/-- `creat`: an existing file is truncated, if the caller may write it. The
modes used here give all users the same rights, except the superuser. -/
def creat (d : Dir) (root : Bool) (name : Name) (mode : ℕ) : Except Errno Dir :=
  match d.entry name with
  | some i => if root || (d.inode i).mode &&& S_IWUGO != 0 then .ok d else .error .EACCES
  | none => .ok (d.make name mode)

/-- `open` with `O_CREAT | O_EXCL`. -/
def openExcl (d : Dir) (name : Name) (mode : ℕ) : Except Errno Dir :=
  match d.entry name with
  | some _ => .error .EEXIST
  | none => .ok (d.make name mode)

/-- One more link for inode `i`, or one less. -/
def relink (d : Dir) (i : ℕ) (f : ℕ → ℕ) : ℕ → Inode :=
  Function.update d.inode i { d.inode i with nlink := f (d.inode i).nlink }

/-- `link`. -/
def link (d : Dir) (old new : Name) : Except Errno Dir :=
  match h : d.entry old with
  | none => .error .ENOENT
  | some i =>
    match d.entry new with
    | some _ => .error .EEXIST
    | none => .ok
      { d with
        entry := Function.update d.entry new (some i)
        inode := d.relink i (· + 1)
        entry_lt := fun {n j} hn => by
          by_cases he : n = new
          · rw [he, Function.update_self] at hn
            cases hn
            exact d.entry_lt h
          · rw [Function.update_of_ne he] at hn
            exact d.entry_lt hn }

/-- `unlink`. -/
def unlink (d : Dir) (name : Name) : Except Errno Dir :=
  match d.entry name with
  | none => .error .ENOENT
  | some i => .ok
    { d with
      entry := Function.update d.entry name none
      inode := d.relink i (· - 1)
      entry_lt := fun {n j} hn => by
        by_cases he : n = name
        · rw [he, Function.update_self] at hn
          cases hn
        · rw [Function.update_of_ne he] at hn
          exact d.entry_lt hn }

/-- One call, by the superuser or another user. -/
def call (d : Dir) (root : Bool) : Syscall → Except Errno Dir
  | .creat name mode => d.creat root name mode
  | .openExcl name mode => d.openExcl name mode
  | .link old new => d.link old new
  | .unlink name => d.unlink name

variable {d d' : Dir} {name old new : Name} {mode i : ℕ} {root : Bool}

/-- A new name leads to a new inode. -/
@[simp] theorem make_entry :
    (d.make name mode).entry = Function.update d.entry name (some d.next) :=
  rfl

/-- `creat` of a name not in use. -/
theorem creat_new (h : d.entry name = none) : d.creat root name mode = .ok (d.make name mode) := by
  unfold creat
  rw [h]

theorem openExcl_new (h : d.entry name = none) : d.openExcl name mode = .ok (d.make name mode) := by
  unfold openExcl
  rw [h]

theorem openExcl_used (h : d.entry name = some i) : d.openExcl name mode = .error .EEXIST := by
  unfold openExcl
  rw [h]

/-- `link` to a name that is in use changes nothing. -/
theorem link_used {j : ℕ} (h : d.entry old = some i) (h' : d.entry new = some j) :
    d.link old new = .error .EEXIST := by
  unfold link
  split
  · simp_all
  · rw [h']

/-- `link` to a name that is not in use. -/
theorem link_new (h : d.entry old = some i) (h' : d.entry new = none) :
    ∃ d', d.link old new = .ok d' ∧ d'.entry = Function.update d.entry new (some i) ∧
      d'.inode = d.relink i (· + 1) ∧ d'.next = d.next := by
  unfold link
  split
  · simp_all
  · rename_i j hj
    obtain rfl : j = i := Option.some.inj (hj.symm.trans h)
    rw [h']
    exact ⟨_, rfl, rfl, rfl, rfl⟩

/-- `unlink` of a name in use. -/
theorem unlink_used (h : d.entry name = some i) :
    ∃ d', d.unlink name = .ok d' ∧ d'.entry = Function.update d.entry name none ∧
      d'.inode = d.relink i (· - 1) ∧ d'.next = d.next := by
  unfold unlink
  split
  · simp_all
  · rename_i j hj
    obtain rfl : j = i := Option.some.inj (hj.symm.trans h)
    exact ⟨_, rfl, rfl, rfl, rfl⟩

end Dir

/-! ## The bytes of a file -/

/-- `read` of at most `n` bytes at an offset. -/
def fread (data : List Char) (off n : ℕ) : List Char := (data.drop off).take n

/-- `write` at an offset; a gap is filled with null bytes. -/
def fwrite (data : List Char) (off : ℕ) (bytes : List Char) : List Char :=
  data.take off ++ List.replicate (off - data.length) '\x00' ++ bytes ++
    data.drop (off + bytes.length)

/-- What is written at the start comes first, and the rest of the file stays. -/
@[simp] theorem fwrite_zero (data bytes : List Char) :
    fwrite data 0 bytes = bytes ++ data.drop bytes.length := by
  simp [fwrite]

/-- A short file is read as a whole. -/
theorem fread_zero {data : List Char} {n : ℕ} (h : data.length ≤ n) : fread data 0 n = data := by
  unfold fread
  rw [List.drop_zero, List.take_of_length_le h]

/-- A file does not get shorter, and no longer than what is written. -/
theorem length_fwrite_zero (data bytes : List Char) :
    (fwrite data 0 bytes).length = max data.length bytes.length := by
  rw [fwrite_zero, List.length_append, List.length_drop]
  omega

end UnixNetProg.Files

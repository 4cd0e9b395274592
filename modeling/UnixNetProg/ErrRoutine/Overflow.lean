/-
`7_system_v_ipc/err_routine.c`, which later programs have a copy of: `err_ret`, and
what it leaves in `emesgstr`.

`my_perror` appends the text for `errno` to the string in `emesgstr`, and nothing takes it
out again, so the string is that of all the calls so far, one behind the other
(`cstr_run`). The array is given by the bytes from its start on; where the string outgrows
it the list becomes longer than the array is.

`errno` is what it is when `my_perror` looks, and the text of a call what `vfprintf` makes of
its arguments. The system's table of error texts is a parameter. `SYS5` is not defined.
-/
import Mathlib.Data.List.Induction
import UnixNetProg.Lib.Files
import UnixNetProg.Lib.Stdio

set_option autoImplicit false

namespace UnixNetProg.ErrRoutine

open UnixNetProg.Files UnixNetProg.Stdio

/-! ## The program -/

/-- `sys_nerr` and `sys_errlist`: strings of at most 197 characters. -/
structure ErrList where
  sys_nerr : ℤ
  sys_errlist : ℕ → List Char
  nul_notMem : ∀ errno, '\x00' ∉ sys_errlist errno
  length_le : ∀ errno, (sys_errlist errno).length ≤ 197

/-- What `sys_err_str` puts into `msgstr` (`7_system_v_ipc/err_routine.c:137-164`). -/
def sys_err_str (sys : ErrList) (errno : ℤ) : List Char :=
  if errno ≠ 0 then
    if 0 < errno ∧ errno < sys.sys_nerr then '(' :: sys.sys_errlist errno.toNat ++ [')']
    else "(errno = ".toList ++ sprintf_d errno ++ [')']
  else []

/-- `sizeof (emesgstr)`. -/
def SIZEOF : ℕ := 255

/-- `my_perror` (`7_system_v_ipc/err_routine.c:115-126`). -/
def my_perror (sys : ErrList) (errno : ℤ) (emesgstr : List Char) : List Char :=
  let len := strlen emesgstr
  fwrite emesgstr len (' ' :: sys_err_str sys errno ++ ['\x00'])

structure State where
  emesgstr : List Char
  stderr : List Char

/-- What a call prints, and `errno`. -/
structure Call where
  text : List Char
  errno : ℤ

/-- `err_ret` (`7_system_v_ipc/err_routine.c:65-82`). -/
def err_ret (sys : ErrList) (pname : Option (List Char)) (s : State) (c : Call) : State :=
  let stderr :=
    match pname with
    | some pname => s.stderr ++ pname ++ [':', ' ']
    | none => s.stderr
  ⟨my_perror sys c.errno s.emesgstr, stderr ++ c.text⟩

/-- Before the first call. -/
def start : State := ⟨List.replicate SIZEOF '\x00', []⟩

/-- One call after the other. -/
def run (sys : ErrList) (pname : Option (List Char)) (calls : List Call) : State :=
  calls.foldl (err_ret sys pname) start

/-- The string in `emesgstr` and its null are in the array. -/
def State.Fits (s : State) : Prop := strlen s.emesgstr + 1 ≤ SIZEOF

/-! ## The texts -/

section Texts

theorem nul_notMem_sprintf_d (v : ℤ) : '\x00' ∉ sprintf_d v := by
  intro hmem
  simp only [sprintf_d, sprintf_0d, List.mem_append, List.mem_replicate] at hmem
  rcases hmem with (hsign | ⟨-, hzero⟩) | hdigit
  · split_ifs at hsign with hneg
    · simp at hsign
    · cases hsign
  · cases hzero
  · exact absurd (isDigit_of_mem_digits hdigit) (by decide)

theorem nul_notMem_sys_err_str (sys : ErrList) (errno : ℤ) : '\x00' ∉ sys_err_str sys errno := by
  have hlist := sys.nul_notMem errno.toNat
  have hnumber := nul_notMem_sprintf_d errno
  unfold sys_err_str
  split_ifs
  · simpa using hlist
  · simpa using hnumber
  · exact List.not_mem_nil

/-- `msgstr` has room for every text. -/
theorem length_sys_err_str_lt (sys : ErrList) {errno : ℤ} (hint : errno.natAbs ≤ INT_MAX + 1) :
    (sys_err_str sys errno).length < 200 := by
  have hlist := sys.length_le errno.toNat
  -- an `int` has at most ten digits and a sign
  have hdigits : (digits errno.natAbs).length ≤ 10 := by
    rw [digits, Nat.length_toDigits_le_iff (by decide) (by decide)]
    rw [INT_MAX] at hint
    omega
  have hsign : (if errno < 0 then ['-'] else []).length ≤ 1 := by
    split_ifs <;> decide
  have hnumber : (sprintf_d errno).length ≤ 11 := by
    simp only [sprintf_d, sprintf_0d, List.length_append, List.length_replicate]
    omega
  have htext : "(errno = ".toList.length = 9 := by decide
  unfold sys_err_str
  split_ifs
  · simp only [List.cons_append, List.length_cons, List.length_append, List.length_nil]
    omega
  · simp only [List.length_append, List.length_singleton, htext]
    omega
  · exact Nat.succ_pos 199

end Texts

/-! ## The string -/

section Runs

variable {sys : ErrList} {pname : Option (List Char)}

/-- What a call appends. -/
def appended (sys : ErrList) (c : Call) : List Char := ' ' :: sys_err_str sys c.errno

/-- A string is appended to the one that is there. -/
theorem cstr_append (buf : List Char) {t : List Char} (ht : '\x00' ∉ t) :
    cstr (fwrite buf (strlen buf) (t ++ ['\x00'])) = cstr buf ++ t := by
  have hle : strlen buf ≤ buf.length := strlen_le buf
  have hall : '\x00' ∉ cstr buf ++ t := by
    rw [List.mem_append]
    exact not_or.2 ⟨nul_notMem_cstr buf, ht⟩
  -- the new text begins where the null was
  rw [fwrite, take_strlen, Nat.sub_eq_zero_of_le hle, List.replicate_zero, List.append_nil,
    ← List.append_assoc, List.append_assoc _ ['\x00'], List.singleton_append, ← nul_char, cstr_nul,
    cstr_of_nul_free hall]

theorem cstr_err_ret (s : State) (c : Call) :
    cstr (err_ret sys pname s c).emesgstr = cstr s.emesgstr ++ appended sys c := by
  apply cstr_append
  simpa using nul_notMem_sys_err_str sys c.errno

/-- **The string of a run is what its calls have appended.** -/
theorem cstr_run (sys : ErrList) (pname : Option (List Char)) (calls : List Call) :
    cstr (run sys pname calls).emesgstr = calls.flatMap (appended sys) := by
  induction calls using List.reverseRecOn with
  | nil => rfl
  | append_singleton calls c ih =>
    rw [run, List.foldl_append, List.foldl_cons, List.foldl_nil, cstr_err_ret, ← run, ih,
      List.flatMap_append, List.flatMap_singleton]

theorem strlen_run (sys : ErrList) (pname : Option (List Char)) (calls : List Call) :
    strlen (run sys pname calls).emesgstr =
      (calls.map fun c => (sys_err_str sys c.errno).length + 1).sum := by
  rw [strlen, cstr_run, List.length_flatMap]
  rfl

/-- **`emesgstr` does not overflow if and only if the texts of all the calls, each with a
blank in front, come to less than its 255 bytes.** -/
theorem err_ret_fits_iff (sys : ErrList) (pname : Option (List Char)) (calls : List Call) :
    (∀ done, done <+: calls → (run sys pname done).Fits) ↔
      (calls.map fun c => (sys_err_str sys c.errno).length + 1).sum < SIZEOF := by
  constructor
  · intro hall
    have hfits := hall calls (List.prefix_refl calls)
    rw [State.Fits, strlen_run] at hfits
    omega
  · rintro hsum done ⟨rest, rfl⟩
    rw [List.map_append, List.sum_append] at hsum
    rw [State.Fits, strlen_run]
    omega

end Runs

/-- A system with two errors. -/
def twoErrors : ErrList where
  sys_nerr := 3
  sys_errlist errno := if errno = 2 then "No such file or directory".toList else []
  nul_notMem errno := by
    split_ifs <;> decide
  length_le errno := by
    split_ifs <;> decide

/-- Ten calls with `ENOENT`. -/
theorem err_ret_overflows : ¬ ∀ done, done <+: List.replicate 10 ⟨[], 2⟩ →
    (run twoErrors none done).Fits := by
  intro hall
  have hfits := hall _ (List.prefix_refl _)
  rw [State.Fits, strlen_run] at hfits
  revert hfits
  decide

end UnixNetProg.ErrRoutine

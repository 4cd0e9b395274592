/-
Decimal numbers as `stdio` prints and reads them.

`sprintf_0d w v` is what `%0wd` prints for the `int` `v`, and `sscanf_d` is what
`%d` reads back: white space is skipped, then an optional sign, then as many
digits as there are. What is printed is read back, whatever follows it, as long
as that is not a digit; so printing is injective.

`cstr`, `strlen` and `fgets` are the string and line functions the programs use
with them. `chunks` is a text as `fgets` after `fgets` cuts it.

The numbers are of `Char`s; the files read and written here hold ASCII text. The
strings and lines are of any characters of which one is the null byte and one
the newline (`Text`), a `Char` or a byte.
-/
import Mathlib.Tactic.Common
import Mathlib.Tactic.Ring
import Mathlib.Data.List.TakeWhile

set_option autoImplicit false

namespace UnixNetProg.Stdio

/-- The largest `int`. -/
def INT_MAX : ℕ := 2147483647

/-- The digits of a number, the most significant first. -/
def digits (n : ℕ) : List Char := Nat.toDigits 10 n

/-- What `%0wd` prints: the sign, zeros up to the width `w`, the digits. -/
def sprintf_0d (w : ℕ) (v : ℤ) : List Char :=
  let sign := if v < 0 then ['-'] else []
  let ds := digits v.natAbs
  sign ++ List.replicate (w - sign.length - ds.length) '0' ++ ds

/-- What `%d` prints. -/
def sprintf_d (v : ℤ) : List Char := sprintf_0d 0 v

/-- White space: the blank, and `\t` to `\r`. -/
def isspace (c : Char) : Bool := c == ' ' || (9 ≤ c.toNat && c.toNat ≤ 13)

/-- Digits read as a number. -/
def ofDigits (ds : List Char) : ℕ := Nat.ofDigitChars 10 ds 0

/-- The number that begins the text, digits only; `none` if there is no digit. -/
def scanDigits (s : List Char) : Option ℕ :=
  let ds := s.takeWhile Char.isDigit
  if ds.isEmpty then none else some (ofDigits ds)

/-- The number that begins the text, after its sign. -/
def scanSigned : List Char → Option ℤ
  | '-' :: s => (scanDigits s).map fun n : ℕ => -(n : ℤ)
  | '+' :: s => (scanDigits s).map fun n : ℕ => (n : ℤ)
  | s => (scanDigits s).map fun n : ℕ => (n : ℤ)

/-- What `%d` reads; `none` where nothing is converted. A number outside the
range of `int` is undefined behaviour in C and is returned as it stands. -/
def sscanf_d (s : List Char) : Option ℤ := scanSigned (s.dropWhile isspace)

/-- The two characters that the functions on strings and lines look for. -/
class Text (α : Type*) where
  nul : α
  newline : α

export Text (nul newline)

instance : Text Char := ⟨'\x00', '\n'⟩

instance : Text UInt8 := ⟨0, 10⟩

@[simp] theorem nul_char : (nul : Char) = '\x00' := rfl

@[simp] theorem newline_char : (newline : Char) = '\n' := rfl

section Strings

variable {α : Type*} [DecidableEq α] [Text α]

/-- The C string that begins at the start of a buffer: up to the null byte. The
bytes past the end of the list are null. -/
def cstr (buff : List α) : List α := buff.takeWhile (· != nul)

/-- `strlen`. -/
def strlen (buff : List α) : ℕ := (cstr buff).length

/-- `fgets` into a buffer of `n` bytes, without the null byte it adds: the rest
of the line with its newline, or as much of it as fits; `none` at the end of
the input. -/
def fgets (n : ℕ) (input : List α) : Option (List α) :=
  if input = [] then none
  else
    let line := input.takeWhile (· != newline)
    some ((if line.length < input.length then line ++ [newline] else line).take (n - 1))

end Strings

/-! ## Digits -/

theorem isDigit_of_mem_digits {n : ℕ} {c : Char} (h : c ∈ digits n) : c.isDigit = true :=
  Nat.isDigit_of_mem_toDigits (by decide) (by decide) h

@[simp] theorem ofDigits_digits (n : ℕ) : ofDigits (digits n) = n :=
  Nat.ofDigitChars_ten_toDigits

/-- Leading zeros do not count. -/
theorem ofDigits_zeros (k : ℕ) (ds : List Char) :
    ofDigits (List.replicate k '0' ++ ds) = ofDigits ds := by
  unfold ofDigits
  rw [Nat.ofDigitChars_append, Nat.ofDigitChars_replicate_zero, Nat.mul_zero]

/-- A digit is no white space. -/
theorem isspace_of_isDigit {c : Char} (h : c.isDigit = true) : isspace c = false := by
  have hlo : 48 ≤ c.toNat := by
    simp only [Char.isDigit, Bool.and_eq_true, decide_eq_true_eq] at h
    exact h.1
  have hne : c ≠ ' ' := by
    rintro rfl
    revert hlo
    decide
  simp only [isspace, Bool.or_eq_false_iff, beq_eq_false_iff_ne, Bool.and_eq_false_iff,
    decide_eq_false_iff_not]
  exact ⟨hne, .inr (by omega)⟩

/-- Digits are read up to the first character that is none. -/
theorem scanDigits_append {ds rest : List Char} (hne : ds ≠ [])
    (hds : ∀ c ∈ ds, c.isDigit = true) (hrest : ∀ c ∈ rest.head?, c.isDigit = false) :
    scanDigits (ds ++ rest) = some (ofDigits ds) := by
  have htake : (ds ++ rest).takeWhile Char.isDigit = ds := by
    rw [List.takeWhile_append_of_pos hds]
    cases rest with
    | nil => simp
    | cons c rest =>
      have hc := hrest c rfl
      simp [hc]
  unfold scanDigits
  rw [htake, if_neg (by simpa using hne)]

/-- Digits are read without a sign. -/
theorem scanSigned_digits {s : List Char} {c : Char} (hc : c.isDigit = true)
    (hs : s.head? = some c) : scanSigned s = (scanDigits s).map fun n : ℕ => (n : ℤ) := by
  cases s with
  | nil => cases hs
  | cons d s =>
    obtain rfl : d = c := Option.some.inj hs
    unfold scanSigned
    split
    · rename_i heq
      cases heq
      cases hc
    · rename_i heq
      cases heq
      cases hc
    · rfl

/-! ## Printed, then read -/

/-- The padded digits of a number. -/
def padded (k n : ℕ) : List Char := List.replicate k '0' ++ digits n

theorem padded_ne_nil (k n : ℕ) : padded k n ≠ [] := by
  intro h
  exact Nat.toDigits_ne_nil (List.append_eq_nil_iff.1 h).2

theorem isDigit_of_mem_padded {k n : ℕ} {c : Char} (h : c ∈ padded k n) : c.isDigit = true := by
  rcases List.mem_append.1 h with h | h
  · rw [List.eq_of_mem_replicate h]
    rfl
  · exact isDigit_of_mem_digits h

/-- The printed number is its sign and its padded digits. -/
theorem sprintf_0d_eq (w : ℕ) (v : ℤ) :
    ∃ k, sprintf_0d w v = (if v < 0 then ['-'] else []) ++ padded k v.natAbs := by
  unfold sprintf_0d padded
  exact ⟨_, List.append_assoc _ _ _⟩

/-- **What is printed is read back**, whatever follows it that is no digit. -/
theorem sscanf_d_sprintf_0d (w : ℕ) (v : ℤ) (rest : List Char)
    (hrest : ∀ c ∈ rest.head?, c.isDigit = false) :
    sscanf_d (sprintf_0d w v ++ rest) = some v := by
  obtain ⟨k, hk⟩ := sprintf_0d_eq w v
  obtain ⟨c, s, hpad⟩ := List.exists_cons_of_ne_nil (padded_ne_nil k v.natAbs)
  have hc : c.isDigit = true := isDigit_of_mem_padded (by rw [hpad]; exact List.mem_cons_self)
  have hscan : scanDigits (padded k v.natAbs ++ rest) = some v.natAbs := by
    rw [scanDigits_append (padded_ne_nil _ _) (fun c h => isDigit_of_mem_padded h) hrest, padded,
      ofDigits_zeros, ofDigits_digits]
  rw [hk]
  by_cases hv : v < 0
  · -- the minus sign is no white space, and the digits follow it
    rw [if_pos hv]
    have hdrop : (['-'] ++ padded k v.natAbs ++ rest).dropWhile isspace
        = '-' :: (padded k v.natAbs ++ rest) := rfl
    unfold sscanf_d
    rw [hdrop, scanSigned, hscan]
    simp only [Option.map_some, Option.some.injEq]
    omega
  · rw [if_neg hv, List.nil_append]
    have hdrop : (padded k v.natAbs ++ rest).dropWhile isspace = padded k v.natAbs ++ rest := by
      rw [hpad, List.cons_append, List.dropWhile_cons, if_neg (by simp [isspace_of_isDigit hc])]
    unfold sscanf_d
    rw [hdrop, scanSigned_digits hc (by rw [hpad]; rfl), hscan]
    simp only [Option.map_some, Option.some.injEq]
    omega

/-- Different numbers print differently. -/
theorem sprintf_d_injective {v v' : ℤ} (h : sprintf_d v = sprintf_d v') : v = v' := by
  have hv := sscanf_d_sprintf_0d 0 v [] (by simp)
  have hv' := sscanf_d_sprintf_0d 0 v' [] (by simp)
  unfold sprintf_d at h
  rw [h, hv'] at hv
  exact (Option.some.inj hv).symm

/-- An `int` that is not negative prints to at most ten digits, or to the width
asked for. -/
theorem length_sprintf_0d_le (w : ℕ) {v : ℤ} (h0 : 0 ≤ v) (hv : v ≤ INT_MAX) :
    (sprintf_0d w v).length ≤ max w 10 := by
  have hlen : (digits v.natAbs).length ≤ 10 := by
    unfold digits
    rw [Nat.length_toDigits_le_iff (by decide) (by decide)]
    simp only [INT_MAX] at hv
    omega
  unfold sprintf_0d
  rw [if_neg (by omega)]
  simp only [List.nil_append, List.length_append, List.length_replicate, List.length_nil]
  omega

/-! ## Lines -/

section Strings

variable {α : Type*} [DecidableEq α] [Text α]

theorem nul_notMem_cstr (buff : List α) : nul ∉ cstr buff := by
  intro hmem
  have hne := List.mem_takeWhile_imp hmem
  simp at hne

/-- A text without a null byte is the string it begins. -/
theorem cstr_of_nul_free {s : List α} (h : nul ∉ s) : cstr s = s := by
  apply List.takeWhile_eq_self_iff.2
  intro c hc
  rw [bne_iff_ne]
  rintro rfl
  exact h hc

/-- The front of a string is a string. -/
theorem cstr_take {s : List α} {n : ℕ} (hn : n ≤ strlen s) : cstr (s.take n) = s.take n := by
  have htake : s.take n = (cstr s).take n := by
    have hsplit := List.takeWhile_append_dropWhile (p := (· != nul)) (l := s)
    conv_lhs => rw [← hsplit]
    exact List.take_append_of_le_length hn
  apply cstr_of_nul_free
  rw [htake]
  exact fun hmem => nul_notMem_cstr s (List.mem_of_mem_take hmem)

/-- What is behind a null byte does not matter. -/
theorem cstr_nul (s rest : List α) : cstr (s ++ nul :: rest) = cstr s := by
  rw [cstr, List.takeWhile_append]
  split_ifs with hall
  · rw [List.takeWhile_cons_of_neg (by simp), List.append_nil]
    exact ((List.takeWhile_prefix _).eq_of_length hall).symm
  · rfl

theorem strlen_of_nul_free {s : List α} (h : nul ∉ s) : strlen s = s.length := by
  rw [strlen, cstr_of_nul_free h]

/-- The string is the front of the buffer. -/
theorem take_strlen (buff : List α) : buff.take (strlen buff) = cstr buff :=
  (List.prefix_iff_eq_take.1 (List.takeWhile_prefix _)).symm

theorem strlen_le (buff : List α) : strlen buff ≤ buff.length :=
  (List.takeWhile_prefix _).length_le

end Strings

section Lines

variable {α : Type*} [DecidableEq α] [Text α] {n : ℕ} {input chunk : List α}

/-- What the input begins with, up to its first newline or its end. -/
def line (input : List α) : List α :=
  let l := input.takeWhile (· != newline)
  if l.length < input.length then l ++ [newline] else l

theorem fgets_eq (hne : input ≠ []) : fgets n input = some ((line input).take (n - 1)) := by
  rw [fgets, if_neg hne, line]

theorem fgets_eq_none_iff : fgets n input = none ↔ input = [] := by
  by_cases hnil : input = []
  · simp [fgets, hnil]
  · simp [fgets, hnil]

/-- A line ends at the first newline, or there is none and it is all. -/
theorem line_cases (input : List α) :
    (∃ l rest, input = l ++ newline :: rest ∧ newline ∉ l ∧ line input = l ++ [newline]) ∨
      newline ∉ input ∧ line input = input := by
  have hfree : newline ∉ input.takeWhile (· != newline) := by
    intro hmem
    have hne := List.mem_takeWhile_imp hmem
    simp at hne
  have hsplit := List.takeWhile_append_dropWhile (p := (· != newline)) (l := input)
  -- what comes first behind the other characters is a newline
  cases hdrop : input.dropWhile (· != newline) with
  | nil =>
    rw [hdrop, List.append_nil] at hsplit
    right
    refine ⟨hsplit ▸ hfree, ?_⟩
    rw [line, hsplit, if_neg (Nat.lt_irrefl _)]
  | cons c rest =>
    have hc : c = newline := by
      have hhead := List.head_dropWhile_not (· != newline) (l := input) (by rw [hdrop]; simp)
      simpa [hdrop] using hhead
    subst hc
    rw [hdrop] at hsplit
    left
    refine ⟨_, rest, hsplit.symm, hfree, ?_⟩
    have hlen := congrArg List.length hsplit
    rw [List.length_append, List.length_cons] at hlen
    rw [line, if_pos (by omega)]

theorem prefix_line (input : List α) : line input <+: input := by
  rcases line_cases input with ⟨l, rest, rfl, -, hline⟩ | ⟨-, hline⟩
  · rw [hline]
    exact ⟨rest, by simp⟩
  · exact ⟨[], by rw [List.append_nil, hline]⟩

theorem line_ne_nil (hne : input ≠ []) : line input ≠ [] := by
  rcases line_cases input with ⟨l, rest, rfl, -, hline⟩ | ⟨-, hline⟩
  · rw [hline]
    simp
  · rw [hline]
    exact hne

/-- What `fgets` reads is the front of the input. -/
theorem prefix_fgets (h : fgets n input = some chunk) : chunk <+: input := by
  have hne : input ≠ [] := by
    rintro rfl
    cases h
  rw [fgets_eq hne, Option.some.injEq] at h
  rw [← h]
  exact (List.take_prefix _ _).trans (prefix_line input)

theorem fgets_append_drop (h : fgets n input = some chunk) :
    chunk ++ input.drop chunk.length = input :=
  List.prefix_iff_eq_append.1 (prefix_fgets h)

/-- It fits the buffer, with the null byte. -/
theorem length_fgets_lt (hn : 0 < n) (h : fgets n input = some chunk) : chunk.length < n := by
  have hne : input ≠ [] := by
    rintro rfl
    cases h
  rw [fgets_eq hne, Option.some.injEq] at h
  rw [← h, List.length_take]
  omega

theorem fgets_ne_nil (hn : 1 < n) (h : fgets n input = some chunk) : chunk ≠ [] := by
  have hne : input ≠ [] := by
    rintro rfl
    cases h
  rw [fgets_eq hne, Option.some.injEq] at h
  rw [← h, ne_eq, List.take_eq_nil_iff]
  rintro (hzero | hnil)
  · omega
  · exact line_ne_nil hne hnil

/-- A text as `fgets` cuts it. -/
def chunks (n : ℕ) (input : List α) : List (List α) :=
  match fgets n input with
  | none => []
  | some chunk =>
    if 0 < chunk.length ∧ chunk.length ≤ input.length then
      chunk :: chunks n (input.drop chunk.length)
    else []
termination_by input.length
decreasing_by
  rw [List.length_drop]
  omega

@[simp] theorem chunks_nil : chunks n ([] : List α) = [] := by
  rw [chunks]
  rfl

theorem chunks_cons (hn : 1 < n) (h : fgets n input = some chunk) :
    chunks n input = chunk :: chunks n (input.drop chunk.length) := by
  have hpos := List.length_pos_iff.2 (fgets_ne_nil hn h)
  have hle := (prefix_fgets h).length_le
  rw [chunks, h]
  exact if_pos ⟨hpos, hle⟩

/-- Nothing is lost by the cutting. -/
theorem flatten_chunks (hn : 1 < n) (input : List α) : (chunks n input).flatten = input := by
  induction hlen : input.length using Nat.strong_induction_on generalizing input with
  | _ k ih =>
    cases h : fgets n input with
    | none => simp [fgets_eq_none_iff.1 h]
    | some chunk =>
      have hpos := List.length_pos_iff.2 (fgets_ne_nil hn h)
      have hle := (prefix_fgets h).length_le
      have hshort : (input.drop chunk.length).length < k := by
        rw [List.length_drop]
        omega
      rw [chunks_cons hn h, List.flatten_cons, ih _ hshort _ rfl, fgets_append_drop h]

end Lines

end UnixNetProg.Stdio

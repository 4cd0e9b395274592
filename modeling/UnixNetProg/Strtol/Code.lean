/-
`my_strtol`: a string is read as a number in a given base.

A C string is the list of its characters, which are ASCII. A pointer into it is an offset
together with what is there. `endptr` is the null pointer, or points to a pointer to a
string of the caller's own, not to `str`; `my_strtol` may store a null character there.

Signed arithmetic wraps modulo `2 ^ 64`. An index is an `int`, and strings are shorter
than what it can count. What is printed is left out, but not that printing `*endptr` needs
an `endptr`.
-/
import UnixNetProg.Lib.Wrapping

set_option autoImplicit false

namespace UnixNetProg.Strtol

open UnixNetProg.Wrapping

/-- A `long` has twice as many values. -/
def LONG : ℕ := 2 ^ 63

inductive Errno
  | EINVAL
  | ERANGE
  deriving DecidableEq, Repr

/-- Where `*endptr` points: to the caller's own string, or into `str`. -/
inductive Ptr
  | own (s : List Char)
  | str (off : ℕ)
  deriving DecidableEq, Repr

/-- How a call ends: it returns, with the `errno` it has set and `*endptr`, or it goes
through a null pointer. -/
inductive Outcome
  | returns (ret : ℤ) (errno : Option Errno) (endptr : Option Ptr)
  | segv
  deriving DecidableEq, Repr

/-! ## The string -/

/-- A pointer into the string: how far, and what follows. -/
structure Cursor where
  off : ℕ
  rest : List Char
  deriving DecidableEq, Repr

/-- `*(str + i)`. -/
def Cursor.at (c : Cursor) (i : ℕ) : Char := c.rest.getD i '\x00'

/-- `str + n`. -/
def Cursor.next (c : Cursor) (n : ℕ) : Cursor := ⟨c.off + n, c.rest.drop n⟩

/-- The leading spaces are skipped. -/
def Cursor.spaces (c : Cursor) : Cursor := c.next (c.rest.takeWhile (· == ' ')).length

/-- The sign, 1 if there is a minus, and what follows it. -/
def Cursor.sign (c : Cursor) : Bool × Cursor :=
  if c.at 0 = '+' then (false, c.next 1)
  else if c.at 0 = '-' then (true, c.next 1)
  else (false, c)

/-- The prefix that base 8 or base 16 may have. -/
def Cursor.baseSign (c : Cursor) (base : ℤ) : Cursor :=
  let c := if base = 8 then if c.at 0 = '0' then c.next 1 else c else c
  if base = 16 then
    if c.at 0 = '0' ∧ (c.at 1 = 'x' ∨ c.at 1 = 'X') then c.next 2 else c
  else c

/-! ## Digits -/

/-- `tolower(c) - 'a'`. -/
def alphabet (c : Char) : ℤ := (c.toLower.toNat : ℤ) - 'a'.toNat

/-- The loop that looks for the end of the number does not stop here. -/
def valid (base : ℤ) (c : Char) : Bool :=
  if base > 10 then !(c.isAlpha && alphabet c ≥ base - 10)
  else if c.isAlpha then false
  else !decide ((c.toNat : ℤ) - '0'.toNat > base - 1)

/-- How many characters it goes over. -/
def scan (base : ℤ) (s : List Char) : ℕ := (s.takeWhile (valid base)).length

/-- `digit`. -/
def digit (base : ℤ) (c : Char) : ℤ :=
  if base > 10 ∧ c.isAlpha then alphabet c + 10 else (c.toNat : ℤ) - '0'.toNat

/-- `power` (`strtol/strtol.c:375-383`). -/
def power (number : ℤ) : ℕ → ℤ
  | 0 => 1
  | exponent + 1 => wrap LONG (power number exponent * number)

/-- The loop that computes the result, on the characters from the last one on; `none` is
`ERANGE`. -/
def convert (base : ℤ) (sign : Bool) : ℕ → ℤ → List Char → Option ℤ
  | _, result, [] => some result
  | exponent, prev_res, c :: s =>
    let base_n_power := power base exponent
    let term := wrap LONG (base_n_power * digit base c)
    if sign then
      let result := wrap LONG (prev_res - term)
      if result > prev_res then none else convert base sign (exponent + 1) result s
    else
      let result := wrap LONG (prev_res + term)
      if result < prev_res then none else convert base sign (exponent + 1) result s

/-! ## The function -/

/-- `EINVAL`, with `*endptr` set to `str`. -/
def einval (c : Cursor) (endptr : Option (List Char)) : Outcome :=
  .returns 0 (some .EINVAL) (endptr.map fun _ => .str c.off)

/-- `*endptr` behind `i` characters: at the end of the string a null character is stored
where it points, and it stays as it is. -/
def Cursor.endptr (c : Cursor) (i : ℕ) : Ptr :=
  if c.rest.drop i = [] then .own [] else .str (c.off + i)

/-- What is returned for these characters. -/
def result (base : ℤ) (sign : Bool) (s : List Char) (endptr : Ptr) : Outcome :=
  match convert base sign 0 0 s.reverse with
  | some ret => .returns ret none (some endptr)
  | none => .returns 0 (some .ERANGE) (some endptr)

/-- From `checkstr` on. -/
def checkstr (base : ℤ) (sign : Bool) (c : Cursor) (endptr : Option (List Char)) : Outcome :=
  let i := scan base c.rest
  if i = 0 then einval c endptr
  else
    match endptr with
    -- `*endptr` is printed
    | none => .segv
    | some _ => result base sign (c.rest.take i) (c.endptr i)

/-- `my_strtol` (`strtol/strtol.c:148-373`). -/
def my_strtol (str : List Char) (endptr : Option (List Char)) (base : ℤ) : Outcome :=
  let q := (Cursor.mk 0 str).spaces.sign
  let sign := q.1
  let c := q.2.baseSign base
  if base = 0 then
    if c.at 0 = '0' then
      let c := c.next 1
      if c.at 0 = 'x' ∨ c.at 0 = 'X' then checkstr 16 sign (c.next 1) endptr
      else checkstr 8 sign c endptr
    else if '1' ≤ c.at 0 ∧ c.at 0 ≤ '9' then checkstr 10 sign c endptr
    else einval c endptr
  else if base = 2 then
    if c.at 0 = '1' ∨ c.at 0 = '0' then checkstr 2 sign c endptr else einval c endptr
  else if base ≤ 1 ∨ base > 36 then .returns 0 (some .EINVAL) (endptr.map .own)
  else checkstr base sign c endptr

end UnixNetProg.Strtol

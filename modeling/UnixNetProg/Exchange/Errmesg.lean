/-
What a file server sends back: what it reads of the file, or why it cannot open it.

The programs that exchange a file differ in the size of their buffer, in how `errmesg` begins
and in what their model takes a character to be. The shapes are here; each program has its
own, made from them, under the name in its source.
-/
import UnixNetProg.Lib.Stdio

set_option autoImplicit false

namespace UnixNetProg.Exchange

open UnixNetProg.Stdio

variable {α : Type*}

/-- What `sys_err_str` returns: a string in an array of 200. -/
abbrev ErrStr (α : Type*) := {s : List α // s.length < 200}

/-- What a `read` of up to `n` bytes gets that is not the last. -/
abbrev Chunk (α : Type*) (n : ℕ) := {c : List α // 0 < c.length ∧ c.length ≤ n}

/-- `errmesg`, which begins with `cant_open`, for what `sys_err_str` returns. -/
def errmesg [Text α] (cant_open err : List α) : List α := cant_open ++ err ++ [newline]

section Errmesg

variable [Text α] {cant_open err : List α} {n : ℕ}

theorem length_errmesg : (errmesg cant_open err).length = cant_open.length + err.length + 1 := by
  rw [errmesg, List.length_append, List.length_append, List.length_singleton]

/-- An array of `n` is long enough for every error message. -/
theorem length_errmesg_lt (herr : err.length < 200) (hn : cant_open.length + 200 < n) :
    (errmesg cant_open err).length < n := by
  rw [length_errmesg]
  omega

end Errmesg

end UnixNetProg.Exchange

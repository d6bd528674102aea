import Mathlib.Data.List.Basic

/-!
# Reading a file with `fgets`

* `fgets` — one call on a buffer of `size` bytes; `fgetsAll` — the buffers of calls to the end.
* `cString` — what string functions see of a buffer, up to the first byte 0.
-/

set_option autoImplicit false

namespace Lib

/-- Characters up to a newline, `n` at most, and the rest of the file. -/
def takeLine : ℕ → List Char → List Char × List Char
  | 0, s => ([], s)
  | _ + 1, [] => ([], [])
  | n + 1, c :: s => if c = '\n' then ([c], s) else (c :: (takeLine n s).1, (takeLine n s).2)

/-- `fgets`; `none` at the end of the file. -/
def fgets (size : ℕ) (s : List Char) : Option (List Char × List Char) :=
  match s with
  | [] => none
  | c :: t => some (takeLine (size - 1) (c :: t))

/-- Calls of `fgets` until the end of the file, `fuel` at most. -/
def fgetsTimes (size : ℕ) : ℕ → List Char → List (List Char)
  | 0, _ => []
  | fuel + 1, s =>
    match fgets size s with
    | none => []
    | some (buff, rest) => buff :: fgetsTimes size fuel rest

/-- All of them: each call takes a character at least. -/
def fgetsAll (size : ℕ) (s : List Char) : List (List Char) := fgetsTimes size s.length s

def cString (buff : List Char) : List Char := buff.takeWhile (· ≠ '\x00')

end Lib

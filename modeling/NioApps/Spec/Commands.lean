import NioApps.Lib.Bytes
import Mathlib.Data.Nat.Digits.Defs

/-! Two functions of the commands that compute with the C types of the target: the size
column of FLS (`format_size` of `fls.c`), and the history index of FHOST (`parse_index`
and `main` of `fhost.c`). -/

namespace NioApps.Commands

inductive Target
  | linux
  | msdos
  | atari
  | amiga
deriving DecidableEq, Repr

namespace Target

/-- The bits of an `int`. -/
def int : Target → ℕ
  | linux => 32
  | msdos => 16
  | atari => 16
  | amiga => 32

/-- The bits of a `long`. -/
def long : Target → ℕ
  | linux => 64
  | msdos => 32
  | atari => 32
  | amiga => 32

end Target

/-! ### FLS -/

/-- What becomes of a result of type `unsigned long` and of one of type `unsigned`. -/
structure Arith where
  long : ℕ → ℕ
  int : ℕ → ℕ
  long_le : ∀ n, long n ≤ n

def Target.arith (t : Target) : Arith where
  long := (· % 2 ^ t.long)
  int := (· % 2 ^ t.int)
  long_le := fun _ => Nat.mod_le _ _

/-- Integers without a bound. -/
def unbounded : Arith where
  long := id
  int := id
  long_le := fun _ => le_rfl

/-- The arguments of the three `sprintf`. -/
inductive Shown
  | bytes (size : ℕ)
  | decimal (whole tenths unit : ℕ)
  | rounded (whole unit : ℕ)
deriving DecidableEq, Repr

def suffix : List Char := [' ', 'k', 'M', 'G']

def padLeft (n : ℕ) (s : List Char) : List Char := List.replicate (n - s.length) ' ' ++ s

/-- `"%6lu"`, `"%3u.%u%c"` and `"%5u%c"`. -/
def Shown.text : Shown → List Char
  | .bytes size => padLeft 6 (Nat.toDigits 10 size)
  | .decimal whole tenths unit =>
    padLeft 3 (Nat.toDigits 10 whole) ++ '.' :: Nat.toDigits 10 tenths ++ [suffix.getD unit ' ']
  | .rounded whole unit => padLeft 5 (Nat.toDigits 10 whole) ++ [suffix.getD unit ' ']

/-- The first loop; the result is `unit` and `divisor`. -/
def unitLoop (A : Arith) (size unit divisor : ℕ) : ℕ × ℕ :=
  if size / divisor ≥ 1000 ∧ unit < 3 then unitLoop A size (unit + 1) (A.long (divisor * 1024))
  else (unit, divisor)
termination_by 3 - unit

/-- The second loop; the result is `rem` and `divisor`. -/
def rescale (A : Arith) (rem divisor : ℕ) : ℕ × ℕ :=
  if rem > 429496729 ∧ divisor > 1 then rescale A (A.long (rem + 5) / 10) (A.long (divisor + 5) / 10)
  else (rem, divisor)
termination_by divisor
decreasing_by
  have := A.long_le (divisor + 5)
  omega

def sizeShown (A : Arith) (size : ℕ) : Shown :=
  let (unit, divisor) := unitLoop A size 0 1
  if unit = 0 then .bytes size
  else
    let whole := A.int (size / divisor)
    let (rem, divisor) := rescale A (size % divisor) divisor
    let tenths := A.int (A.long (A.long (rem * 10) + divisor / 2) / divisor)
    let (whole, tenths) := if tenths ≥ 10 then (A.int (whole + 1), 0) else (whole, tenths)
    if whole < 10 ∧ tenths ≠ 0 then .decimal whole tenths unit else .rounded whole unit

def formatSize (A : Arith) (size : BitVec 32) : List Char := (sizeShown A size.toNat).text

/-! ### FHOST -/

def isDigit (c : Byte) : Bool := 0x30 ≤ c ∧ c ≤ 0x39

/-- The loop; `none` is the early `return -1`. -/
def parseDigits {w : ℕ} (value : BitVec w) : List Byte → Option (BitVec w)
  | [] => some value
  | c :: s => if isDigit c then parseDigits (value * 10 + BitVec.ofNat w (c.toNat - 0x30)) s else none

/-- A string is the list of its bytes. -/
def parseIndex (t : Target) (s : List Byte) : ℤ :=
  if s = [] then -1
  else
    match parseDigits (0 : BitVec t.int) s with
    | none => -1
    | some value => if 0 ≤ value.toInt ∧ value.toInt < 32 then value.toInt else -1

/-- `tolower` of an ASCII character. -/
def toLower (c : Byte) : Byte := if 0x41 ≤ c ∧ c ≤ 0x5a then c + 0x20 else c

def equalsCi (a b : List Byte) : Bool := a.map toLower = b.map toLower

/-- What `main` does first. -/
inductive HostAction
  | usage
  | listHistory
  | deleteHistory (index : Byte)
  | selectHistory (index : Byte)
  | showCurrent
  | setCurrent (uri : List Byte)
deriving DecidableEq, Repr

/-- `args`: the arguments after the name of the command. -/
def hostMain (t : Target) (args : List (List Byte)) : HostAction :=
  match args with
  | [] => .showCurrent
  | arg :: rest =>
    if rest.length > 1 ∨ arg.head? = some 0x3f then .usage
    else if rest = [] ∧ equalsCi arg [0x6c, 0x69, 0x73, 0x74] then .listHistory
    else
      let index := parseIndex t arg
      if index ≥ 0 then
        match rest with
        | [] => .selectHistory (BitVec.ofInt 8 index)
        | option :: _ => if equalsCi option [0x44] then .deleteHistory (BitVec.ofInt 8 index) else .usage
      else if rest ≠ [] then .usage
      else .setCurrent arg

end NioApps.Commands

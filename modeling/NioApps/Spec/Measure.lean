import NioApps.Lib.Bytes

/-! The build gate on the permanent RAM of the resident
(`check_atari_resident_ram.py`): the sizes in its o65 header and its link map. -/

namespace NioApps.Gate

/-- What ends the script early. -/
inductive Failure
  | valueError (message : String)
  | structError (message : String)
  | systemExit (message : String)
deriving DecidableEq, Repr

/-- The report of `measure`. -/
structure Footprint where
  code : ℕ
  initializedData : ℕ
  bss : ℕ
  zeroPage : ℕ
  permanentStack : ℕ
  memloReservation : ℕ
  total : ℕ
  limit : ℕ
deriving DecidableEq, Repr

/-! ### The link map -/

/-- `\s` of `re` on text. -/
def isSpace (c : Char) : Bool :=
  let n := c.toNat
  (0x09 ≤ n && n ≤ 0x0d) || (0x1c ≤ n && n ≤ 0x20) || n == 0x85 || n == 0xa0 || n == 0x1680 ||
    (0x2000 ≤ n && n ≤ 0x200a) || n == 0x2028 || n == 0x2029 || n == 0x202f || n == 0x205f || n == 0x3000

/-- `text.split(pattern)[0]` -/
def before (pattern : List Char) : List Char → List Char
  | [] => []
  | c :: cs => if pattern.isPrefixOf (c :: cs) then [] else c :: before pattern cs

/-- The group of `^([^\s].*):$` in one line. -/
def moduleName : List Char → Option (List Char)
  | [] => none
  | c :: cs => if isSpace c || cs.getLast? != some ':' then none else some (c :: cs.dropLast)

/-- `Path(path).name` -/
def fileName (path : List Char) : List Char :=
  ((path.splitOn '/').filter fun part => part != [] && part != ['.']).getLast?.getD []

def modules (linkMap : List Char) : List (List Char) :=
  (((before "Segment list:".toList linkMap).splitOn '\n').filterMap moduleName).filter fun name =>
    name != "Modules list".toList

/-- One object is linked, and it is `fnresident-asm.o`. -/
def handWritten (linkMap : List Char) : Bool :=
  match modules linkMap with
  | [name] => fileName name == "fnresident-asm.o".toList
  | _ => false

/-! ### The header -/

/-- The little-endian word at `k`. -/
def field (module : List Byte) (k : ℕ) : ℕ := le [module.getD k 0, module.getD (k + 1) 0]

def magic : List Byte := [0x01, 0x00, 0x6f, 0x36, 0x35, 0x00, 0x00, 0x08]

def footprint (text data bss zp : ℕ) : Footprint where
  code := text
  initializedData := data
  bss := bss
  zeroPage := zp
  permanentStack := 0
  memloReservation := text + data + bss
  total := text + data + bss + zp
  limit := 3072

def measure (module : List Byte) (linkMap : List Char) : Except Failure Footprint :=
  if module.take 8 ≠ magic then .error (.valueError "unsupported resident o65 header")
  else if module.length < 26 then
    .error (.structError s!"unpack_from requires a buffer of at least 26 bytes for unpacking 18 bytes at offset 8 (actual buffer size is {module.length})")
  else
    let tb := field module 8
    let text := field module 10
    let db := field module 12
    let data := field module 14
    let bb := field module 16
    let bss := field module 18
    let zb := field module 20
    let zp := field module 22
    let stack := field module 24
    if (tb, db, bb, zb, stack) ≠ (0, text, text + data, 0, 0) then
      .error (.valueError "resident must have contiguous segments and no implicit stack")
    else if !handWritten linkMap then
      .error (.valueError "resident must link only the hand-written CA65 object")
    else .ok (footprint text data bss zp)

/-- The report that `main` prints. -/
def main (module : List Byte) (linkMap : List Char) : Except Failure Footprint := do
  let report ← measure module linkMap
  if report.total > report.limit then
    throw (.systemExit "permanent Atari resident RAM exceeds 3072 bytes")
  return report

end NioApps.Gate

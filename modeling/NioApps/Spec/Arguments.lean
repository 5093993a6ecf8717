import NioApps.Spec.Commands

/-! Numbers among the arguments of the commands: `fnsvc_parse_u8` (`fnsvc.c`),
`parse_sector_size` (`fmount.c`), and the loop for the slot in both versions of the
Amiga FMOUNT (`platform/amiga/fmount.c`). A string is the list of its bytes. -/

namespace NioApps.Commands

/-! ### fnsvc_parse_u8 -/

/-- A turn of the loop; `none` is `return 0`. -/
def parseU8Digit (parsed : Word) (c : Byte) : Option Word :=
  if isDigit c = false then none
  else
    let digit := c - 0x30
    if parsed > 25 ∨ (parsed = 25 ∧ digit > 5) then none
    else some (parsed * 10 + digit.setWidth 16)

/-- `value` is what the pointer points to, before and after; `none` is a null pointer. -/
def parseU8 (text : Option (List Byte)) (value : Option Byte) : Bool × Option Byte :=
  match text, value with
  | some text, some _ =>
    if text = [] then (false, value)
    else
      match text.foldlM parseU8Digit 0 with
      | none => (false, value)
      | some parsed => (true, some (parsed.setWidth 8))
  | _, _ => (false, value)

/-! ### parse_sector_size -/

/-- A turn of the loop; `none` is `return 0`. -/
def sectorSizeDigit (v : Word) (c : Byte) : Option Word :=
  if isDigit c = false ∨ v > 409 then none else some (v * 10 + (c - 0x30).setWidth 16)

/-- `out` is what the pointer points to, before and after. -/
def parseSectorSize (s : List Byte) (out : Word) : Bool × Word :=
  if s = [] then (false, out)
  else
    match s.foldlM sectorSizeDigit 0 with
    | none => (false, out)
    | some v => if v < 128 ∨ v > 4096 ∨ v &&& (v - 1) ≠ 0 then (false, out) else (true, v)

/-! ### FMOUNT of the Amiga -/

/-- The loop over the digits of `argv[1]`: `slot_val`, and the rest of the string. -/
def slotLoop (slotVal : BitVec 32) : List Byte → BitVec 32 × List Byte
  | [] => (slotVal, [])
  | c :: s => if isDigit c then slotLoop (slotVal * 10 + c.setWidth 32 - 0x30) s else (slotVal, c :: s)

/-- How the first steps of `main` end, up to the assignment of `slot`. -/
inductive SlotRead
  | usage
  | badSlot
  | slot (slot : Byte)
deriving DecidableEq, Repr

/-- `args`: the arguments after the name of the command. -/
def readSlot (args : List (List Byte)) : SlotRead :=
  match args with
  | [] => .usage
  | arg :: rest =>
    if rest.length > 2 ∨ arg.head? = some 0x3f then .usage
    else
      let (slotVal, tail) := slotLoop 0 arg
      if tail ≠ [] ∨ slotVal.toInt > 255 then .badSlot else .slot (slotVal.setWidth 8)

/-- `main` for Kickstart 1.3. -/
def kick13Main (args : List (List Byte)) : SlotRead := readSlot args

/-- `main` for Kickstart 2 and later. -/
def kick2Main (args : List (List Byte)) : SlotRead := readSlot args

end NioApps.Commands

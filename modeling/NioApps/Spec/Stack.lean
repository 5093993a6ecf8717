import NioApps.Spec.Install

/-! `_main` with the stack pointer, from its `tsx` to its `rts`. -/

namespace NioApps.Loader

structure Cpu where
  sp : Byte
  entrySp : Byte
  ram : Ram

/-- `tsx`, `stx entry_sp` -/
def saveSp (c : Cpu) : Cpu := { c with entrySp := c.sp }

/-- The way to `finish`. `read_byte` leaves from any depth, so the stack pointer there,
`depth`, is any function of what happened. -/
def toFinish (b : Build) (depth : Ram → Byte) (c : Cpu) : Cpu :=
  let w := Abort.left ((body b).run c.ram)
  { c with sp := depth w, ram := w }

/-- `finish`, with `ldx entry_sp`, `txs` at its end. -/
def fromFinish (b : Build) (c : Cpu) : Cpu := { c with ram := finish b c.ram, sp := c.entrySp }

def mainCpu (b : Build) (depth : Ram → Byte) (c : Cpu) : Cpu := fromFinish b (toFinish b depth (saveSp c))

end NioApps.Loader

import NioApps.Spec.Loader

/-! `_main` of the loader around `load_module`: the RESULT block, the wrapper and
its placement, the HATABS scan, the init entry, and the publication. -/

namespace NioApps.Loader

/-! ### Before `load_module` -/

def saveCallerZp (w : Ram) : Ram := { w with zpSave := w.zp }

def restoreCallerZp (w : Ram) : Ram := w.setZp w.zpSave

def initResult (w : Ram) : Ram :=
  w.setReport { w.report with
    outcome := outMemory
    init := 0xff
    hatOffset := 0xff
    detail := 0xff
    oldMemlo := wordAt w.mem memlo
    newMemlo := wordAt w.mem memlo
    memtop := wordAt w.mem memtop
    stackFloor := wordAt w.mem memtop - stackReserve
    sdlstl := wordAt w.mem sdlstl
    savmsc := wordAt w.mem savmsc }

/-- The tests of `validate_wrapper` before it derives the bounds of the source. -/
def wrapperBad (b : Build) (w : Ram) : Bool :=
  let byte (k : Word) : Byte := w.mem (b.stage + k)
  byte 0 != 0x46 || byte 1 != 0x4e || byte 2 != 0x52 || byte 3 != 0x31 || byte 4 != 1 || byte 5 != 22 ||
    w.fnrZp b != cc65ZpSize || (b.asmResident && (w.fnrCstack b != 0 || !(w.fnrAlloc b < 3047))) ||
    w.fnrModuleLen b == 0

def validateWrapper (b : Build) : Load Bool := do
  let w ← get
  if wrapperBad b w then return true
  let start := b.stage + fnrHeader
  modify fun w => w.setZp { w.zp with
    modulePtr := start, srcPtr := start, moduleEnd := start + w.fnrModuleLen b }
  if start.toNat + (w.fnrModuleLen b).toNat ≥ 2 ^ 16 then return true
  if b.diskSource then return false
  return !((← get).zp.moduleEnd < w.report.stackFloor)

/-- Only the SDX child has been given a fixed allocation. -/
def wrongPayload (b : Build) (w : Ram) : Bool :=
  match b.source with
  | .sdxChild _ _ _ _ expectedAlloc => w.fnrAlloc b != expectedAlloc
  | _ => false

/-- MEMLO, or the allocation of the parent, rounded up to even. -/
def alignedBase (b : Build) (w : Ram) : Word :=
  let base := wordAt w.mem (if b.sdxChild then 0x06a4 else memlo)
  if base &&& 1 = 0 then base else base + 1

/-- Below the transient loader: the low bytes are compared for equality only. -/
def belowLoader (b : Build) (a : Word) : Bool := hi a < hi b.loaderStart || a == b.loaderStart

def calculateRanges (b : Build) : Load Bool := do
  let w ← get
  let base := alignedBase b w
  let imageEnd := base + w.fnrAlloc b
  modify fun w => { w.setZp { w.zp with basePtr := base, targetEnd := imageEnd } with
    report := { w.report with start := base } }
  if base.toNat + (w.fnrAlloc b).toNat ≥ 2 ^ 16 then return true
  let targetEnd := imageEnd + w.fnrCstack b
  modify fun w => w.setZp { w.zp with targetEnd := targetEnd }
  if imageEnd.toNat + (w.fnrCstack b).toNat ≥ 2 ^ 16 then return true
  modify fun w => w.setReport { w.report with stop := targetEnd }
  return !(belowLoader b targetEnd && targetEnd < w.report.stackFloor && targetEnd < w.report.sdlstl &&
    targetEnd < w.report.savmsc)

def recordTableAndVectors (w : Ram) : Ram :=
  w.setReport { w.report with
    table := w.zp.tablePtr
    vectors := fun y => if y < 12 then w.mem (w.zp.tablePtr + BitVec.ofNat 16 y) else w.report.vectors y }

/-- `F N <kind> 1` at `marker_ptr`. -/
def markerAt (b : Build) (mem : Word → Byte) (a : Word) : Bool :=
  mem a == 0x46 && mem (a + 1) == 0x4e && mem (a + 2) == b.markerKind && mem (a + 3) == 0x31

def scanForeign (w : Ram) : Ram := w.setOutcome outForeign

/-- `@existing`: the entry at X names device `N`. -/
def scanExisting (b : Build) (x : Byte) (w : Ram) : Ram :=
  let table := wordAt w.mem (hatabs + 1 + x.setWidth 16)
  let w := w.setZp { w.zp with tablePtr := table, existingBase := table - w.fnrTable b }
  if table < w.fnrTable b then scanForeign w
  else if !(w.zp.existingBase < w.report.oldMemlo) then scanForeign w
  else
    let w := w.setZp { w.zp with markerPtr := w.zp.existingBase + w.fnrMarker b }
    if !markerAt b w.mem w.zp.markerPtr then scanForeign w
    else
      recordTableAndVectors (w.setReport { w.report with
        hatOffset := x
        outcome := outOwn
        start := w.zp.existingBase
        stop := w.zp.existingBase + w.fnrAlloc b + w.fnrCstack b })

/-- `@scan` at X, with `n` entries left. -/
def scanLoop (b : Build) : ℕ → Byte → Ram → Bool × Ram
  | 0, _, w => (true, w.setOutcome outNoSlot)
  | n + 1, x, w =>
    let a := w.mem (hatabs + x.setWidth 16)
    if a = 0 then (false, { w with hatSlot := x })
    else if a = 0x4e then (true, scanExisting b x w)
    else scanLoop b n (x + 3) w

def scanHatabs (b : Build) : Load Bool := do
  let (c, w) := scanLoop b (hatabsBytes / 3) 0 { (← get) with hatSlot := 0 }
  set w
  return c

/-- `_main` down to the call of `load_module`. -/
def beforeLoad (b : Build) : Load Unit := do
  modify fun w => initResult (saveCallerZp w)
  if b.diskSource then
    modify fun w => { w with diskIocb := 0xff }
    if ← diskOpenHeader b then failFormat
  if ← validateWrapper b then failFormat
  if wrongPayload b (← get) then failFormat
  if ← scanHatabs b then throw ()
  if ← calculateRanges b then failMemory

/-! ### After `load_module` -/

/-- The call of the init entry, with `c_sp` in `$82/$83`. -/
def callEntry (w : Ram) : Ram :=
  let w := (w.setZp { w.zp with modulePtr := w.zp.targetEnd }).record (.call w.zp.entryPtr)
  let r := w.initEntry w.mem
  { w.setMem r.mem with zp := r.zp, initStatus := r.status, report := { w.report with init := r.status } }

def prepareAndInit (b : Build) : Load Bool := do
  modify fun w => w.setZp { w.zp with markerPtr := w.zp.basePtr + w.fnrMarker b }
  let w ← get
  if !markerAt b w.mem w.zp.markerPtr then return true
  modify fun w => w.setZp { w.zp with entryPtr := w.zp.basePtr + w.fnrEntry b }
  modify callEntry
  return (← get).initStatus ≠ 0

/-- `@next` of `validate_table_vectors`, with `n` vectors left from `a` on. -/
def vectorsBad (w : Ram) : ℕ → Word → Bool
  | 0, _ => false
  | n + 1, a =>
    let target := wordAt w.mem a + 1
    if target < w.zp.basePtr ∨ ¬target < w.report.stop then true else vectorsBad w n (a + 2)

/-- The three bytes of the HATABS entry, the name last, and MEMLO. -/
def publishEntry (b : Build) (w : Ram) : Ram :=
  let x := hatabs + w.hatSlot.setWidth 16
  let w := w.publish (x + 1) (lo w.zp.tablePtr)
  let w := w.publish (x + 2) (hi w.zp.tablePtr)
  let w := w.publish x 0x4e
  if b.sdxChild then w.setReport { w.report with newMemlo := wordAt w.mem memlo }
  else
    let w := w.publish memlo (lo w.zp.targetEnd)
    let w := w.publish (memlo + 1) (hi w.zp.targetEnd)
    w.setReport { w.report with newMemlo := w.zp.targetEnd }

def publishHatabs (b : Build) : Load Unit := do
  modify fun w => w.setZp { w.zp with basePtr := w.report.start, targetEnd := w.report.stop }
  modify fun w => w.setZp { w.zp with tablePtr := w.zp.basePtr + w.fnrTable b }
  let w ← get
  if vectorsBad w 6 w.zp.tablePtr then
    modify (·.setDetail 0xe7)
    failFormat
  modify fun w => recordTableAndVectors (w.setDetail 0x38)
  modify (publishEntry b)
  modify fun w => w.setReport { w.report with hatOffset := w.hatSlot, outcome := outInstalled }

def afterLoad (b : Build) : Load Unit := do
  modify (·.setDetail 0x36)
  if ← prepareAndInit b then failInit
  modify (·.setDetail 0x37)
  publishHatabs b

/-! ### `_main` -/

/-- `_main` down to `finish`. -/
def body (b : Build) : Load Unit := do
  beforeLoad b
  if ← loadModule b then failFormat
  afterLoad b

/-- The first 40 bytes of the RESULT block. -/
def Report.bytes (r : Report) : List Byte :=
  [0x4e, 0x52, 0x49, 0x21, 2, r.outcome, r.init, 0x92] ++
    [r.oldMemlo, r.newMemlo, r.start, r.stop, r.memtop, r.stackFloor, r.sdlstl, r.savmsc].flatMap
      (fun a => [lo a, hi a]) ++
    [r.hatOffset, r.detail, lo r.table, hi r.table] ++ slice r.vectors 0 12

/-- `@share`, in the SDX child. -/
def share (w : Ram) : Ram := w.setMem (putBytes 0x06b0 40 (fun k => w.report.bytes.getD k 0) w.mem)

def finish (b : Build) (w : Ram) : Ram :=
  let w := if b.sdxChild then share w else w
  let w := if b.diskSource then Abort.left (diskClose.run w) else w
  restoreCallerZp w

def main (b : Build) (w : Ram) : Ram := finish b (Abort.left ((body b).run w))

end NioApps.Loader

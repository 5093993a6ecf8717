import NioApps.Sanity.Bounds
import NioApps.Sanity.Header
import NioApps.Sanity.Placement

/-! `_main` from `load_module` to its return: a bounded module keeps to its target,
`Installed` is the way through the init entry and the publication, `Declined` every
other one, and `finish` only gives back what was borrowed. -/

namespace NioApps.Loader

open Abort Image

/-! ### Loading -/

/-- What the loader reads is not in the target. -/
theorem Prepared.placed {b : Build} {w w' : Ram} (h : Prepared b w w') (hb : b.Laid)
    (hmemlo : b.diskSource = true → 0x0400 ≤ w'.report.start) :
    Placed b w'.report.start (w'.fnrAlloc b) (parsed w') := by
  have hend : w'.report.start.toNat + (w'.fnrAlloc b).toNat ≤ b.loaderStart.toNat := by
    have hstop := h.ranges.stop
    have hloader := BitVec.le_def.1 h.ranges.loader
    omega
  refine ⟨rfl, h.iocb, fun hs a ha hin => ?_, fun a ha hio => ?_⟩
  · have hsrc : b.stage + fnrHeader + 26 ≤ a := h.modulePtr ▸ hin.1
    obtain ⟨source, asm⟩ := b
    cases source with
    | staged =>
      simp only [Build.stage, Build.loaderStart, fnrHeader] at hsrc hend
      bv_omega
    | disk name => cases hs
    | sdxChild => cases hs
  · have hstart := hmemlo hio.1
    have hbuffer : ¬a - b.diskBuffer < 0x0100 := by
      obtain ⟨source, asm⟩ := b
      cases source with
      | staged => cases hio.1
      | disk name =>
        simp only [Build.diskBuffer, Build.loaderStart] at hend ⊢
        bv_omega
      | sdxChild main stageBuf diskBuf name expected =>
        obtain ⟨-, hle, htop⟩ := hb
        simp only [Build.diskBuffer, Build.loaderStart] at hend ⊢
        bv_omega
    refine hio.2.elim hbuffer fun hiocb => ?_
    bv_omega

def Frame.anchor (f : Frame) : Anchor := ⟨f.start, f.stop, f.hatSlot, f.iocb, f.iocbSave, f.zpSave, f.initEntry⟩

/-- `load_module` has run from `w` to `w'`, whatever it came to. -/
structure Loaded (b : Build) (w w' : Ram) : Prop where
  anchor : w'.anchor = w.anchor
  basePtr : w'.zp.basePtr = w.zp.basePtr
  targetEnd : w'.zp.targetEnd = w.zp.targetEnd
  mem : ∀ a, ¬a - w.report.start < w.fnrAlloc b → ¬b.Io a → w'.mem a = w.mem a
  log : Grows w w'

/-- The module after an accepted header stays in its allocation. -/
def BoundedModule (b : Build) (w : Ram) : Prop :=
  HeaderOk b w → Bounded w.report.start (o65Word w 10) (o65Word w 14) (o65Word w 18) (w.fnrAlloc b) (feed b (parsed w))

theorem Moved.loaded {b : Build} {w w' : Ram} {es : List Edit}
    (h : Moved b w.report.start (w.fnrAlloc b) (parsed (w.setDetail 0x30)) w' es) (hlog : Grows w w') : Loaded b w w' :=
  ⟨congrArg Frame.anchor h.frame, congrArg Frame.basePtr h.frame, congrArg Frame.targetEnd h.frame, h.outside, hlog⟩

theorem parsed_feed {b : Build} {w : Ram} (hx : IocbOk b w) (d : Byte) :
    feed b (parsed (w.setDetail d)) = feed b (parsed w) :=
  Alike.feed (w := parsed w) ⟨rfl, rfl, rfl, rfl, rfl, rfl, fun _ _ _ _ => rfl, fun _ _ => rfl⟩ hx

/-- With an accepted header a bounded module is carried out as planned. -/
theorem loadImage_moved {b : Build} {w w₁ : Ram} (h : Prepared b w w₁) (hb : b.Laid)
    (hmemlo : b.diskSource = true → 0x0400 ≤ w₁.report.start) (hbounded : BoundedModule b w₁) (hok : HeaderOk b w₁) :
    ∃ (w₂ : Ram) (p : Plan), Within (w₁.fnrAlloc b) p.edits ∧
      Moved b w₁.report.start (w₁.fnrAlloc b) (parsed (w₁.setDetail 0x30)) w₂ p.edits ∧
      Ends b w₁.report.start (w₁.fnrAlloc b) (parsed (w₁.setDetail 0x30)) false true (fun _ => True) w₂
        ((loadImage b).run (parsed (w₁.setDetail 0x30))) p.ending := by
  have hplaced := h.placed hb hmemlo
  have hplaced' : Placed b w₁.report.start (w₁.fnrAlloc b) (parsed (w₁.setDetail 0x30)) :=
    ⟨rfl, hplaced.iocb, hplaced.staged, hplaced.disk⟩
  have hperforms := loadImage_performs hplaced' h.ranges.basePtr
  rw [parsed_feed h.iocb] at hperforms
  have hin := (within_plan_iff hok.alloc).2 (hbounded hok)
  obtain ⟨w₂, hmoved, hends⟩ := hperforms.within hin
  exact ⟨w₂, _, hin, hmoved, hends⟩

theorem loadModule_wp {b : Build} {w w₁ : Ram} (h : Prepared b w w₁) (hb : b.Laid)
    (hmemlo : b.diskSource = true → 0x0400 ≤ w₁.report.start) (hbounded : BoundedModule b w₁) :
    wp (loadModule b) (fun _ w₂ => Loaded b w₁ w₂) (fun w₂ => Loaded b w₁ w₂ ∧ w₂.report.outcome = outFormat) w₁ := by
  by_cases hok : HeaderOk b w₁
  · obtain ⟨w₂, p, -, hmoved, hends⟩ := loadImage_moved h hb hmemlo hbounded hok
    have hgrows := (loadModule_steady b w₁).log
    rw [loadModule_left hok] at hgrows
    rw [wp, loadModule_run hok]
    cases he : p.ending with
    | done rest =>
      rw [he] at hends
      rw [hends.1] at hgrows ⊢
      exact hmoved.loaded hgrows
    | rejected =>
      rw [he, Ends] at hends
      rw [hends] at hgrows ⊢
      exact hmoved.loaded hgrows
    | truncated =>
      rw [he] at hends
      rw [hends.1] at hgrows ⊢
      exact ⟨hmoved.loaded hgrows, hends.2⟩
  · obtain ⟨t, d, i, s, hrun⟩ := loadModule_bad hok
    rw [wp, hrun]
    exact ⟨rfl, rfl, rfl, fun _ _ _ => rfl, .of_log rfl⟩

/-- A bounded module is stored in the target. -/
theorem loadModule_targets {b : Build} {w w₁ : Ram} (h : Prepared b w w₁) (hb : b.Laid)
    (hmemlo : b.diskSource = true → 0x0400 ≤ w₁.report.start) (hbounded : BoundedModule b w₁) {a : Word}
    (ha : a ∈ targets (left ((loadModule b).run w₁)).log) : a ∈ targets w₁.log ∨ a - w₁.report.start < w₁.fnrAlloc b := by
  by_cases hok : HeaderOk b w₁
  · obtain ⟨w₂, p, hin, hmoved, hends⟩ := loadImage_moved h hb hmemlo hbounded hok
    have hleft : left ((loadModule b).run w₁) = w₂ := by
      rw [loadModule_left hok]
      cases he : p.ending <;> rw [he] at hends
      · rw [hends.1, left_ok]
      · rw [hends, left_ok]
      · rw [hends.1, left_error]
    rw [hleft, hmoved.log, List.mem_append, List.mem_map] at ha
    refine ha.imp id ?_
    rintro ⟨o, ho, rfl⟩
    have hoff : w₁.report.start + o - w₁.report.start = o := by bv_omega
    rw [hoff]
    exact hin o ho
  · obtain ⟨t, d, i, s, hrun⟩ := loadModule_bad hok
    rw [hrun] at ha
    exact .inl ha

/-! ### Publication -/

/-- Memory after the publication of `table` in the entry at `x`, with `stop` as MEMLO. -/
def publishedMem (b : Build) (x : Byte) (table stop : Word) (mem : Word → Byte) : Word → Byte :=
  let a := hatabs + x.setWidth 16
  let entry := Function.update (Function.update (Function.update mem (a + 1) (lo table)) (a + 2) (hi table)) a 0x4e
  if b.sdxChild then entry else Function.update (Function.update entry memlo (lo stop)) (memlo + 1) (hi stop)

/-- The memory that the init entry leaves. -/
def initMem (w : Ram) : Word → Byte := (w.initEntry w.mem).mem

/-- `prepare_and_init` and `publish_hatabs` have run from `w` to `w'`. -/
structure Installed (b : Build) (w w' : Ram) : Prop where
  anchor : w'.anchor = w.anchor
  outcome : w'.report.outcome = outInstalled
  marker : markerAt b w.mem (w.zp.basePtr + w.fnrMarker b) = true
  status : (w.initEntry w.mem).status = 0
  mem : w'.mem = publishedMem b w.hatSlot (w.report.start + wordAt (initMem w) (b.stage + 8)) w.report.stop (initMem w)
  hatOffset : w'.report.hatOffset = w.hatSlot
  table : w'.report.table = w.report.start + wordAt (initMem w) (b.stage + 8)
  vectors : ∀ k < 6, ∃ v, v = BitVec.ofNat 16 (le [w'.report.vectors (2 * k), w'.report.vectors (2 * k + 1)]) + 1 ∧
    w.report.start ≤ v ∧ v < w.report.stop
  log : ∃ es, w'.log = w.log ++ .call (w.zp.basePtr + w.fnrEntry b) :: es ∧ ∀ e ∈ es, ∃ a, e = .publish a

/-- They were left on the way. -/
structure Declined (b : Build) (w w' : Ram) : Prop where
  anchor : w'.anchor = w.anchor
  outcome : w'.report.outcome = outInitFailed ∨ w'.report.outcome = outFormat
  way : w'.mem = w.mem ∧ w'.log = w.log ∨
    w'.mem = initMem w ∧ w'.log = w.log ++ [.call (w.zp.basePtr + w.fnrEntry b)]

/-- The state on return from the init entry. -/
def called (b : Build) (w : Ram) : Ram :=
  callEntry (w.setZp { w.zp with
    markerPtr := w.zp.basePtr + w.fnrMarker b
    entryPtr := w.zp.basePtr + w.fnrEntry b })

theorem prepareAndInit_wp (b : Build) (w : Ram) :
    wp (prepareAndInit b)
      (fun c w' => (c = true → w'.anchor = w.anchor ∧ (w'.mem = w.mem ∧ w'.log = w.log ∨
          w'.mem = initMem w ∧ w'.log = w.log ++ [.call (w.zp.basePtr + w.fnrEntry b)])) ∧
        (c = false → w' = called b w ∧ markerAt b w.mem (w.zp.basePtr + w.fnrMarker b) = true ∧
          (w.initEntry w.mem).status = 0)) (fun _ => False) w := by
  refine wp_bind.2 (wp_modify.2 (wp_bind.2 (wp_get.2 (wp_ite (fun _ => ?_) fun hmarker => ?_))))
  · exact ⟨fun _ => ⟨rfl, .inl ⟨rfl, rfl⟩⟩, fun hc => by cases hc⟩
  · refine wp_bind.2 (wp_modify.2 (wp_bind.2 (wp_modify.2 (wp_bind.2 (wp_get.2 ⟨fun _ => ?_, fun hc => ?_⟩)))))
    · exact ⟨rfl, .inr ⟨rfl, rfl⟩⟩
    · refine ⟨rfl, ?_, ?_⟩
      · rwa [Bool.not_eq_true, Bool.not_eq_false'] at hmarker
      · exact not_not.1 (of_decide_eq_false hc)

theorem vectorsBad_false {w : Ram} {n : ℕ} {a : Word} (h : vectorsBad w n a = false) :
    ∀ k < n, w.zp.basePtr ≤ wordAt w.mem (a + BitVec.ofNat 16 (2 * k)) + 1 ∧
      wordAt w.mem (a + BitVec.ofNat 16 (2 * k)) + 1 < w.report.stop := by
  induction n generalizing a with
  | zero => exact fun k hk => absurd hk (Nat.not_lt_zero k)
  | succ n ih =>
    simp only [vectorsBad] at h
    split_ifs at h with hbad
    rw [not_or, not_not] at hbad
    intro k hk
    cases k with
    | zero => simpa using hbad
    | succ k =>
      have hnext : a + 2 + BitVec.ofNat 16 (2 * k) = a + BitVec.ofNat 16 (2 * (k + 1)) := by
        rw [Nat.mul_add, BitVec.ofNat_add]
        bv_omega
      have hk' := ih h k (Nat.lt_of_succ_lt_succ hk)
      rwa [hnext] at hk'

/-- The state before the vectors are checked. -/
def aimed (b : Build) (w : Ram) : Ram :=
  w.setZp { w.zp with basePtr := w.report.start, targetEnd := w.report.stop, tablePtr := w.report.start + w.fnrTable b }

theorem publishEntry_mem (b : Build) (w : Ram) :
    (publishEntry b w).mem = publishedMem b w.hatSlot w.zp.tablePtr w.zp.targetEnd w.mem := by
  rw [publishEntry, publishedMem]
  cases b.sdxChild <;> rfl

theorem publishEntry_anchor (b : Build) (w : Ram) : (publishEntry b w).anchor = w.anchor := by
  rw [publishEntry]
  cases b.sdxChild <;> rfl

/-- From `w` to `w'` the log grew by stores to HATABS and MEMLO. -/
def Publishes (w w' : Ram) : Prop := ∃ es, w'.log = w.log ++ es ∧ ∀ e ∈ es, ∃ a, e = .publish a

theorem Publishes.of_log {w w' : Ram} (h : w'.log = w.log) : Publishes w w' :=
  ⟨[], by rw [h, List.append_nil], by simp⟩

theorem Publishes.store {w w' : Ram} (h : Publishes w w') (a : Word) (v : Byte) : Publishes w (w'.publish a v) := by
  obtain ⟨es, hlog, hes⟩ := h
  refine ⟨es ++ [.publish a], ?_, fun e he => ?_⟩
  · rw [← List.append_assoc, ← hlog]
    rfl
  · rcases List.mem_append.1 he with he | he
    · exact hes e he
    · exact ⟨a, List.mem_singleton.1 he⟩

theorem publishEntry_log (b : Build) (w : Ram) : Publishes w (publishEntry b w) := by
  have hentry := ((Publishes.of_log (w := w) rfl).store (hatabs + w.hatSlot.setWidth 16 + 1) (lo w.zp.tablePtr)).store
    (hatabs + w.hatSlot.setWidth 16 + 2) (hi w.zp.tablePtr) |>.store (hatabs + w.hatSlot.setWidth 16) 0x4e
  rw [publishEntry]
  cases b.sdxChild
  · exact (hentry.store memlo (lo w.zp.targetEnd)).store (memlo + 1) (hi w.zp.targetEnd)
  · exact hentry

/-- The state before the publication. -/
def recorded (b : Build) (w : Ram) : Ram := recordTableAndVectors ((aimed b w).setDetail 0x38)

theorem publishEntry_report (b : Build) (w : Ram) :
    (publishEntry b w).report.table = w.report.table ∧ (publishEntry b w).report.vectors = w.report.vectors := by
  rw [publishEntry]
  cases b.sdxChild <;> exact ⟨rfl, rfl⟩

/-- `publish_hatabs` from `w` to `w'`. -/
structure Publication (b : Build) (w w' : Ram) : Prop where
  anchor : w'.anchor = w.anchor
  outcome : w'.report.outcome = outInstalled
  mem : w'.mem = publishedMem b w.hatSlot (w.report.start + w.fnrTable b) w.report.stop w.mem
  hatOffset : w'.report.hatOffset = w.hatSlot
  table : w'.report.table = w.report.start + w.fnrTable b
  vectors : ∀ k < 6, ∃ v, v = BitVec.ofNat 16 (le [w'.report.vectors (2 * k), w'.report.vectors (2 * k + 1)]) + 1 ∧
    w.report.start ≤ v ∧ v < w.report.stop
  log : Publishes w w'

theorem publishHatabs_wp (b : Build) (w : Ram) :
    wp (publishHatabs b) (fun _ w' => Publication b w w')
      (fun w' => w'.anchor = w.anchor ∧ w'.report.outcome = outFormat ∧ w'.mem = w.mem ∧ w'.log = w.log) w := by
  refine wp_bind.2 (wp_modify.2 (wp_bind.2 (wp_modify.2 (wp_bind.2 (wp_get.2 (wp_ite (fun _ => ?_) fun hvectors => ?_))))))
  · exact wp_bind.2 (wp_modify.2 ⟨rfl, rfl, rfl, rfl⟩)
  · refine wp_bind.2 (wp_modify.2 (wp_bind.2 (wp_modify.2 (wp_modify.2 ?_))))
    have hgood := vectorsBad_false (w := aimed b w) (Bool.eq_false_of_not_eq_true hvectors)
    obtain ⟨htable, hrecorded⟩ := publishEntry_report b (recorded b w)
    refine ⟨publishEntry_anchor b (recorded b w), rfl, publishEntry_mem b (recorded b w),
      congrArg Anchor.hatSlot (publishEntry_anchor b (recorded b w)), htable, fun k hk => ?_,
      publishEntry_log b (recorded b w)⟩
    have hgood' := hgood k hk
    refine ⟨wordAt w.mem (w.report.start + w.fnrTable b + BitVec.ofNat 16 (2 * k)) + 1, ?_, hgood'.1, hgood'.2⟩
    have hnext : w.report.start + w.fnrTable b + BitVec.ofNat 16 (2 * k + 1) =
        w.report.start + w.fnrTable b + BitVec.ofNat 16 (2 * k) + 1 := by
      rw [BitVec.ofNat_add, ← BitVec.add_assoc]
      rfl
    have hlo : (recorded b w).report.vectors (2 * k) =
        w.mem (w.report.start + w.fnrTable b + BitVec.ofNat 16 (2 * k)) := if_pos (by omega)
    have hhi : (recorded b w).report.vectors (2 * k + 1) =
        w.mem (w.report.start + w.fnrTable b + BitVec.ofNat 16 (2 * k) + 1) := by
      rw [← hnext]
      exact if_pos (by omega)
    change _ = BitVec.ofNat 16 (le [(publishEntry b (recorded b w)).report.vectors (2 * k),
      (publishEntry b (recorded b w)).report.vectors (2 * k + 1)]) + 1
    rw [hrecorded, hlo, hhi]
    rfl

/-- The way from `load_module` to the publication. -/
theorem afterLoad_wp (b : Build) (w : Ram) :
    wp (afterLoad b) (fun _ => Installed b w) (Declined b w) w := by
  refine wp_bind.2 (wp_modify.2 ?_)
  refine orLeave_wp (m := prepareAndInit b) (f := failInit) (prepareAndInit_wp b _) (fun w₁ h => ?_) fun w₁ h => ?_
  · obtain ⟨hanchor, hway⟩ := h.1 rfl
    exact show Declined b w (w₁.setOutcome outInitFailed) from ⟨hanchor, .inl rfl, hway⟩
  · obtain ⟨rfl, hmarker, hstatus⟩ := h.2 rfl
    refine wp_bind.2 (wp_modify.2 ((publishHatabs_wp b _).mono (fun _ w₂ hpub => ?_) fun w₂ hleft => ?_))
    · obtain ⟨es, hlog, hes⟩ := hpub.log
      refine ⟨hpub.anchor, hpub.outcome, hmarker, hstatus, hpub.mem, hpub.hatOffset, hpub.table, hpub.vectors, es, ?_, hes⟩
      rw [hlog]
      exact List.append_assoc w.log [_] es
    · exact ⟨hleft.1, .inr hleft.2.1, .inr ⟨hleft.2.2.1, hleft.2.2.2⟩⟩

/-! ### The end -/

/-- Memory on return from `finish`: the IOCB is as it was, and in the SDX child the
parent has the RESULT block. -/
def finishedMem (b : Build) (w : Ram) : Word → Byte := fun a =>
  if b.diskSource = true ∧ w.diskIocb.msb = false ∧ a - (0x0340 + w.diskIocb.setWidth 16) < 16 then
    w.diskIocbSave (a - (0x0340 + w.diskIocb.setWidth 16)).toNat
  else if b.sdxChild then (share w).mem a else w.mem a

theorem diskClose_run (w : Ram) :
    (diskClose).run w =
      if w.diskIocb.msb then .ok () w
      else .ok () { (cioDone 12 w).setMem (putIocb w.diskIocb w.diskIocbSave (cioDone 12 w).mem) with diskIocb := 0xff } := by
  rw [diskClose, EStateM.run_bind, EStateM.run_get]
  dsimp only
  split_ifs <;> rfl

/-- `disk_close` restores the IOCB, and touches no other memory. -/
theorem diskClose_spec (w : Ram) :
    (left (diskClose.run w)).report = w.report ∧ (left (diskClose.run w)).zpSave = w.zpSave ∧
      (left (diskClose.run w)).mem = fun a =>
        if w.diskIocb.msb = false ∧ a - (0x0340 + w.diskIocb.setWidth 16) < 16 then
          w.diskIocbSave (a - (0x0340 + w.diskIocb.setWidth 16)).toNat
        else w.mem a := by
  rw [diskClose_run]
  cases hx : w.diskIocb.msb
  · refine ⟨rfl, rfl, funext fun a => ?_⟩
    simp only [Bool.false_eq_true, if_false, left_ok, Ram.setMem_mem, putIocb, true_and]
    split_ifs with ha
    · rfl
    · exact (cioDone_mem 12 w ha).trans (if_neg (by simp))
  · refine ⟨rfl, rfl, funext fun a => ?_⟩
    simp

theorem finish_spec (b : Build) (w : Ram) :
    (finish b w).report = w.report ∧ (finish b w).zp = w.zpSave ∧ (finish b w).mem = finishedMem b w := by
  have hshare : (if b.sdxChild = true then share w else w).report = w.report ∧
      (if b.sdxChild = true then share w else w).zpSave = w.zpSave ∧
      (if b.sdxChild = true then share w else w).diskIocb = w.diskIocb ∧
      (if b.sdxChild = true then share w else w).diskIocbSave = w.diskIocbSave := by
    split_ifs <;> exact ⟨rfl, rfl, rfl, rfl⟩
  obtain ⟨hreport, hzp, hiocb, hsave⟩ := hshare
  have hmem (a : Word) : (if b.sdxChild = true then share w else w).mem a =
      if b.sdxChild = true then (share w).mem a else w.mem a := by split_ifs <;> rfl
  simp only [finish]
  generalize (if b.sdxChild = true then share w else w) = v at hreport hzp hiocb hsave hmem
  obtain ⟨hreport', hzp', hmem'⟩ := diskClose_spec v
  by_cases hd : b.diskSource = true
  · rw [if_pos hd]
    refine ⟨hreport'.trans hreport, hzp'.trans hzp, funext fun a => ?_⟩
    change (left (diskClose.run v)).mem a = _
    rw [hmem', finishedMem]
    simp only [hd, true_and, hiocb, hsave, hmem]
  · rw [if_neg hd]
    refine ⟨hreport, hzp, funext fun a => ?_⟩
    change v.mem a = _
    rw [finishedMem, hmem]
    exact (if_neg fun h => hd h.1).symm

/-! ### The whole run -/

/-- A run of `_main` with a bounded module: left before, in or after `load_module`, or
installed. -/
inductive Course (b : Build) (w : Ram) : Ram → Prop
  | early {w' : Ram} (h : LeftEarly b w w') : Course b w w'
  | refused {w₁ w' : Ram} (hp : Prepared b w w₁) (h : Loaded b w₁ w') (hout : w'.report.outcome = outFormat) : Course b w w'
  | declined {w₁ w₂ w' : Ram} (hp : Prepared b w w₁) (h : Loaded b w₁ w₂) (h' : Declined b w₂ w') : Course b w w'
  | installed {w₁ w₂ w' : Ram} (hp : Prepared b w w₁) (h : Loaded b w₁ w₂) (h' : Installed b w₂ w') : Course b w w'

theorem body_ok {b : Build} {w w₁ : Ram} (h : (beforeLoad b).run w = .ok () w₁) :
    (body b).run w = (orLeave (loadModule b) failFormat (afterLoad b)).run w₁ := run_bind_ok h

/-- From `load_module` on, with a bounded module. -/
theorem rest_wp {b : Build} {w w₁ : Ram} (hp : Prepared b w w₁) (hb : b.Laid)
    (hmemlo : b.diskSource = true → 0x0400 ≤ w₁.report.start) (hmodule : BoundedModule b w₁) :
    wp (orLeave (loadModule b) failFormat (afterLoad b)) (fun _ w' => ∃ w₂, Loaded b w₁ w₂ ∧ Installed b w₂ w')
      (fun w' => Loaded b w₁ w' ∧ w'.report.outcome = outFormat ∨ ∃ w₂, Loaded b w₁ w₂ ∧ Declined b w₂ w') w₁ := by
  refine orLeave_seq ((loadModule_wp hp hb hmemlo hmodule).mono (fun _ _ => id) fun w₂ => .inl) (fun w₂ h => ?_) fun w₂ h => ?_
  · exact show _ ∨ ∃ v, Loaded b w₁ v ∧ Declined b v (w₂.setOutcome outFormat) from
      .inl ⟨⟨h.anchor, h.basePtr, h.targetEnd, h.mem, h.log⟩, rfl⟩
  · exact (afterLoad_wp b w₂).mono (fun _ w₃ h' => ⟨w₂, h, h'⟩) fun w₃ h' => .inr ⟨w₂, h, h'⟩

theorem body_course (b : Build) (hb : b.Laid) (w : Ram)
    (hbounded : ∀ w₁, Prepared b w w₁ → (beforeLoad b).run w = .ok () w₁ →
      (b.diskSource = true → 0x0400 ≤ w₁.report.start) ∧ BoundedModule b w₁) :
    Course b w (left ((body b).run w)) := by
  have hbefore := beforeLoad_wp b w
  rw [wp] at hbefore
  cases hrun : (beforeLoad b).run w with
  | error e w₁ =>
    rw [hrun] at hbefore
    rw [body, run_bind_error hrun]
    exact .early hbefore
  | ok a w₁ =>
    rw [hrun] at hbefore
    obtain ⟨hmemlo, hmodule⟩ := hbounded w₁ hbefore hrun
    rw [body_ok hrun]
    refine wp_left.1 ((rest_wp hbefore hb hmemlo hmodule).mono (fun _ w' h => ?_) fun w' h => ?_)
    · obtain ⟨w₂, hl, hi⟩ := h
      exact .installed hbefore hl hi
    · rcases h with ⟨hl, hout⟩ | ⟨w₂, hl, hd⟩
      · exact .refused hbefore hl hout
      · exact .declined hbefore hl hd

end NioApps.Loader

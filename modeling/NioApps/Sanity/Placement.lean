import NioApps.Spec.Encoding
import NioApps.Spec.Install
import NioApps.Sanity.Feed

/-! The way of `_main` to `load_module`: what the disk source opens, the wrapper,
the HATABS scan and the placement. `Prepared` collects what is known there. -/

namespace NioApps.Loader

open Abort

/-! ### Opening the file -/

/-- Memory that the loader uses besides its own variables and the target: the
IOCBs, the read buffer, and the 48 bytes that are read ahead of the options. -/
def Build.Scratch (b : Build) (a : Word) : Prop := b.Io a ∨ b.diskSource = true ∧ a - b.stage < 48

/-- `w'` is `w` but for what CIO and its caller use. -/
structure Cio (b : Build) (w w' : Ram) : Prop where
  same : w' = { w with
    mem := w'.mem, diskIocb := w'.diskIocb, diskIndex := w'.diskIndex, diskCount := w'.diskCount
    diskStatus := w'.diskStatus, diskIocbSave := w'.diskIocbSave, cioResults := w'.cioResults, log := w'.log }
  mem : ∀ a, ¬b.Scratch a → w'.mem a = w.mem a
  log : ∃ es, w'.log = w.log ++ es ∧ ∀ e ∈ es, ∃ c x p n, e = .cio c x p n

section

variable {b : Build} {w w₁ w₂ : Ram}

theorem Cio.of_mem (hsame : w₁ = { w with
      mem := w₁.mem, diskIocb := w₁.diskIocb, diskIndex := w₁.diskIndex, diskCount := w₁.diskCount
      diskStatus := w₁.diskStatus, diskIocbSave := w₁.diskIocbSave, cioResults := w₁.cioResults, log := w₁.log })
    (hmem : ∀ a, ¬b.Scratch a → w₁.mem a = w.mem a) (hlog : w₁.log = w.log) : Cio b w w₁ :=
  ⟨hsame, hmem, [], by rw [hlog, List.append_nil], by simp⟩

theorem Cio.refl (b : Build) (w : Ram) : Cio b w w := .of_mem rfl (fun _ _ => rfl) rfl

theorem Cio.trans (h : Cio b w w₁) (h' : Cio b w₁ w₂) : Cio b w w₂ := by
  obtain ⟨es, hlog, hes⟩ := h.log
  obtain ⟨es', hlog', hes'⟩ := h'.log
  refine ⟨?_, fun a ha => (h'.mem a ha).trans (h.mem a ha), es ++ es', ?_, ?_⟩
  · rw [h'.same, h.same]
  · rw [hlog', hlog, List.append_assoc]
  · intro e he
    exact (List.mem_append.1 he).elim (hes e) (hes' e)

theorem iocb_scratch (hd : b.diskSource = true) {x : Byte} (hx : x ≤ 0x70) {k : Word} (hk : k < 16) :
    b.Scratch (0x0340 + k + x.setWidth 16) :=
  .inl ⟨hd, .inr (by bv_omega)⟩

theorem setIocb_cio (hd : b.diskSource = true) {x : Byte} (hx : x ≤ 0x70) {k : Word} (hk : k < 16) (v : Byte)
    (w : Ram) : Cio b w (setIocb x k v w) := by
  refine .of_mem rfl (fun a ha => Function.update_of_ne ?_ ..) rfl
  rintro rfl
  exact ha (iocb_scratch hd hx hk)

theorem setBuffer_cio (hd : b.diskSource = true) {x : Byte} (hx : x ≤ 0x70) (p : Word) (w : Ram) :
    Cio b w (setBuffer x p w) :=
  (setIocb_cio hd hx (by decide) _ w).trans (setIocb_cio hd hx (by decide) _ _)

theorem setLength_cio (hd : b.diskSource = true) {x : Byte} (hx : x ≤ 0x70) (n : Byte) (w : Ram) :
    Cio b w (setLength x n w) :=
  (setIocb_cio hd hx (by decide) _ w).trans (setIocb_cio hd hx (by decide) _ _)

/-- A CIO call that reads nothing, or reads into memory that the loader uses. -/
theorem cioDone_cio (hd : b.diskSource = true) (hx : w.diskIocb ≤ 0x70) {a : Byte}
    (hread : a = 7 → ∀ p, p - iocbWord w.diskIocb 4 w < iocbWord w.diskIocb 8 w → b.Scratch p) :
    Cio b w (cioDone a w) := by
  refine ⟨rfl, fun p hp => ?_, [_], rfl, fun e he => ⟨_, _, _, _, List.mem_singleton.1 he⟩⟩
  have hiocb : ¬p - (0x0340 + w.diskIocb.setWidth 16) < 16 := by
    intro hlt
    refine hp (.inl ⟨hd, .inr ?_⟩)
    bv_omega
  rw [cioDone_mem a w hiocb]
  exact if_neg fun h => hp (hread h.1 p h.2)

/-- The IOCB with the name, ready to be opened. -/
def askOpen (b : Build) (x : Byte) (w : Ram) : Ram :=
  setIocb x 11 0 (setIocb x 10 4 (setBuffer x b.diskName { w with
    diskIocb := x, diskIocbSave := fun k => w.mem (0x0340 + x.setWidth 16 + BitVec.ofNat 16 k) }))

/-- The IOCB ready for the wrapper and the o65 header. -/
def askHeader (b : Build) (x : Byte) (w : Ram) : Ram :=
  { setLength x 48 (setBuffer x b.stage w) with diskCount := 0, diskIndex := 0 }

theorem diskOpenFree_run (b : Build) (x : Byte) (w : Ram) :
    (diskOpenFree b x).run w =
      if (w.cioResults 0).status.msb then .ok true (cioDone 3 (askOpen b x w))
      else .ok (w.cioResults 1).status.msb (cioDone 7 (askHeader b x (cioDone 3 (askOpen b x w)))) := by
  change (if (w.cioResults 0).status.msb then pure true else _ : Load Bool).run (cioDone 3 (askOpen b x w)) = _
  split_ifs with h
  · rfl
  · change (if (w.cioResults 1).status.msb then pure true else pure false : Load Bool).run
      (cioDone 7 (askHeader b x (cioDone 3 (askOpen b x w)))) = _
    cases (w.cioResults 1).status.msb <;> rfl

theorem askHeader_words (b : Build) (x : Byte) (w : Ram) :
    iocbWord x 4 (askHeader b x w) = b.stage ∧ iocbWord x 8 (askHeader b x w) = 48 := by
  have hbuffer := iocbWord_same x 4 (lo b.stage) (hi b.stage) w
  rw [ofNat_lo_hi] at hbuffer
  refine ⟨?_, iocbWord_same x 8 48 0 (setBuffer x b.stage w)⟩
  refine Eq.trans ?_ hbuffer
  change iocbWord x 4 (setLength x 48 (setBuffer x b.stage w)) = _
  rw [setLength, iocbWord_other _ (by decide) (by decide), iocbWord_other _ (by decide) (by decide)]
  rfl

theorem diskOpenFree_wp (hd : b.diskSource = true) {x : Byte} (hx : x ≤ 0x70) (w : Ram) :
    wp (diskOpenFree b x) (fun _ w' => Cio b w w' ∧ w'.diskIocb = x) (fun _ => False) w := by
  have hiocb : Cio b w { w with
      diskIocb := x, diskIocbSave := fun k => w.mem (0x0340 + x.setWidth 16 + BitVec.ofNat 16 k) } :=
    .of_mem rfl (fun _ _ => rfl) rfl
  have hask : Cio b w (askOpen b x w) :=
    ((hiocb.trans (setBuffer_cio hd hx _ _)).trans (setIocb_cio hd hx (by decide) _ _)).trans
      (setIocb_cio hd hx (by decide) _ _)
  have hopen : Cio b w (cioDone 3 (askOpen b x w)) := hask.trans (cioDone_cio hd hx (by simp))
  have hheader (v : Ram) : Cio b v (askHeader b x v) :=
    ((setBuffer_cio hd hx b.stage v).trans (setLength_cio hd hx 48 _)).trans (.of_mem rfl (fun _ _ => rfl) rfl)
  rw [wp, diskOpenFree_run]
  split_ifs with h
  · exact ⟨hopen, rfl⟩
  · refine ⟨(hopen.trans (hheader _)).trans (cioDone_cio hd hx fun _ p hp => .inr ⟨hd, ?_⟩), rfl⟩
    obtain ⟨hbuffer, hlength⟩ := askHeader_words b x (cioDone 3 (askOpen b x w))
    change p - iocbWord x 4 (askHeader b x _) < iocbWord x 8 (askHeader b x _) at hp
    rwa [hbuffer, hlength] at hp

theorem diskFindLoop_le {mem : Word → Byte} {n : ℕ} {x₀ x : Byte} (hn : 16 * n ≤ 112) (hx₀ : x₀.toNat = 16 * n)
    (h : diskFindLoop mem n x₀ = some x) : x ≤ 0x70 := by
  induction n generalizing x₀ with
  | zero => cases h
  | succ n ih =>
    rw [diskFindLoop] at h
    split_ifs at h with hfree
    · cases h
      bv_omega
    · exact ih (by omega) (by bv_omega) h

/-- `disk_open_header` uses one of the eight IOCBs, or leaves `disk_iocb` alone. -/
theorem diskOpenHeader_wp (hd : b.diskSource = true) (w : Ram) :
    wp (diskOpenHeader b)
      (fun c w' => Cio b w w' ∧ (w'.diskIocb ≤ 0x70 ∨ c = true ∧ w'.diskIocb = w.diskIocb)) (fun _ => False) w := by
  refine wp_bind.2 (wp_get.2 (wp_ite (fun _ => ⟨.refl b w, .inr ⟨rfl, rfl⟩⟩) fun _ => ?_))
  cases h : diskFind w.mem with
  | none => exact ⟨.refl b w, .inr ⟨rfl, rfl⟩⟩
  | some x =>
    have hx : x ≤ 0x70 := diskFindLoop_le (by decide) (by decide) h
    refine (diskOpenFree_wp hd hx w).mono (fun c w' hw' => ⟨hw'.1, .inl ?_⟩) fun _ => id
    rwa [hw'.2]

end

/-! ### The wrapper -/

/-- The stream that `validate_wrapper` sets up. -/
def sourceZp (b : Build) (w : Ram) : Zp := { w.zp with
  modulePtr := b.stage + fnrHeader
  srcPtr := b.stage + fnrHeader
  moduleEnd := b.stage + fnrHeader + w.fnrModuleLen b }

/-- The wrapper that `validate_wrapper` accepts. -/
structure WrapperOk (b : Build) (w : Ram) : Prop where
  fields : wrapperBad b w = false
  length : (b.stage + fnrHeader).toNat + (w.fnrModuleLen b).toNat < 2 ^ 16
  stack : b.diskSource = false → b.stage + fnrHeader + w.fnrModuleLen b < w.report.stackFloor

theorem validateWrapper_wp (b : Build) (w : Ram) :
    wp (validateWrapper b)
      (fun c w' => (∃ z, w' = w.setZp z) ∧ (c = false → w' = w.setZp (sourceZp b w) ∧ WrapperOk b w)) (fun _ => False)
      w := by
  refine wp_bind.2 (wp_get.2 (wp_ite (fun _ => ⟨⟨w.zp, rfl⟩, by simp⟩) fun hbad => wp_bind.2 (wp_modify.2 ?_)))
  refine wp_ite (fun _ => ⟨⟨_, rfl⟩, by simp⟩) fun hlength => ?_
  have hfields : wrapperBad b w = false := by simpa using hbad
  have hlength' := Nat.not_le.1 hlength
  refine wp_ite (fun hd => ⟨⟨_, rfl⟩, fun _ => ⟨rfl, hfields, hlength', by simp [hd]⟩⟩) fun hd => ?_
  refine ⟨⟨_, rfl⟩, fun hc => ⟨rfl, hfields, hlength', fun _ => ?_⟩⟩
  simpa using hc

/-! ### The scan -/

/-- The device name of HATABS entry `i`. -/
def hatName (mem : Word → Byte) (i : ℕ) : Byte := mem (hatabs + BitVec.ofNat 16 (3 * i))

/-- The offset of an entry fits in X. -/
theorem offset_width {i : ℕ} (hi : i < 11) : (BitVec.ofNat 8 (3 * i)).setWidth 16 = BitVec.ofNat 16 (3 * i) := by
  apply BitVec.eq_of_toNat_eq
  have h8 : 3 * i < 2 ^ 8 := by omega
  rw [BitVec.toNat_setWidth, BitVec.toNat_ofNat, BitVec.toNat_ofNat, Nat.mod_eq_of_lt h8]

/-- The name of entry `i`, as the scan reads it. -/
theorem scan_name {i : ℕ} (hi : i < 11) (mem : Word → Byte) :
    mem (hatabs + (BitVec.ofNat 8 (3 * i)).setWidth 16) = hatName mem i := by
  rw [hatName, offset_width hi]

/-- `x` is the offset of the first free entry, and no entry before it names `N`. -/
def FreeSlot (mem : Word → Byte) (x : Byte) : Prop :=
  ∃ i < 11, x = BitVec.ofNat 8 (3 * i) ∧ hatName mem i = 0 ∧ ∀ j < i, hatName mem j ≠ 0 ∧ hatName mem j ≠ 0x4e

/-- `w'` is `w` but for the zero page, the RESULT block and the slot. -/
def Scanned (w w' : Ram) : Prop := ∃ z r s, w' = { w with zp := z, report := r, hatSlot := s }

theorem scanExisting_spec (b : Build) (x : Byte) (w : Ram) :
    Scanned w (scanExisting b x w) ∧
      ((scanExisting b x w).report.outcome = outOwn ∨ (scanExisting b x w).report.outcome = outForeign) := by
  unfold scanExisting
  extract_lets table w₁ w₂
  split_ifs
  · exact ⟨⟨_, _, _, rfl⟩, .inr rfl⟩
  · exact ⟨⟨_, _, _, rfl⟩, .inr rfl⟩
  · exact ⟨⟨_, _, _, rfl⟩, .inr rfl⟩
  · exact ⟨⟨_, _, _, rfl⟩, .inl rfl⟩

theorem scanLoop_spec {b : Build} {n i : ℕ} {w : Ram} (hn : i + n = 11)
    (hseen : ∀ j < i, hatName w.mem j ≠ 0 ∧ hatName w.mem j ≠ 0x4e) {c : Bool} {w' : Ram}
    (h : scanLoop b n (BitVec.ofNat 8 (3 * i)) w = (c, w')) :
    (c = false ∧ (∃ x, w' = { w with hatSlot := x }) ∧ FreeSlot w'.mem w'.hatSlot) ∨
      c = true ∧ Scanned w w' ∧ w'.report.outcome ≠ outInstalled := by
  induction n generalizing i with
  | zero =>
    cases h
    exact .inr ⟨rfl, ⟨_, _, _, rfl⟩, show outNoSlot ≠ outInstalled by decide⟩
  | succ n ih =>
    have hname := scan_name (show i < 11 by omega) w.mem
    have hnext : BitVec.ofNat 8 (3 * i) + 3 = BitVec.ofNat 8 (3 * (i + 1)) := by
      rw [Nat.mul_add, BitVec.ofNat_add]
      rfl
    simp only [scanLoop, hname, hnext] at h
    split_ifs at h with h0 hN
    · cases h
      exact .inl ⟨rfl, ⟨_, rfl⟩, i, by omega, rfl, h0, hseen⟩
    · cases h
      obtain ⟨hscanned, hout⟩ := scanExisting_spec b (BitVec.ofNat 8 (3 * i)) w
      refine .inr ⟨rfl, hscanned, ?_⟩
      rcases hout with hout | hout <;> rw [hout] <;> decide
    · refine ih (by omega) (fun j hj => ?_) h
      rcases Nat.lt_succ_iff_lt_or_eq.1 hj with hj | rfl
      · exact hseen j hj
      · exact ⟨h0, hN⟩

theorem scanHatabs_wp (b : Build) (w : Ram) :
    wp (scanHatabs b)
      (fun c w' => (c = false ∧ (∃ x, w' = { w with hatSlot := x }) ∧ FreeSlot w'.mem w'.hatSlot) ∨
        c = true ∧ Scanned w w' ∧ w'.report.outcome ≠ outInstalled) (fun _ => False) w := by
  have hrun : (scanHatabs b).run w =
      .ok (scanLoop b 11 0 { w with hatSlot := 0 }).1 (scanLoop b 11 0 { w with hatSlot := 0 }).2 := rfl
  rw [wp_of_ok hrun]
  rcases scanLoop_spec (b := b) (n := 11) (i := 0) (w := { w with hatSlot := 0 }) rfl (by simp) rfl with
    ⟨hc, ⟨x, hx⟩, hfree⟩ | ⟨hc, ⟨z, r, s, hscanned⟩, hout⟩
  · exact .inl ⟨hc, ⟨x, hx⟩, hfree⟩
  · exact .inr ⟨hc, ⟨z, r, s, hscanned⟩, hout⟩

/-! ### The placement -/

/-- The placement that `calculate_ranges` accepts. -/
structure RangesOk (b : Build) (w : Ram) : Prop where
  start : w.report.start = alignedBase b w
  basePtr : w.zp.basePtr = w.report.start
  targetEnd : w.zp.targetEnd = w.report.stop
  stop : w.report.stop.toNat = w.report.start.toNat + (w.fnrAlloc b).toNat + (w.fnrCstack b).toNat
  loader : w.report.stop ≤ b.loaderStart

theorem belowLoader_le {b : Build} {a : Word} (h : belowLoader b a = true) : a ≤ b.loaderStart := by
  rw [belowLoader, Bool.or_eq_true, decide_eq_true_eq, beq_iff_eq] at h
  rcases h with h | h
  · have hhi := BitVec.lt_def.1 h
    rw [hi_toNat, hi_toNat] at hhi
    rw [BitVec.le_def]
    omega
  · rw [h]
    exact BitVec.le_refl _

theorem calculateRanges_wp (b : Build) (w : Ram) :
    wp (calculateRanges b)
      (fun c w' => (∃ z r, w' = { w with zp := z, report := r } ∧ r.outcome = w.report.outcome) ∧
        (c = false → w'.zp.modulePtr = w.zp.modulePtr ∧ w'.zp.srcPtr = w.zp.srcPtr ∧ w'.zp.moduleEnd = w.zp.moduleEnd ∧
          w'.report.stackFloor = w.report.stackFloor ∧ RangesOk b w')) (fun _ => False) w := by
  refine wp_bind.2 (wp_get.2 (wp_bind.2 (wp_modify.2 ?_)))
  refine wp_ite (fun _ => ⟨⟨_, _, rfl, rfl⟩, by simp⟩) fun hend => wp_bind.2 (wp_modify.2 ?_)
  refine wp_ite (fun _ => ⟨⟨_, _, rfl, rfl⟩, by simp⟩) fun hstack => wp_bind.2 (wp_modify.2 ?_)
  refine ⟨⟨_, _, rfl, rfl⟩, fun hc => ⟨rfl, rfl, rfl, rfl, rfl, rfl, rfl, ?_, ?_⟩⟩
  · change (alignedBase b w + w.fnrAlloc b + w.fnrCstack b).toNat =
      (alignedBase b w).toNat + (w.fnrAlloc b).toNat + (w.fnrCstack b).toNat
    bv_omega
  · simp only [Bool.not_eq_false', Bool.and_eq_true] at hc
    exact belowLoader_le hc.1.1.1

/-! ### Before `load_module` -/

/-- What no path to `load_module` changes between `w` and `w'`. -/
structure Kept (b : Build) (w w' : Ram) : Prop where
  mem : ∀ a, ¬b.Scratch a → w'.mem a = w.mem a
  log : ∃ es, w'.log = w.log ++ es ∧ ∀ e ∈ es, ∃ c x p n, e = .cio c x p n
  iocb : b.diskSource = true → w'.diskIocb ≤ 0x70 ∨ w'.diskIocb = 0xff
  zpSave : w'.zpSave = w.zp
  initEntry : w'.initEntry = w.initEntry

/-- What holds when `load_module` is called, in a run from `w`. -/
structure Prepared (b : Build) (w w' : Ram) : Prop where
  kept : Kept b w w'
  iocb : IocbOk b w'
  modulePtr : w'.zp.modulePtr = b.stage + fnrHeader
  moduleEnd : w'.zp.moduleEnd = b.stage + fnrHeader + w'.fnrModuleLen b
  wrapper : WrapperOk b w'
  ranges : RangesOk b w'
  slot : FreeSlot w'.mem w'.hatSlot

theorem Kept.update {b : Build} {w w₁ w₂ : Ram} (h : Kept b w w₁) (hmem : w₂.mem = w₁.mem) (hlog : w₂.log = w₁.log)
    (hiocb : w₂.diskIocb = w₁.diskIocb) (hzp : w₂.zpSave = w₁.zpSave) (hinit : w₂.initEntry = w₁.initEntry) :
    Kept b w w₂ := by
  refine ⟨fun a ha => ?_, ?_, fun hd => ?_, hzp.trans h.zpSave, hinit.trans h.initEntry⟩
  · rw [hmem]
    exact h.mem a ha
  · rw [hlog]
    exact h.log
  · rw [hiocb]
    exact h.iocb hd

theorem Scanned.kept {b : Build} {w w₁ w₂ : Ram} (h : Scanned w₁ w₂) (hk : Kept b w w₁) : Kept b w w₂ := by
  obtain ⟨z, r, s, rfl⟩ := h
  exact hk.update rfl rfl rfl rfl rfl

/-- Stop with `f` when `m` returns true. -/
def orLeave (m : Load Bool) (f k : Load Unit) : Load Unit := do
  if ← m then f
  k

theorem orLeave_seq {m : Load Bool} {f k : Load Unit} {Q : Unit → Ram → Prop} {E : Ram → Prop} {R : Bool → Ram → Prop}
    {w : Ram} (hm : wp m R E w) (hf : ∀ w', R true w' → wp f (fun _ _ => False) E w')
    (hk : ∀ w', R false w' → wp k Q E w') : wp (orLeave m f k) Q E w := by
  refine wp_bind.2 (hm.mono (fun c w' hR => ?_) fun _ => id)
  cases c with
  | true => exact (hf w' hR).seq fun _ _ h => h.elim
  | false => exact hk w' hR

/-- For a routine that does not leave by itself. -/
theorem orLeave_wp {m : Load Bool} {f k : Load Unit} {Q : Unit → Ram → Prop} {E : Ram → Prop} {R : Bool → Ram → Prop}
    {w : Ram} (hm : wp m R (fun _ => False) w) (hf : ∀ w', R true w' → wp f (fun _ _ => False) E w')
    (hk : ∀ w', R false w' → wp k Q E w') : wp (orLeave m f k) Q E w :=
  orLeave_seq (hm.mono (fun _ _ => id) fun _ => False.elim) hf hk

/-- `_main` from `validate_wrapper` to `load_module`. -/
def place (b : Build) : Load Unit :=
  orLeave (validateWrapper b) failFormat do
    if wrongPayload b (← get) then failFormat
    orLeave (scanHatabs b) (throw ()) do
      if ← calculateRanges b then failMemory

/-- The run was left before `load_module`, and not as installed. -/
structure LeftEarly (b : Build) (w w' : Ram) : Prop where
  kept : Kept b w w'
  outcome : w'.report.outcome ≠ outInstalled

theorem failFormat_wp {b : Build} {w w' : Ram} {Q : Unit → Ram → Prop} (hk : Kept b w w') :
    wp (failFormat : Load Unit) Q (LeftEarly b w) w' :=
  show LeftEarly b w (w'.setOutcome outFormat) from ⟨hk.update rfl rfl rfl rfl rfl, show outFormat ≠ outInstalled by decide⟩

theorem failMemory_wp {b : Build} {w w' : Ram} {Q : Unit → Ram → Prop} (hk : Kept b w w') :
    wp (failMemory : Load Unit) Q (LeftEarly b w) w' :=
  show LeftEarly b w (w'.setOutcome outMemory) from ⟨hk.update rfl rfl rfl rfl rfl, show outMemory ≠ outInstalled by decide⟩

theorem calculate_wp {b : Build} {w w₁ : Ram} (hk : Kept b w w₁) (hiocb : IocbOk b w₁)
    (hmodule : w₁.zp.modulePtr = b.stage + fnrHeader) (hend : w₁.zp.moduleEnd = b.stage + fnrHeader + w₁.fnrModuleLen b)
    (hwrapper : WrapperOk b w₁) (hslot : FreeSlot w₁.mem w₁.hatSlot) :
    wp (do if ← calculateRanges b then failMemory : Load Unit) (fun _ => Prepared b w) (LeftEarly b w) w₁ := by
  refine wp_bind.2 ((calculateRanges_wp b w₁).mono (fun c w₂ h => ?_) fun _ => False.elim)
  obtain ⟨⟨z, r, rfl, -⟩, hok⟩ := h
  have hk₂ : Kept b w { w₁ with zp := z, report := r } := hk.update rfl rfl rfl rfl rfl
  refine wp_ite (fun _ => failMemory_wp hk₂) fun hc => ?_
  obtain ⟨hmodule', -, hend', hfloor, hranges⟩ := hok (by simpa using hc)
  exact ⟨hk₂, hiocb, hmodule'.trans hmodule, hend'.trans hend,
    ⟨hwrapper.fields, hwrapper.length, fun hd => hfloor ▸ hwrapper.stack hd⟩, hranges, hslot⟩

theorem place_wp {b : Build} {w w₁ : Ram} (hk : Kept b w w₁) (hiocb : IocbOk b w₁) :
    wp (place b) (fun _ => Prepared b w) (LeftEarly b w) w₁ := by
  refine orLeave_wp (validateWrapper_wp b w₁) (fun w₂ h => ?_) fun w₂ h => ?_
  · obtain ⟨⟨z, rfl⟩, -⟩ := h
    exact failFormat_wp (hk.update rfl rfl rfl rfl rfl)
  · obtain ⟨rfl, hwrapper⟩ := h.2 rfl
    have hk₂ : Kept b w (w₁.setZp (sourceZp b w₁)) := hk.update rfl rfl rfl rfl rfl
    refine wp_bind.2 (wp_get.2 (wp_ite (fun _ => (failFormat_wp hk₂).seq fun _ _ h => h) fun _ => ?_))
    refine orLeave_wp (scanHatabs_wp b _) (fun w₃ h => ?_) fun w₃ h => ?_
    · rcases h with ⟨hc, -⟩ | ⟨-, hscanned, hout⟩
      · cases hc
      · exact wp_throw.2 ⟨hscanned.kept hk₂, hout⟩
    · rcases h with ⟨-, ⟨x, rfl⟩, hslot⟩ | ⟨hc, -⟩
      · exact calculate_wp (hk₂.update rfl rfl rfl rfl rfl) hiocb rfl rfl ⟨hwrapper.fields, hwrapper.length, hwrapper.stack⟩
          hslot
      · cases hc

theorem Cio.kept {b : Build} {w w₁ w₂ : Ram} (h : Cio b w₁ w₂) (hk : Kept b w w₁) (hlog : w₁.log = w.log)
    (hiocb : b.diskSource = true → w₂.diskIocb ≤ 0x70 ∨ w₂.diskIocb = 0xff) : Kept b w w₂ := by
  obtain ⟨es, hes, hcio⟩ := h.log
  refine ⟨fun a ha => (h.mem a ha).trans (hk.mem a ha), ⟨es, by rw [hes, hlog], hcio⟩, hiocb, ?_, ?_⟩
  · rw [h.same]
    exact hk.zpSave
  · rw [h.same]
    exact hk.initEntry

theorem beforeLoad_wp (b : Build) (w : Ram) :
    wp (beforeLoad b) (fun _ => Prepared b w) (LeftEarly b w) w := by
  refine wp_bind.2 (wp_modify.2 ?_)
  have hinit (hd : b.diskSource = false) : Kept b w (initResult (saveCallerZp w)) :=
    ⟨fun _ _ => rfl, ⟨[], (List.append_nil _).symm, by simp⟩, by simp [hd], rfl, rfl⟩
  refine wp_ite (fun hd => wp_bind.2 (wp_modify.2 ?_)) fun hd => ?_
  · have hstart : Kept b w { initResult (saveCallerZp w) with diskIocb := 0xff } :=
      ⟨fun _ _ => rfl, ⟨[], (List.append_nil _).symm, by simp⟩, fun _ => .inr rfl, rfl, rfl⟩
    refine orLeave_wp (m := diskOpenHeader b) (f := failFormat) (k := place b) (diskOpenHeader_wp hd _)
      (fun w₁ h => ?_) fun w₁ h => ?_
    · exact failFormat_wp (h.1.kept hstart rfl fun _ => h.2.imp_right (·.2))
    · have hx : w₁.diskIocb ≤ 0x70 := h.2.elim id fun h => by cases h.1
      exact place_wp (h.1.kept hstart rfl fun _ => .inl hx) fun _ => hx
  · have hd' : b.diskSource = false := by simpa using hd
    exact place_wp (hinit hd') (by simp [IocbOk, hd'])

/-! ### A machine -/

/-- A machine with `file` staged, an empty HATABS, free memory from `$2000` on, and the
screen at `$BC00`. -/
def desk (file : List Byte) (initEntry : (Word → Byte) → InitResult) : Ram :=
  let zp : Zp := ⟨0, 0, 0, 0, 0, 0, 0, 0, 0, 0, 0, 0, 0⟩
  { mem := fun a =>
      if a - 0x4900 < BitVec.ofNat 16 file.length then file.getD (a - 0x4900).toNat 0
      else if a = memlo + 1 then 0x20
      else if a = memtop + 1 ∨ a = sdlstl + 1 ∨ a = savmsc + 1 then 0xbc
      else 0
    zp, report := ⟨0, 0, 0, 0, 0, 0, 0, 0, 0, 0, 0, 0, 0, fun _ => 0⟩
    relocOffset := 0, segmentSize := 0, textSize := 0, dataSize := 0, bssSize := 0, initSize := 0
    relocDescriptor := 0, highAddend := 0, hatSlot := 0, initStatus := 0, zpSave := zp
    diskIocb := 0xff, diskIndex := 0, diskCount := 0, diskStatus := 0, diskIocbSave := fun _ => 0
    cioResults := fun _ => ⟨1, fun _ => 0, fun _ => 0, zp⟩
    initEntry, log := [] }

/-- A module of one instruction, a marker and a vector table, with DATA, BSS and every
kind of site. -/
def stub : Module where
  text := [0x60, 0x46, 0x4e, 0x52, 0x31] ++ List.replicate 12 0
  data := [0x10, 0x00, 0x05]
  bss := 3
  options := [[0, 0x41]]
  textSites := (List.range 6).map fun i => ⟨5 + 2 * i, .word, .text⟩
  dataSites := [⟨0, .low, .data⟩, ⟨1, .high 0xf0, .bss⟩, ⟨2, .low, .zp⟩]
  fits := by decide
  options_ok := by decide
  text_ok := by decide
  data_ok := by decide

def stagedBuild : Build := ⟨.staged, false⟩

def stubInit (mem : Word → Byte) : InitResult := ⟨0, mem, ⟨0, 0, 0, 0, 0, 0, 0, 0, 0, 0, 0, 0, 0⟩⟩

/-- The stub, ready to be loaded. -/
def stubLoad : Ram := left ((beforeLoad stagedBuild).run (desk (stub.package 0 5 1 0) stubInit))

theorem stubLoad_run : (beforeLoad stagedBuild).run (desk (stub.package 0 5 1 0) stubInit) = .ok () stubLoad :=
  eq_ok_left (by decide +kernel)

end NioApps.Loader

import NioApps.Sanity.Borrowing
import NioApps.Spec.Stack

/-! What the disk installer gives back. -/

namespace NioApps.Loader

open Abort

/-- The free memory begins above the IOCBs, and the module stays in its allocation. -/
def Contained (b : Build) (w : Ram) : Prop :=
  ∀ w₁, (beforeLoad b).run w = .ok () w₁ → 0x0400 ≤ w₁.report.start ∧ BoundedModule b w₁

/-- From `w` to `w'` nothing was stored at `a`, unless by the init entry. -/
structure Spared (w w' : Ram) (a : Word) : Prop where
  store : a ∉ targets w'.log
  mem : w'.mem a = w.mem a ∨ ∃ mem, mem a = w.mem a ∧ w'.mem a = (w.initEntry mem).mem a

section

variable {b : Build} {w w₁ w₂ : Ram} {a : Word}

theorem targets_cio {es : List Event} (h : ∀ e ∈ es, ∃ c x p n, e = .cio c x p n) : targets es = [] := by
  refine List.filterMap_eq_nil_iff.2 fun e he => ?_
  obtain ⟨c, x, p, n, rfl⟩ := h e he
  rfl

theorem targets_publish {es : List Event} (h : ∀ e ∈ es, ∃ p, e = .publish p) : targets es = [] := by
  refine List.filterMap_eq_nil_iff.2 fun e he => ?_
  obtain ⟨p, rfl⟩ := h e he
  rfl

/-- `finish` writes no IOCB but the borrowed one. -/
theorem finish_spares (hb : b.Ordered) (hd : b.diskSource = true) (ha : a - 0x0340 < 0x80) (hother : ¬Borrowed w.mem a) :
    (main b w).mem a = (left ((body b).run w)).mem a := by
  have hshare : ¬a - 0x06b0 < 40 := by bv_omega
  rw [main, (finish_spec b _).2.2, finishedMem, if_neg]
  · split_ifs
    · exact if_neg hshare
    · rfl
  · rintro ⟨-, hmsb, hin⟩
    rcases (body_returns hb hd w).2 with ⟨hnone, -⟩ | ⟨hfound, -⟩
    · rw [hnone] at hmsb
      exact absurd hmsb (by decide)
    · exact hother ⟨_, hfound, hin⟩

/-- The init entry and the publication. -/
theorem afterLoad_spares (hp : Prepared b w w₁) (hx : w₂.anchor = w₁.anchor) (ha : a - 0x0340 < 0x80)
    (hstore : a ∉ targets w₂.log) (hmem : w₂.mem a = w.mem a) :
    wp (afterLoad b) (fun _ w' => Spared w w' a) (fun w' => Spared w w' a) w₂ := by
  have hentry : w₂.initEntry = w.initEntry := (congrArg Anchor.initEntry hx).trans hp.kept.initEntry
  have hslot : w₂.hatSlot = w₁.hatSlot := congrArg Anchor.hatSlot hx
  have hinit : ∃ mem, mem a = w.mem a ∧ initMem w₂ a = (w.initEntry mem).mem a := ⟨w₂.mem, hmem, by rw [initMem, hentry]⟩
  refine (afterLoad_wp b w₂).mono (fun _ w' h => ?_) fun w' h => ?_
  · obtain ⟨es, hlog, hes⟩ := h.log
    obtain ⟨i, hi, hentry', -⟩ := hp.slot.entry
    rw [← hslot] at hentry'
    have hhat : ¬a - hatEntry i < 3 := fun hin => by
      have hlow := Guarded.low (.inl (hatEntry_in hi hin))
      bv_omega
    have hmemlo : ¬a - memlo < 2 := fun hin => by
      have hlow := Guarded.low (.inr hin)
      bv_omega
    refine ⟨?_, .inr ?_⟩
    · rw [hlog, targets_append]
      have hcalls : targets (Event.call (w₂.zp.basePtr + w₂.fnrEntry b) :: es) = targets es := rfl
      rwa [hcalls, targets_publish hes, List.append_nil]
    · rw [h.mem, publishedMem_other hentry' hhat hmemlo]
      exact hinit
  · rcases h.way with ⟨hmem', hlog⟩ | ⟨hmem', hlog⟩
    · exact ⟨by rwa [hlog], .inl (by rw [hmem', hmem])⟩
    · refine ⟨?_, .inr (by rw [hmem']; exact hinit)⟩
      rw [hlog, targets_append]
      exact fun hin => (List.mem_append.1 hin).elim hstore (by simp [targets])

/-- A bounded module is loaded past the other IOCBs. -/
theorem loadModule_spares (hp : Prepared b w w₁) (hb : b.Ordered) (hd : b.diskSource = true) (hlends : Lends w w₁)
    (hstart : 0x0400 ≤ w₁.report.start) (hbounded : BoundedModule b w₁) (ha : a - 0x0340 < 0x80) (hother : ¬Borrowed w.mem a)
    (hlog : targets w₁.log = []) :
    a ∉ targets (left ((loadModule b).run w₁)).log ∧ (left ((loadModule b).run w₁)).mem a = w.mem a := by
  have hstore : a ∉ targets (left ((loadModule b).run w₁)).log := fun hin => by
    rcases loadModule_targets hp hb.1 (fun _ => hstart) hbounded hin with hin | hin
    · rw [hlog] at hin
      cases hin
    · have hfit := hp.fit
      have hstop := w₁.report.stop.isLt
      bv_omega
  refine ⟨hstore, ((loadModule_steady b w₁).mem a hstore ?_).trans (hlends.others a ha hother)⟩
  rintro ⟨-, hin | hin⟩
  · exact (hb.iocb_apart hd ha).2 hin
  · rcases hlends.save with ⟨hnone, -⟩ | ⟨hfound, -⟩
    · have hle := hp.iocb hd
      rw [hnone] at hle
      exact absurd hle (by decide)
    · exact hother ⟨_, hfound, hin⟩

theorem body_spares (hb : b.Ordered) (hd : b.diskSource = true) (hlog : w.log = []) (hcontained : Contained b w)
    (ha : a - 0x0340 < 0x80) (hother : ¬Borrowed w.mem a) : Spared w (left ((body b).run w)) a := by
  have hlends := beforeLoad_lends hb hd w
  have hbefore := beforeLoad_wp b w
  rw [wp] at hbefore
  have hcio {w' : Ram} (h : Kept b w w') : targets w'.log = [] := by
    obtain ⟨es, hes, hcio⟩ := h.log
    rw [hes, hlog, List.nil_append]
    exact targets_cio hcio
  cases hrun : (beforeLoad b).run w with
  | error e w₁ =>
    rw [hrun] at hbefore hlends
    rw [body, run_bind_error hrun]
    exact ⟨by rw [left_error, hcio hbefore.kept]; simp, .inl (hlends.others a ha hother)⟩
  | ok c w₁ =>
    rw [hrun] at hbefore hlends
    rw [left_ok] at hlends
    obtain ⟨hstart, hbounded⟩ := hcontained w₁ hrun
    have hload := loadModule_spares hbefore hb hd hlends hstart hbounded ha hother (hcio hbefore.kept)
    have hsteady := loadModule_steady b w₁
    rw [body_ok hrun]
    have hwp : wp (loadModule b) (fun _ w₂ => w₂.anchor = w₁.anchor ∧ a ∉ targets w₂.log ∧ w₂.mem a = w.mem a)
        (fun w₂ => Spared w w₂ a) w₁ := by
      rw [wp]
      cases hl : (loadModule b).run w₁ with
      | ok d w₂ =>
        rw [hl, left_ok] at hload hsteady
        exact ⟨hsteady.anchor, hload⟩
      | error e w₂ =>
        rw [hl, left_error] at hload
        exact ⟨hload.1, .inl hload.2⟩
    refine wp_left.1 (orLeave_seq hwp (fun w₂ h => ?_) fun w₂ h => afterLoad_spares hbefore h.1 ha h.2.1 h.2.2)
    exact show Spared w (w₂.setOutcome outFormat) a from ⟨h.2.1, .inl h.2.2⟩

theorem main_spares (hb : b.Ordered) (hd : b.diskSource = true) (hlog : w.log = []) (hcontained : Contained b w)
    (ha : a - 0x0340 < 0x80) (hother : ¬Borrowed w.mem a) : Spared w (main b w) a := by
  have hbody := body_spares hb hd hlog hcontained ha hother
  have hmem := finish_spares hb hd ha hother
  obtain ⟨es, hes, hcio⟩ := finish_log b (left ((body b).run w))
  refine ⟨?_, by rw [hmem]; exact hbody.mem⟩
  rw [main, hes, targets_append, targets_cio hcio, List.append_nil]
  exact hbody.store

end

/-- The stack pointer, the zero-page bank and the borrowed IOCB are given back in every run,
and the bank survives every CIO call; the other IOCBs are left alone when the module is bounded. -/
theorem gives_back (b : Build) (hb : b.Ordered) (hd : b.diskSource = true) (depth : Ram → Byte) (c : Cpu)
    (hlog : c.ram.log = []) :
    ((mainCpu b depth c).sp = c.sp ∧ (mainCpu b depth c).ram.zp = c.ram.zp ∧
        ∀ a, Borrowed c.ram.mem a → (mainCpu b depth c).ram.mem a = c.ram.mem a) ∧
      (∀ command w, (left ((diskCio command).run w)).zp = w.zp) ∧
      (Contained b c.ram → ∀ a, a - 0x0340 < 0x80 → ¬Borrowed c.ram.mem a → Spared c.ram (mainCpu b depth c).ram a) := by
  refine ⟨⟨rfl, ?_, fun a ha => iocb_restored hb hd ha⟩, fun _ _ => rfl, fun hcontained a ha hother => ?_⟩
  · exact (finish_spec b _).2.1.trans (body_returns hb hd c.ram).1
  · exact main_spares hb hd hlog hcontained ha hother

/-- A machine with `file` on disk, IOCB 7 free, and the rest as on `desk`. -/
def diskDesk (file : List Byte) : Ram :=
  { desk [] stubInit with
    mem := Function.update (desk [] stubInit).mem 0x03b0 0xff
    cioResults := fun n =>
      ⟨1, fun k => file.getD ((if n < 2 then 0 else 48 + 128 * (n - 2)) + k) 0, fun _ => 0, (desk [] stubInit).zp⟩ }

def diskBuild : Build := ⟨.disk 0x6f80, false⟩

/-- Text `$F010` and data `$1000` for an allocation of `$10`, and a HIGH record at offset
`$E350` of TEXT, which is `$0350` when the image begins at `$2000`. -/
def farRecord : List Byte :=
  [0x46, 0x4e, 0x52, 0x31, 1, 22, 0, 0, 0, 0, 0, 0, 0x19, 0x01, 0x10, 0, 0x10, 0, 0, 0, 26, 0] ++
    [1, 0, 0x6f, 0x36, 0x35, 0, 0, 8, 0, 0, 0x10, 0xf0, 0x10, 0xf0, 0, 0x10, 0x10, 0, 0, 0, 0, 0, 26, 0, 0, 0] ++
    0 :: List.replicate 16 0xea ++ [0, 0] ++ List.replicate 229 0xff ++ [27, 0x42, 0, 0, 0, 0, 0]

theorem mainCpu_ram (b : Build) (depth : Ram → Byte) (c : Cpu) : (mainCpu b depth c).ram = main b c.ram := rfl

theorem disk_ordered : diskBuild.Ordered := ⟨trivial, trivial⟩

/-- The record changes a byte of IOCB 1, and nothing has overwritten the loader. -/
theorem other_iocb_written :
    ¬∀ (b : Build) (depth : Ram → Byte) (c : Cpu), b.Ordered → b.diskSource = true → c.ram.log = [] →
      (∀ t ∈ targets (mainCpu b depth c).ram.log, ¬(0x6000 ≤ t ∧ t < 0x93a8)) →
        ∀ a, a - 0x0340 < 0x80 → ¬Borrowed c.ram.mem a → Spared c.ram (mainCpu b depth c).ram a := by
  intro h
  simp only [mainCpu_ram] at h
  have hboth : ((targets (main diskBuild (diskDesk farRecord)).log).all (fun t => decide ¬(0x6000 ≤ t ∧ t < 0x93a8)) &&
      (targets (main diskBuild (diskDesk farRecord)).log).contains 0x0350) = true := by decide +kernel
  obtain ⟨hall, hstored⟩ := Bool.and_eq_true_iff.1 hboth
  have hfind : diskFind (diskDesk farRecord).mem = some 0x70 := by decide +kernel
  have hother : ¬Borrowed (diskDesk farRecord).mem 0x0350 := by
    rintro ⟨x, hx, hin⟩
    rw [hfind] at hx
    cases hx
    exact absurd hin (by decide)
  exact (h diskBuild (fun _ => 0) ⟨0xfd, 0, diskDesk farRecord⟩ disk_ordered rfl rfl
    (fun t ht => of_decide_eq_true (List.all_eq_true.1 hall t ht)) 0x0350 (by decide) hother).store
      (List.contains_iff_mem.1 hstored)

/-! ### The stub from disk -/

def stubDisk : Ram := left ((beforeLoad diskBuild).run (diskDesk (stub.package 0 5 1 0)))

theorem stubDisk_run : (beforeLoad diskBuild).run (diskDesk (stub.package 0 5 1 0)) = .ok () stubDisk :=
  eq_ok_left (by decide +kernel)

theorem stubDisk_contained : Contained diskBuild (diskDesk (stub.package 0 5 1 0)) := by
  intro w₁ hrun
  have hw : stubDisk = w₁ := by
    rw [stubDisk_run] at hrun
    injection hrun
  rw [← hw]
  have hoptions : options 0 (feed diskBuild (parsed stubDisk)) = .done ((feed diskBuild (parsed stubDisk)).drop 4) := by
    decide +kernel
  exact ⟨by decide +kernel, fun _ => (Unwrapped.of_all (by decide +kernel) hoptions (by decide +kernel)).bounded⟩

theorem stub_given_back :
    (mainCpu diskBuild (fun _ => 0) ⟨0xfd, 0, diskDesk (stub.package 0 5 1 0)⟩).sp = 0xfd ∧
      Spared (diskDesk (stub.package 0 5 1 0)) (mainCpu diskBuild (fun _ => 0) ⟨0xfd, 0, diskDesk (stub.package 0 5 1 0)⟩).ram
        0x0350 := by
  have hfind : diskFind (diskDesk (stub.package 0 5 1 0)).mem = some 0x70 := by decide +kernel
  have hother : ¬Borrowed (diskDesk (stub.package 0 5 1 0)).mem 0x0350 := by
    rintro ⟨x, hx, hin⟩
    rw [hfind] at hx
    cases hx
    exact absurd hin (by decide)
  have h := gives_back diskBuild disk_ordered rfl (fun _ => 0) ⟨0xfd, 0, diskDesk (stub.package 0 5 1 0)⟩ rfl
  exact ⟨h.1.1, h.2.2 stubDisk_contained 0x0350 (by decide) hother⟩

end NioApps.Loader

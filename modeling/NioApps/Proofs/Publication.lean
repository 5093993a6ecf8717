import NioApps.Sanity.Publishing

/-! All or nothing: `_main` publishes one HATABS entry and MEMLO, or leaves both
alone, wherever it was left. -/

namespace NioApps.Loader

open Abort

/-- From `w` to `w'` the first free entry came to name the handler, and MEMLO its end. -/
def Published (b : Build) (w w' : Ram) : Prop :=
  ∃ i < 11, hatName w.mem i = 0 ∧ (∀ j < i, hatName w.mem j ≠ 0) ∧
    w'.mem (hatEntry i) = 0x4e ∧
    wordAt w'.mem (hatEntry i + 1) = w'.report.start + w'.fnrTable b ∧
    (∀ a, a - hatabs < 38 → ¬a - hatEntry i < 3 → w'.mem a = w.mem a) ∧
    wordAt w'.mem memlo = w'.report.stop

section

variable {b : Build} {w w₁ w₂ w' : Ram}

/-- The table field of the wrapper is neither in an IOCB nor published over. -/
theorem stage_apart (hb : b.sdxChild = false) {k : Word} (hk : k < 22) :
    ¬Guarded (b.stage + k) ∧ ¬b.stage + k - 0x0340 < 0x80 := by
  have hstage : b.stage = 0x4900 ∨ b.stage = 0x6e00 := by
    obtain ⟨source, asm⟩ := b
    cases source with
    | staged => exact .inl rfl
    | disk name => exact .inr rfl
    | sdxChild => cases hb
  rcases hstage with h | h <;> rw [h] <;> simp only [Guarded, hatabs, memlo] <;> constructor <;> bv_omega

theorem Prepared.published (hp : Prepared b w w₁) (hl : Loaded b w₁ w₂) (h : Installed b w₂ w')
    (hb : b.sdxChild = false) (hstart : 0x0400 ≤ w₁.report.start) (hinit : Discreet w.initEntry) :
    Published b w (finish b w') := by
  have hslot : w₂.hatSlot = w₁.hatSlot := congrArg Anchor.hatSlot hl.anchor
  have hentry : w₂.initEntry = w.initEntry := (congrArg Anchor.initEntry hl.anchor).trans hp.kept.initEntry
  have hiocb : w'.diskIocb = w₁.diskIocb := congrArg Anchor.iocb (h.anchor.trans hl.anchor)
  have hx : b.diskSource = true → w'.diskIocb ≤ 0x70 ∨ w'.diskIocb = 0xff := fun hd => by
    rw [hiocb]
    exact .inl (hp.iocb hd)
  obtain ⟨i, hi, hx₁, hfree, hseen⟩ := hp.slot.entry
  rw [← hslot] at hx₁
  obtain ⟨hname, htable, hmemlo, hrest⟩ := @publishedMem_entry b _
    (w₂.report.start + wordAt (initMem w₂) (b.stage + 8)) w₂.report.stop (initMem w₂) _ hb hi hx₁
  have hguarded {a : Word} (ha : Guarded a) : initMem w₂ a = w.mem a := by
    rw [initMem, hentry, hinit _ _ ha, hl.guarded hp (Build.ordered_of_sdx hb) hstart ha, hp.guarded (Build.ordered_of_sdx hb) ha]
  have hmem {a : Word} (ha : ¬a - 0x0340 < 0x80) : (finish b w').mem a = w'.mem a :=
    finish_other hx ha fun hb' => absurd (hb.symm.trans hb') (by decide)
  have hlow {a : Word} (ha : a.toNat < 0x0340) : (finish b w').mem a = w'.mem a := hmem (by bv_omega)
  have hfirst : (hatEntry i).toNat < 0x0340 := by simpa using hatEntry_low (k := 0) hi (by decide)
  have hsecond : (hatEntry i + 1).toNat < 0x0340 := hatEntry_low hi (by decide)
  have hthird : (hatEntry i + 1 + 1).toNat < 0x0340 := by
    rw [BitVec.add_assoc]
    exact hatEntry_low hi (by decide)
  have hreport := (finish_spec b w').1
  have hstartEq : w'.report.start = w₂.report.start := congrArg Anchor.start h.anchor
  have hstopEq : w'.report.stop = w₂.report.stop := congrArg Anchor.stop h.anchor
  have hnamed (j : ℕ) (hj : j < 11) : hatName w.mem j = hatName w₁.mem j := (hp.guarded (Build.ordered_of_sdx hb) (hatName_guarded hj)).symm
  refine ⟨i, hi, (hnamed i hi).trans hfree, fun j hj => ?_, ?_, ?_, fun a ha hout => ?_, ?_⟩
  · rw [hnamed j (by omega)]
    exact (hseen j hj).1
  · rw [hlow hfirst, h.mem]
    exact hname
  · have hfield : (finish b w').fnrTable b = wordAt (initMem w₂) (b.stage + 8) := by
      have hbyte {k : Word} (hk : k < 22) : (finish b w').mem (b.stage + k) = initMem w₂ (b.stage + k) := by
        obtain ⟨hguard, hiocb⟩ := stage_apart hb hk
        rw [hmem hiocb, h.mem]
        exact hrest _ (fun hin => hguard (.inl (hatEntry_in hi hin))) fun hin => hguard (.inr hin)
      have hnext : b.stage + 8 + 1 = b.stage + 9 := by bv_omega
      refine wordAt_congr (hbyte (by decide)) ?_
      rw [hnext]
      exact hbyte (by decide)
    rw [wordAt_congr (hlow hsecond) (hlow hthird), h.mem, htable, hreport, hstartEq, hfield]
  · rw [hlow (Guarded.low (.inl ha)), h.mem, hrest a hout (hat_not_memlo ha), hguarded (.inl ha)]
  · rw [wordAt_congr (hlow (by decide)) (hlow (by decide)), h.mem, hmemlo, hreport, hstopEq]

theorem Declined.guarded (h : Declined b w₂ w') (hp : Prepared b w w₁) (hl : Loaded b w₁ w₂) (hb : b.sdxChild = false)
    (hstart : 0x0400 ≤ w₁.report.start) (hinit : Discreet w.initEntry) {a : Word} (ha : Guarded a) :
    w'.mem a = w.mem a := by
  have hentry : w₂.initEntry = w.initEntry := (congrArg Anchor.initEntry hl.anchor).trans hp.kept.initEntry
  have hbefore : w₂.mem a = w.mem a := (hl.guarded hp (Build.ordered_of_sdx hb) hstart ha).trans (hp.guarded (Build.ordered_of_sdx hb) ha)
  rcases h.way with ⟨hmem, -⟩ | ⟨hmem, -⟩
  · rw [hmem, hbefore]
  · rw [hmem, initMem, hentry, hinit _ _ ha, hbefore]

end

theorem publication_all_or_nothing (b : Build) (hb : b.sdxChild = false) (w : Ram)
    (hlow : 0x0400 ≤ wordAt w.mem memlo) (hhigh : wordAt w.mem memlo ≤ 0xfffe) (hplain : Plain b w)
    (hinit : Discreet w.initEntry) :
    ((main b w).report.outcome = outInstalled → Published b w (main b w)) ∧
      ((main b w).report.outcome ≠ outInstalled → ∀ a, Guarded a → (main b w).mem a = w.mem a) := by
  have hreport := (finish_spec b (left ((body b).run w))).1
  have hbase := Build.baseAt_of_sdx hb
  have hcourse := hplain.course (Build.ordered_of_sdx hb) (by rwa [hbase]) (by rwa [hbase])
  rw [main, hreport]
  generalize left ((body b).run w) = w' at hcourse
  cases hcourse with
  | early h =>
    refine ⟨fun hout => absurd hout h.outcome, fun _ a ha => ?_⟩
    rw [ha.finish h.kept.iocb]
    exact h.kept.mem a ((Build.ordered_of_sdx hb).not_scratch (.inl ha.low))
  | refused hp h hout =>
    refine ⟨fun hin => absurd (hout.symm.trans hin) (by decide), fun _ a ha => ?_⟩
    have hiocb : w'.diskIocb = _ := congrArg Anchor.iocb h.anchor
    rw [ha.finish fun hd => .inl (hiocb.trans_le (hp.iocb hd)), h.guarded hp (Build.ordered_of_sdx hb) (hp.start_ge hb hlow hhigh) ha,
      hp.guarded (Build.ordered_of_sdx hb) ha]
  | declined hp h h' =>
    refine ⟨fun hin => ?_, fun _ a ha => ?_⟩
    · rcases h'.outcome with hout | hout <;> exact absurd (hout.symm.trans hin) (by decide)
    · have hiocb : w'.diskIocb = _ := congrArg Anchor.iocb (h'.anchor.trans h.anchor)
      rw [ha.finish fun hd => .inl (hiocb.trans_le (hp.iocb hd))]
      exact h'.guarded hp h hb (hp.start_ge hb hlow hhigh) hinit ha
  | installed hp h h' =>
    exact ⟨fun _ => hp.published h h' hb (hp.start_ge hb hlow hhigh) hinit, fun hout => absurd h'.outcome hout⟩

theorem stub_plain : Plain stagedBuild (desk (stub.package 0 5 1 0) stubInit) := by
  intro w₁ hrun _
  have hw : stubLoad = w₁ := by
    rw [stubLoad_run] at hrun
    injection hrun
  rw [← hw]
  have hoptions : options 0 (feed stagedBuild (parsed stubLoad)) =
      .done ((feed stagedBuild (parsed stubLoad)).drop 4) := by decide +kernel
  exact .of_all (by decide +kernel) hoptions (by decide +kernel)

theorem stub_published :
    Published stagedBuild (desk (stub.package 0 5 1 0) stubInit) (main stagedBuild (desk (stub.package 0 5 1 0) stubInit)) :=
  (publication_all_or_nothing stagedBuild rfl _ (by decide +kernel) (by decide +kernel) stub_plain fun _ _ _ => rfl).1
    (by decide +kernel)

end NioApps.Loader

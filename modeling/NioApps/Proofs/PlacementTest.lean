import NioApps.Sanity.Placement

/-! The test in `calculate_ranges`, against the integers. It never accepts a wrapped
range, and refuses one that fits only where the loader does not begin at a page: there
the low bytes of the end and of the loader are compared for equality. -/

namespace NioApps.Loader

open Abort

/-- The base address, before it is rounded. -/
def baseOf (b : Build) (w : Ram) : Word := wordAt w.mem (if b.sdxChild then 0x06a4 else memlo)

/-- The base rounded up to even. -/
def startOf (b : Build) (w : Ram) : ℕ := ((baseOf b w).toNat + 1) / 2 * 2

def endOf (b : Build) (w : Ram) : ℕ := startOf b w + (w.fnrAlloc b).toNat + (w.fnrCstack b).toNat

/-- The range ends below the screen, its display list and the stack. -/
structure BelowOthers (b : Build) (w : Ram) : Prop where
  stack : endOf b w < w.report.stackFloor.toNat
  sdlstl : endOf b w < w.report.sdlstl.toNat
  savmsc : endOf b w < w.report.savmsc.toNat

/-- It ends below the loader as well. -/
structure Fits (b : Build) (w : Ram) : Prop where
  loader : endOf b w ≤ b.loaderStart.toNat
  others : BelowOthers b w

/-- The range ends in the page in which the loader begins, before it. -/
structure EndsInPage (b : Build) (w : Ram) : Prop where
  page : endOf b w / 256 = b.loaderStart.toNat / 256
  before : endOf b w < b.loaderStart.toNat
  others : BelowOthers b w

/-- `calculate_ranges` succeeds on the ranges that fit, and reports the range. -/
structure Tested (b : Build) (w : Ram) (bad : Bool) (w' : Ram) : Prop where
  exact : bad = false ↔ Fits b w
  start : bad = false → w'.report.start.toNat = startOf b w
  stop : bad = false → w'.report.stop.toNat = endOf b w

theorem alignedBase_toNat {b : Build} {w : Ram} (h : baseOf b w < 0xffff) : (alignedBase b w).toNat = startOf b w := by
  have heven : baseOf b w &&& 1 = 0 ↔ (baseOf b w).toNat % 2 = 0 := by
    rw [← BitVec.toNat_inj, BitVec.toNat_and, ← Nat.and_one_is_mod]
    rfl
  have hlt : (baseOf b w).toNat < 0xffff := h
  rw [startOf, alignedBase]
  change (if baseOf b w &&& 1 = 0 then baseOf b w else baseOf b w + 1).toNat = _
  split_ifs with hbit
  · have := heven.1 hbit
    omega
  · have := mt heven.2 hbit
    have hone : (1 : Word).toNat = 1 := rfl
    rw [BitVec.toNat_add, hone]
    omega

theorem belowLoader_iff (b : Build) (a : Word) :
    belowLoader b a = true ↔
      a.toNat ≤ b.loaderStart.toNat ∧ ¬(a.toNat / 256 = b.loaderStart.toNat / 256 ∧ a.toNat < b.loaderStart.toNat) := by
  rw [belowLoader, Bool.or_eq_true, decide_eq_true_eq, beq_iff_eq, BitVec.lt_def, hi_toNat, hi_toNat, ← BitVec.toNat_inj]
  omega

/-- The carry that `calculate_ranges` returns, and the reported range. -/
theorem calculateRanges_run {b : Build} {w : Ram} (hbase : baseOf b w < 0xffff) :
    ∃ c w', (calculateRanges b).run w = .ok c w' ∧ (c = false ↔ Fits b w ∧ ¬EndsInPage b w) ∧
      (c = false → w'.report.start.toNat = startOf b w ∧ w'.report.stop.toNat = endOf b w) := by
  have hstart := alignedBase_toNat hbase
  have hloader := b.loaderStart.isLt
  refine wp.returns ?_
  refine wp_bind.2 (wp_get.2 (wp_bind.2 (wp_modify.2 ?_)))
  refine wp_ite (fun halloc => ⟨⟨by simp, fun hfits => ?_⟩, by simp⟩) fun halloc => wp_bind.2 (wp_modify.2 ?_)
  · have hfit := hfits.1.1
    rw [endOf] at hfit
    omega
  have himage : (alignedBase b w + w.fnrAlloc b).toNat = startOf b w + (w.fnrAlloc b).toNat := by bv_omega
  refine wp_ite (fun hstack => ⟨⟨by simp, fun hfits => ?_⟩, by simp⟩) fun hstack => wp_bind.2 (wp_modify.2 ?_)
  · have hfit := hfits.1.1
    rw [endOf] at hfit
    omega
  have hend : (alignedBase b w + w.fnrAlloc b + w.fnrCstack b).toNat = endOf b w := by
    rw [endOf]
    bv_omega
  refine ⟨?_, fun _ => ⟨hstart, hend⟩⟩
  simp only [Bool.not_eq_false', Bool.and_eq_true, decide_eq_true_eq, belowLoader_iff, BitVec.lt_def, hend]
  constructor
  · rintro ⟨⟨⟨⟨hle, hpage⟩, hfloor⟩, hlist⟩, hscreen⟩
    exact ⟨⟨hle, hfloor, hlist, hscreen⟩, fun h => hpage ⟨h.page, h.before⟩⟩
  · rintro ⟨⟨hle, hfloor, hlist, hscreen⟩, hpage⟩
    exact ⟨⟨⟨⟨hle, fun h => hpage ⟨h.1, h.2, hfloor, hlist, hscreen⟩⟩, hfloor⟩, hlist⟩, hscreen⟩

/-- The test is exact unless the range ends in the first page of the loader, before it. -/
theorem placement_test {b : Build} {w : Ram} (hbase : baseOf b w < 0xffff) :
    ∃ c w', (calculateRanges b).run w = .ok c w' ∧ (Tested b w c w' ↔ ¬EndsInPage b w) := by
  obtain ⟨c, w', hrun, hiff, hrange⟩ := calculateRanges_run hbase
  refine ⟨c, w', hrun, fun h hpage => ?_, fun hpage => ?_⟩
  · have hfits : Fits b w := ⟨hpage.before.le, hpage.others⟩
    exact (hiff.1 (h.exact.2 hfits)).2 hpage
  · exact ⟨hiff.trans (and_iff_left hpage), fun hc => (hrange hc).1, fun hc => (hrange hc).2⟩

/-- In the builds with a fixed address the loader begins at a page. -/
theorem not_endsInPage {b : Build} (h : b.sdxChild = false) (w : Ram) : ¬EndsInPage b w := by
  rintro ⟨hpage, hbefore, -⟩
  have haligned : b.loaderStart.toNat % 256 = 0 := by
    obtain ⟨source, asmResident⟩ := b
    cases source with
    | staged => exact (by decide : (0x3f00 : Word).toNat % 256 = 0)
    | disk diskName => exact (by decide : (0x6000 : Word).toNat % 256 = 0)
    | sdxChild main stageBuf diskBuf diskName expectedAlloc => cases h
  omega

/-- The stub, staged below the loader. -/
theorem placement_test_staged :
    ∃ c w', (calculateRanges stagedBuild).run (desk (stub.package 0 5 1 0) stubInit) = .ok c w' ∧
      (Tested stagedBuild (desk (stub.package 0 5 1 0) stubInit) c w' ↔
        ¬EndsInPage stagedBuild (desk (stub.package 0 5 1 0) stubInit)) :=
  placement_test (by decide +kernel)

/-! ### A loader inside a page -/

/-- A child that SDX has relocated to `$4010`. -/
def childBuild : Build := ⟨.sdxChild 0x4010 0x6000 0x7000 0x5000 0x1000, true⟩

/-- An allocation of 4 KiB at `$3000`, and the screen at `$9000`. -/
def childDesk : Ram :=
  { desk [] stubInit with
    mem := fun a => if a = 0x06a5 then 0x30 else if a = 0x600f then 0x10 else 0
    report := ⟨0, 0, 0, 0, 0, 0, 0, 0x9000, 0x9000, 0x9000, 0, 0, 0, fun _ => 0⟩ }

/-- The range ends at `$4000`, and is refused. -/
theorem page_refused : Fits childBuild childDesk ∧ ∃ w', (calculateRanges childBuild).run childDesk = .ok true w' := by
  have hend : endOf childBuild childDesk = 0x4000 := by decide +kernel
  have hfits : Fits childBuild childDesk :=
    ⟨by rw [hend]; decide, by rw [hend]; decide, by rw [hend]; decide, by rw [hend]; decide⟩
  refine ⟨hfits, ?_⟩
  obtain ⟨c, w', hrun, hiff, -⟩ := calculateRanges_run (show baseOf childBuild childDesk < 0xffff by decide +kernel)
  have hpage : EndsInPage childBuild childDesk := ⟨by rw [hend]; decide, by rw [hend]; decide, hfits.others⟩
  cases c with
  | false => exact absurd hpage (hiff.1 rfl).2
  | true => exact ⟨w', hrun⟩

end NioApps.Loader

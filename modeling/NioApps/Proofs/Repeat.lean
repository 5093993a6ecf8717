import NioApps.Sanity.Scanning
import NioApps.Proofs.Publication

/-! A second run of the file finds the first one's handler: the base it derives from the
table address is the one the first run chose. -/

namespace NioApps.Loader

open Abort

section

variable {b : Build} {w w₁ w₂ w' v v₁ : Ram}

/-- The fixed addresses. -/
theorem Build.fixed (hb : b.sdxChild = false) :
    b.diskSource = false ∧ b.stage = 0x4900 ∧ b.loaderStart = 0x3f00 ∨
      b.diskSource = true ∧ b.stage = 0x6e00 ∧ b.loaderStart = 0x6000 ∧ b.diskBuffer = 0x6f00 := by
  obtain ⟨source, asm⟩ := b
  cases source with
  | staged => exact .inl ⟨rfl, rfl, rfl⟩
  | disk name => exact .inr ⟨rfl, rfl, rfl, rfl⟩
  | sdxChild => cases hb

/-- The loaded module is not in the stage. -/
theorem Loaded.stage (h : Loaded b w₁ w₂) (hp : Prepared b w w₁) (hb : b.sdxChild = false) {j : Word} (hj : j < 22) :
    w₂.mem (b.stage + j) = w₁.mem (b.stage + j) := by
  have hfit := hp.fit
  have hloader := hp.ranges.loader
  rcases Build.fixed hb with ⟨hd, hs, hl⟩ | ⟨hd, hs, hl, hbuf⟩ <;> rw [hl] at hloader
  · refine h.mem _ (fun hin => ?_) fun hio => absurd (hd.symm.trans hio.1) (by decide)
    rw [hs] at hin
    bv_omega
  · refine h.mem _ (fun hin => ?_) fun hio => ?_
    · rw [hs] at hin
      bv_omega
    · rw [Build.Io, hs, hbuf] at hio
      rcases hio.2 with hin | hin <;> bv_omega

/-! ### The first run -/

end

end NioApps.Loader

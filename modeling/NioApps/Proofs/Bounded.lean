import NioApps.Sanity.Installing

/-! The stores of `load_module` against the allocation. The header check drops the
carry of text + data + bss, and the WORD check that of offset + 1. -/

namespace NioApps.Loader

open Abort Image

/-- The target stores that `load_module` makes from `w`. -/
def stores (b : Build) (w : Ram) : List Word := targets (left ((loadModule b).run { w with log := [] })).log

/-- The stores stay in the target exactly when the plan does. -/
theorem Performs.targets_iff {α : Type} {b : Build} {S A : Word} {w : Ram} {good bad : α} {P : Ram → Prop} {p : Plan}
    {r : EStateM.Result Unit Ram α} (h : Performs b S A w good bad P p r) (hlog : w.log = []) :
    (∀ a ∈ targets (left r).log, a - S < A) ↔ Within A p.edits := by
  constructor
  · intro hall
    by_contra hout
    obtain ⟨a, ha, hge⟩ := h.escapes hout
    exact hge (hall a ha)
  · intro hin
    obtain ⟨w', hmoved, hends⟩ := h.within hin
    have hleft : left r = w' := by
      cases he : p.ending <;> rw [he] at hends
      · rw [hends.1, left_ok]
      · rw [hends, left_ok]
      · rw [hends.1, left_error]
    intro a ha
    rw [hleft, hmoved.log, hlog, targets_nil, List.nil_append, List.mem_map] at ha
    obtain ⟨o, ho, rfl⟩ := ha
    have hoff : S + o - S = o := by bv_omega
    rw [hoff]
    exact hin o ho

/-- Every store of `load_module` is in `[R_START, R_START + FNR_ALLOC)` exactly when the
module is `Bounded`. The target begins above the zero page and the IOCBs. -/
theorem load_module_bounded (b : Build) (hb : b.Laid) (w w' : Ram) (h : (beforeLoad b).run w = .ok () w')
    (hmemlo : 0x0400 ≤ w'.report.start) :
    (∀ a ∈ stores b w', w'.report.start.toNat ≤ a.toNat ∧
        a.toNat < w'.report.start.toNat + (w'.fnrAlloc b).toNat) ↔
      (HeaderOk b w' → Bounded w'.report.start (o65Word w' 10) (o65Word w' 14) (o65Word w' 18) (w'.fnrAlloc b)
        (feed b (parsed w'))) := by
  have hprep := (beforeLoad_wp b w).ok h
  have hplaced := hprep.placed hb fun _ => hmemlo
  have hfit : w'.report.start.toNat + (w'.fnrAlloc b).toNat < 2 ^ 16 := by
    have hstop := hprep.ranges.stop
    have := w'.report.stop.isLt
    omega
  have hin (a : Word) : (w'.report.start.toNat ≤ a.toNat ∧ a.toNat < w'.report.start.toNat + (w'.fnrAlloc b).toNat) ↔
      a - w'.report.start < w'.fnrAlloc b := by
    bv_omega
  simp only [hin]
  by_cases hok : HeaderOk b w'
  · have hok₀ : HeaderOk b { w' with log := [] } :=
      ⟨hok.magic, hok.mode, hok.textBase, hok.dataBase, hok.bssBase, hok.alloc, hok.zpBase, hok.zpSize, hok.stack⟩
    have hplaced₀ : Placed b w'.report.start (w'.fnrAlloc b) (parsed (Ram.setDetail 0x30 { w' with log := [] })) :=
      ⟨rfl, hplaced.iocb, hplaced.staged, hplaced.disk⟩
    have hfeed : feed b (parsed (Ram.setDetail 0x30 { w' with log := [] })) = feed b (parsed w') :=
      Alike.feed ⟨rfl, rfl, rfl, rfl, rfl, rfl, fun _ _ _ _ => rfl, fun _ _ => rfl⟩ hplaced.iocb
    have hperforms := loadImage_performs hplaced₀ hprep.ranges.basePtr
    rw [stores, loadModule_left hok₀, hperforms.targets_iff rfl, hfeed]
    exact (within_plan_iff hok.alloc).trans ⟨fun h _ => h, fun h => h hok⟩
  · obtain ⟨t, d, i, s, hrun⟩ := loadModule_bad (b := b) (w := { w' with log := [] })
      fun h => hok ⟨h.magic, h.mode, h.textBase, h.dataBase, h.bssBase, h.alloc, h.zpBase, h.zpSize, h.stack⟩
    rw [stores, hrun]
    exact iff_of_true (by simp [refused, Ram.setDetail]) fun h => absurd h hok

theorem stub_bounded :
    HeaderOk stagedBuild stubLoad ∧ Bounded stubLoad.report.start (o65Word stubLoad 10) (o65Word stubLoad 14)
      (o65Word stubLoad 18) (stubLoad.fnrAlloc stagedBuild) (feed stagedBuild (parsed stubLoad)) := by
  have hok : HeaderOk stagedBuild stubLoad := by constructor <;> decide +kernel
  have hall : (stores stagedBuild stubLoad).all (fun a => decide (stubLoad.report.start.toNat ≤ a.toNat ∧
      a.toNat < stubLoad.report.start.toNat + (stubLoad.fnrAlloc stagedBuild).toNat)) = true := by decide +kernel
  refine ⟨hok, (load_module_bounded stagedBuild trivial _ stubLoad stubLoad_run (by decide +kernel)).1 (fun a ha => ?_) hok⟩
  exact of_decide_eq_true (List.all_eq_true.1 hall a ha)

/-- Text `$20` and BSS `$FFF0` for an allocation of `$10`; the file has 17 bytes of text. -/
def overflowing : List Byte :=
  [0x46, 0x4e, 0x52, 0x31, 1, 22, 0, 0, 0, 0, 0, 0, 44, 0, 0x10, 0, 0x20, 0, 0, 0, 26, 0] ++
    [1, 0, 0x6f, 0x36, 0x35, 0, 0, 8, 0, 0, 0x20, 0, 0x20, 0, 0, 0, 0x20, 0, 0xf0, 0xff, 0, 0, 26, 0, 0, 0] ++
    0 :: List.replicate 17 0xea

def overflowingLoad : Ram := left ((beforeLoad stagedBuild).run (desk overflowing stubInit))

theorem load_module_escapes :
    ¬∀ (b : Build) (w w' : Ram), b.Laid → (beforeLoad b).run w = .ok () w' →
      0x0400 ≤ w'.report.start → ∀ a ∈ stores b w',
        w'.report.start.toNat ≤ a.toNat ∧ a.toNat < w'.report.start.toNat + (w'.fnrAlloc b).toNat := by
  intro h
  have hrun : (beforeLoad stagedBuild).run (desk overflowing stubInit) = .ok () overflowingLoad :=
    eq_ok_left (by decide +kernel)
  have hmem : (0x2010 : Word) ∈ stores stagedBuild overflowingLoad := by decide +kernel
  have hin := (h stagedBuild _ overflowingLoad trivial hrun (by decide +kernel) 0x2010 hmem).2
  have hout : ¬(0x2010 : Word).toNat <
      overflowingLoad.report.start.toNat + (overflowingLoad.fnrAlloc stagedBuild).toNat := by decide +kernel
  exact hout hin

end NioApps.Loader

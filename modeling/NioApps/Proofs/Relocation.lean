import NioApps.Sanity.Decoding
import NioApps.Sanity.Header
import NioApps.Sanity.Placement
import NioApps.Sanity.Supply

/-! `load_module` on a well-formed module: the relocated image is in place, the
module is read to its end, and nothing else has changed. -/

namespace NioApps.Loader

open Abort Image

/-- The module `m` is to be loaded at `B`: the wrapper is accepted and has its sizes,
its header is in place, and the source has the rest. -/
structure Holds (b : Build) (m : Module) (B : Word) (w : Ram) : Prop where
  start : w.report.start = B
  basePtr : w.zp.basePtr = B
  modulePtr : w.zp.modulePtr = b.stage + fnrHeader
  moduleEnd : w.zp.moduleEnd = b.stage + fnrHeader + w.fnrModuleLen b
  wrapper : WrapperOk b w
  alloc : (w.fnrAlloc b).toNat = m.size
  length : (w.fnrModuleLen b).toNat = m.bytes.length
  header : ∀ i < 26, w.mem (w.zp.modulePtr + BitVec.ofNat 16 i) = m.header.getD i 0
  stream : Supplies b w (w.zp.modulePtr + 26) m.stream
  iocb : IocbOk b w

/-- The target is apart from what the loader reads from. -/
def Apart (b : Build) (w : Ram) : Prop :=
  ∀ a, a - w.report.start < w.fnrAlloc b →
    ¬b.Io a ∧ (b.diskSource = false → ¬(w.zp.modulePtr ≤ a ∧ a < w.zp.moduleEnd))

section

variable {b : Build} {m : Module} {B : Word} {w : Ram}

theorem Module.length_header (m : Module) : m.header.length = 26 := rfl

theorem Holds.word (h : Holds b m B w) {k : ℕ} (hk : k < 25) {v : Word} (hlo : m.header.getD k 0 = lo v)
    (hhi : m.header.getD (k + 1) 0 = hi v) : o65Word w (BitVec.ofNat 16 k) = v := by
  have hfirst := h.header k (by omega)
  have hsecond := h.header (k + 1) (by omega)
  rw [BitVec.ofNat_add, ← BitVec.add_assoc] at hsecond
  rw [o65Word, wordAt, hfirst, hlo]
  change BitVec.ofNat 16 (le [lo v, w.mem (w.zp.modulePtr + BitVec.ofNat 16 k + BitVec.ofNat 16 1)]) = v
  rw [hsecond, hhi, ofNat_lo_hi]

theorem Holds.fnrZp (h : Holds b m B w) : w.fnrZp b = cc65ZpSize := by
  have hfields := h.wrapper.fields
  simp only [wrapperBad, Bool.or_eq_false_iff, bne_eq_false_iff_eq] at hfields
  exact hfields.1.1.2

theorem Holds.sizes (h : Holds b m B w) :
    o65Word w 10 = BitVec.ofNat 16 m.text.length ∧ o65Word w 14 = BitVec.ofNat 16 m.data.length ∧
      o65Word w 18 = BitVec.ofNat 16 m.bss :=
  ⟨h.word (k := 10) (by decide) rfl rfl, h.word (k := 14) (by decide) rfl rfl, h.word (k := 18) (by decide) rfl rfl⟩

theorem Holds.headerOk (h : Holds b m B w) : HeaderOk b w := by
  obtain ⟨htext, hdata, hbss⟩ := h.sizes
  have hbyte (i : ℕ) (hi : i < 26) : o65Byte w (BitVec.ofNat 16 i) = m.header.getD i 0 := h.header i hi
  refine ⟨⟨hbyte 0 (by decide), hbyte 1 (by decide), hbyte 2 (by decide), hbyte 3 (by decide), hbyte 4 (by decide)⟩,
    ⟨hbyte 5 (by decide), hbyte 6 (by decide), hbyte 7 (by decide)⟩, ?_, ?_, ?_, ?_, ?_, ?_, ?_⟩
  · exact h.word (k := 8) (by decide) rfl rfl
  · rw [htext]
    exact h.word (k := 12) (by decide) rfl rfl
  · rw [htext, hdata, ← BitVec.ofNat_add]
    exact h.word (k := 16) (by decide) rfl rfl
  · rw [htext, hdata, hbss, ← BitVec.ofNat_add, ← BitVec.ofNat_add]
    apply BitVec.eq_of_toNat_eq
    rw [h.alloc, BitVec.toNat_ofNat, Nat.mod_eq_of_lt m.fits]
    rfl
  · exact h.word (k := 20) (by decide) rfl rfl
  · rw [h.fnrZp]
    exact h.word (k := 22) (by decide) rfl rfl
  · exact h.word (k := 24) (by decide) rfl rfl

theorem Holds.feed (h : Holds b m B w) (hb : b.Laid) : feed b (parsed (w.setDetail 0x30)) = m.stream := by
  have hsupplies : Supplies b (parsed (w.setDetail 0x30)) (w.zp.modulePtr + 26) m.stream :=
    ⟨h.stream.staged, h.stream.fresh, h.stream.disk⟩
  refine hsupplies.feed_eq hb h.iocb ?_
  have hlength := h.length
  have hfits := h.wrapper.length
  rw [Module.bytes, List.length_append, m.length_header] at hlength
  change (w.zp.modulePtr + 26).toNat + m.stream.length = w.zp.moduleEnd.toNat
  rw [h.modulePtr, h.moduleEnd]
  bv_omega

theorem Holds.placed (h : Holds b m B w) (hapart : Apart b w) :
    Placed b B (BitVec.ofNat 16 m.size) (parsed (w.setDetail 0x30)) := by
  have halloc : BitVec.ofNat 16 m.size = w.fnrAlloc b := by
    apply BitVec.eq_of_toNat_eq
    rw [h.alloc, BitVec.toNat_ofNat]
    exact Nat.mod_eq_of_lt m.fits
  rw [halloc]
  refine ⟨h.start, h.iocb, fun hs a ha hin => ?_, fun a ha => ?_⟩
  · have hsrc : w.zp.modulePtr ≤ a := by
      have hle : w.zp.modulePtr + 26 ≤ a := hin.1
      have hlength := h.length
      have hfits := h.wrapper.length
      rw [Module.bytes, List.length_append, m.length_header] at hlength
      rw [h.modulePtr] at hle ⊢
      bv_omega
    exact (hapart a (h.start ▸ ha)).2 hs ⟨hsrc, hin.2⟩
  · exact (hapart a (h.start ▸ ha)).1

end

theorem load_module_relocates (b : Build) (hb : b.Laid) (m : Module) (B : Word) (w : Ram) (h : Holds b m B w)
    (hfit : B.toNat + m.size < 2 ^ 16) (hapart : Apart b w) :
    ∃ w', (loadModule b).run w = .ok false w' ∧ w'.zp.srcPtr = w.zp.moduleEnd ∧
      (∀ i < m.size, w'.mem (B + BitVec.ofNat 16 i) = m.image B i) ∧
      ∀ a, ¬(B.toNat ≤ a.toNat ∧ a.toNat < B.toNat + m.size) → ¬b.Io a → w'.mem a = w.mem a := by
  have hsize : m.size < 2 ^ 16 := m.fits
  have hplaced := h.placed hapart
  have hfeed := h.feed hb
  obtain ⟨htext, hdata, hbss⟩ := h.sizes
  have hplan : plan B (o65Word w 10) (o65Word w 14) (o65Word w 10 + o65Word w 14) (o65Word w 18)
      (feed b (parsed (w.setDetail 0x30))) = ⟨m.edits B, .done []⟩ := by
    rw [hfeed, htext, hdata, hbss, ← BitVec.ofNat_add]
    exact m.plan_stream B
  have hperforms := loadImage_performs hplaced h.basePtr
  change Performs b B _ _ false true _ (plan B (o65Word w 10) (o65Word w 14) (o65Word w 10 + o65Word w 14) (o65Word w 18)
    (feed b (parsed (w.setDetail 0x30)))) _ at hperforms
  rw [hplan] at hperforms
  obtain ⟨w', hmoved, hrun, hready⟩ := hperforms.within (m.within_edits B)
  have hend : w'.zp.srcPtr = w.zp.moduleEnd := by
    have hfeedEnd := hready.feedEnd
    rw [feedEnd, feedEnd, hready.feed, hfeed] at hfeedEnd
    have hlength := h.length
    rw [Module.bytes, List.length_append, m.length_header] at hlength
    have hsrc : (parsed (w.setDetail 0x30)).zp.srcPtr = w.zp.modulePtr + 26 := rfl
    have hmodule := h.moduleEnd
    have hptr := h.modulePtr
    rw [hsrc] at hfeedEnd
    simp only [List.length_nil] at hfeedEnd
    bv_omega
  have hmoduleEnd : w'.zp.moduleEnd = w.zp.moduleEnd := congrArg Frame.moduleEnd hmoved.frame
  refine ⟨w', ?_, hend, fun i hi => ?_, fun a ha hio => ?_⟩
  · rw [loadModule_run h.headerOk, hrun]
    simp [hend, hmoduleEnd]
  · have himage := hmoved.image (BitVec.ofNat 16 i) (by
      rw [BitVec.lt_def, BitVec.toNat_ofNat, BitVec.toNat_ofNat, Nat.mod_eq_of_lt hsize, Nat.mod_eq_of_lt (by omega)]
      exact hi)
    exact himage.trans (m.run_edits B _ hi)
  · refine hmoved.outside a (fun hin => ha ?_) hio
    rw [BitVec.lt_def, BitVec.toNat_ofNat, Nat.mod_eq_of_lt hsize] at hin
    bv_omega

theorem stub_holds : Holds stagedBuild stub 0x2000 stubLoad where
  start := by decide +kernel
  basePtr := by decide +kernel
  modulePtr := by decide +kernel
  moduleEnd := by decide +kernel
  wrapper := ⟨by decide +kernel, by decide +kernel, fun _ => by decide +kernel⟩
  alloc := by decide +kernel
  length := by decide +kernel
  header := by decide +kernel
  stream := ⟨fun _ => by decide +kernel, fun hd => absurd hd (by decide), fun hd => absurd hd (by decide)⟩
  iocb := fun hd => by cases hd

theorem stub_apart : Apart stagedBuild stubLoad := by
  intro a ha
  have hstart : stubLoad.report.start = 0x2000 := stub_holds.start
  have halloc : stubLoad.fnrAlloc stagedBuild = 23 := by decide +kernel
  have hptr : stubLoad.zp.modulePtr = 0x4916 := by decide +kernel
  rw [hstart, halloc] at ha
  refine ⟨fun hio => absurd hio.1 (by decide), fun _ hin => ?_⟩
  rw [hptr] at hin
  bv_omega

theorem stub_relocates :
    ∃ w', (loadModule stagedBuild).run stubLoad = .ok false w' ∧ w'.zp.srcPtr = stubLoad.zp.moduleEnd ∧
      (∀ i < stub.size, w'.mem (0x2000 + BitVec.ofNat 16 i) = stub.image 0x2000 i) ∧
      ∀ a, ¬((0x2000 : Word).toNat ≤ a.toNat ∧ a.toNat < (0x2000 : Word).toNat + stub.size) → ¬stagedBuild.Io a →
        w'.mem a = stubLoad.mem a :=
  load_module_relocates stagedBuild trivial stub 0x2000 stubLoad stub_holds (by decide) stub_apart

end NioApps.Loader

import NioApps.Sanity.Header
import NioApps.Sanity.Placement
import NioApps.Spec.Measure

/-! The RAM budget of the build gate and of the loader. The gate adds the sizes of the
segments as integers; `parse_o65_header` drops the carry. -/

namespace NioApps.Loader

open Abort

/-- The header of the file `module` is in the stage. -/
def Staged (b : Build) (w : Ram) (module : List Byte) : Prop :=
  26 ≤ module.length ∧ ∀ k < 26, w.mem (b.stage + fnrHeader + BitVec.ofNat 16 k) = module.getD k 0

/-- `validate_wrapper` accepts, and then `parse_o65_header`. -/
def Accepts (b : Build) (w : Ram) : Prop :=
  ∃ w₁ w₂, (validateWrapper b).run w = .ok false w₁ ∧ (parseO65Header b).run w₁ = .ok false w₂

/-- The wrapper that belongs to a module of this footprint. -/
structure Wrapped (b : Build) (w : Ram) (r : Gate.Footprint) : Prop where
  magic : w.mem (b.stage + 0) = 0x46 ∧ w.mem (b.stage + 1) = 0x4e ∧ w.mem (b.stage + 2) = 0x52 ∧ w.mem (b.stage + 3) = 0x31
  version : w.mem (b.stage + 4) = 1
  headerSize : w.mem (b.stage + 5) = 22
  alloc : (w.fnrAlloc b).toNat = r.memloReservation
  zp : w.fnrZp b = 26
  cstack : w.fnrCstack b = 0
  nonempty : w.fnrModuleLen b ≠ 0
  length : (b.stage + fnrHeader).toNat + (w.fnrModuleLen b).toNat < 2 ^ 16

/-- The sizes that a file declares, as integers. -/
def declared (module : List Byte) : ℕ := Gate.field module 10 + Gate.field module 14 + Gate.field module 18

section

variable {b : Build} {w : Ram} {module : List Byte} {linkMap : List Char} {r : Gate.Footprint}

/-! ### The header in the stage -/

theorem Staged.byte (h : Staged b w module) {k : ℕ} (hk : k < 26) :
    o65Byte (w.setZp (sourceZp b w)) (BitVec.ofNat 16 k) = module.getD k 0 :=
  h.2 k hk

theorem Staged.word (h : Staged b w module) {k : ℕ} (hk : k < 25) :
    (o65Word (w.setZp (sourceZp b w)) (BitVec.ofNat 16 k)).toNat = Gate.field module k := by
  have hnext : b.stage + fnrHeader + BitVec.ofNat 16 k + 1 = b.stage + fnrHeader + BitVec.ofNat 16 (k + 1) := by
    rw [BitVec.ofNat_add]
    exact BitVec.add_assoc ..
  change (wordAt w.mem (b.stage + fnrHeader + BitVec.ofNat 16 k)).toNat = _
  rw [wordAt_toNat, hnext, h.2 k (by omega), h.2 (k + 1) (by omega), Gate.field]
  simp

theorem take_eq_magic (hlength : 26 ≤ module.length) :
    module.take 8 = Gate.magic ↔ ∀ k < 8, module.getD k 0 = Gate.magic.getD k 0 := by
  constructor
  · intro h k hk
    rw [← h, List.getD_eq_getElem?_getD, List.getD_eq_getElem?_getD, List.getElem?_take_of_lt hk]
  · intro h
    refine List.ext_getElem (by simp [Gate.magic]; omega) fun k hk hk' => ?_
    have hbyte := h k hk'
    rw [List.getD_eq_getElem?_getD, List.getD_eq_getElem?_getD, List.getElem?_eq_getElem hk',
      List.getElem?_eq_getElem (by rw [List.length_take] at hk; omega)] at hbyte
    rw [List.getElem_take]
    exact hbyte

/-- What `parse_o65_header` tests, as numbers. -/
theorem headerOk_iff (h : Staged b w module) :
    HeaderOk b (w.setZp (sourceZp b w)) ↔
      module.take 8 = Gate.magic ∧ Gate.field module 8 = 0 ∧ Gate.field module 12 = Gate.field module 10 ∧
        Gate.field module 16 = (Gate.field module 10 + Gate.field module 14) % 2 ^ 16 ∧
        declared module % 2 ^ 16 = (w.fnrAlloc b).toNat ∧ Gate.field module 20 = 0 ∧
        Gate.field module 22 = (w.fnrZp b).toNat ∧ Gate.field module 24 = 0 := by
  have hb (k : ℕ) (hk : k < 26) := h.byte hk
  have hw (k : ℕ) (hk : k < 25) := h.word hk
  have hmagic : module.take 8 = Gate.magic ↔
      (o65Byte (w.setZp (sourceZp b w)) 0 = 1 ∧ o65Byte (w.setZp (sourceZp b w)) 1 = 0 ∧
        o65Byte (w.setZp (sourceZp b w)) 2 = 0x6f ∧ o65Byte (w.setZp (sourceZp b w)) 3 = 0x36 ∧
        o65Byte (w.setZp (sourceZp b w)) 4 = 0x35) ∧
      o65Byte (w.setZp (sourceZp b w)) 5 = 0 ∧ o65Byte (w.setZp (sourceZp b w)) 6 = 0 ∧
        o65Byte (w.setZp (sourceZp b w)) 7 = 8 := by
    rw [take_eq_magic h.1]
    constructor
    · intro hk
      have hbyte (k : ℕ) (h8 : k < 8) := (hb k (by omega)).trans (hk k h8)
      exact ⟨⟨hbyte 0 (by decide), hbyte 1 (by decide), hbyte 2 (by decide), hbyte 3 (by decide), hbyte 4 (by decide)⟩,
        hbyte 5 (by decide), hbyte 6 (by decide), hbyte 7 (by decide)⟩
    · rintro ⟨⟨h0, h1, h2, h3, h4⟩, h5, h6, h7⟩ k hk
      rw [← hb k (by omega)]
      interval_cases k
      exacts [h0, h1, h2, h3, h4, h5, h6, h7]
  have h8 := hw 8 (by decide)
  have h10 := hw 10 (by decide)
  have h12 := hw 12 (by decide)
  have h14 := hw 14 (by decide)
  have h16 := hw 16 (by decide)
  have h18 := hw 18 (by decide)
  have h20 := hw 20 (by decide)
  have h22 := hw 22 (by decide)
  have h24 := hw 24 (by decide)
  rw [hmagic, declared, ← h8, ← h10, ← h12, ← h14, ← h16, ← h18, ← h20, ← h22, ← h24]
  constructor
  · rintro ⟨hm, hmode, htext, hdata, hbss, halloc, hzp, hsize, hstack⟩
    refine ⟨⟨hm, hmode⟩, congrArg BitVec.toNat htext, congrArg BitVec.toNat hdata, ?_, ?_, congrArg BitVec.toNat hzp,
      congrArg BitVec.toNat hsize, congrArg BitVec.toNat hstack⟩
    · exact (congrArg BitVec.toNat hbss).trans (BitVec.toNat_add ..)
    · refine Eq.trans ?_ (congrArg BitVec.toNat halloc)
      rw [BitVec.toNat_add, BitVec.toNat_add, Nat.mod_add_mod]
      rfl
  · rintro ⟨⟨hm, hmode⟩, htext, hdata, hbss, halloc, hzp, hsize, hstack⟩
    refine ⟨hm, hmode, BitVec.eq_of_toNat_eq htext, BitVec.eq_of_toNat_eq hdata, BitVec.eq_of_toNat_eq ?_,
      BitVec.eq_of_toNat_eq ?_, BitVec.eq_of_toNat_eq hzp, BitVec.eq_of_toNat_eq hsize, BitVec.eq_of_toNat_eq hstack⟩
    · exact hbss.trans (BitVec.toNat_add ..).symm
    · rw [BitVec.toNat_add, BitVec.toNat_add, Nat.mod_add_mod]
      exact halloc

/-! ### The two checks -/

theorem accepts_iff : Accepts b w ↔
    (validateWrapper b).run w = .ok false (w.setZp (sourceZp b w)) ∧ HeaderOk b (w.setZp (sourceZp b w)) := by
  constructor
  · rintro ⟨w₁, w₂, hwrapper, hheader⟩
    obtain ⟨rfl, -⟩ := ((validateWrapper_wp b w).ok hwrapper).2 rfl
    rcases parseO65Header_cases b (w.setZp (sourceZp b w)) with ⟨hok, -⟩ | ⟨-, t, d, i, s, hrun⟩
    · exact ⟨hwrapper, hok⟩
    · rw [hrun] at hheader
      cases hheader
  · rintro ⟨hwrapper, hok⟩
    rcases parseO65Header_cases b (w.setZp (sourceZp b w)) with ⟨-, hrun⟩ | ⟨hbad, -⟩
    · exact ⟨_, _, hwrapper, hrun⟩
    · exact absurd hok hbad

/-- An accepted wrapper for an assembly payload keeps the allocation below the limit. -/
theorem wrapper_fields (hasm : b.asmResident = true) (h : wrapperBad b w = false) :
    w.fnrZp b = 26 ∧ (w.fnrAlloc b).toNat + 26 ≤ 3072 := by
  simp only [wrapperBad, hasm, Bool.or_eq_false_iff, bne_eq_false_iff_eq, Bool.true_and, Bool.not_eq_false', decide_eq_true_eq] at h
  obtain ⟨⟨⟨-, hzp⟩, -, halloc⟩, -⟩ := h
  have hlt : (w.fnrAlloc b).toNat < 3047 := halloc
  exact ⟨hzp, by omega⟩

theorem validateWrapper_disk (hd : b.diskSource = true) (hbad : wrapperBad b w = false)
    (hlength : (b.stage + fnrHeader).toNat + (w.fnrModuleLen b).toNat < 2 ^ 16) :
    (validateWrapper b).run w = .ok false (w.setZp (sourceZp b w)) := by
  simp only [validateWrapper, EStateM.run_bind, EStateM.run_get, hbad, Bool.false_eq_true, if_false, EStateM.run_modify]
  rw [if_neg (Nat.not_le.2 hlength), if_pos hd]
  rfl

theorem Wrapped.ok (h : Wrapped b w r) (hd : b.diskSource = true) (hbudget : r.memloReservation + 26 ≤ 3072) :
    (validateWrapper b).run w = .ok false (w.setZp (sourceZp b w)) := by
  have halloc : w.fnrAlloc b < 3047 := by
    rw [BitVec.lt_def, h.alloc]
    change _ < 3047
    omega
  refine validateWrapper_disk hd ?_ h.length
  obtain ⟨h0, h1, h2, h3⟩ := h.magic
  simp only [wrapperBad, h0, h1, h2, h3, h.version, h.headerSize, h.zp, h.cstack, halloc]
  simpa using ⟨rfl, h.nonempty⟩

theorem measure_ok_iff : Gate.measure module linkMap = .ok r ↔
    (module.take 8 = Gate.magic ∧ 26 ≤ module.length ∧
      (Gate.field module 8, Gate.field module 12, Gate.field module 16, Gate.field module 20, Gate.field module 24) =
        (0, Gate.field module 10, Gate.field module 10 + Gate.field module 14, 0, 0) ∧
      Gate.handWritten linkMap = true) ∧
    Gate.footprint (Gate.field module 10) (Gate.field module 14) (Gate.field module 18) (Gate.field module 22) = r := by
  rw [Gate.measure]
  dsimp only
  split_ifs with hmagic hlength hsegments hmap
  · exact iff_of_false (by simp) fun h => hmagic h.1.1
  · exact iff_of_false (by simp) fun h => absurd h.1.2.1 (by omega)
  · exact iff_of_false (by simp) fun h => hsegments h.1.2.2.1
  · exact iff_of_false (by simp) fun h => by simp [h.1.2.2.2] at hmap
  · rw [Except.ok.injEq]
    exact ⟨fun h => ⟨⟨not_not.1 hmagic, by omega, not_not.1 hsegments, by simpa using hmap⟩, h⟩, fun h => h.2⟩

theorem gate_ok_iff : Gate.main module linkMap = .ok r ↔ Gate.measure module linkMap = .ok r ∧ r.total ≤ r.limit := by
  rw [Gate.main]
  cases hrun : Gate.measure module linkMap with
  | error e => exact iff_of_false (by rintro ⟨⟩) (by rintro ⟨⟨⟩, -⟩)
  | ok s =>
    change (if s.total > s.limit then throw _ else pure s : Except Gate.Failure Gate.Footprint) = _ ↔ _
    split_ifs with hover
    · refine iff_of_false (by rintro ⟨⟩) ?_
      rintro ⟨heq, hle⟩
      cases heq
      omega
    · constructor
      · rintro ⟨⟩
        exact ⟨rfl, by omega⟩
      · exact fun h => h.1

end

/-- On a file whose header the loader accepts the gate agrees exactly when the sizes add
up without a carry; a file that the gate accepts, in a wrapper made from its report, the
loader accepts. -/
theorem ram_budget (b : Build) (hasm : b.asmResident = true) (w : Ram) (module : List Byte) (hstaged : Staged b w module)
    (linkMap : List Char) (hmap : Gate.handWritten linkMap = true) :
    (Accepts b w → ((∃ r, Gate.main module linkMap = .ok r ∧ r.total = declared module + Gate.field module 22 ∧
      r.total ≤ 3072) ↔ declared module < 2 ^ 16)) ∧
    (b.diskSource = true → ∀ r, Gate.main module linkMap = .ok r → r.zeroPage = 26 → Wrapped b w r → Accepts b w) := by
  constructor
  · intro h
    obtain ⟨hwrapper, hheader⟩ := accepts_iff.1 h
    obtain ⟨hmagic, htext, hdata, hbss, halloc, hzp, hsize, hstack⟩ := (headerOk_iff hstaged).1 hheader
    obtain ⟨hzp26, hbudget⟩ := wrapper_fields hasm (((validateWrapper_wp b w).ok hwrapper).2 rfl).2.fields
    rw [hzp26] at hsize
    have hsize : Gate.field module 22 = 26 := hsize
    constructor
    · rintro ⟨r, -, htotal, hlimit⟩
      omega
    · intro hsum
      rw [Nat.mod_eq_of_lt hsum] at halloc
      have hlimit : declared module + Gate.field module 22 ≤ 3072 := by omega
      rw [declared] at hsum
      rw [Nat.mod_eq_of_lt (by omega)] at hbss
      have hmeasure := measure_ok_iff.2 ⟨⟨hmagic, hstaged.1, by rw [htext, hdata, hbss, hzp, hstack], hmap⟩, rfl⟩
      exact ⟨_, gate_ok_iff.2 ⟨hmeasure, hlimit⟩, rfl, hlimit⟩
  · intro hd r hr hzp h
    obtain ⟨hmeasure, htotal⟩ := gate_ok_iff.1 hr
    obtain ⟨⟨hmagic, -, hsegments, -⟩, rfl⟩ := measure_ok_iff.1 hmeasure
    simp only [Prod.mk.injEq] at hsegments
    obtain ⟨htext, hdata, hbss, hzpBase, hstack⟩ := hsegments
    have halloc := h.alloc
    simp only [Gate.footprint] at hzp htotal halloc
    refine accepts_iff.2 ⟨h.ok hd (by simp only [Gate.footprint]; omega), (headerOk_iff hstaged).2 ?_⟩
    refine ⟨hmagic, htext, hdata, ?_, ?_, hzpBase, ?_, hstack⟩
    · rw [hbss, Nat.mod_eq_of_lt (by omega)]
    · rw [halloc, declared, Nat.mod_eq_of_lt (by omega)]
    · rw [hzp, h.zp]
      rfl

/-- The link map of a resident of one object. -/
def residentMap : List Char :=
  "Modules list:\n-------------\nbin/fnresident-asm.o:\n    CODE              Offs=000000\n\n\nSegment list:\n".toList

/-- The first 48 bytes of a file where `disk_open_header` puts them. -/
def diskStage (file : List Byte) : Ram :=
  let w := desk [] stubInit
  w.setMem (putBytes 0x6e00 48 (fun k => file.getD k 0) w.mem)

/-- The disk build of the resident in assembly. -/
def asmBuild : Build := ⟨.disk 0x6f80, true⟩

theorem stub_budget :
    Accepts asmBuild (diskStage (stub.package 0 5 1 0)) ∧
      ∃ r, Gate.main ((stub.package 0 5 1 0).drop 22) residentMap = .ok r ∧
        r.total = declared ((stub.package 0 5 1 0).drop 22) + Gate.field ((stub.package 0 5 1 0).drop 22) 22 ∧
        r.total ≤ 3072 := by
  have hstaged : Staged asmBuild (diskStage (stub.package 0 5 1 0)) ((stub.package 0 5 1 0).drop 22) :=
    ⟨by decide +kernel, by decide +kernel⟩
  obtain ⟨hgate, hloader⟩ := ram_budget asmBuild rfl _ _ hstaged residentMap (by decide +kernel)
  have hrun : Gate.main ((stub.package 0 5 1 0).drop 22) residentMap = .ok (Gate.footprint 17 3 3 26) := by decide +kernel
  have haccepts := hloader rfl _ hrun rfl
    ⟨by decide +kernel, by decide +kernel, by decide +kernel, by decide +kernel, by decide +kernel, by decide +kernel,
      by decide +kernel, by decide +kernel⟩
  exact ⟨haccepts, (hgate haccepts).2 (by decide +kernel)⟩

/-- Text `$0100` and BSS `$FFF0`, for an allocation of `$F0`. -/
def carried : List Byte :=
  [0x46, 0x4e, 0x52, 0x31, 1, 22, 0, 0, 0, 0, 0, 0, 0, 2, 0xf0, 0, 0, 0, 0, 0, 26, 0] ++
    [1, 0, 0x6f, 0x36, 0x35, 0, 0, 8, 0, 0, 0, 1, 0, 1, 0, 0, 0, 1, 0xf0, 0xff, 0, 0, 26, 0, 0, 0]

theorem carried_accepted :
    ¬∀ (b : Build) (w : Ram) (module : List Byte) (linkMap : List Char), b.asmResident = true → Staged b w module →
      Gate.handWritten linkMap = true → Accepts b w →
      ∃ r, Gate.main module linkMap = .ok r ∧ r.total = declared module + Gate.field module 22 ∧ r.total ≤ 3072 := by
  intro h
  have haccepts : Accepts asmBuild (diskStage carried) := accepts_iff.2
    ⟨validateWrapper_disk rfl (by decide +kernel) (by decide +kernel),
      ⟨by decide +kernel, by decide +kernel, by decide +kernel, by decide +kernel, by decide +kernel, by decide +kernel,
        by decide +kernel, by decide +kernel, by decide +kernel⟩⟩
  obtain ⟨r, hr, -⟩ := h asmBuild (diskStage carried) (carried.drop 22) residentMap rfl
    ⟨by decide +kernel, by decide +kernel⟩ (by decide +kernel) haccepts
  have hrefused : Gate.main (carried.drop 22) residentMap =
      .error (.systemExit "permanent Atari resident RAM exceeds 3072 bytes") := by decide +kernel
  rw [hrefused] at hr
  cases hr

end NioApps.Loader

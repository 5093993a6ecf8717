import NioApps.Proofs.Returning
import NioApps.Sanity.Serving

/-! The streamed loader against the staged one: the same bytes, and from these the same
verdict and image as long as no store of the module leaves its allocation. -/

namespace NioApps.Loader

open Abort Image

/-- The bytes of the module behind its header. -/
def behindHeader (file : List Byte) : List Byte := (file.drop 48).take (moduleLen file - 26)

/-- The word at `k`. -/
def fileWord (file : List Byte) (k : ℕ) : Word := BitVec.ofNat 16 (le [file.getD k 0, file.getD (k + 1) 0])

/-- The module of the file stays in its allocation, at every base alike. -/
def FileBounded (file : List Byte) : Prop :=
  Bounded 0 (fileWord file 32) (fileWord file 36) (fileWord file 40) (fileWord file 14) (behindHeader file)

/-- The carry of `load_module` for this ending of its plan. -/
def Ending.carry : Ending → Option Bool
  | .done rest => some (decide (rest ≠ []))
  | .rejected => some true
  | .truncated => none

/-- The stores are to the target of `w`. -/
def InTarget (b : Build) (w : Ram) (ss : List (List (Word × Byte))) : Prop :=
  ∀ s ∈ ss, ∀ p ∈ s, p.1 - w.report.start < w.fnrAlloc b

/-- `read_byte` returns the same byte at every step in both builds, whatever was stored
to the targets before. -/
def SameBytes (b b' : Build) (w w' : Ram) : Prop :=
  ∀ ss ss', ss.length = ss'.length → InTarget b w ss → InTarget b' w' ss' →
    feedStored b ss (pastHeader w) = feedStored b' ss' (pastHeader w')

/-- At one base both leave the same image, when the module loads or the target was the
same before. -/
def SameImage (b b' : Build) (w w' : Ram) : Prop :=
  w'.report.start = w.report.start →
    (verdict ((loadModule b).run w) = some false ∨ ∀ a, a - w.report.start < w.fnrAlloc b → w.mem a = w'.mem a) →
    ∀ a, a - w.report.start < w.fnrAlloc b →
      (left ((loadModule b).run w)).mem a = (left ((loadModule b').run w')).mem a

/-- The refills of `load_module` ask for 1 to 128 bytes each, and with the 48 of
`disk_open_header` for none behind the module. -/
def RefillsWithin (b : Build) (file : List Byte) (w : Ram) : Prop :=
  ∃ es, (left ((loadModule b).run w)).log = w.log ++ es ∧ (∀ e ∈ es, e.Refill b) ∧ 48 + asked es ≤ 22 + moduleLen file

/-- `load_module` is called with the module of `file`. -/
structure Facing (b : Build) (file : List Byte) (w : Ram) : Prop where
  modulePtr : w.zp.modulePtr = b.stage + fnrHeader
  basePtr : w.zp.basePtr = w.report.start
  stage : ∀ i < 48, w.mem (b.stage + BitVec.ofNat 16 i) = file.getD i 0
  feedEnd : (w.zp.modulePtr + 26).toNat + (behindHeader file).length = w.zp.moduleEnd.toNat
  feed : feed b (pastHeader w) = behindHeader file
  placed : Placed b w.report.start (w.fnrAlloc b) (pastHeader w)

section

variable {b b' : Build} {file : List Byte} {w w' w₁ w₂ : Ram}

/-! ### The header -/

theorem Facing.field (h : Facing b file w) {k : ℕ} (hk : k < 47) :
    w.fnrField b (BitVec.ofNat 16 k) = fileWord file k := by
  have hnext : b.stage + BitVec.ofNat 16 k + 1 = b.stage + BitVec.ofNat 16 (k + 1) := by
    rw [BitVec.ofNat_add]
    exact BitVec.add_assoc ..
  rw [Ram.fnrField, wordAt, hnext, h.stage k (by omega), h.stage (k + 1) (by omega), fileWord]

theorem Facing.byte (h : Facing b file w) {k : ℕ} (hk : k < 26) : o65Byte w (BitVec.ofNat 16 k) = file.getD (22 + k) 0 := by
  have hptr : w.zp.modulePtr + BitVec.ofNat 16 k = b.stage + BitVec.ofNat 16 (22 + k) := by
    rw [h.modulePtr, BitVec.ofNat_add]
    exact BitVec.add_assoc ..
  rw [o65Byte, hptr, h.stage (22 + k) (by omega)]

theorem Facing.word (h : Facing b file w) {k : ℕ} (hk : k < 25) :
    o65Word w (BitVec.ofNat 16 k) = fileWord file (22 + k) := by
  have hnext : w.zp.modulePtr + BitVec.ofNat 16 k + 1 = w.zp.modulePtr + BitVec.ofNat 16 (k + 1) := by
    rw [BitVec.ofNat_add]
    exact BitVec.add_assoc ..
  rw [o65Word, wordAt, hnext]
  exact congrArg₂ (fun a c => BitVec.ofNat 16 (le [a, c])) (h.byte (by omega)) (h.byte (by omega))

theorem Facing.word_eq (h : Facing b file w) (h' : Facing b' file w') {k : ℕ} (hk : k < 25) :
    o65Word w' (BitVec.ofNat 16 k) = o65Word w (BitVec.ofNat 16 k) := by
  rw [h.word hk, h'.word hk]

theorem Facing.alloc_eq (h : Facing b file w) (h' : Facing b' file w') : w'.fnrAlloc b' = w.fnrAlloc b :=
  (h'.field (k := 14) (by decide)).trans (h.field (k := 14) (by decide)).symm

theorem Facing.headerOk (h : Facing b file w) (h' : Facing b' file w') (hok : HeaderOk b w) : HeaderOk b' w' := by
  have hb {k : ℕ} (hk : k < 26) : o65Byte w' (BitVec.ofNat 16 k) = o65Byte w (BitVec.ofNat 16 k) := by
    rw [h.byte hk, h'.byte hk]
  have hw {k : ℕ} (hk : k < 25) := h.word_eq h' hk
  have hzp : w'.fnrZp b' = w.fnrZp b := (h'.field (k := 20) (by decide)).trans (h.field (k := 20) (by decide)).symm
  obtain ⟨h0, h1, h2, h3, h4⟩ := hok.magic
  obtain ⟨h5, h6, h7⟩ := hok.mode
  have hdata := (hw (k := 12) (by decide)).trans (hok.dataBase.trans (hw (k := 10) (by decide)).symm)
  have hsum : o65Word w' 10 + o65Word w' 14 = o65Word w 10 + o65Word w 14 :=
    congrArg₂ (· + ·) (hw (k := 10) (by decide)) (hw (k := 14) (by decide))
  refine ⟨⟨(hb (k := 0) (by decide)).trans h0, (hb (k := 1) (by decide)).trans h1, (hb (k := 2) (by decide)).trans h2,
      (hb (k := 3) (by decide)).trans h3, (hb (k := 4) (by decide)).trans h4⟩,
    ⟨(hb (k := 5) (by decide)).trans h5, (hb (k := 6) (by decide)).trans h6, (hb (k := 7) (by decide)).trans h7⟩,
    (hw (k := 8) (by decide)).trans hok.textBase, hdata, ?_, ?_, (hw (k := 20) (by decide)).trans hok.zpBase, ?_,
    (hw (k := 24) (by decide)).trans hok.stack⟩
  · rw [hsum, ← hok.bssBase]
    exact hw (k := 16) (by decide)
  · rw [h.alloc_eq h', ← hok.alloc, hsum]
    exact congrArg (o65Word w 10 + o65Word w 14 + ·) (hw (k := 18) (by decide))
  · rw [hzp, ← hok.zpSize]
    exact hw (k := 22) (by decide)

/-! ### The run -/

theorem Facing.parsed_feed (h : Facing b file w) : Loader.feed b (parsed (w.setDetail 0x30)) = behindHeader file := by
  rw [← h.feed]
  exact Alike.feed (w := pastHeader w) ⟨rfl, rfl, rfl, rfl, rfl, rfl, fun _ _ _ _ => rfl, fun _ _ => rfl⟩ h.placed.iocb

/-- What the module asks for at the base of `w`. -/
def planAt (file : List Byte) (w : Ram) : Plan :=
  plan w.report.start (o65Word w 10) (o65Word w 14) (o65Word w 10 + o65Word w 14) (o65Word w 18) (behindHeader file)

/-- With an accepted header a bounded module is carried out as planned. -/
theorem Facing.run (h : Facing b file w) (hok : HeaderOk b w) (hin : Within (w.fnrAlloc b) (planAt file w).edits) :
    verdict ((loadModule b).run w) = (planAt file w).ending.carry ∧
      ∀ o < w.fnrAlloc b, (left ((loadModule b).run w)).image w.report.start o =
        Image.run (planAt file w).edits (w.image w.report.start) o := by
  have hplaced : Placed b w.report.start (w.fnrAlloc b) (parsed (w.setDetail 0x30)) :=
    ⟨rfl, h.placed.iocb, h.placed.staged, h.placed.disk⟩
  have hperforms := loadImage_performs hplaced h.basePtr
  rw [h.parsed_feed] at hperforms
  obtain ⟨w₂, hmoved, hends⟩ := hperforms.within hin
  have himage : ∀ o < w.fnrAlloc b, w₂.image w.report.start o = Image.run (planAt file w).edits (w.image w.report.start) o :=
    hmoved.image
  have hends : Ends b w.report.start (w.fnrAlloc b) (parsed (w.setDetail 0x30)) false true (fun _ => True) w₂
      ((loadImage b).run (parsed (w.setDetail 0x30))) (planAt file w).ending := hends
  rw [loadModule_left hok, loadModule_run hok]
  cases he : (planAt file w).ending with
  | done rest =>
    rw [he] at hends
    obtain ⟨hrun, hready⟩ := hends
    rw [hrun]
    refine ⟨?_, himage⟩
    have hend := hready.feedEnd
    rw [Loader.feedEnd, Loader.feedEnd, hready.feed, h.parsed_feed] at hend
    have hmodule : w₂.zp.moduleEnd = w.zp.moduleEnd := congrArg Frame.moduleEnd hmoved.frame
    have hstart : w.zp.modulePtr + 26 + BitVec.ofNat 16 (behindHeader file).length = w.zp.moduleEnd := by
      have := h.feedEnd
      bv_omega
    have hlast : w₂.zp.srcPtr + BitVec.ofNat 16 rest.length = w₂.zp.moduleEnd := by
      rw [hend, hmodule]
      exact hstart
    have hlen : rest.length < 2 ^ 16 := by
      have hle := length_feedN b (unread w₂) w₂
      have heq : feedN b (unread w₂) w₂ = rest := hready.feed
      have hlt := w₂.zp.moduleEnd.isLt
      rw [heq, unread] at hle
      omega
    have hiff : w₂.zp.srcPtr ≠ w₂.zp.moduleEnd ↔ rest ≠ [] := by
      rw [not_iff_not, ← hlast, ← List.length_eq_zero_iff]
      constructor
      · intro heq
        bv_omega
      · intro heq
        rw [heq]
        exact (BitVec.add_zero _).symm
    exact congrArg some (decide_eq_decide.2 hiff)
  | rejected =>
    rw [he, Ends] at hends
    rw [hends]
    exact ⟨rfl, himage⟩
  | truncated =>
    rw [he] at hends
    rw [hends.1]
    exact ⟨rfl, himage⟩

theorem Facing.refused (hok : ¬HeaderOk b w) :
    verdict ((loadModule b).run w) = some true ∧ (left ((loadModule b).run w)).mem = w.mem ∧
      (left ((loadModule b).run w)).log = w.log := by
  obtain ⟨t, d, i, s, hrun⟩ := loadModule_bad hok
  rw [hrun]
  exact ⟨rfl, rfl, rfl⟩

/-! ### The two sources -/

theorem length_behindHeader (hwhole : Whole file) : (behindHeader file).length = moduleLen file - 26 := by
  have hheader := hwhole.header
  have hlength := hwhole.length
  rw [behindHeader, List.length_take, List.length_drop]
  omega

theorem getD_behindHeader {i : ℕ} (hi : i < moduleLen file - 26) : (behindHeader file).getD i 0 = file.getD (48 + i) 0 := by
  rw [behindHeader, List.getD_eq_getElem?_getD, List.getElem?_take_of_lt hi, List.getElem?_drop, List.getD_eq_getElem?_getD]

/-- What the placement leaves, with the first 48 bytes in the stage. -/
theorem Prepared.facing (h : Prepared b w w₁) (hb : b.Laid) (hmemlo : b.diskSource = true → 0x0400 ≤ w₁.report.start)
    (hwhole : Whole file) (hstage : ∀ i < 48, w₁.mem (b.stage + BitVec.ofNat 16 i) = file.getD i 0)
    (hfeed : (pastHeader w₁).zp.srcPtr.toNat + (behindHeader file).length = w₁.zp.moduleEnd.toNat →
      feed b (pastHeader w₁) = behindHeader file) : Facing b file w₁ := by
  have hplaced := h.placed hb hmemlo
  have hlen : (w₁.fnrModuleLen b).toNat = moduleLen file := by
    have hnext : b.stage + 12 + 1 = b.stage + BitVec.ofNat 16 13 := BitVec.add_assoc ..
    rw [Ram.fnrModuleLen, Ram.fnrField, wordAt_toNat, hnext, hstage 13 (by decide)]
    have h12 : w₁.mem (b.stage + 12) = file.getD 12 0 := hstage 12 (by decide)
    rw [h12, moduleLen]
    simp
  have hend : (w₁.zp.modulePtr + 26).toNat + (behindHeader file).length = w₁.zp.moduleEnd.toNat := by
    have hheader := hwhole.header
    have hlength := h.wrapper.length
    rw [length_behindHeader hwhole, h.modulePtr, h.moduleEnd]
    bv_omega
  exact ⟨h.modulePtr, h.ranges.basePtr, hstage, hend, hfeed hend, rfl, hplaced.iocb, hplaced.staged, hplaced.disk⟩

theorem facing_staged (hs : b.diskSource = false) (hwhole : Whole file) (hin : InStage b w file)
    (h : (beforeLoad b).run w = .ok () w₁) : Facing b file w₁ := by
  have hprep := (beforeLoad_wp b w).ok h
  have hmem := beforeLoad_staged hs h
  have hheader := hwhole.header
  have hb : b.Laid := by
    obtain ⟨source, asm⟩ := b
    cases source with
    | staged => exact trivial
    | disk name => cases hs
    | sdxChild => cases hs
  refine hprep.facing hb (by simp [hs]) hwhole (fun i hi => ?_) fun hlength => feed_staged hs hlength fun i hi => ?_
  · rw [hmem]
    exact hin i (by omega)
  · rw [length_behindHeader hwhole] at hi
    have hsrc : (pastHeader w₁).zp.srcPtr + BitVec.ofNat 16 i = b.stage + BitVec.ofNat 16 (48 + i) := by
      change w₁.zp.modulePtr + 26 + BitVec.ofNat 16 i = _
      rw [hprep.modulePtr, BitVec.ofNat_add, BitVec.add_assoc, BitVec.add_assoc]
      exact congrArg (b.stage + ·) (BitVec.add_assoc fnrHeader 26 (BitVec.ofNat 16 i)).symm
    rw [hsrc, getD_behindHeader hi]
    change w₁.mem _ = _
    rw [hmem]
    exact hin _ (by omega)

theorem facing_disk (hd : b.diskSource = true) (hb : b.Ordered) (hwhole : Whole file) (hserved : Served b w w₁ file)
    (h : (beforeLoad b).run w = .ok () w₁) (hmemlo : 0x0400 ≤ w₁.report.start) : Facing b file w₁ := by
  have hprep := (beforeLoad_wp b w).ok h
  have hopened := beforeLoad_opened hb hd h
  obtain ⟨es, hlog, hdelivered⟩ := hserved
  obtain ⟨x, p, n, hlog₁⟩ := hopened.log
  obtain ⟨fs, hgrow, -⟩ := readN_log b (unread (pastHeader w₁)) (pastHeader w₁)
  obtain rfl : es = .cio 3 x p n :: .cio 7 x b.stage 48 :: fs := by
    have hboth : w.log ++ es = w.log ++ (.cio 3 x p n :: .cio 7 x b.stage 48 :: fs) := by
      rw [← hlog, hgrow]
      change w₁.log ++ fs = _
      rw [hlog₁, List.append_assoc]
      rfl
    exact List.append_cancel_left hboth
  rw [delivered, if_neg (by decide), delivered, if_pos rfl, Bool.and_eq_true, Bool.and_eq_true, beq_iff_eq] at hdelivered
  obtain ⟨⟨-, hfirst⟩, hrest⟩ := hdelivered
  have hfirst : slice (w.cioResults 1).data 0 48 = file.take 48 := hfirst
  refine hprep.facing hb.1 (fun _ => hmemlo) hwhole (fun i hi => ?_) fun hlength => ?_
  · have hbyte := congrArg (fun l => l[i]?) hfirst
    simp only [getElem?_slice _ _ _ _ hi, Nat.zero_add, List.getElem?_take_of_lt hi] at hbyte
    rw [hopened.stage i hi, List.getD_eq_getElem?_getD, ← hbyte]
    rfl
  · have hserving : Serving b file (pastHeader w₁) (behindHeader file) := by
      refine ⟨48, fs, hgrow, ?_, ?_⟩
      · change delivered file 48 w₁.cioResults fs = true
        rw [hopened.results]
        exact hrest
      · rw [length_behindHeader hwhole, behindHeader]
    exact hserving.feed_eq hd hb.1 hprep.iocb hopened.empty hlength

/-! ### Reading -/

theorem storeAll_other {s : List (Word × Byte)} {a : Word} (h : ∀ p ∈ s, p.1 ≠ a) (w : Ram) : (storeAll s w).mem a = w.mem a := by
  have hfold (mem : Word → Byte) : s.foldl (fun mem p => Function.update mem p.1 p.2) mem a = mem a := by
    induction s generalizing mem with
    | nil => rfl
    | cons p s ih =>
      rw [List.foldl_cons, ih (fun q hq => h q (List.mem_cons_of_mem p hq))]
      exact Function.update_of_ne (h p List.mem_cons_self).symm ..
  exact hfold w.mem

/-- Stores to the target do not change what is read. -/
theorem feedStored_eq {S A : Word} (hp : Placed b S A w) {ss : List (List (Word × Byte))}
    (hss : ∀ s ∈ ss, ∀ p ∈ s, p.1 - S < A) : feedStored b ss w = (feed b w).take ss.length := by
  induction ss generalizing w with
  | nil => rfl
  | cons s ss ih =>
    have hother (a : Word) (ha : ¬a - S < A) : (storeAll s w).mem a = w.mem a := by
      refine storeAll_other (fun p hp heq => ha ?_) w
      rw [← heq]
      exact hss s List.mem_cons_self p hp
    have halike : Alike b w (storeAll s w) := by
      refine ⟨rfl, rfl, rfl, rfl, rfl, rfl, fun hs a hle hlt => hother a fun hin => ?_, fun a hio => hother a fun hin => ?_⟩
      · exact hp.staged hs a hin ⟨hle, hlt⟩
      · exact hp.disk a hin hio
    have hplaced : Placed b S A (storeAll s w) := ⟨hp.start, hp.iocb, hp.staged, hp.disk⟩
    rw [feedStored, ← halike.feed hp.iocb, List.length_cons]
    rcases readByte_spec hplaced with ⟨a, bs, w', hrun, hfeed, hfeed', -, hp', -⟩ | ⟨w', hrun, hfeed, -, -⟩
    · rw [hrun, hfeed, List.take_succ_cons, ← hfeed']
      exact congrArg (a :: ·) (ih hp' fun s' hs' => hss s' (List.mem_cons_of_mem s hs'))
    · rw [hrun, hfeed]
      rfl

theorem Facing.sameBytes (h : Facing b file w) (h' : Facing b' file w') : SameBytes b b' w w' := by
  intro ss ss' hlen hss hss'
  rw [feedStored_eq h.placed hss, feedStored_eq h'.placed hss', h.feed, h'.feed, hlen]

/-- Every refill stays in the file, whatever the module does. -/
theorem Facing.refills (h : Facing b file w) (hd : b.diskSource = true) (hwhole : Whole file)
    (hempty : w.diskIndex = w.diskCount) : RefillsWithin b file w := by
  have hheader := hwhole.header
  by_cases hok : HeaderOk b w
  · obtain ⟨es, hlog, hmodule, hasks⟩ := (asks_carried hd).loadImage (parsed (w.setDetail 0x30))
    have hfetched : (parsed (w.setDetail 0x30)).fetched = (w.zp.modulePtr + 26).toNat := by
      change (w.zp.modulePtr + 26).toNat + (w.diskCount.toNat - w.diskIndex.toNat) = _
      rw [hempty, Nat.sub_self, Nat.add_zero]
    have hend := h.feedEnd
    rw [length_behindHeader hwhole] at hend
    have hlevel : Level (parsed (w.setDetail 0x30)) := by
      refine ⟨(congrArg BitVec.toNat hempty).le, ?_⟩
      rw [hfetched]
      change _ ≤ w.zp.moduleEnd.toNat
      omega
    obtain ⟨hlevel', hsum, hes⟩ := hasks hlevel
    refine ⟨es, ?_, hes, ?_⟩
    · rw [loadModule_left hok, hlog]
      rfl
    · have hle := hlevel'.fetched
      rw [hsum, hfetched, hmodule] at hle
      change _ ≤ w.zp.moduleEnd.toNat at hle
      omega
  · obtain ⟨-, -, hlog⟩ := Facing.refused (b := b) hok
    exact ⟨[], by rw [hlog, List.append_nil], by simp, by simp [asked]; omega⟩

/-! ### The same module twice -/

theorem Facing.within (h : Facing b file w) (hok : HeaderOk b w) (hbounded : FileBounded file) :
    Within (w.fnrAlloc b) (planAt file w).edits := by
  have htext : o65Word w 10 = fileWord file 32 := h.word (k := 10) (by decide)
  have hdata : o65Word w 14 = fileWord file 36 := h.word (k := 14) (by decide)
  have hbss : o65Word w 18 = fileWord file 40 := h.word (k := 18) (by decide)
  have halloc : w.fnrAlloc b = fileWord file 14 := h.field (k := 14) (by decide)
  have hsum := hok.alloc
  rw [htext, hdata, hbss, halloc] at hsum
  have hin := (within_plan_iff hsum).2 hbounded
  rw [planAt, htext, hdata, hbss, halloc, Within, (plan_alike _ 0 ..).offsets]
  exact hin

theorem Facing.planAt_words (h : Facing b file w) (h' : Facing b' file w') :
    planAt file w' = plan w'.report.start (o65Word w 10) (o65Word w 14) (o65Word w 10 + o65Word w 14) (o65Word w 18)
      (behindHeader file) := by
  have htext : o65Word w' 10 = o65Word w 10 := h.word_eq h' (k := 10) (by decide)
  have hdata : o65Word w' 14 = o65Word w 14 := h.word_eq h' (k := 14) (by decide)
  have hbss : o65Word w' 18 = o65Word w 18 := h.word_eq h' (k := 18) (by decide)
  rw [planAt, htext, hdata, hbss]

theorem Facing.planAt_alike (h : Facing b file w) (h' : Facing b' file w') : (planAt file w').Alike (planAt file w) := by
  rw [h.planAt_words h']
  exact plan_alike ..

/-- A module that is read to its end stores every byte of its allocation. -/
theorem plan_covers {start text data bss alloc : Word} {bs rest : List Byte} (halloc : text + data + bss = alloc)
    (hin : Within alloc (plan start text data (text + data) bss bs).edits)
    (hend : (plan start text data (text + data) bss bs).ending = .done rest) (f g : Word → Byte) :
    ∀ o < alloc, Image.run (plan start text data (text + data) bss bs).edits f o =
      Image.run (plan start text data (text + data) bss bs).edits g o := by
  rw [plan, Plan.andThen, Plan.stop_ending] at hin hend ⊢
  cases hopt : options 0 bs with
  | rejected => simp [hopt] at hend
  | truncated => simp [hopt] at hend
  | done bs₁ =>
    simp only [hopt, Plan.stop_edits, List.nil_append] at hin hend ⊢
    rw [segments] at hin hend ⊢
    split_ifs at hin hend ⊢ with hlen
    · cases hend
    · simp only [Plan.andThen] at hin ⊢
      obtain ⟨hputs, htables⟩ := within_append.1 hin
      have hle := within_puts.1 hputs
      have hsum : alloc.toNat = ((text + data).toNat + bss.toNat) % 2 ^ 16 := by rw [← halloc, BitVec.toNat_add]
      have hinit := (text + data).isLt
      have hbss := bss.isLt
      have hmax := alloc.isLt
      have htake : (bs₁.take (text + data).toNat).length = (text + data).toNat := List.length_take_of_le (Nat.not_lt.1 hlen)
      rw [List.length_append, htake, List.length_replicate] at hle
      have hfull : (bs₁.take (text + data).toNat ++ List.replicate bss.toNat 0).length = alloc.toNat := by
        rw [List.length_append, htake, List.length_replicate]
        omega
      intro o ho
      rw [Image.run_append, Image.run_append]
      refine run_congr htables (fun o ho => ?_) o ho
      have hi : o.toNat < (bs₁.take (text + data).toNat ++ List.replicate bss.toNat (0 : Byte)).length := by
        rw [hfull]
        exact ho
      have ho' : o = BitVec.ofNat 16 o.toNat := by simp
      rw [ho', run_puts (by omega) hi, run_puts (by omega) hi]

theorem Facing.agree (h : Facing b file w) (h' : Facing b' file w') (hbounded : HeaderOk b w → FileBounded file) :
    verdict ((loadModule b).run w) = verdict ((loadModule b').run w') ∧ SameImage b b' w w' := by
  by_cases hok : HeaderOk b w
  · have hin := h.within hok (hbounded hok)
    have halike := h.planAt_alike h'
    have halloc := h.alloc_eq h'
    have hin' : Within (w'.fnrAlloc b') (planAt file w').edits := by
      rw [Within, halike.offsets, halloc]
      exact hin
    obtain ⟨hverdict, himage⟩ := h.run hok hin
    obtain ⟨hverdict', himage'⟩ := h'.run (h.headerOk h' hok) hin'
    refine ⟨by rw [hverdict, hverdict', halike.ending], fun hstart hcase a ha => ?_⟩
    rw [h.planAt_words h', halloc, hstart] at himage'
    rw [mem_image w.report.start _ a, mem_image w.report.start _ a, himage _ ha, himage' _ ha]
    rcases hcase with hloaded | hsame
    · rw [hverdict] at hloaded
      cases hend : (planAt file w).ending with
      | done rest => exact plan_covers hok.alloc hin hend _ _ _ ha
      | rejected =>
        rw [hend] at hloaded
        cases hloaded
      | truncated =>
        rw [hend] at hloaded
        cases hloaded
    · refine run_congr hin (fun o ho => hsame _ ?_) _ ha
      have hoff : w.report.start + o - w.report.start = o := by bv_omega
      rwa [hoff]
  · obtain ⟨hverdict, hmem, -⟩ := Facing.refused (b := b) hok
    obtain ⟨hverdict', hmem', -⟩ := Facing.refused (b := b') fun hok' => hok (h'.headerOk h hok')
    refine ⟨by rw [hverdict, hverdict'], fun _ hcase a ha => ?_⟩
    rcases hcase with hloaded | hsame
    · rw [hverdict] at hloaded
      cases hloaded
    · rw [hmem, hmem', hsame a ha]

end

/-- Reading agrees and the refills stay in the file for every module; verdict and image
agree for those that stay in their allocation. -/
theorem sources_agree (bs bd : Build) (hs : bs.diskSource = false) (hd : bd.diskSource = true) (hb : bd.Ordered)
    (file : List Byte) (hwhole : Whole file) (ws ws₁ wd wd₁ : Ram) (hstaged : InStage bs ws file)
    (hrun : (beforeLoad bs).run ws = .ok () ws₁) (hserved : Served bd wd wd₁ file)
    (hrun' : (beforeLoad bd).run wd = .ok () wd₁) (hmemlo : 0x0400 ≤ wd₁.report.start) :
    SameBytes bs bd ws₁ wd₁ ∧ RefillsWithin bd file wd₁ ∧
      ((HeaderOk bs ws₁ → FileBounded file) → verdict ((loadModule bs).run ws₁) = verdict ((loadModule bd).run wd₁) ∧
        SameImage bs bd ws₁ wd₁) := by
  have h := facing_staged hs hwhole hstaged hrun
  have h' := facing_disk hd hb hwhole hserved hrun' hmemlo
  exact ⟨h.sameBytes h', h'.refills hd hwhole (beforeLoad_opened hb hd hrun').empty, h.agree h'⟩

/-- The file is delivered when every byte of the module is asked for. -/
theorem served_of_log {b : Build} {w w₁ : Ram} {file : List Byte} (hlog : w.log = [])
    (h : delivered file 0 w.cioResults (readN b (unread (pastHeader w₁)) (pastHeader w₁)).log = true) : Served b w w₁ file :=
  ⟨_, by rw [hlog, List.nil_append], h⟩

theorem stub_agrees :
    SameBytes stagedBuild diskBuild stubLoad stubDisk ∧ RefillsWithin diskBuild (stub.package 0 5 1 0) stubDisk ∧
      verdict ((loadModule stagedBuild).run stubLoad) = verdict ((loadModule diskBuild).run stubDisk) ∧
        SameImage stagedBuild diskBuild stubLoad stubDisk := by
  have hserved : Served diskBuild (diskDesk (stub.package 0 5 1 0)) stubDisk (stub.package 0 5 1 0) :=
    served_of_log rfl (by decide +kernel)
  have hplain : Unwrapped 0 (fileWord (stub.package 0 5 1 0) 32) (fileWord (stub.package 0 5 1 0) 36)
      (fileWord (stub.package 0 5 1 0) 40) (behindHeader (stub.package 0 5 1 0)) := by
    have hoptions : options 0 (behindHeader (stub.package 0 5 1 0)) =
        .done ((behindHeader (stub.package 0 5 1 0)).drop 4) := by decide +kernel
    exact .of_all (by decide +kernel) hoptions (by decide +kernel)
  obtain ⟨hbytes, hrefills, hagree⟩ := sources_agree stagedBuild diskBuild rfl rfl disk_ordered (stub.package 0 5 1 0)
    ⟨by decide +kernel, by decide +kernel⟩ (desk (stub.package 0 5 1 0) stubInit) stubLoad (diskDesk (stub.package 0 5 1 0))
    stubDisk (by decide +kernel) stubLoad_run hserved stubDisk_run (by decide +kernel)
  exact ⟨hbytes, hrefills, hagree fun _ => hplain.bounded⟩

/-- Text `$8000` and data `$8010` for an allocation of `$10`, and a LOW record at offset
`$296E` of TEXT. With the image at `$2000` this is the byte of the staged file that comes
after the record. -/
def overtaking : List Byte :=
  [0x46, 0x4e, 0x52, 0x31, 1, 22, 0, 0, 0, 0, 0, 0, 92, 0, 0x10, 0, 0, 0, 0, 0, 26, 0] ++
    [1, 0, 0x6f, 0x36, 0x35, 0, 0, 8, 0, 0, 0, 0x80, 0, 0x80, 0x10, 0x80, 0x10, 0, 0, 0, 0, 0, 26, 0, 0, 0] ++
    0 :: List.replicate 16 0xea ++ [0, 0] ++ List.replicate 41 0xff ++ [193, 0x25, 0, 0, 0, 0]

theorem verdicts_differ :
    ¬∀ (bs bd : Build) (file : List Byte) (ws ws₁ wd wd₁ : Ram), bs.diskSource = false → bd.diskSource = true →
      bd.Ordered → Whole file → InStage bs ws file → (beforeLoad bs).run ws = .ok () ws₁ → Served bd wd wd₁ file →
      (beforeLoad bd).run wd = .ok () wd₁ → 0x0400 ≤ wd₁.report.start →
      verdict ((loadModule bs).run ws₁) = verdict ((loadModule bd).run wd₁) := by
  intro h
  have hstaged : (beforeLoad stagedBuild).run (desk overtaking stubInit) =
      .ok () (left ((beforeLoad stagedBuild).run (desk overtaking stubInit))) := eq_ok_left (by decide +kernel)
  have hdisk : (beforeLoad diskBuild).run (diskDesk overtaking) =
      .ok () (left ((beforeLoad diskBuild).run (diskDesk overtaking))) := eq_ok_left (by decide +kernel)
  have hsame := h stagedBuild diskBuild overtaking _ _ _ _ rfl rfl disk_ordered ⟨by decide +kernel, by decide +kernel⟩
    (by decide +kernel) hstaged (served_of_log rfl (by decide +kernel)) hdisk (by decide +kernel)
  have hrefused : verdict ((loadModule stagedBuild).run (left ((beforeLoad stagedBuild).run (desk overtaking stubInit)))) =
      some true := by decide +kernel
  have hloaded : verdict ((loadModule diskBuild).run (left ((beforeLoad diskBuild).run (diskDesk overtaking)))) =
      some false := by decide +kernel
  rw [hrefused, hloaded] at hsame
  cases hsame

end NioApps.Loader

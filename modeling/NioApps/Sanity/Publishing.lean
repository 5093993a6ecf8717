import NioApps.Sanity.Installing

/-! HATABS and MEMLO along a run of `_main` without SDX child: nothing but the
publication changes them. -/

namespace NioApps.Loader

open Abort

/-- In the SDX child the code begins above the scratch area of the parent, and `stage_buf`
is between it and `disk_buf`. -/
def Build.Ordered (b : Build) : Prop :=
  b.Laid ∧
    match b.source with
    | .sdxChild main stageBuf diskBuf _ _ => 0x0700 ≤ main ∧ main ≤ stageBuf ∧ stageBuf.toNat + 48 ≤ diskBuf.toNat
    | _ => True

/-- HATABS and MEMLO. -/
def Guarded (a : Word) : Prop := a - hatabs < 38 ∨ a - memlo < 2

/-- The module of the file, once its header was accepted, has no sum that wraps. -/
def Plain (b : Build) (w : Ram) : Prop :=
  ∀ w₁, (beforeLoad b).run w = .ok () w₁ → HeaderOk b w₁ →
    Unwrapped w₁.report.start (o65Word w₁ 10) (o65Word w₁ 14) (o65Word w₁ 18) (feed b (parsed w₁))

/-- The init entry leaves HATABS and MEMLO alone. -/
def Discreet (f : (Word → Byte) → InitResult) : Prop := ∀ mem a, Guarded a → (f mem).mem a = mem a

section

variable {b : Build} {w w₁ w₂ : Ram} {a : Word}

theorem Build.ordered_of_sdx (hb : b.sdxChild = false) : b.Ordered := by
  obtain ⟨source, asm⟩ := b
  cases source with
  | staged => exact ⟨trivial, trivial⟩
  | disk name => exact ⟨trivial, trivial⟩
  | sdxChild => cases hb

theorem Guarded.low {a : Word} (ha : Guarded a) : a.toNat < 0x0340 := by
  have hhat : hatabs.toNat = 0x031a := rfl
  have hmemlo : memlo.toNat = 0x02e7 := rfl
  rcases ha with ha | ha <;> bv_omega

/-- The stage and the read buffer are above the program area's start. -/
theorem Build.Ordered.high (hb : b.Ordered) (hd : b.diskSource = true) :
    (0x0700 ≤ b.stage.toNat ∧ b.stage.toNat + 48 ≤ 2 ^ 16) ∧ 0x0700 ≤ b.diskBuffer.toNat ∧
      b.diskBuffer.toNat + 0x0100 ≤ 2 ^ 16 := by
  obtain ⟨source, asm⟩ := b
  cases source with
  | staged => cases hd
  | disk name =>
    have hdisk : (0x0700 ≤ (0x6e00 : Word).toNat ∧ (0x6e00 : Word).toNat + 48 ≤ 2 ^ 16) ∧ 0x0700 ≤ (0x6f00 : Word).toNat ∧
        (0x6f00 : Word).toNat + 0x0100 ≤ 2 ^ 16 := by decide
    exact hdisk
  | sdxChild main stageBuf diskBuf name expected =>
    obtain ⟨⟨-, hmain, htop⟩, hpage, hstage, hbuf⟩ := hb
    have h7 : (0x0700 : Word).toNat = 0x0700 := rfl
    simp only [BitVec.le_def] at hmain hpage hstage
    have hchild : (0x0700 ≤ stageBuf.toNat ∧ stageBuf.toNat + 48 ≤ 2 ^ 16) ∧ 0x0700 ≤ diskBuf.toNat ∧
        diskBuf.toNat + 0x0100 ≤ 2 ^ 16 := by omega
    exact hchild

theorem not_sub_lt {base n : Word} (ha : a < base) (hn : base.toNat + n.toNat ≤ 2 ^ 16) : ¬a - base < n := by
  bv_omega

/-- The loader uses nothing below the IOCBs, and nothing between them and the program area. -/
theorem Build.Ordered.not_scratch (hb : b.Ordered) (ha : a.toNat < 0x0340 ∨ 0x03c0 ≤ a.toNat ∧ a.toNat < 0x0700) :
    ¬b.Scratch a := by
  have hlow : a.toNat < 0x0700 := by omega
  rintro (⟨hd, hin | hin⟩ | ⟨hd, hin⟩)
  · obtain ⟨-, hbuffer, hend⟩ := hb.high hd
    exact not_sub_lt (BitVec.lt_def.2 (by omega)) hend hin
  · bv_omega
  · obtain ⟨⟨hstage, hend⟩, -⟩ := hb.high hd
    exact not_sub_lt (BitVec.lt_def.2 (by omega)) hend hin

/-- Where the free memory of a build begins. -/
def Build.baseAt (b : Build) : Word := if b.sdxChild then 0x06a4 else memlo

theorem alignedBase_ge {c : Word} (hc : c ≤ wordAt w.mem b.baseAt) (hhigh : wordAt w.mem b.baseAt ≤ 0xfffe) :
    c ≤ alignedBase b w := by
  change c ≤ if wordAt w.mem b.baseAt &&& 1 = 0 then wordAt w.mem b.baseAt else wordAt w.mem b.baseAt + 1
  split_ifs with heven
  · exact hc
  · bv_omega

theorem Prepared.guarded (h : Prepared b w w₁) (hb : b.Ordered) (ha : Guarded a) : w₁.mem a = w.mem a :=
  h.kept.mem a (hb.not_scratch (.inl ha.low))

theorem Prepared.base_eq (h : Prepared b w w₁) (hb : b.Ordered) : wordAt w₁.mem b.baseAt = wordAt w.mem b.baseAt := by
  have hbase : b.baseAt = 0x06a4 ∨ b.baseAt = memlo := by
    rw [Build.baseAt]
    split_ifs
    · exact .inl rfl
    · exact .inr rfl
  rcases hbase with hbase | hbase <;> rw [hbase]
  · exact wordAt_congr (h.kept.mem _ (hb.not_scratch (.inr (by decide)))) (h.kept.mem _ (hb.not_scratch (.inr (by decide))))
  · exact wordAt_congr (h.guarded hb (.inr (by decide))) (h.guarded hb (.inr (by decide)))

theorem Prepared.base_ge (h : Prepared b w w₁) (hb : b.Ordered) (hlow : 0x0400 ≤ wordAt w.mem b.baseAt)
    (hhigh : wordAt w.mem b.baseAt ≤ 0xfffe) : 0x0400 ≤ w₁.report.start := by
  rw [← h.base_eq hb] at hlow hhigh
  rw [h.ranges.start]
  exact alignedBase_ge hlow hhigh

theorem Build.baseAt_of_sdx (hb : b.sdxChild = false) : b.baseAt = memlo := by
  rw [baseAt, hb]
  rfl

theorem Prepared.start_ge (h : Prepared b w w₁) (hb : b.sdxChild = false) (hlow : 0x0400 ≤ wordAt w.mem memlo)
    (hhigh : wordAt w.mem memlo ≤ 0xfffe) : 0x0400 ≤ w₁.report.start := by
  rw [← Build.baseAt_of_sdx hb] at hlow hhigh
  exact h.base_ge (Build.ordered_of_sdx hb) hlow hhigh

theorem Prepared.fit (h : Prepared b w w₁) :
    w₁.report.start.toNat + (w₁.fnrAlloc b).toNat ≤ w₁.report.stop.toNat := by
  have hstop := h.ranges.stop
  omega

theorem Loaded.guarded (h : Loaded b w₁ w₂) (hp : Prepared b w w₁) (hb : b.Ordered)
    (hstart : 0x0400 ≤ w₁.report.start) (ha : Guarded a) : w₂.mem a = w₁.mem a := by
  refine h.mem a ?_ fun hio => hb.not_scratch (.inl ha.low) (.inl hio)
  have hfit := hp.fit
  have hstop := w₁.report.stop.isLt
  have hlow := ha.low
  bv_omega

/-- `finish` changes the IOCB, and what the parent of an SDX child reads. -/
theorem finish_other (hx : b.diskSource = true → w.diskIocb ≤ 0x70 ∨ w.diskIocb = 0xff) (ha : ¬a - 0x0340 < 0x80)
    (hshare : b.sdxChild = true → ¬a - 0x06b0 < 40) : (finish b w).mem a = w.mem a := by
  rw [(finish_spec b w).2.2, finishedMem, if_neg]
  · split_ifs with hb
    · exact if_neg (hshare hb)
    · rfl
  · rintro ⟨hd, hmsb, hin⟩
    rcases hx hd with hle | heq
    · exact ha (by bv_omega)
    · rw [heq] at hmsb
      exact absurd hmsb (by decide)

theorem finish_log (b : Build) (w : Ram) :
    ∃ es, (finish b w).log = w.log ++ es ∧ ∀ e ∈ es, ∃ c x p n, e = .cio c x p n := by
  have hshare : (if b.sdxChild = true then share w else w).log = w.log := by split_ifs <;> rfl
  simp only [finish]
  generalize (if b.sdxChild = true then share w else w) = v at hshare
  by_cases hd : b.diskSource = true
  · rw [if_pos hd, diskClose_run]
    split_ifs
    · exact ⟨[], hshare.trans (List.append_nil _).symm, by simp⟩
    · obtain ⟨e, hlog, hcio⟩ : ∃ e, (cioDone 12 v).log = v.log ++ [e] ∧ ∃ c x p n, e = .cio c x p n :=
        ⟨_, rfl, _, _, _, _, rfl⟩
      refine ⟨[e], ?_, fun f hf => List.mem_singleton.1 hf ▸ hcio⟩
      rw [← hshare, ← hlog]
      rfl
  · rw [if_neg hd]
    exact ⟨[], hshare.trans (List.append_nil _).symm, by simp⟩

theorem Guarded.finish (ha : Guarded a) (hx : b.diskSource = true → w.diskIocb ≤ 0x70 ∨ w.diskIocb = 0xff) :
    (finish b w).mem a = w.mem a := by
  have hlow := ha.low
  exact finish_other hx (by bv_omega) fun _ => by bv_omega

/-- The course of a run in which no sum of the module wraps. -/
theorem Plain.course (h : Plain b w) (hb : b.Ordered) (hlow : 0x0400 ≤ wordAt w.mem b.baseAt)
    (hhigh : wordAt w.mem b.baseAt ≤ 0xfffe) : Course b w (left ((body b).run w)) :=
  body_course b hb.1 w fun w₁ hp hrun =>
    ⟨fun _ => hp.base_ge hb hlow hhigh, fun hok => (h w₁ hrun hok).bounded⟩

/-! ### The entry -/

/-- HATABS entry `i`. -/
def hatEntry (i : ℕ) : Word := hatabs + BitVec.ofNat 16 (3 * i)

theorem FreeSlot.entry {mem : Word → Byte} {x : Byte} (h : FreeSlot mem x) :
    ∃ i < 11, hatabs + x.setWidth 16 = hatEntry i ∧ hatName mem i = 0 ∧
      ∀ j < i, hatName mem j ≠ 0 ∧ hatName mem j ≠ 0x4e := by
  obtain ⟨i, hi, rfl, hfree, hseen⟩ := h
  refine ⟨i, hi, ?_, hfree, hseen⟩
  rw [hatEntry, offset_width hi]

theorem publishedMem_eq {x : Byte} {table stop : Word} {mem : Word → Byte} {i : ℕ} (hb : b.sdxChild = false)
    (hx : hatabs + x.setWidth 16 = hatEntry i) (a : Word) :
    publishedMem b x table stop mem a =
      if a = memlo + 1 then hi stop
      else if a = memlo then lo stop
      else if a = hatEntry i then 0x4e
      else if a = hatEntry i + 2 then hi table
      else if a = hatEntry i + 1 then lo table
      else mem a := by
  simp only [publishedMem, hb, Bool.false_eq_true, if_false, hx, Function.update_apply]

theorem hatEntry_toNat {i : ℕ} (hi : i < 11) : (hatEntry i).toNat = 0x031a + 3 * i := by
  rw [hatEntry, hatabs]
  bv_omega

theorem hatEntry_in {i : ℕ} (hi : i < 11) {a : Word} (ha : a - hatEntry i < 3) : a - hatabs < 38 := by
  have hentry := hatEntry_toNat hi
  have hhat : hatabs.toNat = 0x031a := rfl
  have h3 : (3 : Word).toNat = 3 := rfl
  have h38 : (38 : Word).toNat = 38 := rfl
  rw [sub_lt_iff (by omega), h3] at ha
  rw [sub_lt_iff (by omega), h38]
  omega

theorem hatName_guarded {i : ℕ} (hi : i < 11) : Guarded (hatabs + BitVec.ofNat 16 (3 * i)) :=
  .inl (hatEntry_in hi (by simp [hatEntry]))

theorem hatEntry_low {i : ℕ} (hi : i < 11) {k : Word} (hk : k < 3) : (hatEntry i + k).toNat < 0x0340 := by
  have hoff : hatEntry i + k - hatEntry i = k := by bv_omega
  exact Guarded.low (.inl (hatEntry_in hi (by rwa [hoff])))

theorem hatEntry_ne {i j : ℕ} (hlt : i < 11) (hj : j < 11) (h : j ≠ i) {k : Word} (hk : k < 3) :
    hatEntry j ≠ hatEntry i + k := by
  have hk' : k.toNat < 3 := hk
  intro heq
  have hnat := congrArg BitVec.toNat heq
  rw [BitVec.toNat_add, hatEntry_toNat hlt, hatEntry_toNat hj, Nat.mod_eq_of_lt (by omega)] at hnat
  omega

theorem hat_not_memlo {a : Word} (ha : a - hatabs < 38) : ¬a - memlo < 2 := by
  have hhat : hatabs.toNat = 0x031a := rfl
  have hmemlo : memlo.toNat = 0x02e7 := rfl
  bv_omega

/-- The publication changes the entry and MEMLO. -/
theorem publishedMem_other {x : Byte} {table stop : Word} {mem : Word → Byte} {i : ℕ}
    (hx : hatabs + x.setWidth 16 = hatEntry i) {a : Word} (hentry : ¬a - hatEntry i < 3) (hmemlo : ¬a - memlo < 2) :
    publishedMem b x table stop mem a = mem a := by
  have hne {c : Word} {k n : Word} (h : ¬a - c < n) (hk : k < n) : a ≠ c + k := by bv_omega
  have h0 : a ≠ hatEntry i := by simpa using hne hentry (k := 0) (by decide)
  have hm : a ≠ memlo := by simpa using hne hmemlo (k := 0) (by decide)
  have hnamed : Function.update (Function.update (Function.update mem (hatEntry i + 1) (lo table)) (hatEntry i + 2) (hi table))
      (hatEntry i) 0x4e a = mem a := by
    rw [Function.update_of_ne h0, Function.update_of_ne (hne hentry (by decide)),
      Function.update_of_ne (hne hentry (by decide))]
  simp only [publishedMem, hx]
  cases b.sdxChild
  · change Function.update (Function.update _ memlo _) (memlo + 1) _ _ = _
    rw [Function.update_of_ne (hne hmemlo (by decide)), Function.update_of_ne hm]
    exact hnamed
  · exact hnamed

theorem publishedMem_entry {x : Byte} {table stop : Word} {mem : Word → Byte} {i : ℕ} (hb : b.sdxChild = false)
    (hi : i < 11) (hx : hatabs + x.setWidth 16 = hatEntry i) :
    publishedMem b x table stop mem (hatEntry i) = 0x4e ∧
      wordAt (publishedMem b x table stop mem) (hatEntry i + 1) = table ∧
      wordAt (publishedMem b x table stop mem) memlo = stop ∧
      ∀ a, ¬a - hatEntry i < 3 → ¬a - memlo < 2 → publishedMem b x table stop mem a = mem a := by
  have hentry := hatEntry_toNat hi
  have hmemlo : memlo.toNat = 0x02e7 := rfl
  have heq (a : Word) : publishedMem b x table stop mem a = _ := publishedMem_eq hb hx a
  refine ⟨?_, ?_, ?_, fun a => publishedMem_other hx⟩
  · rw [heq, if_neg (by bv_omega), if_neg (by bv_omega), if_pos rfl]
  · rw [wordAt, heq, heq, if_neg (by bv_omega), if_neg (by bv_omega), if_neg (by bv_omega), if_neg (by bv_omega),
      if_pos rfl, if_neg (by bv_omega), if_neg (by bv_omega), if_neg (by bv_omega), if_pos (by bv_omega), ofNat_lo_hi]
  · rw [wordAt, heq, heq, if_neg (by bv_omega), if_pos rfl, if_pos rfl, ofNat_lo_hi]

end

end NioApps.Loader

import NioApps.Sanity.Scanning

/-! What the disk source borrows: the IOCB that it finds free, with a copy of its bytes,
and the zero-page bank. -/

namespace NioApps.Loader

open Abort

/-- `a` is in the IOCB that a run from memory `mem` borrows. -/
def Borrowed (mem : Word → Byte) (a : Word) : Prop := ∃ x, diskFind mem = some x ∧ a - (0x0340 + x.setWidth 16) < 16

/-- From `w` to `w'` no IOCB was borrowed, or the first free one with its bytes saved; the
others are as they were. -/
structure Lends (w w' : Ram) : Prop where
  save : (w'.diskIocb = 0xff ∧ ∀ a, a - 0x0340 < 0x80 → w'.mem a = w.mem a) ∨ diskFind w.mem = some w'.diskIocb ∧
    ∀ k < 16, w'.diskIocbSave k = w.mem (0x0340 + w'.diskIocb.setWidth 16 + BitVec.ofNat 16 k)
  others : ∀ a, a - 0x0340 < 0x80 → ¬Borrowed w.mem a → w'.mem a = w.mem a

section

variable {b : Build} {w w₁ w₂ : Ram}

theorem Lends.scanned (h : Lends w w₁) (hs : Scanned w₁ w₂) : Lends w w₂ := by
  obtain ⟨z, r, s, rfl⟩ := hs
  exact ⟨h.save, h.others⟩

theorem askOpen_mem (b : Build) (x : Byte) (w : Ram) {a : Word} (ha : ¬a - (0x0340 + x.setWidth 16) < 16) :
    (askOpen b x w).mem a = w.mem a :=
  (setIocb_apart (k := 11) (by decide) ha _ _).trans <| (setIocb_apart (k := 10) (by decide) ha _ _).trans <|
    (setIocb_apart (k := 5) (by decide) ha _ _).trans (setIocb_apart (k := 4) (by decide) ha _ _)

theorem askHeader_mem (b : Build) (x : Byte) (w : Ram) {a : Word} (ha : ¬a - (0x0340 + x.setWidth 16) < 16) :
    (askHeader b x w).mem a = w.mem a :=
  (setIocb_apart (k := 9) (by decide) ha _ _).trans <| (setIocb_apart (k := 8) (by decide) ha _ _).trans <|
    (setIocb_apart (k := 5) (by decide) ha _ _).trans (setIocb_apart (k := 4) (by decide) ha _ _)

/-- Opening the file and reading its header write the IOCB and the stage. -/
theorem diskOpenFree_mem (b : Build) (x : Byte) (w : Ram) {a : Word} (ha : ¬a - (0x0340 + x.setWidth 16) < 16)
    (hstage : ¬a - b.stage < 48) : (left ((diskOpenFree b x).run w)).mem a = w.mem a := by
  have hopen : (cioDone 3 (askOpen b x w)).mem a = w.mem a :=
    (cioDone_mem 3 (askOpen b x w) ha).trans ((if_neg (by simp)).trans (askOpen_mem b x w ha))
  rw [diskOpenFree_run]
  split_ifs with h
  · exact hopen
  · obtain ⟨hbuffer, hlength⟩ := askHeader_words b x (cioDone 3 (askOpen b x w))
    refine (cioDone_mem 7 (askHeader b x (cioDone 3 (askOpen b x w))) ha).trans ((if_neg fun hin => hstage ?_).trans
      ((askHeader_mem b x _ ha).trans hopen))
    have hin' : a - iocbWord x 4 (askHeader b x (cioDone 3 (askOpen b x w))) <
        iocbWord x 8 (askHeader b x (cioDone 3 (askOpen b x w))) := hin.2
    rwa [hbuffer, hlength] at hin'

theorem diskOpenFree_save (b : Build) (x : Byte) (w : Ram) :
    (left ((diskOpenFree b x).run w)).diskIocb = x ∧ (left ((diskOpenFree b x).run w)).diskIocbSave = fun k =>
      w.mem (0x0340 + x.setWidth 16 + BitVec.ofNat 16 k) := by
  rw [diskOpenFree_run]
  split_ifs <;> exact ⟨rfl, rfl⟩

/-- Neither the stage nor the read buffer is in an IOCB. -/
theorem Build.Ordered.iocb_apart (hb : b.Ordered) (hd : b.diskSource = true) {a : Word} (ha : a - 0x0340 < 0x80) :
    ¬a - b.stage < 48 ∧ ¬a - b.diskBuffer < 0x0100 := by
  have hlow : a.toNat < 0x0400 := by bv_omega
  obtain ⟨⟨hstage, hstageEnd⟩, hbuffer, hbufferEnd⟩ := hb.high hd
  constructor
  · exact not_sub_lt (BitVec.lt_def.2 (by omega)) hstageEnd
  · exact not_sub_lt (BitVec.lt_def.2 (by omega)) hbufferEnd

theorem diskOpenHeader_lends (hb : b.Ordered) (hd : b.diskSource = true) (w₀ : Ram) {w : Ram} (hmem : w.mem = w₀.mem)
    (hiocb : w.diskIocb = 0xff) : wp (diskOpenHeader b) (fun _ => Lends w₀) (fun _ => False) w := by
  have hnone : Lends w₀ w := ⟨.inl ⟨hiocb, fun a _ => congrFun hmem a⟩, fun a _ _ => congrFun hmem a⟩
  refine wp_bind.2 (wp_get.2 (wp_ite (fun _ => hnone) fun _ => ?_))
  cases h : diskFind w.mem with
  | none => exact hnone
  | some x =>
    obtain ⟨c, w', hrun⟩ : ∃ c w', (diskOpenFree b x).run w = .ok c w' := by
      rw [diskOpenFree_run]
      split_ifs <;> exact ⟨_, _, rfl⟩
    obtain ⟨hx, hsave⟩ := diskOpenFree_save b x w
    have hfound : diskFind w₀.mem = some x := by rw [← hmem, h]
    refine (wp_of_ok hrun).2 ⟨.inr ?_, fun a ha hother => ?_⟩
    · rw [hrun, left_ok] at hx hsave
      exact ⟨by rw [hx, hfound], fun k _ => by rw [hsave, hx, hmem]⟩
    · have hapart := (hb.iocb_apart hd ha).1
      have hkept := diskOpenFree_mem b x w (fun hin => hother ⟨x, hfound, hin⟩) hapart
      rw [hrun, left_ok] at hkept
      rw [hkept, hmem]

/-- From the wrapper to the call of `load_module`, registers only. -/
theorem place_scanned (b : Build) (w : Ram) : Scanned w (left ((place b).run w)) := by
  refine wp_left.1 (orLeave_wp (validateWrapper_wp b w) (fun w₁ h => ?_) fun w₁ h => ?_)
  · obtain ⟨⟨z, rfl⟩, -⟩ := h
    exact ⟨z, _, w.hatSlot, rfl⟩
  · obtain ⟨⟨z, rfl⟩, -⟩ := h
    refine wp_left.2 ?_
    obtain ⟨z', r, s, h⟩ := scanAndPlace_scanned b (w.setZp z)
    exact ⟨z', r, s, h⟩

/-- The IOCB up to the call of `load_module`, however far the run gets. -/
theorem beforeLoad_lends (hb : b.Ordered) (hd : b.diskSource = true) (w : Ram) :
    Lends w (left ((beforeLoad b).run w)) := by
  refine wp_left.1 (wp_bind.2 (wp_modify.2 (wp_ite (fun _ => wp_bind.2 (wp_modify.2 ?_)) fun hd' => absurd hd hd')))
  refine orLeave_wp (m := diskOpenHeader b) (f := failFormat) (k := place b) (diskOpenHeader_lends hb hd w rfl rfl)
    (fun w₁ h => ?_) fun w₁ h => wp_left.2 (h.scanned (place_scanned b w₁))
  exact show Lends w (w₁.setOutcome outFormat) from h.scanned ⟨_, _, _, rfl⟩

/-! ### From `load_module` on -/

/-- `load_module` and what follows keep what `finish` needs. -/
theorem rest_anchor (b : Build) (w : Ram) :
    (left ((orLeave (loadModule b) failFormat (afterLoad b)).run w)).anchor = w.anchor := by
  have hload : wp (loadModule b) (fun _ w' => w'.anchor = w.anchor) (fun w' => w'.anchor = w.anchor) w :=
    wp_left.2 (loadModule_steady b w).anchor
  refine wp_left.1 (orLeave_seq hload (fun w₁ h => ?_) fun w₁ h => ?_)
  · exact show (w₁.setOutcome outFormat).anchor = w.anchor from h
  · exact (afterLoad_wp b w₁).mono (fun _ w₂ h' => h'.anchor.trans h) fun w₂ h' => h'.anchor.trans h

/-- What `finish` gives back is what the run began with. -/
theorem body_returns (hb : b.Ordered) (hd : b.diskSource = true) (w : Ram) :
    (left ((body b).run w)).zpSave = w.zp ∧
      (((left ((body b).run w)).diskIocb = 0xff ∧ ∀ a, a - 0x0340 < 0x80 → (left ((body b).run w)).mem a = w.mem a) ∨
        diskFind w.mem = some (left ((body b).run w)).diskIocb ∧ ∀ k < 16, (left ((body b).run w)).diskIocbSave k =
          w.mem (0x0340 + (left ((body b).run w)).diskIocb.setWidth 16 + BitVec.ofNat 16 k)) := by
  have hlends := beforeLoad_lends hb hd w
  have hbefore := beforeLoad_wp b w
  rw [wp] at hbefore
  cases hrun : (beforeLoad b).run w with
  | error e w₁ =>
    rw [hrun] at hbefore hlends
    rw [body, run_bind_error hrun]
    exact ⟨hbefore.kept.zpSave, hlends.save⟩
  | ok a w₁ =>
    rw [hrun] at hbefore hlends
    rw [left_ok] at hlends
    rw [body_ok hrun]
    have hanchor := rest_anchor b w₁
    generalize left ((orLeave (loadModule b) failFormat (afterLoad b)).run w₁) = w' at hanchor ⊢
    have hx : w'.diskIocb = w₁.diskIocb := congrArg Anchor.iocb hanchor
    have hsave : w'.diskIocbSave = w₁.diskIocbSave := congrArg Anchor.iocbSave hanchor
    have hzp : w'.zpSave = w₁.zpSave := congrArg Anchor.zpSave hanchor
    rw [hx, hsave, hzp]
    refine ⟨hbefore.kept.zpSave, .inr (hlends.save.resolve_left fun h => ?_)⟩
    have hle := hbefore.iocb hd
    rw [h.1] at hle
    exact absurd hle (by decide)

theorem diskFind_le {mem : Word → Byte} {x : Byte} (h : diskFind mem = some x) : x ≤ 0x70 :=
  diskFindLoop_le (by decide) (by decide) h

/-- The bytes of the borrowed IOCB are back, whatever happened to them. -/
theorem iocb_restored (hb : b.Ordered) (hd : b.diskSource = true) {a : Word} (ha : Borrowed w.mem a) :
    (main b w).mem a = w.mem a := by
  obtain ⟨x, hx, hin⟩ := ha
  have hle := diskFind_le hx
  have hiocb : a - 0x0340 < 0x80 := by bv_omega
  have hshare : ¬a - 0x06b0 < 40 := by bv_omega
  rw [main, (finish_spec b _).2.2, finishedMem]
  rcases (body_returns hb hd w).2 with ⟨hnone, hmem⟩ | ⟨hfound, hsave⟩
  · rw [hnone, if_neg fun h => absurd h.2.1 (by decide)]
    split_ifs
    · exact (if_neg hshare).trans (hmem a hiocb)
    · exact hmem a hiocb
  · have heq : (left ((body b).run w)).diskIocb = x := Option.some.inj (hfound.symm.trans hx)
    rw [heq] at hsave ⊢
    have hmsb : x.msb = false := by
      rw [BitVec.msb_eq_false_iff_two_mul_lt]
      bv_omega
    rw [if_pos ⟨hd, hmsb, hin⟩, hsave _ hin, BitVec.ofNat_toNat, BitVec.setWidth_eq]
    congr 1
    bv_omega

end

end NioApps.Loader

import NioApps.Sanity.Feed

/-! The bytes that `read_byte` returns when its source has them: the staged file, or
CIO delivering the file 128 bytes at a time. -/

namespace NioApps.Loader

open Abort

/-- The source has `bs` from stream position `p` on, which is to be read next. CIO call
`k` from here on reads the `k`-th 128 bytes. -/
structure Supplies (b : Build) (w : Ram) (p : Word) (bs : List Byte) : Prop where
  staged : b.diskSource = false → ∀ i < bs.length, w.mem (p + BitVec.ofNat 16 i) = bs.getD i 0
  fresh : b.diskSource = true → w.diskIndex = w.diskCount
  disk : b.diskSource = true → ∀ k i, i < 128 → 128 * k + i < bs.length →
    (w.cioResults k).status.msb = false ∧ (w.cioResults k).data i = bs.getD (128 * k + i) 0

/-- `G w bs`: the refills to come bring `bs`, and CIO goes on like this. -/
structure Delivers (b : Build) (G : Ram → List Byte → Prop) : Prop where
  take : ∀ {w bs}, G w bs → w.diskIndex ≠ w.diskCount → w.zp.srcPtr < w.zp.moduleEnd → G (advance (takeByte w)) bs
  refill : ∀ {w bs}, G w bs → w.diskIndex = w.diskCount → w.zp.srcPtr < w.zp.moduleEnd → 0 < bs.length →
    (refillCount w).toNat = min 128 bs.length →
    (w.cioResults 0).status.msb = false ∧ (∀ i < min 128 bs.length, (w.cioResults 0).data i = bs.getD i 0) ∧
      G (cioDone 7 (askRefill b w)) (bs.drop (min 128 bs.length))

section

variable {b : Build} {w : Ram} {bs : List Byte} {a : Byte} {G : Ram → List Byte → Prop}

theorem feed_end (hlength : w.zp.srcPtr.toNat + 0 = w.zp.moduleEnd.toNat) : feed b w = [] := by
  have hunread : unread w = 0 := by
    rw [unread]
    omega
  rw [feed, hunread]
  rfl

theorem readByte_staged (hs : b.diskSource = false) (hlt : w.zp.srcPtr < w.zp.moduleEnd) :
    (readByte b).run w = .ok (w.mem w.zp.srcPtr) (advance w) := by
  simp only [readByte, EStateM.run_bind, EStateM.run_get, if_pos hlt, hs]
  rfl

theorem readByte_disk (hd : b.diskSource = true) (hlt : w.zp.srcPtr < w.zp.moduleEnd) {w' : Ram}
    (h : (diskReadByte b).run w = .ok a w') : (readByte b).run w = .ok a (w'.setZp { w'.zp with srcPtr := w'.zp.srcPtr + 1 }) := by
  simp only [readByte, EStateM.run_bind, EStateM.run_get, if_pos hlt, if_pos hd, h]
  rfl

theorem feed_staged (hs : b.diskSource = false) (hlength : w.zp.srcPtr.toNat + bs.length = w.zp.moduleEnd.toNat)
    (hmem : ∀ i < bs.length, w.mem (w.zp.srcPtr + BitVec.ofNat 16 i) = bs.getD i 0) : feed b w = bs := by
  have hx (w : Ram) : IocbOk b w := by simp [IocbOk, hs]
  induction bs generalizing w with
  | nil => exact feed_end hlength
  | cons a bs ih =>
    rw [List.length_cons] at hlength
    have hlt : w.zp.srcPtr < w.zp.moduleEnd := by
      rw [BitVec.lt_def]
      omega
    have hfirst : w.mem w.zp.srcPtr = a := by simpa using hmem 0 (Nat.succ_pos _)
    rw [feed_ok (hx w) (readByte_staged hs hlt), hfirst]
    refine congrArg (a :: ·) (ih ?_ fun i hi => ?_)
    · change (w.zp.srcPtr + 1).toNat + _ = w.zp.moduleEnd.toNat
      bv_omega
    · have hnext : w.zp.srcPtr + 1 + BitVec.ofNat 16 i = w.zp.srcPtr + BitVec.ofNat 16 (i + 1) := by
        rw [BitVec.ofNat_add]
        bv_omega
      change w.mem (w.zp.srcPtr + 1 + BitVec.ofNat 16 i) = _
      rw [hnext, hmem (i + 1) (Nat.succ_lt_succ hi)]
      rfl

/-- The first `j` bytes of `bs` are in the read buffer, and refills bring the rest. -/
structure Buffered (b : Build) (G : Ram → List Byte → Prop) (w : Ram) (j : ℕ) (bs : List Byte) : Prop where
  count : w.diskIndex.toNat + j = w.diskCount.toNat
  le : j ≤ bs.length
  buffer : ∀ i < j, w.mem (b.diskBuffer + BitVec.ofNat 16 (w.diskIndex.toNat + i)) = bs.getD i 0
  rest : G w (bs.drop j)

theorem Buffered.nonempty {j : ℕ} (h : Buffered b G w (j + 1) bs) : w.diskIndex ≠ w.diskCount := by
  intro heq
  have hcount := h.count
  rw [heq] at hcount
  omega

theorem Buffered.take (hG : Delivers b G) {j : ℕ} (hlt : w.zp.srcPtr < w.zp.moduleEnd) (h : Buffered b G w (j + 1) (a :: bs)) :
    Buffered b G (advance (takeByte w)) j bs := by
  have hcount := h.count
  have hmax := w.diskCount.isLt
  have hindex : (w.diskIndex + 1).toNat = w.diskIndex.toNat + 1 := by bv_omega
  refine ⟨?_, Nat.le_of_succ_le_succ h.le, fun i hi => ?_, hG.take h.rest h.nonempty hlt⟩
  · change (w.diskIndex + 1).toNat + j = w.diskCount.toNat
    omega
  · have hbuffer := h.buffer (i + 1) (Nat.succ_lt_succ hi)
    rw [List.getD_cons_succ] at hbuffer
    change w.mem (b.diskBuffer + BitVec.ofNat 16 ((w.diskIndex + 1).toNat + i)) = _
    rw [hindex, Nat.add_right_comm, Nat.add_assoc]
    exact hbuffer

theorem refillCount_toNat (hlength : w.zp.srcPtr.toNat + bs.length = w.zp.moduleEnd.toNat) :
    (refillCount w).toNat = min 128 bs.length := by
  have hleft : (w.zp.moduleEnd - w.zp.srcPtr).toNat = bs.length := by bv_omega
  have h128 : (128 : Byte).toNat = 128 := rfl
  have h0 : (0 : Byte).toNat = 0 := rfl
  have hhi := hi_toNat (w.zp.moduleEnd - w.zp.srcPtr)
  have hlo := lo_toNat (w.zp.moduleEnd - w.zp.srcPtr)
  rw [hleft] at hhi hlo
  simp only [refillCount, ne_eq, BitVec.toNat_eq, BitVec.lt_def, h128, h0, hhi, hlo]
  split_ifs <;> omega

theorem buffer_apart (hd : b.diskSource = true) (hb : b.Laid) (hx : IocbOk b w) {i : ℕ} (hi : i < 128) :
    ¬b.diskBuffer + BitVec.ofNat 16 i - (0x0340 + w.diskIocb.setWidth 16) < 16 := by
  have hle := hx hd
  have hbuffer : 0x0400 ≤ b.diskBuffer.toNat ∧ b.diskBuffer.toNat + 0x0100 ≤ 2 ^ 16 := by
    obtain ⟨source, asm⟩ := b
    cases source with
    | staged => cases hd
    | disk name => exact show 0x0400 ≤ (0x6f00 : Word).toNat ∧ (0x6f00 : Word).toNat + 0x0100 ≤ 2 ^ 16 by decide
    | sdxChild main stageBuf diskBuf name expected =>
      obtain ⟨hmain, hle, htop⟩ := hb
      exact ⟨(BitVec.le_def.1 hmain).trans (BitVec.le_def.1 hle), htop⟩
  bv_omega

/-- A refill has the next bytes in the buffer. -/
theorem Buffered.refill (hG : Delivers b G) (hd : b.diskSource = true) (hb : b.Laid) (hx : IocbOk b w)
    (hlt : w.zp.srcPtr < w.zp.moduleEnd) (hlength : w.zp.srcPtr.toNat + bs.length = w.zp.moduleEnd.toNat)
    (h : Buffered b G w 0 bs) :
    (w.cioResults 0).status.msb = false ∧ Buffered b G (cioDone 7 (askRefill b w)) (min 128 bs.length) bs := by
  have hcount := refillCount_toNat hlength
  obtain ⟨hbuffer, hlen⟩ := askRefill_words b w
  have hpos : 0 < bs.length := by
    rw [BitVec.lt_def] at hlt
    omega
  obtain ⟨hstatus, hdata, hrest⟩ := hG.refill h.rest (BitVec.eq_of_toNat_eq h.count) hlt hpos hcount
  refine ⟨hstatus, ?_, min_le_right _ _, fun i hi => ?_, hrest⟩
  · change (0 : Byte).toNat + _ = (refillCount w).toNat
    rw [hcount]
    exact Nat.zero_add _
  · have hi128 : i < 128 := lt_of_lt_of_le hi (min_le_left _ _)
    have hptr : b.diskBuffer + BitVec.ofNat 16 ((0 : Byte).toNat + i) = b.diskBuffer + BitVec.ofNat 16 i := by simp
    have hoff : (b.diskBuffer + BitVec.ofNat 16 i - b.diskBuffer).toNat = i := by bv_omega
    have hin : b.diskBuffer + BitVec.ofNat 16 i - b.diskBuffer < (refillCount w).setWidth 16 := by
      rw [BitVec.lt_def, hoff, BitVec.toNat_setWidth, hcount]
      omega
    change (cioDone 7 (askRefill b w)).mem (b.diskBuffer + BitVec.ofNat 16 ((0 : Byte).toNat + i)) = _
    have hcond : (7 : Byte) = 7 ∧ b.diskBuffer + BitVec.ofNat 16 i - iocbWord w.diskIocb 4 (askRefill b w) <
        iocbWord w.diskIocb 8 (askRefill b w) := by
      rw [hbuffer, hlen]
      exact ⟨rfl, hin⟩
    rw [hptr]
    refine (cioDone_mem 7 (askRefill b w) (buffer_apart hd hb hx hi128)).trans ?_
    refine (if_pos hcond).trans ?_
    change (w.cioResults 0).data (b.diskBuffer + BitVec.ofNat 16 i - iocbWord w.diskIocb 4 (askRefill b w)).toNat = _
    rw [hbuffer, hoff]
    exact hdata i hi

theorem feed_disk (hG : Delivers b G) (hd : b.diskSource = true) (hb : b.Laid) {j : ℕ} (hx : IocbOk b w)
    (hlength : w.zp.srcPtr.toNat + bs.length = w.zp.moduleEnd.toNat) (h : Buffered b G w j bs) : feed b w = bs := by
  induction bs generalizing w j with
  | nil => exact feed_end hlength
  | cons a bs ih =>
    rw [List.length_cons] at hlength
    have hlt : w.zp.srcPtr < w.zp.moduleEnd := by
      rw [BitVec.lt_def]
      omega
    have hlength' : (w.zp.srcPtr + 1).toNat + bs.length = w.zp.moduleEnd.toNat := by bv_omega
    cases j with
    | succ j =>
      have hbyte := h.buffer 0 (Nat.succ_pos j)
      rw [feed_ok hx (readByte_disk hd hlt (diskReadByte_buffered b h.nonempty))]
      refine congrArg₂ List.cons ?_ (ih (w := advance (takeByte w)) hx hlength' (h.take hG hlt))
      have hindex : w.diskIndex.setWidth 16 = BitVec.ofNat 16 (w.diskIndex.toNat + 0) := by
        apply BitVec.eq_of_toNat_eq
        simp
      rw [hindex]
      exact hbyte
    | zero =>
      have heq : w.diskIndex = w.diskCount := BitVec.eq_of_toNat_eq h.count
      obtain ⟨hok, hrefill⟩ := h.refill hG hd hb hx hlt (by simpa using hlength)
      have hmin : min 128 (a :: bs).length = min 127 bs.length + 1 := by
        rw [List.length_cons]
        omega
      rw [hmin] at hrefill
      have hbyte := hrefill.buffer 0 (Nat.succ_pos _)
      rw [feed_ok hx (readByte_disk hd hlt (diskReadByte_refilled b heq hok))]
      refine congrArg₂ List.cons ?_
        (ih (w := advance (takeByte (cioDone 7 (askRefill b w)))) hx hlength' (hrefill.take hG hlt))
      have h0 : b.diskBuffer = b.diskBuffer + BitVec.ofNat 16 ((0 : Byte).toNat + 0) := by simp
      conv_lhs => rw [h0]
      exact hbyte

/-- CIO call `k` from here on reads the `k`-th 128 bytes. -/
def InTurn (w : Ram) (bs : List Byte) : Prop :=
  ∀ k i, i < 128 → 128 * k + i < bs.length →
    (w.cioResults k).status.msb = false ∧ (w.cioResults k).data i = bs.getD (128 * k + i) 0

theorem inTurn_delivers (b : Build) : Delivers b InTurn where
  take h _ _ := h
  refill {w bs} h _ _ hpos _ := by
    refine ⟨(h 0 0 (by decide) hpos).1, fun i hi => ?_, fun k i hi hk => ?_⟩
    · have hdata := (h 0 i (by omega) (by omega)).2
      rwa [Nat.mul_zero, Nat.zero_add] at hdata
    · rw [List.length_drop] at hk
      have hmin : min 128 bs.length = 128 := by omega
      have hnext : 128 * (k + 1) + i = 128 + (128 * k + i) := by omega
      have hresults := h (k + 1) i hi (by omega)
      rw [hnext] at hresults
      rw [hmin, List.getD_eq_getElem?_getD, List.getElem?_drop, ← List.getD_eq_getElem?_getD]
      exact hresults

end

/-- `read_byte` returns what its source has. -/
theorem Supplies.feed_eq {b : Build} {w : Ram} {bs : List Byte} (h : Supplies b w w.zp.srcPtr bs) (hb : b.Laid)
    (hx : IocbOk b w) (hlength : w.zp.srcPtr.toNat + bs.length = w.zp.moduleEnd.toNat) : feed b w = bs := by
  cases hd : b.diskSource with
  | false => exact feed_staged hd hlength (h.staged hd)
  | true =>
    refine feed_disk (j := 0) (inTurn_delivers b) hd hb hx hlength ⟨?_, Nat.zero_le _, fun i hi => absurd hi (Nat.not_lt_zero i), ?_⟩
    · rw [h.fresh hd]
      rfl
    · exact h.disk hd

end NioApps.Loader

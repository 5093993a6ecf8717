import NioApps.Spec.Module

/-! `read_byte` from both sources. `readByte_cases` lists how it ends; what it
returns depends on nothing that a store to target memory changes (`Alike.feed`). -/

namespace NioApps.Loader

open Abort

/-- Memory that the disk source uses: its buffer, as far as an index reaches, and the IOCBs. -/
def Build.Io (b : Build) (a : Word) : Prop := b.diskSource = true ∧ (a - b.diskBuffer < 0x0100 ∨ a - 0x0340 < 0x80)

/-- The target stores among some events. -/
def targets (es : List Event) : List Word :=
  es.filterMap fun
    | .target a => some a
    | _ => none

@[simp] theorem targets_nil : targets [] = [] := rfl

@[simp] theorem targets_append (es fs : List Event) : targets (es ++ fs) = targets es ++ targets fs :=
  List.filterMap_append

/-! ### One byte -/

/-- `w'` is `w` but for what the disk source uses. -/
structure Reads (b : Build) (w w' : Ram) : Prop where
  same : w' = { w with
    mem := w'.mem, diskIndex := w'.diskIndex, diskCount := w'.diskCount, diskStatus := w'.diskStatus
    cioResults := w'.cioResults, log := w'.log }
  mem : ∀ a, ¬b.Io a → w'.mem a = w.mem a
  log : ∃ es, w'.log = w.log ++ es ∧ targets es = []

theorem Reads.refl (b : Build) (w : Ram) : Reads b w w :=
  ⟨rfl, fun _ _ => rfl, [], (List.append_nil _).symm, rfl⟩

theorem Reads.trans {b : Build} {w₁ w₂ w₃ : Ram} (h : Reads b w₁ w₂) (h' : Reads b w₂ w₃) : Reads b w₁ w₃ := by
  obtain ⟨es, hlog, hes⟩ := h.log
  obtain ⟨es', hlog', hes'⟩ := h'.log
  refine ⟨?_, fun a ha => (h'.mem a ha).trans (h.mem a ha), es ++ es', ?_, ?_⟩
  · rw [h'.same, h.same]
  · rw [hlog', hlog, List.append_assoc]
  · rw [targets_append, hes, hes', List.append_nil]

/-- The IOCB of the loader is one of the eight. -/
def IocbOk (b : Build) (w : Ram) : Prop := b.diskSource = true → w.diskIocb ≤ 0x70

theorem iocb_io {b : Build} {w : Ram} (hd : b.diskSource = true) (h : IocbOk b w) {k : Word} (hk : k < 16) :
    b.Io (0x0340 + k + w.diskIocb.setWidth 16) := by
  have := h hd
  refine ⟨hd, .inr ?_⟩
  bv_omega

theorem setIocb_reads {b : Build} {w : Ram} (hd : b.diskSource = true) (h : IocbOk b w) {k : Word} (hk : k < 16)
    (v : Byte) : Reads b w (setIocb w.diskIocb k v w) := by
  refine ⟨rfl, fun a ha => Function.update_of_ne ?_ .., [], (List.append_nil _).symm, rfl⟩
  rintro rfl
  exact ha (iocb_io hd h hk)

/-! ### CIO -/

theorem setIocb_other (x : Byte) {j k : Word} (h : j ≠ k) (v : Byte) (w : Ram) :
    (setIocb x k v w).mem (0x0340 + j + x.setWidth 16) = w.mem (0x0340 + j + x.setWidth 16) :=
  Function.update_of_ne (by simpa using h) ..

theorem setIocb_same (x : Byte) (k : Word) (v : Byte) (w : Ram) :
    (setIocb x k v w).mem (0x0340 + k + x.setWidth 16) = v :=
  Function.update_self ..

theorem iocbWord_other (x : Byte) {j k : Word} (h : j ≠ k) (h' : j + 1 ≠ k) (v : Byte) (w : Ram) :
    iocbWord x j (setIocb x k v w) = iocbWord x j w := by
  have hnext : 0x0340 + j + x.setWidth 16 + 1 = 0x0340 + (j + 1) + x.setWidth 16 := by bv_omega
  rw [iocbWord, iocbWord]
  refine wordAt_congr (setIocb_other x h v w) ?_
  rw [hnext]
  exact setIocb_other x h' v w

/-- The two bytes of a word in an IOCB. -/
theorem iocbWord_same (x : Byte) (k : Word) (a c : Byte) (w : Ram) :
    iocbWord x k (setIocb x (k + 1) c (setIocb x k a w)) = BitVec.ofNat 16 (le [a, c]) := by
  have hnext : 0x0340 + k + x.setWidth 16 + 1 = 0x0340 + (k + 1) + x.setWidth 16 := by bv_omega
  rw [iocbWord, wordAt, hnext, setIocb_same, setIocb_other x (by simp), setIocb_same]

/-- What a CIO call leaves. -/
def cioDone (a : Byte) (w : Ram) : Ram := (cio w.diskIocb (setIocb w.diskIocb 2 a w)).setZp w.zp

/-- A CIO call touches its IOCB and, when it reads, its buffer. -/
theorem cioDone_mem (a : Byte) (w : Ram) {p : Word} (hp : ¬p - (0x0340 + w.diskIocb.setWidth 16) < 16) :
    (cioDone a w).mem p =
      if a = 7 ∧ p - iocbWord w.diskIocb 4 w < iocbWord w.diskIocb 8 w then
        (w.cioResults 0).data (p - iocbWord w.diskIocb 4 w).toNat
      else w.mem p := by
  have hcommand : (setIocb w.diskIocb 2 a w).mem (0x0342 + w.diskIocb.setWidth 16) = a := setIocb_same ..
  have hp2 : (setIocb w.diskIocb 2 a w).mem p = w.mem p := by
    refine Function.update_of_ne ?_ ..
    rintro rfl
    exact hp (by bv_omega)
  simp only [cioDone, cio, Ram.setZp_mem, Ram.record_mem, Ram.setMem_mem, putIocb, if_neg hp, hcommand,
    iocbWord_other w.diskIocb (show (4 : Word) ≠ 2 by decide) (by decide),
    iocbWord_other w.diskIocb (show (8 : Word) ≠ 2 by decide) (by decide)]
  by_cases h7 : a = 7
  · subst h7
    simp only [if_true, true_and, putBytes, hp2]
    rfl
  · simp only [h7, if_false, false_and, hp2]

/-- Two memories that agree on `P`, which holds of the IOCB, still do after CIO. -/
theorem cioDone_agree {P : Word → Prop} (c : Byte) {w v : Ram} (hx : v.diskIocb = w.diskIocb)
    (hr : v.cioResults = w.cioResults) (hP : ∀ k < 16, P (0x0340 + k + w.diskIocb.setWidth 16))
    (h : ∀ a, P a → v.mem a = w.mem a) (a : Word) (ha : P a) : (cioDone c v).mem a = (cioDone c w).mem a := by
  have hword (k : Word) (hk : k < 15) :
      iocbWord w.diskIocb k (setIocb w.diskIocb 2 c v) = iocbWord w.diskIocb k (setIocb w.diskIocb 2 c w) := by
    have hnext : 0x0340 + k + w.diskIocb.setWidth 16 + 1 = 0x0340 + (k + 1) + w.diskIocb.setWidth 16 := by bv_omega
    refine wordAt_congr ?_ ?_
    · simp only [setIocb, Ram.setMem_mem, Function.update_apply, h _ (hP k (by bv_omega))]
    · rw [hnext]
      simp only [setIocb, Ram.setMem_mem, Function.update_apply, h _ (hP (k + 1) (by bv_omega))]
  have hmem : (setIocb w.diskIocb 2 c v).mem a = (setIocb w.diskIocb 2 c w).mem a := by
    simp only [setIocb, Ram.setMem_mem, Function.update_apply, h a ha]
  have hcommand (u : Ram) : (setIocb w.diskIocb 2 c u).mem (0x0342 + w.diskIocb.setWidth 16) = c := setIocb_same ..
  have hresults (u : Ram) : (setIocb w.diskIocb 2 c u).cioResults = u.cioResults := rfl
  simp only [cioDone, cio, Ram.setZp_mem, Ram.record_mem, Ram.setMem_mem, putIocb, hx, hcommand, hresults, hr,
    hword 4 (by decide), hword 8 (by decide)]
  by_cases h7 : c = 7
  · simp only [h7, if_true, putBytes]
    rw [h7] at hmem
    rw [hmem]
  · simp only [h7, if_false, hmem]

/-- The refill of `disk_read_byte`, ready for CIO. -/
def askRefill (b : Build) (w : Ram) : Ram :=
  let w := { w with diskCount := refillCount w }
  { setLength w.diskIocb w.diskCount (setBuffer w.diskIocb b.diskBuffer w) with diskIndex := 0 }

/-- `@get` -/
def takeByte (w : Ram) : Ram := { w with diskIndex := w.diskIndex + 1 }

theorem diskRefill_run (b : Build) (w : Ram) :
    (diskRefill b).run w =
      if (w.cioResults 0).status.msb then .error () ((cioDone 7 (askRefill b w)).setOutcome outFormat)
      else .ok () (cioDone 7 (askRefill b w)) := by
  change (if (w.cioResults 0).status.msb then failFormat else pure () : Load Unit).run (cioDone 7 (askRefill b w)) = _
  split_ifs <;> rfl

theorem diskReadByte_buffered (b : Build) {w : Ram} (h : w.diskIndex ≠ w.diskCount) :
    (diskReadByte b).run w = .ok (w.mem (b.diskBuffer + w.diskIndex.setWidth 16)) (takeByte w) := by
  simp only [diskReadByte, EStateM.run_bind, EStateM.run_get, if_neg h, EStateM.run_pure]
  rfl

theorem diskReadByte_refill (b : Build) {w : Ram} (h : w.diskIndex = w.diskCount) :
    (diskReadByte b).run w =
      if (w.cioResults 0).status.msb then .error () ((cioDone 7 (askRefill b w)).setOutcome outFormat)
      else .ok ((cioDone 7 (askRefill b w)).mem b.diskBuffer) (takeByte (cioDone 7 (askRefill b w))) := by
  simp only [diskReadByte, EStateM.run_bind, EStateM.run_get, if_pos h, diskRefill_run]
  split_ifs
  · rfl
  · have h0 : b.diskBuffer + (0 : Byte).setWidth 16 = b.diskBuffer := by simp
    conv_rhs => rw [← h0]
    rfl

theorem diskReadByte_refilled (b : Build) {w : Ram} (h : w.diskIndex = w.diskCount) (hok : (w.cioResults 0).status.msb = false) :
    (diskReadByte b).run w = .ok ((cioDone 7 (askRefill b w)).mem b.diskBuffer) (takeByte (cioDone 7 (askRefill b w))) := by
  rw [diskReadByte_refill b h, hok]
  rfl

theorem refillCount_le (w : Ram) : refillCount w ≤ 128 := by
  unfold refillCount
  extract_lets rest
  split_ifs with h1 h2
  · decide
  · bv_omega
  · decide

theorem setBuffer_reads {b : Build} {w : Ram} (hd : b.diskSource = true) (h : IocbOk b w) (buffer : Word) :
    Reads b w (setBuffer w.diskIocb buffer w) :=
  have h4 := setIocb_reads hd h (k := 4) (by decide) (lo buffer)
  h4.trans (setIocb_reads (w := setIocb w.diskIocb 4 (lo buffer) w) hd h (by decide) _)

theorem setLength_reads {b : Build} {w : Ram} (hd : b.diskSource = true) (h : IocbOk b w) (n : Byte) :
    Reads b w (setLength w.diskIocb n w) :=
  have h8 := setIocb_reads hd h (k := 8) (by decide) n
  h8.trans (setIocb_reads (w := setIocb w.diskIocb 8 n w) hd h (by decide) _)

/-- Setting the counters. -/
theorem counters_reads (b : Build) (i c : Byte) (w : Ram) : Reads b w { w with diskIndex := i, diskCount := c } :=
  ⟨rfl, fun _ _ => rfl, [], (List.append_nil _).symm, rfl⟩

theorem askRefill_reads {b : Build} {w : Ram} (hd : b.diskSource = true) (h : IocbOk b w) :
    Reads b w (askRefill b w) := by
  have hcount := counters_reads b w.diskIndex (refillCount w) w
  have hbuffer := setBuffer_reads (w := { w with diskCount := refillCount w }) hd h b.diskBuffer
  have hlength := setLength_reads (w := setBuffer w.diskIocb b.diskBuffer { w with diskCount := refillCount w }) hd h
    (refillCount w)
  exact ((hcount.trans hbuffer).trans hlength).trans (counters_reads b 0 (refillCount w) _)

theorem askRefill_words (b : Build) (w : Ram) :
    iocbWord w.diskIocb 4 (askRefill b w) = b.diskBuffer ∧
      iocbWord w.diskIocb 8 (askRefill b w) = (refillCount w).setWidth 16 := by
  have hbuffer := iocbWord_same w.diskIocb 4 (lo b.diskBuffer) (hi b.diskBuffer) { w with diskCount := refillCount w }
  have hlength := iocbWord_same w.diskIocb 8 (refillCount w) 0
    (setBuffer w.diskIocb b.diskBuffer { w with diskCount := refillCount w })
  rw [ofNat_lo_hi] at hbuffer
  constructor
  · refine Eq.trans ?_ hbuffer
    change iocbWord w.diskIocb 4 (setLength w.diskIocb _ (setBuffer w.diskIocb b.diskBuffer _)) = _
    rw [setLength, iocbWord_other _ (by decide) (by decide), iocbWord_other _ (by decide) (by decide)]
    rfl
  · refine hlength.trans (BitVec.eq_of_toNat_eq ?_)
    have := (refillCount w).isLt
    have h0 : (0 : Byte).toNat = 0 := rfl
    simp only [le_cons, le_nil, BitVec.toNat_ofNat, BitVec.toNat_setWidth, h0]
    omega

/-- A refill fills the buffer and nothing else. -/
theorem refill_reads {b : Build} {w : Ram} (hd : b.diskSource = true) (h : IocbOk b w) :
    Reads b w (cioDone 7 (askRefill b w)) := by
  refine (askRefill_reads hd h).trans ⟨rfl, fun a ha => ?_, [_], rfl, rfl⟩
  have hio : ¬a - (0x0340 + w.diskIocb.setWidth 16) < 16 := by
    intro hlt
    refine ha ⟨hd, .inr ?_⟩
    have := h hd
    bv_omega
  obtain ⟨hbuffer, hlength⟩ := askRefill_words b w
  have hcount := refillCount_le w
  have hother : ¬a - b.diskBuffer < (refillCount w).setWidth 16 := fun hlt => ha ⟨hd, .inl (by bv_omega)⟩
  refine (cioDone_mem 7 (askRefill b w) hio).trans (if_neg fun hin => hother ?_)
  have hin' : a - iocbWord w.diskIocb 4 (askRefill b w) < iocbWord w.diskIocb 8 (askRefill b w) := hin.2
  rwa [hbuffer, hlength] at hin'

/-! ### read_byte -/

/-- `src_ptr` after a byte. -/
def advance (w : Ram) : Ram := w.setZp { w.zp with srcPtr := w.zp.srcPtr + 1 }

/-- `read_byte` returns a byte, or aborts at the end of the module or after a disk error. -/
theorem readByte_cases (b : Build) {w : Ram} (hx : IocbOk b w) :
    (∃ a w₁, (readByte b).run w = .ok a (advance w₁) ∧ Reads b w w₁ ∧ w.zp.srcPtr < w.zp.moduleEnd) ∨
      ∃ w₁ d, (readByte b).run w = .error () ((w₁.setDetail d).setOutcome outFormat) ∧ Reads b w w₁ := by
  simp only [readByte, EStateM.run_bind, EStateM.run_get]
  split_ifs with hlt hd
  · by_cases hbuf : w.diskIndex = w.diskCount
    · have hreads := refill_reads hd hx
      rw [EStateM.run_bind, diskReadByte_refill b hbuf]
      split_ifs with hs
      · exact .inr ⟨_, (cioDone 7 (askRefill b w)).report.detail, rfl, hreads⟩
      · exact .inl ⟨_, _, rfl, hreads.trans (counters_reads b _ (refillCount w) _), hlt⟩
    · rw [EStateM.run_bind, diskReadByte_buffered b hbuf]
      exact .inl ⟨_, _, rfl, counters_reads b _ w.diskCount w, hlt⟩
  · exact .inl ⟨_, w, rfl, .refl b w, hlt⟩
  · exact .inr ⟨w, 0xe6, rfl, .refl b w⟩

/-- `read_byte` goes on in `v` as in `w`. -/
structure Alike (b : Build) (w v : Ram) : Prop where
  srcPtr : v.zp.srcPtr = w.zp.srcPtr
  moduleEnd : v.zp.moduleEnd = w.zp.moduleEnd
  iocb : v.diskIocb = w.diskIocb
  index : v.diskIndex = w.diskIndex
  count : v.diskCount = w.diskCount
  results : v.cioResults = w.cioResults
  staged : b.diskSource = false → ∀ a, w.zp.srcPtr ≤ a → a < w.zp.moduleEnd → v.mem a = w.mem a
  disk : ∀ a, b.Io a → v.mem a = w.mem a

theorem Alike.refill {b : Build} {w v : Ram} (h : Alike b w v) (hd : b.diskSource = true) (hx : IocbOk b w) :
    Alike b (takeByte (cioDone 7 (askRefill b w))) (takeByte (cioDone 7 (askRefill b v))) := by
  have hcount : refillCount v = refillCount w := by simp only [refillCount, h.srcPtr, h.moduleEnd]
  have hask (a : Word) (ha : b.Io a) : (askRefill b v).mem a = (askRefill b w).mem a := by
    simp only [askRefill, setLength, setBuffer, setIocb, Ram.setMem_mem, Function.update_apply, h.iocb, hcount,
      h.disk a ha]
  have hagree := cioDone_agree (w := askRefill b w) (v := askRefill b v) 7 h.iocb h.results
    (fun k hk => iocb_io hd hx hk) hask
  refine ⟨h.srcPtr, h.moduleEnd, h.iocb, rfl, hcount, ?_, fun hs => by simp [hd] at hs, hagree⟩
  exact congrArg (fun (r : ℕ → CioResult) n => r (n + 1)) h.results

theorem Alike.take {b : Build} {w v : Ram} (h : Alike b w v) : Alike b (takeByte w) (takeByte v) :=
  ⟨h.srcPtr, h.moduleEnd, h.iocb, congrArg (· + 1) h.index, h.count, h.results, h.staged, h.disk⟩

theorem Alike.advance {b : Build} {w v : Ram} (h : Alike b w v) (hlt : w.zp.srcPtr < w.zp.moduleEnd) :
    Alike b (advance w) (advance v) := by
  refine ⟨congrArg (· + 1) h.srcPtr, h.moduleEnd, h.iocb, h.index, h.count, h.results, fun hs a ha hend => ?_, h.disk⟩
  have hle : w.zp.srcPtr + 1 ≤ a := ha
  exact h.staged hs a (by bv_omega) hend

/-- The two runs of `read_byte` return the same byte and stay alike, or both abort. -/
theorem Alike.readByte {b : Build} {w v : Ram} (h : Alike b w v) (hx : IocbOk b w) :
    (∃ a w' v', (readByte b).run w = .ok a w' ∧ (readByte b).run v = .ok a v' ∧ Alike b w' v') ∨
      ∃ w' v', (readByte b).run w = .error () w' ∧ (readByte b).run v = .error () v' := by
  simp only [Loader.readByte, EStateM.run_bind, EStateM.run_get, h.srcPtr, h.moduleEnd]
  split_ifs with hlt hd
  · rw [EStateM.run_bind, EStateM.run_bind]
    by_cases hbuf : w.diskIndex = w.diskCount
    · have hbuf' : v.diskIndex = v.diskCount := by rw [h.index, h.count, hbuf]
      have halike := h.refill hd hx
      have hbyte := halike.disk b.diskBuffer ⟨hd, .inl (by simp)⟩
      rw [diskReadByte_refill b hbuf, diskReadByte_refill b hbuf', h.results]
      split_ifs with hs
      · exact .inr ⟨_, _, rfl, rfl⟩
      · exact .inl ⟨_, _, _, rfl, congrArg (EStateM.Result.ok · _) hbyte, halike.advance hlt⟩
    · have hbuf' : v.diskIndex ≠ v.diskCount := by rwa [h.index, h.count]
      have hbyte := h.disk (b.diskBuffer + w.diskIndex.setWidth 16) ⟨hd, .inl (by bv_omega)⟩
      rw [diskReadByte_buffered b hbuf, diskReadByte_buffered b hbuf', h.index]
      exact .inl ⟨_, _, _, rfl, congrArg (EStateM.Result.ok · _) hbyte, h.take.advance hlt⟩
  · have hbyte := h.staged (by simpa using hd) w.zp.srcPtr (BitVec.le_refl _) hlt
    exact .inl ⟨_, _, _, rfl, congrArg (EStateM.Result.ok · _) hbyte, h.advance hlt⟩
  · exact .inr ⟨_, _, rfl, rfl⟩

/-! ### The bytes still to come -/

theorem advance_unread {w : Ram} (h : w.zp.srcPtr < w.zp.moduleEnd) : unread w = unread (advance w) + 1 := by
  change _ - _ = w.zp.moduleEnd.toNat - (w.zp.srcPtr + 1).toNat + 1
  bv_omega

theorem Reads.unread {b : Build} {w w' : Ram} (h : Reads b w w') : unread (advance w') = unread (advance w) := by
  rw [h.same]
  rfl

theorem feed_ok {b : Build} {w : Ram} (hx : IocbOk b w) {a : Byte} {w' : Ram} (h : (readByte b).run w = .ok a w') :
    feed b w = a :: feed b w' := by
  rcases readByte_cases b hx with ⟨a', w₁, hrun, hreads, hlt⟩ | ⟨w₁, d, hrun, -⟩
  · rw [hrun] at h
    cases h
    rw [feed, advance_unread hlt, feedN, hrun, feed, hreads.unread]
  · rw [hrun] at h
    cases h

theorem feed_error {b : Build} {w w' : Ram} (h : (readByte b).run w = .error () w') : feed b w = [] := by
  rw [feed]
  cases unread w with
  | zero => rfl
  | succ n => rw [feedN, h]

theorem length_feedN (b : Build) (n : ℕ) (w : Ram) : (feedN b n w).length ≤ n := by
  induction n generalizing w with
  | zero => exact le_rfl
  | succ n ih =>
    rw [feedN]
    cases (Loader.readByte b).run w with
    | ok a w' => exact Nat.succ_le_succ (ih w')
    | error e w' => exact Nat.zero_le _

/-- The bytes to come are the same for alike states. -/
theorem Alike.feed {b : Build} {w v : Ram} (h : Alike b w v) (hx : IocbOk b w) : feed b v = feed b w := by
  have hn (n : ℕ) : feedN b n v = feedN b n w := by
    induction n generalizing w v with
    | zero => rfl
    | succ n ih =>
      rcases h.readByte hx with ⟨a, w', v', hw, hv, halike⟩ | ⟨w', v', hw, hv⟩
      · rw [feedN, feedN, hw, hv]
        refine congrArg (a :: ·) (ih halike fun hd => ?_)
        rcases readByte_cases b hx with ⟨_, w₁, hrun, hreads, -⟩ | ⟨w₁, d, hrun, -⟩
        · rw [hw] at hrun
          cases hrun
          rw [hreads.same]
          exact hx hd
        · rw [hw] at hrun
          cases hrun
      · rw [feedN, feedN, hw, hv]
  have hunread : unread v = unread w := by rw [Loader.unread, Loader.unread, h.srcPtr, h.moduleEnd]
  rw [Loader.feed, Loader.feed, hunread, hn]

end NioApps.Loader

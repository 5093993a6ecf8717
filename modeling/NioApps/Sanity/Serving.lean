import NioApps.Sanity.Borrowing
import NioApps.Sanity.Supply
import NioApps.Spec.Stream

/-! The disk source over a file that CIO delivers: what it opens, what it asks for, and
the bytes that `read_byte` returns. -/

namespace NioApps.Loader

open Abort

section

variable {b : Build} {w w' : Ram} {file bs : List Byte}

/-! ### The log -/

theorem cioDone_log (a : Byte) (w : Ram) :
    (cioDone a w).log = w.log ++ [.cio a w.diskIocb (iocbWord w.diskIocb 4 w) (iocbWord w.diskIocb 8 w)] := by
  have hcommand : (setIocb w.diskIocb 2 a w).mem (0x0342 + w.diskIocb.setWidth 16) = a := setIocb_same ..
  have hbuffer := iocbWord_other w.diskIocb (show (4 : Word) ≠ 2 by decide) (by decide) a w
  have hlength := iocbWord_other w.diskIocb (show (8 : Word) ≠ 2 by decide) (by decide) a w
  simp only [cioDone, cio, Ram.setZp_log, Ram.record_log, Ram.setMem_log, hcommand, hbuffer, hlength]
  rfl

theorem refill_log (b : Build) (w : Ram) :
    (cioDone 7 (askRefill b w)).log = w.log ++ [.cio 7 w.diskIocb b.diskBuffer ((refillCount w).setWidth 16)] := by
  obtain ⟨hbuffer, hlength⟩ := askRefill_words b w
  refine (cioDone_log 7 (askRefill b w)).trans ?_
  change w.log ++ [.cio 7 w.diskIocb (iocbWord w.diskIocb 4 (askRefill b w)) (iocbWord w.diskIocb 8 (askRefill b w))] = _
  rw [hbuffer, hlength]

theorem readN_log (b : Build) (n : ℕ) (w : Ram) : Grows w (readN b n w) := by
  induction n generalizing w with
  | zero => exact refl_of Grows w
  | succ n ih =>
    have hread := (readByte_steady b w).log
    rw [readN]
    cases hrun : (readByte b).run w with
    | ok a w₁ =>
      rw [hrun] at hread
      exact trans_of Grows hread (ih w₁)
    | error e w₁ =>
      rw [hrun] at hread
      exact hread

/-! ### Reading through -/

/-- CIO delivers `bs`, the bytes of the file that come next, while the module is read through. -/
def Serving (b : Build) (file : List Byte) (w : Ram) (bs : List Byte) : Prop :=
  ∃ p es, (readN b (unread w) w).log = w.log ++ es ∧ delivered file p w.cioResults es = true ∧
    bs = (file.drop p).take bs.length

theorem readByte_taken (hd : b.diskSource = true) (hlt : w.zp.srcPtr < w.zp.moduleEnd) (hne : w.diskIndex ≠ w.diskCount) :
    ∃ a, (readByte b).run w = .ok a (advance (takeByte w)) :=
  ⟨_, readByte_disk hd hlt (diskReadByte_buffered b hne)⟩

theorem readN_taken (hd : b.diskSource = true) (hlt : w.zp.srcPtr < w.zp.moduleEnd) (hne : w.diskIndex ≠ w.diskCount) :
    readN b (unread w) w = readN b (unread (advance (takeByte w))) (advance (takeByte w)) := by
  obtain ⟨a, hrun⟩ := readByte_taken hd hlt hne
  rw [advance_unread hlt, readN, hrun]
  rfl

theorem refillCount_ne (hlt : w.zp.srcPtr < w.zp.moduleEnd) : refillCount w ≠ 0 := by
  have hleft : (w.zp.moduleEnd - w.zp.srcPtr).toNat ≠ 0 := by bv_omega
  have hhi := hi_toNat (w.zp.moduleEnd - w.zp.srcPtr)
  have hlo := lo_toNat (w.zp.moduleEnd - w.zp.srcPtr)
  simp only [refillCount, ne_eq]
  split_ifs with h1 h2
  · intro h0
    have hlo0 : (lo (w.zp.moduleEnd - w.zp.srcPtr)).toNat = 0 := congrArg BitVec.toNat h0
    have hhi0 : (hi (w.zp.moduleEnd - w.zp.srcPtr)).toNat = 0 := congrArg BitVec.toNat h1
    omega
  · decide
  · decide

/-- A refill that succeeds makes no difference to the reading through. -/
theorem readN_refilled (hd : b.diskSource = true) (hlt : w.zp.srcPtr < w.zp.moduleEnd) (heq : w.diskIndex = w.diskCount)
    (hok : (w.cioResults 0).status.msb = false) :
    readN b (unread w) w = readN b (unread (cioDone 7 (askRefill b w))) (cioDone 7 (askRefill b w)) := by
  have hne : (cioDone 7 (askRefill b w)).diskIndex ≠ (cioDone 7 (askRefill b w)).diskCount := fun h => refillCount_ne hlt h.symm
  rw [readN_taken hd (w := cioDone 7 (askRefill b w)) hlt hne, advance_unread hlt, readN,
    readByte_disk hd hlt (diskReadByte_refilled b heq hok)]
  rfl

theorem readByte_unfilled (hd : b.diskSource = true) (hlt : w.zp.srcPtr < w.zp.moduleEnd) (heq : w.diskIndex = w.diskCount)
    (hbad : (w.cioResults 0).status.msb = true) :
    (readByte b).run w = .error () ((cioDone 7 (askRefill b w)).setOutcome outFormat) := by
  simp only [readByte, EStateM.run_bind, EStateM.run_get, if_pos hlt, hd, if_true, diskReadByte_refill b heq, hbad]

theorem readN_failed (hd : b.diskSource = true) (hlt : w.zp.srcPtr < w.zp.moduleEnd) (heq : w.diskIndex = w.diskCount)
    (hbad : (w.cioResults 0).status.msb = true) :
    (readN b (unread w) w).log = (cioDone 7 (askRefill b w)).log := by
  rw [advance_unread hlt, readN, readByte_unfilled hd hlt heq hbad]
  rfl

theorem serving_delivers (hd : b.diskSource = true) : Delivers b (Serving b file) where
  take {w bs} h hne hlt := by
    obtain ⟨p, es, hlog, hdelivered, hbs⟩ := h
    rw [readN_taken hd hlt hne] at hlog
    exact ⟨p, es, hlog, hdelivered, hbs⟩
  refill {w bs} h heq hlt hpos hcount := by
    obtain ⟨p, es, hlog, hdelivered, hbs⟩ := h
    have hn : ((refillCount w).setWidth 16).toNat = min 128 bs.length := by
      rw [BitVec.toNat_setWidth, hcount]
      omega
    obtain ⟨fs, hgrow⟩ : ∃ fs, (readN b (unread w) w).log = (cioDone 7 (askRefill b w)).log ++ fs := by
      cases hstatus : (w.cioResults 0).status.msb with
      | true => exact ⟨[], by rw [readN_failed hd hlt heq hstatus, List.append_nil]⟩
      | false =>
        obtain ⟨fs, hfs, -⟩ := readN_log b (unread (cioDone 7 (askRefill b w))) (cioDone 7 (askRefill b w))
        exact ⟨fs, by rw [readN_refilled hd hlt heq hstatus, hfs]⟩
    -- the refill is the first event of the reading through
    obtain rfl : es = .cio 7 w.diskIocb b.diskBuffer ((refillCount w).setWidth 16) :: fs := by
      rw [hlog, refill_log, List.append_assoc] at hgrow
      exact List.append_cancel_left hgrow
    rw [delivered, if_pos rfl, hn, Bool.and_eq_true, Bool.and_eq_true, beq_iff_eq, Bool.not_eq_true'] at hdelivered
    obtain ⟨⟨hstatus, hdata⟩, hrest⟩ := hdelivered
    refine ⟨hstatus, fun i hi => ?_, p + min 128 bs.length, fs, ?_, hrest, ?_⟩
    · have hbyte := congrArg (fun l => l[i]?) hdata
      simp only [getElem?_slice _ _ _ _ hi, Nat.zero_add, List.getElem?_take_of_lt hi] at hbyte
      rw [hbs, List.getD_eq_getElem?_getD, List.getElem?_take_of_lt (by omega), ← hbyte]
      rfl
    · rw [← readN_refilled hd hlt heq hstatus, hgrow]
    · have hdrop := congrArg (List.drop (min 128 bs.length)) hbs
      rw [List.drop_take, List.drop_drop] at hdrop
      rw [List.length_drop]
      exact hdrop

/-- `read_byte` returns the bytes of the file. -/
theorem Serving.feed_eq (h : Serving b file w bs) (hd : b.diskSource = true) (hb : b.Laid) (hx : IocbOk b w)
    (hempty : w.diskIndex = w.diskCount) (hlength : w.zp.srcPtr.toNat + bs.length = w.zp.moduleEnd.toNat) : feed b w = bs :=
  feed_disk (j := 0) (serving_delivers hd) hd hb hx hlength
    ⟨congrArg BitVec.toNat hempty, Nat.zero_le _, fun i hi => absurd hi (Nat.not_lt_zero i), h⟩

/-! ### What is asked for -/

@[simp] theorem asked_append (es fs : List Event) : asked (es ++ fs) = asked es + asked fs := by
  simp [asked]

/-- The part of the module that has been asked for. -/
def Ram.fetched (w : Ram) : ℕ := w.zp.srcPtr.toNat + (w.diskCount.toNat - w.diskIndex.toNat)

/-- The buffer is not ahead of the end of the module. -/
structure Level (w : Ram) : Prop where
  index : w.diskIndex.toNat ≤ w.diskCount.toNat
  fetched : w.fetched ≤ w.zp.moduleEnd.toNat

/-- From `w` to `w'`, all that CIO is asked for are the bytes that come next. -/
def Asks (b : Build) (w w' : Ram) : Prop :=
  ∃ es, w'.log = w.log ++ es ∧ w'.zp.moduleEnd = w.zp.moduleEnd ∧
    (Level w → Level w' ∧ w'.fetched = w.fetched + asked es ∧ ∀ e ∈ es, e.Refill b)

instance (b : Build) : IsPreorder Ram (Asks b) where
  refl w := ⟨[], (List.append_nil _).symm, rfl, fun h => ⟨h, rfl, by simp⟩⟩
  trans w₁ w₂ w₃ := by
    rintro ⟨es, hlog, hend, h⟩ ⟨fs, hlog', hend', h'⟩
    refine ⟨es ++ fs, by rw [hlog', hlog, List.append_assoc], hend'.trans hend, fun hlevel => ?_⟩
    obtain ⟨hlevel₂, hfetched, hes⟩ := h hlevel
    obtain ⟨hlevel₃, hfetched', hfs⟩ := h' hlevel₂
    refine ⟨hlevel₃, ?_, fun e he => (List.mem_append.1 he).elim (hes e) (hfs e)⟩
    rw [hfetched', hfetched, asked_append, Nat.add_assoc]

theorem Asks.same (hlog : w'.log = w.log) (hzp : (w'.zp.srcPtr, w'.zp.moduleEnd) = (w.zp.srcPtr, w.zp.moduleEnd))
    (hbuffer : (w'.diskIndex, w'.diskCount) = (w.diskIndex, w.diskCount)) : Asks b w w' := by
  simp only [Prod.mk.injEq] at hzp hbuffer
  have hfetched : w'.fetched = w.fetched := by rw [Ram.fetched, Ram.fetched, hzp.1, hbuffer.1, hbuffer.2]
  refine ⟨[], by rw [hlog, List.append_nil], hzp.2, fun h => ⟨⟨?_, ?_⟩, hfetched, by simp⟩⟩
  · rw [hbuffer.1, hbuffer.2]
    exact h.index
  · rw [hfetched, hzp.2]
    exact h.fetched

theorem takeByte_asks (hlt : w.zp.srcPtr < w.zp.moduleEnd) (hne : w.diskIndex ≠ w.diskCount) :
    Asks b w (advance (takeByte w)) := by
  refine ⟨[], (List.append_nil _).symm, rfl, fun h => ?_⟩
  have hindex := h.index
  have hcount := w.diskCount.isLt
  have hne' : w.diskIndex.toNat ≠ w.diskCount.toNat := fun heq => hne (BitVec.eq_of_toNat_eq heq)
  have hnext : (w.diskIndex + 1).toNat = w.diskIndex.toNat + 1 := by bv_omega
  have hsrc : (w.zp.srcPtr + 1).toNat = w.zp.srcPtr.toNat + 1 := by bv_omega
  have hfetched : (advance (takeByte w)).fetched = w.fetched := by
    change (w.zp.srcPtr + 1).toNat + (w.diskCount.toNat - (w.diskIndex + 1).toNat) = w.zp.srcPtr.toNat + _
    omega
  refine ⟨⟨?_, ?_⟩, hfetched, by simp⟩
  · change (w.diskIndex + 1).toNat ≤ w.diskCount.toNat
    omega
  · rw [hfetched]
    exact h.fetched

theorem refill_asks (hlt : w.zp.srcPtr < w.zp.moduleEnd) (heq : w.diskIndex = w.diskCount) :
    Asks b w (cioDone 7 (askRefill b w)) := by
  refine ⟨_, refill_log b w, rfl, fun h => ?_⟩
  have hcount : (refillCount w).toNat = min 128 (w.zp.moduleEnd.toNat - w.zp.srcPtr.toNat) := by
    have hlength : w.zp.srcPtr.toNat + (List.replicate (w.zp.moduleEnd.toNat - w.zp.srcPtr.toNat) (0 : Byte)).length =
        w.zp.moduleEnd.toNat := by
      rw [List.length_replicate]
      bv_omega
    rw [refillCount_toNat hlength, List.length_replicate]
  have hn : ((refillCount w).setWidth 16).toNat = (refillCount w).toNat := by
    rw [BitVec.toNat_setWidth]
    omega
  have hlt' := BitVec.lt_def.1 hlt
  have hnew : (cioDone 7 (askRefill b w)).fetched = w.zp.srcPtr.toNat + (refillCount w).toNat := rfl
  have hold : w.fetched = w.zp.srcPtr.toNat := by rw [Ram.fetched, heq, Nat.sub_self, Nat.add_zero]
  refine ⟨⟨Nat.zero_le _, ?_⟩, ?_, fun e he => ?_⟩
  · rw [hnew]
    change _ ≤ w.zp.moduleEnd.toNat
    omega
  · rw [hnew, hold]
    simp only [asked, List.map_cons, List.map_nil, List.sum_cons, List.sum_nil, hn, Nat.add_zero]
  · obtain rfl := List.mem_singleton.1 he
    refine ⟨rfl, rfl, ?_, ?_⟩ <;> rw [hn] <;> omega

theorem readByte_asks (hd : b.diskSource = true) : Keeps (Asks b) (readByte b) := by
  intro w
  by_cases hlt : w.zp.srcPtr < w.zp.moduleEnd
  · by_cases hne : w.diskIndex = w.diskCount
    · cases hstatus : (w.cioResults 0).status.msb with
      | true =>
        rw [readByte_unfilled hd hlt hne hstatus, left_error]
        refine trans_of (Asks b) (refill_asks hlt hne) ?_
        exact .same rfl rfl rfl
      | false =>
        rw [readByte_disk hd hlt (diskReadByte_refilled b hne hstatus), left_ok]
        refine trans_of (Asks b) (refill_asks hlt hne) ?_
        exact takeByte_asks (w := cioDone 7 (askRefill b w)) hlt fun h => refillCount_ne hlt h.symm
    · rw [readByte_disk hd hlt (diskReadByte_buffered b hne), left_ok]
      exact takeByte_asks hlt hne
  · have hrun : (readByte b).run w = .error () ((w.setDetail 0xe6).setOutcome outFormat) := by
      simp only [readByte, EStateM.run_bind, EStateM.run_get, if_neg hlt]
      rfl
    rw [hrun, left_error]
    exact .same rfl rfl rfl

theorem asks_carried (hd : b.diskSource = true) : Carried b (Asks b) where
  read := readByte_asks hd
  target a v w := by
    refine ⟨[.target a], rfl, rfl, fun h => ⟨⟨h.index, h.fetched⟩, rfl, fun e he => ?_⟩⟩
    obtain rfl := List.mem_singleton.1 he
    trivial
  between h := by
    simp only [Ram.between, Ram.still, Prod.mk.injEq] at h
    exact .same h.1.1 (Prod.ext h.2.1.1 h.2.1.2) (Prod.ext h.2.2.1.1 h.2.2.1.2)

/-! ### The opening -/

/-- What the disk source has done before `load_module`: the opening and the first 48 bytes. -/
structure Opened (b : Build) (w w' : Ram) : Prop where
  log : ∃ x p n, w'.log = w.log ++ [.cio 3 x p n, .cio 7 x b.stage 48]
  results : w'.cioResults = fun k => w.cioResults (k + 2)
  stage : ∀ i < 48, w'.mem (b.stage + BitVec.ofNat 16 i) = (w.cioResults 1).data i
  empty : w'.diskIndex = w'.diskCount

theorem Opened.scanned {v : Ram} (h : Opened b w w') (hs : Scanned w' v) : Opened b w v := by
  obtain ⟨z, r, s, rfl⟩ := hs
  exact ⟨h.log, h.results, h.stage, h.empty⟩

theorem diskOpenFree_opened (hb : b.Ordered) (hd : b.diskSource = true) {x : Byte} (hx : x ≤ 0x70) (w : Ram) :
    wp (diskOpenFree b x) (fun c w' => c = false → Opened b w w') (fun _ => False) w := by
  rw [wp, diskOpenFree_run]
  split_ifs with h
  · exact fun hc => by cases hc
  · intro _
    obtain ⟨hbuffer, hlength⟩ := askHeader_words b x (cioDone 3 (askOpen b x w))
    refine ⟨⟨x, iocbWord x 4 (askOpen b x w), iocbWord x 8 (askOpen b x w), ?_⟩, rfl, fun i hi => ?_, rfl⟩
    · rw [cioDone_log]
      change (cioDone 3 (askOpen b x w)).log ++ [.cio 7 x (iocbWord x 4 (askHeader b x (cioDone 3 (askOpen b x w))))
        (iocbWord x 8 (askHeader b x (cioDone 3 (askOpen b x w))))] = _
      rw [hbuffer, hlength, cioDone_log, List.append_assoc]
      rfl
    · have hoff : (b.stage + BitVec.ofNat 16 i - b.stage).toNat = i := by bv_omega
      have hlow : ¬b.stage + BitVec.ofNat 16 i - (0x0340 + x.setWidth 16) < 16 := by
        intro hin
        have hiocb : b.stage + BitVec.ofNat 16 i - 0x0340 < 0x80 := by
          generalize b.stage + BitVec.ofNat 16 i = a at hin
          bv_omega
        refine (hb.iocb_apart hd hiocb).1 ?_
        rw [BitVec.lt_def, hoff]
        exact hi
      refine (cioDone_mem 7 (askHeader b x (cioDone 3 (askOpen b x w))) hlow).trans ?_
      change (if (7 : Byte) = 7 ∧ b.stage + BitVec.ofNat 16 i - iocbWord x 4 (askHeader b x (cioDone 3 (askOpen b x w))) <
        iocbWord x 8 (askHeader b x (cioDone 3 (askOpen b x w))) then (w.cioResults 1).data
          (b.stage + BitVec.ofNat 16 i - iocbWord x 4 (askHeader b x (cioDone 3 (askOpen b x w)))).toNat else _) = _
      rw [hbuffer, hlength, if_pos ⟨rfl, by rw [BitVec.lt_def, hoff]; exact hi⟩, hoff]

theorem diskOpenHeader_opened (hb : b.Ordered) (hd : b.diskSource = true) {w₀ w : Ram} (hlog : w.log = w₀.log)
    (hresults : w.cioResults = w₀.cioResults) :
    wp (diskOpenHeader b) (fun c w' => c = false → Opened b w₀ w') (fun _ => False) w := by
  refine wp_bind.2 (wp_get.2 (wp_ite (fun _ hc => by cases hc) fun _ => ?_))
  cases h : diskFind w.mem with
  | none => exact fun hc => by cases hc
  | some x =>
    refine (diskOpenFree_opened hb hd (diskFindLoop_le (by decide) (by decide) h) w).mono (fun c w' hw' hc => ?_) fun _ => id
    obtain ⟨hlog', hresults', hstage, hempty⟩ := hw' hc
    rw [hlog] at hlog'
    rw [hresults] at hresults' hstage
    exact ⟨hlog', hresults', hstage, hempty⟩

theorem beforeLoad_opened (hb : b.Ordered) (hd : b.diskSource = true) (h : (beforeLoad b).run w = .ok () w') :
    Opened b w w' := by
  have hwp : wp (beforeLoad b) (fun _ w' => Opened b w w') (fun _ => True) w := by
    refine wp_bind.2 (wp_modify.2 (wp_ite (fun _ => wp_bind.2 (wp_modify.2 ?_)) fun hd' => absurd hd hd'))
    refine orLeave_wp (m := diskOpenHeader b) (f := failFormat) (k := place b)
      (@diskOpenHeader_opened b hb hd w _ rfl rfl) (fun _ _ => trivial) fun w₁ h => ?_
    exact (wp_left.2 ((h rfl).scanned (place_scanned b w₁))).mono (fun _ _ => id) fun _ _ => trivial
  exact hwp.ok h

/-- In the staged build nothing moves. -/
theorem beforeLoad_staged (hs : b.diskSource = false) (h : (beforeLoad b).run w = .ok () w') : w'.mem = w.mem := by
  have hwp : wp (beforeLoad b) (fun _ w' => w'.mem = w.mem) (fun _ => True) w := by
    refine wp_bind.2 (wp_modify.2 (wp_ite (fun hd => by rw [hs] at hd; cases hd) fun _ => ?_))
    obtain ⟨z, r, s, hscanned⟩ := place_scanned b (initResult (saveCallerZp w))
    have hmem : (left ((place b).run (initResult (saveCallerZp w)))).mem = w.mem := by
      rw [hscanned]
      rfl
    exact (wp_left (P := fun w' => w'.mem = w.mem) |>.2 hmem).mono (fun _ _ => id) fun _ _ => trivial
  exact hwp.ok h

end

end NioApps.Loader

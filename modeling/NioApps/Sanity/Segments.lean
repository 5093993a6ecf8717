import NioApps.Sanity.Loading

/-! The options, the segments and the relocation tables: each routine of
`load_module` performs its part of the plan. -/

namespace NioApps.Loader

open Abort Image

/-! ### The log -/

theorem Grows.of_log {w w' : Ram} (h : w'.log = w.log) : Grows w w' := ⟨[], by rw [h, List.append_nil], by simp⟩

theorem Grows.of_event {w w' : Ram} {e : Event} (h : w'.log = w.log ++ [e]) (he : e.Loading) : Grows w w' :=
  ⟨[e], h, fun _ hmem => List.mem_singleton.1 hmem ▸ he⟩

/-- All that the steps between reads and stores leave alone. -/
def Ram.still (w : Ram) : List Event × (Word → Byte) × Anchor × (Word × Word) × Byte :=
  (w.log, w.mem, w.anchor, (w.zp.basePtr, w.zp.targetEnd), w.report.outcome)

/-- With what reading depends on. -/
def Ram.between (w : Ram) :
    (List Event × (Word → Byte) × Anchor × (Word × Word) × Byte) × (Word × Word) × (Byte × Byte) × (ℕ → CioResult) :=
  (w.still, (w.zp.srcPtr, w.zp.moduleEnd), (w.diskIndex, w.diskCount), w.cioResults)

theorem Steady.of_still {b : Build} {w w' : Ram} (h : w'.still = w.still) : Steady b w w' := by
  simp only [Ram.still, Prod.mk.injEq] at h
  obtain ⟨hlog, hmem, hanchor, hbase, hout⟩ := h
  exact ⟨.of_log hlog, hanchor, Prod.ext hbase.1 hbase.2, .inl hout, fun a _ _ => congrFun hmem a⟩

theorem target_steady {b : Build} (a : Word) (v : Byte) (w : Ram) : Steady b w (w.target a v) := by
  refine ⟨.of_event rfl trivial, rfl, rfl, .inl rfl, fun p hp _ => Function.update_of_ne ?_ ..⟩
  rintro rfl
  exact hp (List.mem_filterMap.2 ⟨.target p, List.mem_append_right _ (List.mem_singleton_self _), rfl⟩)

theorem failFormat_steady {α : Type} {b : Build} : Keeps (Steady b) (failFormat : Load α) := fun _ =>
  ⟨.of_log rfl, rfl, rfl, .inr rfl, fun _ _ _ => rfl⟩

theorem setIocb_apart {x : Byte} {k a : Word} (hk : k < 16) (ha : ¬a - (0x0340 + x.setWidth 16) < 16) (v : Byte) (w : Ram) :
    (setIocb x k v w).mem a = w.mem a := by
  refine Function.update_of_ne ?_ ..
  rintro rfl
  exact ha (by bv_omega)

theorem askRefill_mem (b : Build) (w : Ram) {a : Word} (ha : ¬a - (0x0340 + w.diskIocb.setWidth 16) < 16) :
    (askRefill b w).mem a = w.mem a :=
  (setIocb_apart (k := 9) (by decide) ha _ _).trans <| (setIocb_apart (k := 8) (by decide) ha _ _).trans <|
    (setIocb_apart (k := 5) (by decide) ha _ _).trans (setIocb_apart (k := 4) (by decide) ha _ _)

/-- A refill writes the IOCB and the buffer. -/
theorem refill_steady {b : Build} (hd : b.diskSource = true) (w : Ram) : Steady b w (cioDone 7 (askRefill b w)) := by
  refine ⟨.of_event rfl trivial, rfl, rfl, .inl rfl, fun a _ hlent => ?_⟩
  have hiocb : ¬a - (0x0340 + w.diskIocb.setWidth 16) < 16 := fun hin => hlent ⟨hd, .inr hin⟩
  obtain ⟨hbuffer, hlength⟩ := askRefill_words b w
  have hcount := refillCount_le w
  have hother : ¬a - b.diskBuffer < (refillCount w).setWidth 16 := fun hlt => hlent ⟨hd, .inl (by bv_omega)⟩
  refine (cioDone_mem 7 (askRefill b w) hiocb).trans ((if_neg fun hin => hother ?_).trans (askRefill_mem b w hiocb))
  have hin' : a - iocbWord w.diskIocb 4 (askRefill b w) < iocbWord w.diskIocb 8 (askRefill b w) := hin.2
  rwa [hbuffer, hlength] at hin'

theorem diskRefill_steady {b : Build} (hd : b.diskSource = true) : Keeps (Steady b) (diskRefill b) := by
  intro w
  rw [diskRefill_run]
  split_ifs
  · exact (refill_steady hd w).trans (failFormat_steady _)
  · exact refill_steady hd w

theorem diskReadByte_steady {b : Build} (hd : b.diskSource = true) : Keeps (Steady b) (diskReadByte b) := by
  have htake : Keeps (Steady b) (do
      let w ← get
      modify fun w => { w with diskIndex := w.diskIndex + 1 }
      return w.mem (b.diskBuffer + w.diskIndex.setWidth 16) : Load Byte) := fun w => .of_still rfl
  intro w
  by_cases h : w.diskIndex = w.diskCount
  · have hrun : (diskReadByte b).run w = (diskRefill b >>= fun _ => do
        let w ← get
        modify fun w => { w with diskIndex := w.diskIndex + 1 }
        return w.mem (b.diskBuffer + w.diskIndex.setWidth 16) : Load Byte).run w := by
      simp only [diskReadByte, EStateM.run_bind, EStateM.run_get, if_pos h]
    rw [hrun]
    exact Keeps.bind (diskRefill_steady hd) (fun _ => htake) w
  · rw [diskReadByte_buffered b h]
    exact .of_still rfl

theorem readByte_steady (b : Build) : Keeps (Steady b) (readByte b) := by
  refine .get_bind fun w => ?_
  split_ifs with hlt hd
  · refine Keeps.bind (diskReadByte_steady hd) (fun a => ?_) w
    exact .bind (.modify fun w => .of_still rfl) fun _ => .pure a
  · exact .of_still rfl
  · exact Keeps.bind (.modify fun w => .of_still rfl) (fun _ => failFormat_steady) w

/-- A relation that reads, stores to the target and steps between them keep. -/
structure Carried (b : Build) (R : Ram → Ram → Prop) : Prop where
  read : Keeps R (readByte b)
  target : ∀ a v w, R w (w.target a v)
  between : ∀ {w w'}, w'.between = w.between → R w w'

theorem steady_carried (b : Build) : Carried b (Steady b) :=
  ⟨readByte_steady b, target_steady, fun h => .of_still (congrArg Prod.fst h)⟩

section Carried

variable {b : Build} {R : Ram → Ram → Prop}

theorem Carried.setTarget (h : Carried b R) (w : Ram) : R w (setTarget w) := h.between rfl

variable [IsPreorder Ram R]

theorem Carried.skipBytes (h : Carried b R) (n : ℕ) : Keeps R (skipBytes b n) := by
  induction n with
  | zero => exact .pure ()
  | succ n ih => exact .bind h.read fun _ => ih

theorem Carried.skipOptions (h : Carried b R) (n : ℕ) : Keeps R (skipOptions b n) := by
  induction n with
  | zero => exact .pure true
  | succ n ih =>
    refine .bind h.read fun a => .bind (.modify fun w => h.between rfl) fun _ => .ite (fun _ => ?_) fun _ => ?_
    · exact .bind (.modify fun w => h.between rfl) fun _ => .pure false
    · exact .ite (fun _ => .pure true) fun _ => .bind (h.skipBytes _) fun _ => ih

theorem Carried.copyLoop (h : Carried b R) (n : ℕ) : Keeps R (copyLoop b n) := by
  induction n with
  | zero => exact .pure ()
  | succ n ih =>
    refine .bind h.read fun a => .bind (.modify fun w => ?_) fun _ => ih
    refine trans_of R (h.target w.zp.destPtr a w) ?_
    exact h.between rfl

theorem Carried.clearLoop (h : Carried b R) (n : ℕ) : Keeps R (clearLoop n) := by
  induction n with
  | zero => exact .pure ()
  | succ n ih =>
    refine .bind (.modify fun w => ?_) fun _ => ih
    refine trans_of R (h.target w.zp.destPtr 0 w) ?_
    exact h.between rfl

theorem Carried.relocLow (h : Carried b R) (w : Ram) : R w (relocLow w) :=
  trans_of R (h.setTarget w) (h.target ..)

theorem Carried.relocHigh (h : Carried b R) (low : Byte) (w : Ram) : R w (relocHigh low w) := by
  have hsum : R w { w with highAddend := highSum low w.zp.relocValue } := h.between rfl
  exact trans_of R (trans_of R hsum (h.setTarget _)) (h.target ..)

theorem Carried.relocWord (h : Carried b R) (w : Ram) : R w (relocWord w) :=
  trans_of R (trans_of R (h.setTarget w) (h.target _ _ (Loader.setTarget w))) (h.target ..)

theorem Carried.relocKind (h : Carried b R) : Keeps R (relocKind b) := by
  refine .get_bind fun w => ?_
  have hword : Keeps R (do modify Loader.relocWord; return true : Load Bool) :=
    .bind (.modify h.relocWord) fun _ => .pure true
  have hhigh : Keeps R (do let low ← readByte b; modify (Loader.relocHigh low); return true : Load Bool) :=
    .bind h.read fun low => .bind (.modify (h.relocHigh low)) fun _ => .pure true
  have hlow : Keeps R (do modify Loader.relocLow; return true : Load Bool) :=
    .bind (.modify h.relocLow) fun _ => .pure true
  dsimp only
  split_ifs
  · exact hword w
  · exact h.between rfl
  · exact hhigh w
  · exact h.between rfl
  · exact hlow w
  · exact h.between rfl
  · exact h.between rfl

theorem Carried.relocDelta (h : Carried b R) (a : Byte) : Keeps R (relocDelta b a) := by
  refine .bind (.modify fun w => h.between rfl) fun _ => .bind h.read fun d => ?_
  refine .bind (.modify fun w => h.between rfl) fun _ => .get_bind fun w => ?_
  cases relocBase d w.report.start with
  | none => exact h.between rfl
  | some v =>
    refine Keeps.bind (.modify fun w => ?_) (fun _ => h.relocKind) w
    exact h.between rfl

theorem Carried.relocNext (h : Carried b R) (n : ℕ) : Keeps R (relocNext b n) := by
  induction n with
  | zero => exact .pure true
  | succ n ih =>
    refine .bind h.read fun a => .ite (fun _ => .pure false) fun _ => .ite (fun _ => ?_) fun _ => ?_
    · exact .bind (.modify fun w => h.between rfl) fun _ => ih
    · exact .bind (h.relocDelta a) fun c => .ite (fun _ => ih) fun _ => .pure true

theorem Carried.relocateSegment (h : Carried b R) : Keeps R (relocateSegment b) :=
  .bind (.modify fun _ => h.between rfl) fun _ => .get_bind fun _ => h.relocNext _ _

end Carried

/-! ### Edits -/

theorem mem_image (S : Word) (w : Ram) (a : Word) : w.mem a = w.image S (a - S) :=
  congrArg w.mem (by bv_omega)

theorem target_image (S o : Word) (v : Byte) (w : Ram) :
    (w.target (S + o) v).image S = Function.update (w.image S) o v := by
  funext o'
  simp [Ram.image, Ram.target, Function.update_apply]

/-- One store, after registers were set. -/
theorem Edits.target {S : Word} {e : Edit} {v : Byte} {w w₀ : Ram} {p : Word} (hp : p = S + e.offset)
    (hoffsets : e.offsets = [e.offset]) (happly : e.apply (w.image S) = Function.update (w.image S) e.offset v)
    (hframe : w₀.frame = w.frame) (hmem : w₀.mem = w.mem) (hlog : w₀.log = w.log)
    (hsource : (w₀.zp.srcPtr, w₀.diskIndex, w₀.diskCount, w₀.cioResults) =
      (w.zp.srcPtr, w.diskIndex, w.diskCount, w.cioResults)) :
    Edits S e w (w₀.target p v) := by
  have himage : w₀.image S = w.image S := funext fun o => congrFun hmem _
  refine ⟨hframe, hsource, fun a => ?_, ?_⟩
  · rw [mem_image S, hp, target_image, happly, himage]
  · change targets (w₀.log ++ [.target p]) = _
    rw [hlog, targets_append, hoffsets, hp]
    rfl

theorem targetPtr_eq {S segment : Word} {w : Ram} (h : w.zp.relocPtr = S + segment) :
    (setTarget w).zp.targetPtr = S + (segment + w.relocOffset) := by
  change w.zp.relocPtr + w.relocOffset = _
  rw [h, BitVec.add_assoc]

theorem relocLow_edits {S segment : Word} {w : Ram} (h : w.zp.relocPtr = S + segment) :
    Edits S ⟨segment + w.relocOffset, .low w.zp.relocValue⟩ w (relocLow w) := by
  refine .target (targetPtr_eq h) rfl ?_ rfl rfl rfl rfl
  simp only [targetPtr_eq h]
  rfl

theorem relocHigh_edits {S segment : Word} {w : Ram} (h : w.zp.relocPtr = S + segment) (low : Byte) :
    Edits S ⟨segment + w.relocOffset, .high low w.zp.relocValue⟩ w (relocHigh low w) := by
  have hptr := targetPtr_eq (w := { w with highAddend := highSum low w.zp.relocValue }) h
  refine .target hptr rfl ?_ rfl rfl rfl rfl
  simp only [hptr]
  rfl

theorem relocWord_edits {S segment : Word} {w : Ram} (h : w.zp.relocPtr = S + segment) :
    Edits S ⟨segment + w.relocOffset, .word w.zp.relocValue⟩ w (relocWord w) := by
  have hptr := targetPtr_eq h
  have hnext : S + (segment + w.relocOffset) + 1 = S + (segment + w.relocOffset + 1) := BitVec.add_assoc ..
  have hrun : relocWord w =
      (((setTarget w).target (S + (segment + w.relocOffset))
          (w.mem (S + (segment + w.relocOffset)) + lo w.zp.relocValue)).target (S + (segment + w.relocOffset + 1))
        (((setTarget w).target (S + (segment + w.relocOffset))
            (w.mem (S + (segment + w.relocOffset)) + lo w.zp.relocValue)).mem (S + (segment + w.relocOffset + 1)) +
          highSum (w.mem (S + (segment + w.relocOffset))) w.zp.relocValue)) := by
    rw [← hnext, ← hptr]
    rfl
  rw [hrun]
  refine ⟨rfl, rfl, fun a => ?_, ?_⟩
  · rw [mem_image S, target_image, target_image]
    have hsecond : ((setTarget w).target (S + (segment + w.relocOffset))
        (w.mem (S + (segment + w.relocOffset)) + lo w.zp.relocValue)).mem (S + (segment + w.relocOffset + 1)) =
        Function.update (w.image S) (segment + w.relocOffset)
          (w.mem (S + (segment + w.relocOffset)) + lo w.zp.relocValue) (segment + w.relocOffset + 1) := by
      rw [mem_image S, target_image]
      congr 1
      bv_omega
    rw [hsecond]
    rfl
  · simp [Ram.target, targets, Edit.offsets, setTarget]

/-! ### Relocation records -/

/-- The registers of `relocate_segment`. -/
structure Relocating (S segment size : Word) (w : Ram) : Prop where
  ptr : w.zp.relocPtr = S + segment
  size : w.segmentSize = size

theorem Relocating.took {b : Build} {S segment size : Word} {w w' : Ram} (hr : Relocating S segment size w)
    (h : Took b w w') : Relocating S segment size w' := by
  obtain ⟨w₀, hreads, rfl⟩ := h
  rw [hreads.same]
  exact ⟨hr.ptr, hr.size⟩

theorem Took.offset_value {b : Build} {w w' : Ram} (h : Took b w w') :
    w'.relocOffset = w.relocOffset ∧ w'.zp.relocValue = w.zp.relocValue := by
  obtain ⟨w₀, hreads, rfl⟩ := h
  rw [hreads.same]
  exact ⟨rfl, rfl⟩

theorem relocKind_performs {b : Build} {S A segment size off v : Word} {w : Ram} {d : Byte} {bs : List Byte}
    (hp : Placed b S A w) (hfeed : feed b w = bs) (hr : Relocating S segment size w) (hoff : w.relocOffset = off)
    (hd : w.relocDescriptor = d) (hv : w.zp.relocValue = v) (hbase : relocBase d S = some v) :
    Performs b S A w true false (fun w' => Relocating S segment size w' ∧ w'.relocOffset = off)
      (entry S segment size off (d :: bs)) ((relocKind b).run w) := by
  subst hfeed hoff hd hv
  have hword : wordInSegment w = decide (w.relocOffset + 1 < size) := by rw [wordInSegment, hr.size]
  have htarget : targetInSegment w = decide (w.relocOffset < size) := by rw [targetInSegment, hr.size]
  simp only [entry, hbase, relocKind, EStateM.run_bind, EStateM.run_get, hword, htarget, decide_eq_true_eq]
  split_ifs with hkind hin hkind' hin' hkind'' hin''
  · exact performs_edit hp rfl (relocWord_edits hr.ptr) ⟨⟨hr.ptr, hr.size⟩, rfl⟩
  · exact .stop (.same rfl rfl rfl) rfl
  · refine performs_read hp (fun hnil => by rw [hnil]) fun l rest w' hfeed hrest htook hp' => ?_
    have hr' := hr.took htook
    obtain ⟨hoff, hv⟩ := htook.offset_value
    rw [hfeed, ← hoff, ← hv]
    exact performs_edit hp' hrest (relocHigh_edits hr'.ptr l) ⟨⟨hr'.ptr, hr'.size⟩, rfl⟩
  · exact .stop (.same rfl rfl rfl) rfl
  · exact performs_edit hp rfl (relocLow_edits hr.ptr) ⟨⟨hr.ptr, hr.size⟩, rfl⟩
  · exact .stop (.same rfl rfl rfl) rfl
  · exact .stop (.same rfl rfl rfl) rfl

/-- What `relocDelta` does with the result of `relocBase`. -/
def relocFrom (b : Build) : Option Word → Load Bool
  | none => pure false
  | some value => do
    modify fun w => w.setZp { w.zp with relocValue := value }
    relocKind b

theorem relocDelta_performs {b : Build} {S A segment size : Word} {w : Ram} (a : Byte) (hp : Placed b S A w)
    (hr : Relocating S segment size w) :
    Performs b S A w true false
      (fun w' => Relocating S segment size w' ∧ w'.relocOffset = w.relocOffset + a.setWidth 16)
      (entry S segment size (w.relocOffset + a.setWidth 16) (feed b w)) ((relocDelta b a).run w) := by
  refine performs_modify ⟨rfl, rfl, rfl, rfl⟩ hp fun w₁ hw₁ hp₁ hfeed₁ => ?_
  have hr₁ : Relocating S segment size w₁ := by
    rw [hw₁]
    exact ⟨hr.ptr, hr.size⟩
  have hoff₁ : w₁.relocOffset = w.relocOffset + a.setWidth 16 := by rw [hw₁]
  rw [← hfeed₁, ← hoff₁]
  clear hw₁ hfeed₁ hoff₁
  refine performs_read hp₁ (fun hnil => by rw [hnil]; rfl) fun d bs w₂ hfeed hrest htook hp₂ => ?_
  rw [hfeed, ← htook.offset_value.1]
  refine performs_modify ⟨rfl, rfl, rfl, rfl⟩ hp₂ fun w₃ hw₃ hp₃ hfeed₃ => ?_
  have hr₃ : Relocating S segment size w₃ := by
    rw [hw₃]
    exact ⟨(hr₁.took htook).ptr, (hr₁.took htook).size⟩
  have hd : w₃.relocDescriptor = d := by rw [hw₃]
  have hoff₃ : w₃.relocOffset = w₂.relocOffset := by rw [hw₃]
  rw [← hoff₃]
  change Performs _ _ _ _ _ _ _ _ ((relocFrom b (relocBase d w₃.report.start)).run w₃)
  rw [hp₃.start]
  cases hbase : relocBase d S with
  | none =>
    simp only [entry, hbase]
    exact .stop (.same rfl rfl rfl) rfl
  | some v =>
    refine performs_modify ⟨rfl, rfl, rfl, rfl⟩ hp₃ fun w₄ hw₄ hp₄ hfeed₄ => ?_
    have hr₄ : Relocating S segment size w₄ := by
      rw [hw₄]
      exact ⟨hr₃.ptr, hr₃.size⟩
    exact relocKind_performs hp₄ (hfeed₄.trans (hfeed₃.trans hrest)) hr₄ (by rw [hw₄]; rfl) (by rw [hw₄]; exact hd)
      (by rw [hw₄]; rfl) hbase

/-! ### Tables -/

theorem entry_rest {start segment size off : Word} {bs rest : List Byte}
    (h : (entry start segment size off bs).ending = .done rest) : rest.length < bs.length := by
  cases bs with
  | nil => cases h
  | cons d bs =>
    simp only [entry] at h
    cases hbase : relocBase d start with
    | none => simp [hbase, Plan.stop] at h
    | some v =>
      simp only [hbase] at h
      split_ifs at h
      · cases h
        simp
      · cases h
      · cases bs with
        | nil => cases h
        | cons l bs =>
          cases h
          simp
      · cases h
      · cases h
        simp
      · cases h
      · cases h

theorem Plan.andThen_congr {p : Plan} {q q' : List Byte → Plan}
    (h : ∀ rest, p.ending = .done rest → q rest = q' rest) : p.andThen q = p.andThen q' := by
  rw [Plan.andThen, Plan.andThen]
  cases he : p.ending with
  | done rest => simp only [h rest he]
  | _ => rfl

/-- More rounds than bytes make no difference. -/
theorem tableN_eq {start segment size off : Word} {n m : ℕ} {bs : List Byte} (hn : bs.length < n)
    (hm : bs.length < m) : tableN start segment size n off bs = tableN start segment size m off bs := by
  induction n generalizing m off bs with
  | zero => exact absurd hn (Nat.not_lt_zero _)
  | succ n ih =>
    obtain ⟨m, rfl⟩ := Nat.exists_eq_succ_of_ne_zero (Nat.ne_zero_of_lt hm)
    cases bs with
    | nil => rfl
    | cons a bs =>
      have hn' : bs.length < n := Nat.lt_of_succ_lt_succ hn
      have hm' : bs.length < m := Nat.lt_of_succ_lt_succ hm
      rw [tableN, tableN, ih hn' hm', Plan.andThen_congr fun rest hrest => ?_]
      have := entry_rest hrest
      exact ih (by omega) (by omega)

theorem relocNext_performs {b : Build} {S A segment size : Word} {n : ℕ} {w : Ram} (hp : Placed b S A w)
    (hr : Relocating S segment size w) (hn : (feed b w).length < n) :
    Performs b S A w false true (Relocating S segment size) (tableN S segment size n w.relocOffset (feed b w))
      ((relocNext b n).run w) := by
  induction n generalizing w with
  | zero => exact absurd hn (Nat.not_lt_zero _)
  | succ n ih =>
    refine performs_read hp (fun hnil => by rw [hnil]; rfl) fun a bs w₁ hfeed hrest htook hp₁ => ?_
    have hr₁ := hr.took htook
    obtain ⟨hoff, -⟩ := htook.offset_value
    have hlen : (feed b w₁).length < n := by
      rw [hfeed] at hn
      rw [hrest]
      exact Nat.lt_of_succ_lt_succ hn
    rw [hfeed, tableN, ← hoff, ← hrest]
    split_ifs with h0 hff
    · exact .stop (.same rfl rfl rfl) ⟨rfl, hp₁, rfl, rfl, hr₁⟩
    · refine performs_modify ⟨rfl, rfl, rfl, rfl⟩ hp₁ fun w₂ hw₂ hp₂ hfeed₂ => ?_
      have hoff₂ : w₂.relocOffset = w₁.relocOffset + 0xfe := by rw [hw₂]
      rw [← hoff₂, ← hfeed₂]
      refine ih hp₂ ?_ (by rwa [hfeed₂])
      rw [hw₂]
      exact ⟨hr₁.ptr, hr₁.size⟩
    · refine (relocDelta_performs a hp₁ hr₁).bind (fun w₂ rest hending _ hready => ?_) (fun _ w₂ => ?_) fun c => ?_
      · obtain ⟨hr₂, hoff₂⟩ := hready.post
        have hrest := entry_rest hending
        rw [← hoff₂, ← hready.feed]
        rw [← hready.feed] at hrest
        exact ih hready.placed hr₂ (by omega)
      · exact ⟨w₂.report.detail, rfl⟩
      · exact .ite (fun _ => (steady_carried b).relocNext n) fun _ => .pure true

theorem relocateSegment_performs {b : Build} {S A segment size : Word} {w : Ram} (hp : Placed b S A w)
    (hr : Relocating S segment size w) :
    Performs b S A w false true (Relocating S segment size) (table S segment size (feed b w))
      ((relocateSegment b).run w) := by
  refine performs_modify ⟨rfl, rfl, rfl, rfl⟩ hp fun w₁ hw₁ hp₁ hfeed₁ => ?_
  have hoff : w₁.relocOffset = 0xffff := by rw [hw₁]
  have hr₁ : Relocating S segment size w₁ := by
    rw [hw₁]
    exact ⟨hr.ptr, hr.size⟩
  have hlen : (feed b w₁).length < unread w₁ + 1 := Nat.lt_succ_of_le (length_feedN b _ w₁)
  rw [table, ← hfeed₁, ← hoff, tableN_eq (Nat.lt_succ_self _) hlen]
  exact relocNext_performs hp₁ hr₁ hlen

/-! ### Segments -/

/-- The next `n` bytes, stored from offset `k` on. -/
def copyPlan (n k : ℕ) (bs : List Byte) : Plan :=
  ⟨puts k (bs.take n), if bs.length < n then .truncated else .done (bs.drop n)⟩

/-- `inc_dest` has come to offset `k`. -/
def DestAt (S : Word) (k : ℕ) (w : Ram) : Prop := w.zp.destPtr = S + BitVec.ofNat 16 k

theorem put_edits {S : Word} {k : ℕ} {w : Ram} (h : DestAt S k w) (a : Byte) :
    Edits S ⟨BitVec.ofNat 16 k, .put a⟩ w (incDest (w.target w.zp.destPtr a)) := by
  have hput : Edits S ⟨BitVec.ofNat 16 k, .put a⟩ w (w.target w.zp.destPtr a) :=
    .target h rfl rfl rfl rfl rfl rfl
  exact ⟨hput.frame, hput.source, hput.mem, hput.log⟩

theorem incDest_at {S : Word} {k : ℕ} {w : Ram} (h : DestAt S k w) (a : Byte) :
    DestAt S (k + 1) (incDest (w.target w.zp.destPtr a)) := by
  change w.zp.destPtr + 1 = _
  rw [h, BitVec.ofNat_add, BitVec.add_assoc]
  rfl

theorem put_performs {b : Build} {S A : Word} {k : ℕ} {w : Ram} (hp : Placed b S A w) (h : DestAt S k w) (a : Byte) :
    Performs b S A w () () (DestAt S (k + 1)) ⟨[⟨BitVec.ofNat 16 k, .put a⟩], .done (feed b w)⟩
      ((modify fun w => incDest (w.target w.zp.destPtr a) : Load Unit).run w) :=
  performs_edit hp rfl (put_edits h a) (incDest_at h a)

theorem copyLoop_performs {b : Build} {S A : Word} {n k : ℕ} {w : Ram} (hp : Placed b S A w) (h : DestAt S k w) :
    Performs b S A w () () (DestAt S (k + n)) (copyPlan n k (feed b w)) ((copyLoop b n).run w) := by
  induction n generalizing k w with
  | zero => exact .stop (.same rfl rfl rfl) ⟨rfl, hp, rfl, rfl, h⟩
  | succ n ih =>
    refine performs_read hp (fun hnil => by rw [hnil]; rfl) fun a bs w₁ hfeed hrest htook hp₁ => ?_
    have h₁ : DestAt S k w₁ := by
      obtain ⟨w₀, hreads, rfl⟩ := htook
      rw [hreads.same]
      exact h
    have hplan : copyPlan (n + 1) k (a :: bs) =
        (⟨[⟨BitVec.ofNat 16 k, .put a⟩], .done bs⟩ : Plan).andThen (copyPlan n (k + 1)) := by
      simp only [copyPlan, Plan.andThen, List.take_succ_cons, puts, List.length_cons, List.drop_succ_cons,
        Nat.add_lt_add_iff_right, List.cons_append, List.nil_append]
    have hput := put_performs hp₁ h₁ a
    rw [hrest] at hput
    rw [hfeed, hplan]
    refine hput.bind (fun w₂ rest hending _ hready => ?_) (fun hending => by cases hending) fun _ => (steady_carried b).copyLoop n
    have hstep := ih hready.placed hready.post
    rw [hready.feed, Nat.add_right_comm, Nat.add_assoc] at hstep
    exact hstep

theorem clearLoop_performs {b : Build} {S A : Word} {n k : ℕ} {w : Ram} (hp : Placed b S A w) (h : DestAt S k w) :
    Performs b S A w () () (fun _ => True) ⟨puts k (List.replicate n 0), .done (feed b w)⟩ ((clearLoop n).run w) := by
  induction n generalizing k w with
  | zero => exact .stop (.same rfl rfl rfl) ⟨rfl, hp, rfl, rfl, trivial⟩
  | succ n ih =>
    have hplan : (⟨puts k (List.replicate (n + 1) 0), .done (feed b w)⟩ : Plan) =
        (⟨[⟨BitVec.ofNat 16 k, .put 0⟩], .done (feed b w)⟩ : Plan).andThen
          fun bs => ⟨puts (k + 1) (List.replicate n 0), .done bs⟩ := rfl
    rw [hplan]
    refine (put_performs hp h 0).bind (fun w₂ rest hending _ hready => ?_) (fun hending => by cases hending)
      fun _ => (steady_carried b).clearLoop n
    have hstep := ih hready.placed hready.post
    rwa [hready.feed] at hstep

/-! ### Options -/

theorem options_skip (n : ℕ) (bs : List Byte) :
    options n bs = if bs.length < n then .truncated else options 0 (bs.drop n) := by
  induction bs generalizing n with
  | nil =>
    cases n with
    | zero => rfl
    | succ n => simp [options]
  | cons a bs ih =>
    cases n with
    | zero => simp
    | succ n => simp only [options, ih n, List.length_cons, Nat.add_lt_add_iff_right, List.drop_succ_cons]

theorem skipBytes_performs {b : Build} {S A : Word} {n : ℕ} {w : Ram} (hp : Placed b S A w) :
    Performs b S A w () () (fun _ => True)
      (.stop (if (feed b w).length < n then .truncated else .done ((feed b w).drop n))) ((skipBytes b n).run w) := by
  induction n generalizing w with
  | zero => exact .stop (.same rfl rfl rfl) ⟨rfl, hp, rfl, rfl, trivial⟩
  | succ n ih =>
    refine performs_read hp (fun hnil => by simp [hnil]) fun a bs w₁ hfeed hrest _ hp₁ => ?_
    have hstep := ih hp₁
    rw [hrest] at hstep
    simpa only [hfeed, List.length_cons, Nat.add_lt_add_iff_right, List.drop_succ_cons] using hstep

theorem skipOptions_performs {b : Build} {S A : Word} {n : ℕ} {w : Ram} (hp : Placed b S A w)
    (hn : (feed b w).length < n) :
    Performs b S A w false true (fun _ => True) (.stop (options 0 (feed b w))) ((skipOptions b n).run w) := by
  induction n generalizing w with
  | zero => exact absurd hn (Nat.not_lt_zero _)
  | succ n ih =>
    refine performs_read hp (fun hnil => by rw [hnil]; rfl) fun a bs w₁ hfeed hrest _ hp₁ => ?_
    rw [hfeed] at hn ⊢
    have hn₁ : bs.length < n := Nat.lt_of_succ_lt_succ hn
    refine performs_modify ⟨rfl, rfl, rfl, rfl⟩ hp₁ fun w₂ _ hp₂ hfeed₂ => ?_
    rw [hrest] at hfeed₂
    rw [options]
    split_ifs with h0 h2
    · refine performs_modify ⟨rfl, rfl, rfl, rfl⟩ hp₂ fun w₃ _ hp₃ hfeed₃ => ?_
      exact .stop (.same rfl rfl rfl) ⟨rfl, hp₃, hfeed₃.trans hfeed₂, rfl, trivial⟩
    · exact .stop (.same rfl rfl rfl) rfl
    · have hskip := skipBytes_performs (n := (a - 1).toNat) hp₂
      rw [hfeed₂] at hskip
      have hplan : Plan.stop (options (a - 1).toNat bs) =
          (Plan.stop (if bs.length < (a - 1).toNat then .truncated else .done (bs.drop (a - 1).toNat))).andThen
            fun bs => .stop (options 0 bs) := by
        rw [options_skip]
        split_ifs <;> rfl
      rw [hplan]
      refine hskip.bind (fun w₃ rest hending _ hready => ?_) (fun hending => ?_) fun _ => (steady_carried b).skipOptions n
      · have hle : rest.length ≤ bs.length := by
          simp only [Plan.stop] at hending
          split_ifs at hending
          cases hending
          simp
        rw [← hready.feed]
        exact ih hready.placed (by rw [hready.feed]; omega)
      · simp only [Plan.stop] at hending
        split_ifs at hending

theorem skipO65Options_performs {b : Build} {S A : Word} {w : Ram} (hp : Placed b S A w) :
    Performs b S A w false true (fun _ => True) (.stop (options 0 (feed b w))) ((skipO65Options b).run w) :=
  skipOptions_performs hp (Nat.lt_succ_of_le (length_feedN b _ w))

/-! ### The module -/

/-- Two zero bytes, and then `k`. -/
def noSymbolsThen (b : Build) (k : Load Bool) : Load Bool := do
  if (← readByte b) ≠ 0 then return true
  if (← readByte b) ≠ 0 then return true
  k

theorem noSymbols_performs {b : Build} {S A : Word} {w : Ram} {k : Load Bool} {q : List Byte → Plan}
    {P : Ram → Prop} (hp : Placed b S A w)
    (hk : ∀ w', Moved b S A w w' [] → Placed b S A w' → Performs b S A w' false true P (q (feed b w')) (k.run w')) :
    Performs b S A w false true P ((Plan.stop (noSymbols (feed b w))).andThen q) ((noSymbolsThen b k).run w) := by
  refine performs_read hp (fun hnil => by rw [hnil]; rfl) fun a bs w₁ hfeed hrest htook hp₁ => ?_
  rw [hfeed]
  simp only [noSymbols]
  split_ifs with ha
  · exact .stop (.same rfl rfl rfl) rfl
  · refine performs_read hp₁ (fun hnil => by rw [← hrest, hnil]; rfl) fun c bs' w₂ hfeed₂ hrest₂ htook₂ hp₂ => ?_
    rw [← hrest, hfeed₂]
    change Performs b S A w₂ false true P ((Plan.stop (if c ≠ 0 then .rejected else .done bs')).andThen q) _
    split_ifs with hc
    · exact .stop (.same rfl rfl rfl) rfl
    · have hstep := hk w₂ ((htook.moved hp).trans (htook₂.moved hp₁) (within_nil A)) hp₂
      rwa [hrest₂] at hstep

theorem Carried.noSymbolsThen {b : Build} {R : Ram → Ram → Prop} [IsPreorder Ram R] (h : Carried b R) {k : Load Bool}
    (hk : Keeps R k) : Keeps R (noSymbolsThen b k) := by
  refine .bind h.read fun a => .ite (fun _ => .pure true) fun _ => ?_
  exact .bind h.read fun c => .ite (fun _ => .pure true) fun _ => hk

/-- `load_module` from the exports on. -/
theorem exports_performs {b : Build} {S A : Word} {w : Ram} (hp : Placed b S A w) :
    Performs b S A w false true (fun _ => True) (.stop (noSymbols (feed b w)))
      ((noSymbolsThen b (pure false)).run w) := by
  have hplan : Plan.stop (noSymbols (feed b w)) =
      (Plan.stop (noSymbols (feed b w))).andThen fun bs => .stop (.done bs) := by
    cases h : noSymbols (feed b w) <;> rfl
  rw [hplan]
  exact noSymbols_performs hp fun w' _ hp' => .stop (.same rfl rfl rfl) ⟨rfl, hp', rfl, rfl, trivial⟩

/-- The DATA table and the exports. -/
def relocateData (b : Build) : Load Bool := do
  modify (·.setDetail 0x34)
  modify fun w => { w.setZp { w.zp with relocPtr := w.zp.relocPtr + w.textSize } with segmentSize := w.dataSize }
  if ← relocateSegment b then
    modify (·.setDetail 0xeb)
    return true
  modify (·.setDetail 0x35)
  noSymbolsThen b (pure false)

theorem relocateData_performs {b : Build} {S A : Word} {w : Ram} (hp : Placed b S A w) (hptr : w.zp.relocPtr = S) :
    Performs b S A w false true (fun _ => True)
      ((table S w.textSize w.dataSize (feed b w)).andThen fun bs => .stop (noSymbols bs)) ((relocateData b).run w) := by
  refine performs_modify ⟨rfl, rfl, rfl, rfl⟩ hp fun w₁ hw₁ hp₁ hfeed₁ => ?_
  refine performs_modify ⟨rfl, rfl, rfl, rfl⟩ hp₁ fun w₂ hw₂ hp₂ hfeed₂ => ?_
  have hr : Relocating S w.textSize w.dataSize w₂ := by
    rw [hw₂, hw₁]
    exact ⟨congrArg (· + w.textSize) hptr, rfl⟩
  rw [← hfeed₁, ← hfeed₂]
  refine (relocateSegment_performs hp₂ hr).bind (fun w₃ rest _ _ hready => ?_) (fun _ w₃ => ⟨0xeb, rfl⟩) fun c => ?_
  · refine performs_modify ⟨rfl, rfl, rfl, rfl⟩ hready.placed fun w₄ _ hp₄ hfeed₄ => ?_
    rw [← hready.feed, ← hfeed₄]
    exact exports_performs hp₄
  · refine .ite (fun _ => .bind (.modify fun _ => .of_still rfl) fun _ => .pure true) fun _ => ?_
    exact .bind (.modify fun _ => .of_still rfl) fun _ => (steady_carried b).noSymbolsThen (.pure false)

theorem Carried.relocateData {b : Build} {R : Ram → Ram → Prop} [IsPreorder Ram R] (h : Carried b R) :
    Keeps R (relocateData b) := by
  refine .bind (.modify fun _ => h.between rfl) fun _ => .bind (.modify fun _ => h.between rfl) fun _ => ?_
  refine .bind h.relocateSegment fun c => .ite (fun _ => ?_) fun _ => ?_
  · exact .bind (.modify fun _ => h.between rfl) fun _ => .pure true
  · exact .bind (.modify fun _ => h.between rfl) fun _ => h.noSymbolsThen (.pure false)

theorem loadRelocations_performs {b : Build} {S A : Word} {w : Ram} (hp : Placed b S A w) :
    Performs b S A w false true (fun _ => True) (tables S w.textSize w.dataSize (feed b w))
      ((loadRelocations b).run w) := by
  refine performs_modify ⟨rfl, rfl, rfl, rfl⟩ hp fun w₁ hw₁ hp₁ hfeed₁ => ?_
  have hsizes₁ : w₁.textSize = w.textSize ∧ w₁.dataSize = w.dataSize := by
    rw [hw₁]
    exact ⟨rfl, rfl⟩
  rw [← hfeed₁, ← hsizes₁.1, ← hsizes₁.2, tables]
  refine noSymbols_performs hp₁ fun w₂ hm₂ hp₂ => ?_
  refine performs_modify ⟨rfl, rfl, rfl, rfl⟩ hp₂ fun w₃ hw₃ hp₃ hfeed₃ => ?_
  have htext : w₂.textSize = w₁.textSize := congrArg Frame.textSize hm₂.frame
  have hdata : w₂.dataSize = w₁.dataSize := congrArg Frame.dataSize hm₂.frame
  have hr : Relocating S 0 w₁.textSize w₃ := by
    rw [hw₃]
    exact ⟨hp₂.start.trans (by simp), htext⟩
  rw [← hfeed₃]
  refine (relocateSegment_performs hp₃ hr).bind (fun w₄ rest _ hm₄ hready => ?_) (fun _ w₄ => ⟨0xea, rfl⟩) fun c => ?_
  · have htext₄ : w₄.textSize = w₁.textSize := (congrArg Frame.textSize hm₄.frame).trans (by rw [hw₃]; exact htext)
    have hdata₄ : w₄.dataSize = w₁.dataSize := (congrArg Frame.dataSize hm₄.frame).trans (by rw [hw₃]; exact hdata)
    rw [← hready.feed, ← htext₄, ← hdata₄]
    exact relocateData_performs hready.placed (hready.post.ptr.trans (by simp))
  · refine .ite (fun _ => .bind (.modify fun _ => .of_still rfl) fun _ => .pure true) fun _ => ?_
    exact (steady_carried b).relocateData

theorem segments_eq (init bss : Word) (bs : List Byte) :
    segments init bss bs =
      (copyPlan init.toNat 0 bs).andThen fun bs => ⟨puts init.toNat (List.replicate bss.toNat 0), .done bs⟩ := by
  rw [segments]
  split_ifs with h
  · simp only [copyPlan, Plan.andThen, if_pos h, List.take_of_length_le h.le]
  · simp only [copyPlan, Plan.andThen, if_neg h, puts_append, List.length_take, Nat.zero_add,
      Nat.min_eq_left (Nat.not_lt.1 h)]

theorem Plan.andThen_assoc (p : Plan) (q r : List Byte → Plan) :
    (p.andThen q).andThen r = p.andThen fun bs => (q bs).andThen r := by
  obtain ⟨es, e⟩ := p
  cases e with
  | done rest =>
    change (⟨es ++ (q rest).edits, (q rest).ending⟩ : Plan).andThen r =
      ⟨es ++ ((q rest).andThen r).edits, ((q rest).andThen r).ending⟩
    generalize q rest = p'
    obtain ⟨fs, f⟩ := p'
    cases f with
    | done rest' => simp [Plan.andThen]
    | rejected => rfl
    | truncated => rfl
  | rejected => rfl
  | truncated => rfl

theorem Carried.loadRelocations {b : Build} {R : Ram → Ram → Prop} [IsPreorder Ram R] (h : Carried b R) :
    Keeps R (loadRelocations b) := by
  refine .bind (.modify fun _ => h.between rfl) fun _ => h.noSymbolsThen ?_
  refine .bind (.modify fun _ => h.between rfl) fun _ => .bind h.relocateSegment fun c => .ite (fun _ => ?_) fun _ => ?_
  · exact .bind (.modify fun _ => h.between rfl) fun _ => .pure true
  · exact h.relocateData

/-- `load_module` from the segments on. -/
def loadSegments (b : Build) : Load Bool := do
  modify (·.setDetail 0x32)
  modify fun w => w.setZp { w.zp with destPtr := w.zp.basePtr }
  copyLoop b (← get).initSize.toNat
  clearLoop (← get).bssSize.toNat
  loadRelocations b

theorem loadSegments_performs {b : Build} {S A : Word} {w : Ram} (hp : Placed b S A w) (hbase : w.zp.basePtr = S) :
    Performs b S A w false true (fun _ => True)
      ((segments w.initSize w.bssSize (feed b w)).andThen (tables S w.textSize w.dataSize)) ((loadSegments b).run w) := by
  refine performs_modify ⟨rfl, rfl, rfl, rfl⟩ hp fun w₁ hw₁ hp₁ hfeed₁ => ?_
  refine performs_modify ⟨rfl, rfl, rfl, rfl⟩ hp₁ fun w₂ hw₂ hp₂ hfeed₂ => ?_
  have hframe : w₂.frame = w.frame := by rw [hw₂, hw₁]; rfl
  have hinit : w₂.initSize = w.initSize := congrArg Frame.initSize hframe
  have hdest : DestAt S 0 w₂ := by
    rw [hw₂, hw₁]
    exact hbase.trans (by simp)
  rw [segments_eq, Plan.andThen_assoc, ← hfeed₁, ← hfeed₂, ← hinit]
  refine (copyLoop_performs hp₂ hdest).bind (fun w₃ rest _ hm₃ hready => ?_) (fun hending => ?_) fun _ => ?_
  · have hbss : w₃.bssSize = w.bssSize := congrArg Frame.bssSize (hm₃.frame.trans hframe)
    have hclear := clearLoop_performs (n := w₃.bssSize.toNat) hready.placed hready.post
    rw [Nat.zero_add, hready.feed] at hclear
    rw [← hbss]
    refine hclear.bind (fun w₄ rest' _ hm₄ hready₄ => ?_) (fun hending => by cases hending) fun _ => ?_
    · have htext : w₄.textSize = w.textSize := congrArg Frame.textSize (hm₄.frame.trans (hm₃.frame.trans hframe))
      have hdata : w₄.dataSize = w.dataSize := congrArg Frame.dataSize (hm₄.frame.trans (hm₃.frame.trans hframe))
      rw [← hready₄.feed, ← htext, ← hdata]
      exact loadRelocations_performs hready₄.placed
    · exact (steady_carried b).loadRelocations
  · simp only [copyPlan] at hending
    split_ifs at hending
  · exact .get_bind fun w => Keeps.bind ((steady_carried b).clearLoop _) (fun _ => (steady_carried b).loadRelocations) w

theorem Carried.loadSegments {b : Build} {R : Ram → Ram → Prop} [IsPreorder Ram R] (h : Carried b R) :
    Keeps R (loadSegments b) := by
  refine .bind (.modify fun _ => h.between rfl) fun _ => .bind (.modify fun _ => h.between rfl) fun _ => .get_bind fun w => ?_
  refine Keeps.bind (h.copyLoop _) (fun _ => .get_bind fun w => ?_) w
  exact Keeps.bind (h.clearLoop _) (fun _ => h.loadRelocations) w

theorem Carried.loadImage {b : Build} {R : Ram → Ram → Prop} [IsPreorder Ram R] (h : Carried b R) :
    Keeps R (loadImage b) := by
  refine .bind (.modify fun _ => h.between rfl) fun _ => .bind (.get_bind fun w => h.skipOptions _ w) fun c => ?_
  exact .ite (fun _ => .pure true) fun _ => h.loadSegments

/-- The module after its header, against the plan of its bytes. -/
theorem loadImage_performs {b : Build} {S A : Word} {w : Ram} (hp : Placed b S A w) (hbase : w.zp.basePtr = S) :
    Performs b S A w false true (fun _ => True)
      (plan S w.textSize w.dataSize w.initSize w.bssSize (feed b w)) ((loadImage b).run w) := by
  refine performs_modify ⟨rfl, rfl, rfl, rfl⟩ hp fun w₁ hw₁ hp₁ hfeed₁ => ?_
  have hframe : w₁.frame = w.frame := by rw [hw₁]; rfl
  rw [plan, ← hfeed₁]
  refine (skipO65Options_performs hp₁).bind (fun w₂ rest _ hm₂ hready => ?_) (fun _ w₂ => ⟨w₂.report.detail, rfl⟩) fun c => ?_
  · have hframe₂ : w₂.frame = w.frame := hm₂.frame.trans hframe
    have htext : w₂.textSize = w.textSize := congrArg Frame.textSize hframe₂
    have hdata : w₂.dataSize = w.dataSize := congrArg Frame.dataSize hframe₂
    have hinit : w₂.initSize = w.initSize := congrArg Frame.initSize hframe₂
    have hbss : w₂.bssSize = w.bssSize := congrArg Frame.bssSize hframe₂
    have hbase₂ : w₂.zp.basePtr = S := (congrArg Frame.basePtr hframe₂).trans hbase
    rw [← hready.feed, ← htext, ← hdata, ← hinit, ← hbss]
    exact loadSegments_performs hready.placed hbase₂
  · exact .ite (fun _ => .pure true) fun _ => (steady_carried b).loadSegments

end NioApps.Loader

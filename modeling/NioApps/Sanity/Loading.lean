import NioApps.Sanity.Feed

/-! What the routines of `load_module` do to target memory, in terms of the plan
of the bytes they read. `Performs` is the contract: when the plan stays inside
the target, the routine carries out its edits and ends as the plan does; when it
does not, the routine stores outside of the target. -/

namespace NioApps.Loader

open Abort Image

/-! ### The target -/

/-- What `load_module` keeps once the header is parsed. -/
structure Frame where
  start : Word
  stop : Word
  stackFloor : Word
  textSize : Word
  dataSize : Word
  bssSize : Word
  initSize : Word
  modulePtr : Word
  moduleEnd : Word
  basePtr : Word
  targetEnd : Word
  hatSlot : Byte
  iocb : Byte
  iocbSave : ℕ → Byte
  zpSave : Zp
  initEntry : (Word → Byte) → InitResult

def Ram.frame (w : Ram) : Frame where
  start := w.report.start
  stop := w.report.stop
  stackFloor := w.report.stackFloor
  textSize := w.textSize
  dataSize := w.dataSize
  bssSize := w.bssSize
  initSize := w.initSize
  modulePtr := w.zp.modulePtr
  moduleEnd := w.zp.moduleEnd
  basePtr := w.zp.basePtr
  targetEnd := w.zp.targetEnd
  hatSlot := w.hatSlot
  iocb := w.diskIocb
  iocbSave := w.diskIocbSave
  zpSave := w.zpSave
  initEntry := w.initEntry

/-- Memory by the offset from `S`. -/
def Ram.image (S : Word) (w : Ram) : Word → Byte := fun o => w.mem (S + o)

/-- From `w` to `w'`, nothing but the edits `es` of the `A` bytes at `S` and what
reading needs. -/
structure Moved (b : Build) (S A : Word) (w w' : Ram) (es : List Edit) : Prop where
  frame : w'.frame = w.frame
  image : ∀ o < A, w'.image S o = run es (w.image S) o
  outside : ∀ a, ¬a - S < A → ¬b.Io a → w'.mem a = w.mem a
  log : targets w'.log = targets w.log ++ (offsets es).map (S + ·)

/-- The `A` bytes at `S` are the target, and reading does not use them. -/
structure Placed (b : Build) (S A : Word) (w : Ram) : Prop where
  start : w.report.start = S
  iocb : IocbOk b w
  staged : b.diskSource = false → ∀ a, a - S < A → ¬(w.zp.srcPtr ≤ a ∧ a < w.zp.moduleEnd)
  disk : ∀ a, a - S < A → ¬b.Io a

/-- Where the bytes that can be read end. -/
def feedEnd (b : Build) (w : Ram) : Word := w.zp.srcPtr + BitVec.ofNat 16 (feed b w).length

section Moves

variable {b : Build} {S A : Word} {w w₁ w₂ : Ram} {es fs : List Edit}

theorem Moved.same (hframe : w₁.frame = w.frame) (hmem : w₁.mem = w.mem) (hlog : targets w₁.log = targets w.log) :
    Moved b S A w w₁ [] :=
  ⟨hframe, fun o _ => by rw [Ram.image, hmem]; rfl, fun a _ _ => by rw [hmem], by simp [hlog]⟩

theorem Moved.trans (h : Moved b S A w w₁ es) (h' : Moved b S A w₁ w₂ fs) (hfs : Within A fs) :
    Moved b S A w w₂ (es ++ fs) where
  frame := h'.frame.trans h.frame
  image o ho := by rw [h'.image o ho, run_append, run_congr hfs h.image o ho]
  outside a ha hio := (h'.outside a ha hio).trans (h.outside a ha hio)
  log := by rw [h'.log, h.log, offsets_append, List.map_append, List.append_assoc]

/-- After a byte was read: `src_ptr` has moved, and what the disk source uses. -/
def Took (b : Build) (w w' : Ram) : Prop := ∃ w₀, Reads b w w₀ ∧ w' = advance w₀

theorem Reads.moved (h : Reads b w w₁) (hp : Placed b S A w) : Moved b S A w w₁ [] := by
  obtain ⟨es, hlog, hes⟩ := h.log
  have hoff (o : Word) : S + o - S = o := by bv_omega
  refine ⟨by rw [h.same]; rfl, fun o ho => h.mem _ (hp.disk _ (by rwa [hoff])), fun a _ hio => h.mem a hio, ?_⟩
  rw [hlog, targets_append, hes]
  simp

theorem Took.moved (h : Took b w w₁) (hp : Placed b S A w) : Moved b S A w w₁ [] := by
  obtain ⟨w₀, hreads, rfl⟩ := h
  exact (hreads.moved hp).trans (.same rfl rfl rfl) (within_nil A)

theorem Took.placed (h : Took b w w₁) (hlt : w.zp.srcPtr < w.zp.moduleEnd) (hp : Placed b S A w) : Placed b S A w₁ := by
  obtain ⟨w₀, hreads, rfl⟩ := h
  rw [hreads.same]
  refine ⟨hp.start, hp.iocb, fun hs a ha hin => hp.staged hs a ha ⟨?_, hin.2⟩, hp.disk⟩
  have hle : w.zp.srcPtr + 1 ≤ a := hin.1
  bv_omega

/-- Reading a byte. -/
theorem readByte_spec (hp : Placed b S A w) :
    (∃ a bs w', (readByte b).run w = .ok a w' ∧ feed b w = a :: bs ∧ feed b w' = bs ∧ Took b w w' ∧
      Placed b S A w' ∧ feedEnd b w' = feedEnd b w) ∨
    ∃ w', (readByte b).run w = .error () w' ∧ feed b w = [] ∧ Moved b S A w w' [] ∧ w'.report.outcome = outFormat := by
  rcases readByte_cases b hp.iocb with ⟨a, w₁, hrun, hreads, hlt⟩ | ⟨w₁, d, hrun, hreads⟩
  · have htook : Took b w (advance w₁) := ⟨w₁, hreads, rfl⟩
    have hfeed := feed_ok hp.iocb hrun
    have hsrc : (advance w₁).zp.srcPtr = w.zp.srcPtr + 1 := by
      rw [hreads.same]
      rfl
    refine .inl ⟨a, _, _, hrun, hfeed, rfl, htook, htook.placed hlt hp, ?_⟩
    rw [feedEnd, feedEnd, hfeed, List.length_cons, hsrc, BitVec.ofNat_add]
    bv_omega
  · exact .inr ⟨_, hrun, feed_error hrun, (hreads.moved hp).trans (.same rfl rfl rfl) (within_nil A), rfl⟩

/-- An edit of the target, with any change of the registers that reading does not use. -/
structure Edits (S : Word) (e : Edit) (w w' : Ram) : Prop where
  frame : w'.frame = w.frame
  source : (w'.zp.srcPtr, w'.diskIndex, w'.diskCount, w'.cioResults) =
    (w.zp.srcPtr, w.diskIndex, w.diskCount, w.cioResults)
  mem : ∀ a, w'.mem a = e.apply (w.image S) (a - S)
  log : targets w'.log = targets w.log ++ e.offsets.map (S + ·)

theorem Edits.other {e : Edit} (h : Edits S e w w₁) (hin : ∀ o ∈ e.offsets, o < A) {a : Word} (ha : ¬a - S < A) :
    w₁.mem a = w.mem a := by
  rw [h.mem, Edit.apply_other fun hmem => ha (hin _ hmem), Ram.image]
  exact congrArg w.mem (by bv_omega)

theorem Edits.moved {e : Edit} (h : Edits S e w w₁) (hin : ∀ o ∈ e.offsets, o < A) : Moved b S A w w₁ [e] where
  frame := h.frame
  image o _ := by
    have : S + o - S = o := by bv_omega
    rw [Ram.image, h.mem, this]
    rfl
  outside a ha _ := h.other hin ha
  log := by rw [h.log]; simp

theorem Edits.alike {e : Edit} (h : Edits S e w w₁) (hin : ∀ o ∈ e.offsets, o < A) (hp : Placed b S A w) :
    Alike b w w₁ := by
  have hsource := h.source
  simp only [Prod.mk.injEq] at hsource
  obtain ⟨hsrc, hindex, hcount, hresults⟩ := hsource
  refine ⟨hsrc, congrArg Frame.moduleEnd h.frame, congrArg Frame.iocb h.frame, hindex, hcount, hresults,
    fun hs a hle hlt => h.other hin fun ha => hp.staged hs a ha ⟨hle, hlt⟩,
    fun a hio => h.other hin fun ha => hp.disk a ha hio⟩

theorem Placed.of_frame (hp : Placed b S A w) (hframe : w₁.frame = w.frame) (hsrc : w₁.zp.srcPtr = w.zp.srcPtr) :
    Placed b S A w₁ := by
  have hiocb : w₁.diskIocb = w.diskIocb := congrArg Frame.iocb hframe
  have hend : w₁.zp.moduleEnd = w.zp.moduleEnd := congrArg Frame.moduleEnd hframe
  refine ⟨(congrArg Frame.start hframe).trans hp.start, fun hd => ?_, fun hs a ha hin => hp.staged hs a ha ?_, hp.disk⟩
  · rw [hiocb]
    exact hp.iocb hd
  · rwa [hsrc, hend] at hin

theorem Edits.placed {e : Edit} (h : Edits S e w w₁) (hp : Placed b S A w) : Placed b S A w₁ :=
  hp.of_frame h.frame (congrArg Prod.fst h.source)

end Moves

/-! ### The contract -/

/-- A store outside of the target. -/
def Escapes (S A : Word) (w : Ram) : Prop := ∃ a ∈ targets w.log, ¬a - S < A

/-- The state after a routine that ended with the bytes `rest` to come. -/
structure Ready (b : Build) (S A : Word) (w w' : Ram) (rest : List Byte) (P : Ram → Prop) : Prop where
  placed : Placed b S A w'
  feed : feed b w' = rest
  feedEnd : feedEnd b w' = feedEnd b w
  post : P w'

/-- The routine with result `r` has left the state `w'` and ended as the plan says:
with `good` and the bytes after it, with `bad`, or aborting. -/
def Ends {α : Type} (b : Build) (S A : Word) (w : Ram) (good bad : α) (P : Ram → Prop) (w' : Ram)
    (r : EStateM.Result Unit Ram α) : Ending → Prop
  | .done rest => r = .ok good w' ∧ Ready b S A w w' rest P
  | .rejected => r = .ok bad w'
  | .truncated => r = .error () w' ∧ w'.report.outcome = outFormat

structure Performs {α : Type} (b : Build) (S A : Word) (w : Ram) (good bad : α) (P : Ram → Prop) (p : Plan)
    (r : EStateM.Result Unit Ram α) : Prop where
  within : Within A p.edits → ∃ w', Moved b S A w w' p.edits ∧ Ends b S A w good bad P w' r p.ending
  escapes : ¬Within A p.edits → Escapes S A (left r)

/-- What `load_module` does that is seen outside: nothing is called or published. -/
def Event.Loading : Event → Prop
  | .target _ => True
  | .cio .. => True
  | _ => False

/-- The log only grows, by what `load_module` may do. -/
def Grows (w w' : Ram) : Prop := ∃ es, w'.log = w.log ++ es ∧ ∀ e ∈ es, e.Loading

instance : IsPreorder Ram Grows where
  refl w := ⟨[], by simp⟩
  trans w₁ w₂ w₃ := by
    rintro ⟨es, h, hes⟩ ⟨es', h', hes'⟩
    exact ⟨es ++ es', by rw [h', h, List.append_assoc], fun e he => (List.mem_append.1 he).elim (hes e) (hes' e)⟩

/-- What `_main` keeps from the call of `load_module` on. -/
structure Anchor where
  start : Word
  stop : Word
  hatSlot : Byte
  iocb : Byte
  iocbSave : ℕ → Byte
  zpSave : Zp
  initEntry : (Word → Byte) → InitResult

def Ram.anchor (w : Ram) : Anchor :=
  ⟨w.report.start, w.report.stop, w.hatSlot, w.diskIocb, w.diskIocbSave, w.zpSave, w.initEntry⟩

/-- The IOCB in use and the read buffer. -/
def Ram.Lent (b : Build) (w : Ram) (a : Word) : Prop :=
  b.diskSource = true ∧ (a - b.diskBuffer < 0x0100 ∨ a - (0x0340 + w.diskIocb.setWidth 16) < 16)

/-- From `w` to `w'` as `load_module` goes, whatever the module is. -/
structure Steady (b : Build) (w w' : Ram) : Prop where
  log : Grows w w'
  anchor : w'.anchor = w.anchor
  base : (w'.zp.basePtr, w'.zp.targetEnd) = (w.zp.basePtr, w.zp.targetEnd)
  outcome : w'.report.outcome = w.report.outcome ∨ w'.report.outcome = outFormat
  mem : ∀ a, a ∉ targets w'.log → ¬w.Lent b a → w'.mem a = w.mem a

theorem Grows.targets {w w' : Ram} (h : Grows w w') {a : Word} (ha : a ∉ targets w'.log) : a ∉ targets w.log := by
  obtain ⟨es, hlog, -⟩ := h
  rw [hlog, targets_append] at ha
  exact fun hin => ha (List.mem_append_left _ hin)

theorem Ram.lent_congr {b : Build} {w w' : Ram} (h : w'.diskIocb = w.diskIocb) {a : Word} : w'.Lent b a ↔ w.Lent b a := by
  rw [Ram.Lent, Ram.Lent, h]

theorem Steady.trans {b : Build} {w₁ w₂ w₃ : Ram} (h : Steady b w₁ w₂) (h' : Steady b w₂ w₃) : Steady b w₁ w₃ := by
  refine ⟨trans_of Grows h.log h'.log, h'.anchor.trans h.anchor, h'.base.trans h.base, ?_, fun a ha hlent => ?_⟩
  · rcases h'.outcome with hout | hout
    · exact h.outcome.imp hout.trans hout.trans
    · exact .inr hout
  · have hiocb : w₂.diskIocb = w₁.diskIocb := congrArg Anchor.iocb h.anchor
    rw [h'.mem a ha (mt (Ram.lent_congr hiocb).1 hlent), h.mem a (h'.log.targets ha) hlent]

instance (b : Build) : IsPreorder Ram (Steady b) where
  refl w := ⟨refl_of Grows w, rfl, rfl, .inl rfl, fun _ _ _ => rfl⟩
  trans _ _ _ := Steady.trans

theorem Escapes.grows {S A : Word} {w w' : Ram} (h : Escapes S A w) (hg : Grows w w') : Escapes S A w' := by
  obtain ⟨a, ha, hout⟩ := h
  obtain ⟨es, hlog, -⟩ := hg
  exact ⟨a, by rw [hlog, targets_append]; exact List.mem_append_left _ ha, hout⟩

section Contract

variable {α β : Type} {b : Build} {S A : Word} {w w₁ : Ram} {good bad : α} {P Q : Ram → Prop} {p : Plan}

theorem Performs.stop {e : Ending} {r : EStateM.Result Unit Ram α} {w' : Ram} (hm : Moved b S A w w' [])
    (he : Ends b S A w good bad P w' r e) : Performs b S A w good bad P (.stop e) r :=
  ⟨fun _ => ⟨w', hm, he⟩, fun h => absurd (within_nil A) h⟩

theorem Ends.of_feedEnd {r : EStateM.Result Unit Ram α} {e : Ending} {w' : Ram} (hend : feedEnd b w₁ = feedEnd b w)
    (h : Ends b S A w₁ good bad P w' r e) : Ends b S A w good bad P w' r e := by
  cases e with
  | done rest => exact ⟨h.1, h.2.placed, h.2.feed, h.2.feedEnd.trans hend, h.2.post⟩
  | rejected => exact h
  | truncated => exact h

/-- Registers and bytes read before a routine do not count. -/
theorem Performs.after {r : EStateM.Result Unit Ram α} (hm : Moved b S A w w₁ []) (hend : feedEnd b w₁ = feedEnd b w)
    (h : Performs b S A w₁ good bad P p r) : Performs b S A w good bad P p r := by
  refine ⟨fun hin => ?_, h.escapes⟩
  obtain ⟨w', hmoved, hends⟩ := h.within hin
  exact ⟨w', hm.trans hmoved hin, hends.of_feedEnd hend⟩

/-- Registers that reading does not use. -/
theorem Performs.registers {r : EStateM.Result Unit Ram α} (hm : Moved b S A w w₁ []) (ha : Alike b w w₁)
    (hx : IocbOk b w) (h : Performs b S A w₁ good bad P p r) : Performs b S A w good bad P p r :=
  h.after hm (by rw [feedEnd, feedEnd, ha.feed hx, ha.srcPtr])

/-- `w'` is `w` but for registers that neither reading nor the frame depends on. -/
structure Quiet (w w' : Ram) : Prop where
  mem : w'.mem = w.mem
  log : w'.log = w.log
  frame : w'.frame = w.frame
  source : (w'.zp.srcPtr, w'.diskIndex, w'.diskCount, w'.cioResults) =
    (w.zp.srcPtr, w.diskIndex, w.diskCount, w.cioResults)

theorem Quiet.alike (h : Quiet w w₁) : Alike b w w₁ := by
  have hsource := h.source
  simp only [Prod.mk.injEq] at hsource
  obtain ⟨hsrc, hindex, hcount, hresults⟩ := hsource
  exact ⟨hsrc, congrArg Frame.moduleEnd h.frame, congrArg Frame.iocb h.frame, hindex, hcount, hresults,
    fun _ a _ _ => congrFun h.mem a, fun a _ => congrFun h.mem a⟩

/-- A routine that begins by setting registers. -/
theorem performs_modify {f : Ram → Ram} {k : Unit → Load α} (hf : Quiet w (f w)) (hp : Placed b S A w)
    (h : ∀ w', w' = f w → Placed b S A w' → feed b w' = feed b w →
      Performs b S A w' good bad P p ((k ()).run w')) :
    Performs b S A w good bad P p ((modify f >>= k).run w) := by
  have hfeed := (hf.alike (b := b)).feed hp.iocb
  have hp' : Placed b S A (f w) := hp.of_frame hf.frame (congrArg Prod.fst hf.source)
  have hm : Moved b S A w (f w) [] := .same hf.frame hf.mem (congrArg targets hf.log)
  exact (h _ rfl hp' hfeed).registers hm hf.alike hp.iocb

/-- A routine that begins by reading a byte. -/
theorem performs_read {f : Byte → Load α} (hp : Placed b S A w) (hnil : feed b w = [] → p = .stop .truncated)
    (hcons : ∀ a bs w', feed b w = a :: bs → feed b w' = bs → Took b w w' → Placed b S A w' →
      Performs b S A w' good bad P p ((f a).run w')) :
    Performs b S A w good bad P p ((readByte b >>= f).run w) := by
  rcases readByte_spec hp with ⟨a, bs, w', hrun, hfeed, hfeed', htook, hp', hend⟩ | ⟨w', hrun, hfeed, hm, hout⟩
  · rw [run_bind_ok hrun]
    exact (hcons a bs w' hfeed hfeed' htook hp').after (htook.moved hp) hend
  · rw [run_bind_error hrun, hnil hfeed]
    exact .stop hm ⟨rfl, hout⟩

/-- A routine that ends in an edit. -/
theorem performs_edit {e : Edit} {rest : List Byte} (hp : Placed b S A w) (hfeed : feed b w = rest)
    (h : Edits S e w w₁) (hpost : P w₁) :
    Performs b S A w good bad P ⟨[e], .done rest⟩ (.ok good w₁) where
  within hin := by
    have hin' := (within_cons.1 hin).1
    have halike := h.alike hin' hp
    have hfeed' := halike.feed hp.iocb
    refine ⟨w₁, h.moved hin', rfl, h.placed hp, hfeed'.trans hfeed, ?_, hpost⟩
    rw [feedEnd, feedEnd, hfeed', halike.srcPtr]
  escapes hout := by
    have hout' : ¬∀ o ∈ e.offsets, o < A := fun hin => hout (within_cons.2 ⟨hin, within_nil A⟩)
    push Not at hout'
    obtain ⟨o, ho, hge⟩ := hout'
    have hoff : S + o - S = o := by bv_omega
    refine ⟨S + o, ?_, by rwa [hoff]⟩
    rw [left_ok, h.log]
    exact List.mem_append_right _ (List.mem_map_of_mem ho)

/-- One routine after another. When the first one refuses, `k bad` only reports it. -/
theorem Performs.bind {m : Load α} {k : α → Load β} {good' bad' : β} {q : List Byte → Plan}
    (h : Performs b S A w good bad P p (m.run w))
    (hgood : ∀ w' rest, p.ending = .done rest → Moved b S A w w' p.edits → Ready b S A w w' rest P →
      Performs b S A w' good' bad' Q (q rest) ((k good).run w'))
    (hbad : p.ending = .rejected → ∀ w', ∃ d, (k bad).run w' = .ok bad' (w'.setDetail d))
    (hsteady : ∀ a, Keeps (Steady b) (k a)) :
    Performs b S A w good' bad' Q (p.andThen q) ((m >>= k).run w) := by
  have hesc (hout : ¬Within A p.edits) : Escapes S A (left ((m >>= k).run w)) := by
    have hm := h.escapes hout
    rw [EStateM.run_bind]
    cases hrun : m.run w with
    | ok a w' =>
      rw [hrun] at hm
      exact hm.grows (hsteady a w').log
    | error e w' => rwa [hrun] at hm
  by_cases hin : Within A p.edits
  · obtain ⟨w', hmoved, hends⟩ := h.within hin
    rw [Plan.andThen]
    cases he : p.ending with
    | done rest =>
      rw [he] at hends
      obtain ⟨hrun, hready⟩ := hends
      rw [run_bind_ok hrun]
      have hk := hgood w' rest he hmoved hready
      refine ⟨fun hall => ?_, fun hall => hk.escapes fun hq => hall (within_append.2 ⟨hin, hq⟩)⟩
      obtain ⟨w'', hmoved', hends'⟩ := hk.within (within_append.1 hall).2
      exact ⟨w'', hmoved.trans hmoved' (within_append.1 hall).2, hends'.of_feedEnd hready.feedEnd⟩
    | rejected =>
      rw [he] at hends
      obtain ⟨d, hd⟩ := hbad he w'
      rw [run_bind_ok hends, hd]
      have hset : Moved b S A w' (w'.setDetail d) [] := .same rfl rfl rfl
      have hboth := hmoved.trans hset (within_nil A)
      rw [List.append_nil] at hboth
      exact ⟨fun _ => ⟨_, hboth, rfl⟩, fun hall => absurd hin hall⟩
    | truncated =>
      rw [he] at hends
      rw [run_bind_error hends.1]
      exact ⟨fun _ => ⟨w', hmoved, rfl, hends.2⟩, fun hall => absurd hin hall⟩
  · refine ⟨fun hall => absurd ?_ hin, fun _ => hesc hin⟩
    rw [Plan.andThen] at hall
    cases he : p.ending <;> rw [he] at hall
    · exact (within_append.1 hall).1
    · exact hall
    · exact hall

end Contract

end NioApps.Loader

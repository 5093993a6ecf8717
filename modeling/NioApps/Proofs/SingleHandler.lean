import NioApps.Sanity.Scanning

/-! At most one handler `N`. The scan takes the first free entry before it has seen
every name, so a free entry before the handler hides it. -/

namespace NioApps.Loader

open Abort

/-- The run finds an installed handler and leaves everything as it is. -/
structure Yields (b : Build) (w : Ram) : Prop where
  outcome : (main b w).report.outcome = outOwn ∨ (main b w).report.outcome = outForeign
  log : ∃ es, (main b w).log = w.log ++ es ∧ ∀ e ∈ es, ∃ c x p n, e = .cio c x p n
  mem : ∀ a, Guarded a → (main b w).mem a = w.mem a

section

variable {b : Build} {w w₁ : Ram}

theorem AtScan.name (h : AtScan b w w₁) (hb : b.Ordered) {i : ℕ} (hi : i < 11) : hatName w₁.mem i = hatName w.mem i :=
  h.kept.mem _ (hb.not_scratch (.inl (hatName_guarded hi).low))

theorem yields_of_orderly (hb : b.Ordered) (hrun : (untilScan b).run w = .ok () w₁) (hpayload : wrongPayload b w₁ = false)
    (h : Orderly w.mem) : Yields b w := by
  have hat := (untilScan_wp b w).ok hrun
  obtain ⟨k, hk, hN, hother⟩ := h.first
  have hfound := scanAndPlace_found (b := b) (w := w₁) rfl hk ((hat.name hb hk).trans hN)
    (fun j hj => by rw [hat.name hb (by omega)]; exact hother j hj) hpayload
  have hbody : left ((body b).run w) = scanExisting b (BitVec.ofNat 8 (3 * k)) { w₁ with hatSlot := 0 } := by
    rw [body_eq, run_bind_ok hrun, run_bind_error hfound, left_error]
  obtain ⟨⟨z, r, s, hsame⟩, hout⟩ := scanExisting_spec b (BitVec.ofNat 8 (3 * k)) { w₁ with hatSlot := 0 }
  have hreport := (finish_spec b (left ((body b).run w))).1
  rw [← hbody] at hout hsame
  obtain ⟨hlog, hmem⟩ := hat.ended ⟨z, r, s, hsame⟩
  refine ⟨?_, hlog, fun a ha => ?_⟩
  · rw [main, hreport]
    exact hout
  · have hlow := ha.low
    exact hmem a (hb.not_scratch (.inl hlow)) (by bv_omega) fun _ => by bv_omega

theorem yields_iff (hb : b.Ordered) (hrun : (untilScan b).run w = .ok () w₁) (hN : ∃ i < 11, hatName w.mem i = 0x4e) :
    Yields b w ↔ wrongPayload b w₁ = false ∧ Orderly w.mem := by
  refine ⟨fun h => ?_, fun h => yields_of_orderly hb hrun h.1 h.2⟩
  have hat := (untilScan_wp b w).ok hrun
  have hreport := (finish_spec b (left ((body b).run w))).1
  have howned : ¬Unowned (left ((body b).run w)) := by
    intro hun
    have hout := h.outcome
    rw [main, hreport] at hout
    exact hout.elim hun.1 hun.2
  constructor
  · by_contra hpayload
    rw [Bool.not_eq_false] at hpayload
    refine howned ?_
    rw [body_eq, run_bind_ok hrun]
    simp only [scanAndPlace, EStateM.run_bind, EStateM.run_get, hpayload, if_true]
    exact Unowned.set w₁ (show outFormat ≠ outOwn ∧ outFormat ≠ outForeign by decide)
  · by_contra hdis
    obtain ⟨i, hi, hNi⟩ := hN
    obtain ⟨k, hk, h0, hother⟩ := first_free hi hNi hdis
    refine howned (body_free hrun hat.outcome hk ((hat.name hb hk).trans h0) fun j hj => ?_)
    rw [hat.name hb (by omega)]
    exact hother j hj

/-! ### Runs one after another -/

/-- The publication names one entry. -/
theorem publishedMem_name {x : Byte} {table stop : Word} {mem : Word → Byte} {i : ℕ} (hlt : i < 11)
    (hx : hatabs + x.setWidth 16 = hatEntry i) {j : ℕ} (hj : j < 11) :
    hatName (publishedMem b x table stop mem) j = if j = i then 0x4e else hatName mem j := by
  have hentry := hatEntry_toNat hj
  have hmemlo : memlo.toNat = 0x02e7 := rfl
  have hmemlo₀ : hatEntry j ≠ memlo := by bv_omega
  have hmemlo₁ : hatEntry j ≠ memlo + 1 := by bv_omega
  have hnamed : Function.update (Function.update (Function.update mem (hatEntry i + 1) (lo table)) (hatEntry i + 2) (hi table))
      (hatEntry i) 0x4e (hatEntry j) = if j = i then 0x4e else mem (hatEntry j) := by
    split_ifs with h
    · rw [h, Function.update_self]
    · have hne : hatEntry j ≠ hatEntry i := by simpa using hatEntry_ne hlt hj h (k := 0) (by decide)
      rw [Function.update_of_ne hne, Function.update_of_ne (hatEntry_ne hlt hj h (k := 2) (by decide)),
        Function.update_of_ne (hatEntry_ne hlt hj h (k := 1) (by decide))]
  change publishedMem b x table stop mem (hatEntry j) = if j = i then 0x4e else mem (hatEntry j)
  simp only [publishedMem, hx]
  cases b.sdxChild
  · change Function.update (Function.update _ memlo _) (memlo + 1) _ _ = _
    rw [Function.update_of_ne hmemlo₁, Function.update_of_ne hmemlo₀]
    exact hnamed
  · exact hnamed

/-- Conditions on a run into a table without the handler: the module, the image and the
init entry keep off HATABS. -/
structure Sound (b : Build) (w : Ram) : Prop where
  low : 0x0400 ≤ wordAt w.mem b.baseAt
  high : wordAt w.mem b.baseAt ≤ 0xfffe
  plain : Plain b w
  init : Discreet w.initEntry

/-- Conditions on every run: no free entry hides the handler. -/
structure Tame (b : Build) (w : Ram) : Prop where
  ordered : b.Ordered
  orderly : (∃ i < 11, hatName w.mem i = 0x4e) → Orderly w.mem
  sound : (∀ i < 11, hatName w.mem i ≠ 0x4e) → Sound b w

def AtMostOne (mem : Word → Byte) : Prop :=
  ∀ i < 11, ∀ j < 11, hatName mem i = 0x4e → hatName mem j = 0x4e → i = j

/-- Runs of the loader from `mem` on, each under `P`, with anything in between that
leaves the names in HATABS alone. -/
inductive Runs (P : Build → Ram → Prop) (mem : Word → Byte) : (Word → Byte) → Prop
  | none : Runs P mem mem
  | load {mem' : Word → Byte} (b : Build) (w : Ram) (h : Runs P mem mem')
      (hnames : ∀ i < 11, hatName w.mem i = hatName mem' i) (hw : P b w) : Runs P mem (main b w).mem

theorem FreeSlot.not_orderly {mem : Word → Byte} {x : Byte} (h : FreeSlot mem x) : ¬Orderly mem := by
  rintro ⟨k, -, hN, hbefore⟩
  obtain ⟨i, -, -, h0, hother⟩ := h
  rcases lt_trichotomy i k with hlt | rfl | hlt
  · exact hbefore i hlt h0
  · rw [h0] at hN
    exact absurd hN (by decide)
  · exact (hother k hlt).2 hN

theorem Prepared.name (h : Prepared b w w₁) (hb : b.Ordered) {i : ℕ} (hlt : i < 11) : hatName w₁.mem i = hatName w.mem i :=
  h.guarded hb (hatName_guarded hlt)

theorem orderly_congr {mem mem' : Word → Byte} (h : ∀ i < 11, hatName mem' i = hatName mem i) :
    Orderly mem' ↔ Orderly mem := by
  refine exists_congr fun i => and_congr_right fun hlt => ?_
  rw [h i hlt]
  refine and_congr_right fun _ => forall₂_congr fun j hj => ?_
  rw [h j (by omega)]

theorem LeftEarly.name (h : LeftEarly b w w₁) (hb : b.Ordered) {i : ℕ} (hlt : i < 11) :
    hatName (finish b w₁).mem i = hatName w.mem i :=
  ((hatName_guarded hlt).finish h.kept.iocb).trans (h.kept.mem _ (hb.not_scratch (.inl (hatName_guarded hlt).low)))

/-- A run that meets the handler changes no name. -/
theorem name_of_orderly (hb : b.Ordered) (h : Orderly w.mem) {i : ℕ} (hlt : i < 11) :
    hatName (main b w).mem i = hatName w.mem i := by
  have hbefore := beforeLoad_wp b w
  rw [wp] at hbefore
  rw [main, body]
  cases hrun : (beforeLoad b).run w with
  | error e w₁ =>
    rw [hrun] at hbefore
    rw [run_bind_error hrun, left_error]
    exact hbefore.name hb hlt
  | ok a w₁ =>
    rw [hrun] at hbefore
    exact absurd ((orderly_congr fun i => hbefore.name hb).2 h) hbefore.slot.not_orderly

/-- The names after `finish` are those after `load_module`, or those that the init entry left. -/
theorem finish_name (hx : b.diskSource = true → w.diskIocb ≤ 0x70 ∨ w.diskIocb = 0xff) {i : ℕ} (hlt : i < 11) :
    hatName (finish b w).mem i = hatName w.mem i :=
  (hatName_guarded hlt).finish hx

/-- A run into a table without the handler names at most one entry. -/
theorem name_of_sound (hb : b.Ordered) (h : Sound b w) :
    ∃ k, ∀ i < 11, hatName (main b w).mem i = hatName w.mem i ∨ i = k := by
  have hcourse := h.plain.course hb h.low h.high
  rw [main]
  generalize left ((body b).run w) = w' at hcourse
  have hkept {w₁ w₂ : Ram} (hp : Prepared b w w₁) (hl : Loaded b w₁ w₂) {a : Word} (ha : Guarded a) :
      w₂.mem a = w.mem a := (hl.guarded hp hb (hp.base_ge hb h.low h.high) ha).trans (hp.guarded hb ha)
  have hinit {w₁ w₂ : Ram} (hp : Prepared b w w₁) (hl : Loaded b w₁ w₂) {a : Word} (ha : Guarded a) :
      initMem w₂ a = w.mem a := by
    have hentry : w₂.initEntry = w.initEntry := (congrArg Anchor.initEntry hl.anchor).trans hp.kept.initEntry
    rw [initMem, hentry, h.init _ _ ha, hkept hp hl ha]
  cases hcourse with
  | early he => exact ⟨0, fun i hlt => .inl (he.name hb hlt)⟩
  | refused hp hl hout =>
    have hiocb : w'.diskIocb = _ := congrArg Anchor.iocb hl.anchor
    refine ⟨0, fun i hlt => .inl ?_⟩
    rw [finish_name (fun hd => .inl (hiocb.trans_le (hp.iocb hd))) hlt]
    exact hkept hp hl (hatName_guarded hlt)
  | declined hp hl hd =>
    have hiocb : w'.diskIocb = _ := congrArg Anchor.iocb (hd.anchor.trans hl.anchor)
    refine ⟨0, fun i hlt => .inl ?_⟩
    rw [finish_name (fun hd => .inl (hiocb.trans_le (hp.iocb hd))) hlt]
    rcases hd.way with ⟨hmem, -⟩ | ⟨hmem, -⟩ <;> rw [hmem]
    · exact hkept hp hl (hatName_guarded hlt)
    · exact hinit hp hl (hatName_guarded hlt)
  | @installed w₁ w₂ _ hp hl hi =>
    have hiocb : w'.diskIocb = w₁.diskIocb := congrArg Anchor.iocb (hi.anchor.trans hl.anchor)
    have hslot : w₂.hatSlot = w₁.hatSlot := congrArg Anchor.hatSlot hl.anchor
    obtain ⟨k, hk, hx, -⟩ := hp.slot.entry
    refine ⟨k, fun i hlt => ?_⟩
    rw [finish_name (fun hd => .inl (hiocb.trans_le (hp.iocb hd))) hlt, hi.mem,
      publishedMem_name hk (by rw [hslot, hx]) hlt]
    split_ifs with heq
    · exact .inr heq
    · exact .inl (hinit hp hl (hatName_guarded hlt))

theorem Tame.step (h : Tame b w) (hone : AtMostOne w.mem) : AtMostOne (main b w).mem := by
  by_cases hN : ∃ i < 11, hatName w.mem i = 0x4e
  · have hname {i : ℕ} (hlt : i < 11) := name_of_orderly h.ordered (h.orderly hN) hlt
    intro i hi j hj hNi hNj
    rw [hname hi] at hNi
    rw [hname hj] at hNj
    exact hone i hi j hj hNi hNj
  · push Not at hN
    obtain ⟨k, hk⟩ := name_of_sound h.ordered (h.sound hN)
    have honly {i : ℕ} (hlt : i < 11) (hNi : hatName (main b w).mem i = 0x4e) : i = k :=
      (hk i hlt).resolve_left fun heq => hN i hlt (heq ▸ hNi)
    exact fun i hi j hj hNi hNj => (honly hi hNi).trans (honly hj hNj).symm

theorem Runs.at_most_one {mem mem' : Word → Byte} (h : Runs Tame mem mem') (hone : AtMostOne mem) : AtMostOne mem' := by
  induction h with
  | none => exact hone
  | load b w _ hnames hw ih =>
    refine hw.step fun i hi j hj hNi hNj => ih i hi j hj ?_ ?_
    · rw [← hnames i hi, hNi]
    · rw [← hnames j hj, hNj]

end

/-- A run that passes the wrapper yields to an installed handler exactly when no free entry
hides it; and runs that meet only such tables never leave two. -/
theorem single_handler (b : Build) (w w₁ : Ram) (mem mem' : Word → Byte) :
    (b.Ordered → (untilScan b).run w = .ok () w₁ → (∃ i < 11, hatName w.mem i = 0x4e) →
      (Yields b w ↔ wrongPayload b w₁ = false ∧ Orderly w.mem)) ∧
    (AtMostOne mem → Runs Tame mem mem' → AtMostOne mem') :=
  ⟨fun hb hrun hN => yields_iff hb hrun hN, fun hone hruns => hruns.at_most_one hone⟩

/-- The stub staged on a machine whose HATABS entry `i` names the handler. -/
def deskWith (i : ℕ) : Ram :=
  let w := desk (stub.package 0 5 1 0) stubInit
  w.setMem (Function.update w.mem (hatEntry i) 0x4e)

theorem deskWith_run (i : ℕ) (h : finished ((untilScan stagedBuild).run (deskWith i)) = true) :
    (untilScan stagedBuild).run (deskWith i) = .ok () (left ((untilScan stagedBuild).run (deskWith i))) :=
  eq_ok_left h

theorem staged_ordered : stagedBuild.Ordered := ⟨trivial, trivial⟩

theorem single_handler_first :
    Yields stagedBuild (deskWith 0) ∧ AtMostOne (main stagedBuild (deskWith 0)).mem := by
  have hN : ∃ i < 11, hatName (deskWith 0).mem i = 0x4e := ⟨0, by decide, by decide +kernel⟩
  have horderly : Orderly (deskWith 0).mem := ⟨0, by decide, by decide +kernel, fun j hj => absurd hj (Nat.not_lt_zero j)⟩
  have hone : AtMostOne (deskWith 0).mem := by
    rw [AtMostOne]
    decide +kernel
  have hboth := single_handler stagedBuild (deskWith 0) (left ((untilScan stagedBuild).run (deskWith 0)))
    (deskWith 0).mem (main stagedBuild (deskWith 0)).mem
  refine ⟨(hboth.1 staged_ordered (deskWith_run 0 (by decide +kernel)) hN).2 ⟨rfl, horderly⟩,
    hboth.2 hone (.load _ _ .none (fun _ _ => rfl) ⟨staged_ordered, fun _ => horderly, fun hnone => ?_⟩)⟩
  obtain ⟨i, hi, hNi⟩ := hN
  exact absurd hNi (hnone i hi)

/-- Entry 0 is free and entry 1 names the handler: a second one is installed. -/
theorem second_handler :
    (¬∀ (b : Build) (w w₁ : Ram), b.Ordered → (untilScan b).run w = .ok () w₁ →
        (∃ i < 11, hatName w.mem i = 0x4e) → Yields b w) ∧
      ¬∀ (b : Build) (w : Ram), b.Ordered → AtMostOne w.mem → AtMostOne (main b w).mem := by
  constructor
  · intro h
    have hy := h _ (deskWith 1) _ staged_ordered (deskWith_run 1 (by decide +kernel)) ⟨1, by decide, by decide +kernel⟩
    have hout : (main stagedBuild (deskWith 1)).report.outcome = outInstalled := by decide +kernel
    rcases hy.outcome with h | h <;> exact absurd (hout.symm.trans h) (by decide)
  · intro h
    have hone : AtMostOne (deskWith 1).mem := by
      rw [AtMostOne]
      decide +kernel
    have hfirst : hatName (main stagedBuild (deskWith 1)).mem 0 = 0x4e := by decide +kernel
    have hsecond : hatName (main stagedBuild (deskWith 1)).mem 1 = 0x4e := by decide +kernel
    exact absurd (h _ _ staged_ordered hone 0 (by decide) 1 (by decide) hfirst hsecond) (by decide)

end NioApps.Loader

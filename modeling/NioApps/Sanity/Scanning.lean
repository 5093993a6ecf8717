import NioApps.Sanity.Publishing

/-! The HATABS scan: the first entry that is free or names the handler decides. `_main`
is cut before it, and what follows a free entry neither owns nor refuses. -/

namespace NioApps.Loader

open Abort

/-! ### Before the scan -/

/-- `_main` down to the check of the payload. -/
def untilScan (b : Build) : Load Unit := do
  modify fun w => initResult (saveCallerZp w)
  if b.diskSource then
    modify fun w => { w with diskIocb := 0xff }
    if ← diskOpenHeader b then failFormat
  if ← validateWrapper b then failFormat

/-- `_main` from there to the call of `load_module`. -/
def scanAndPlace (b : Build) : Load Unit := do
  if wrongPayload b (← get) then failFormat
  if ← scanHatabs b then throw ()
  if ← calculateRanges b then failMemory

theorem failFormat_bind {α β : Type} (k : α → Load β) : (failFormat : Load α) >>= k = failFormat := rfl

theorem beforeLoad_eq (b : Build) : beforeLoad b = untilScan b >>= fun _ => scanAndPlace b := by
  simp only [beforeLoad, untilScan, scanAndPlace, bind_assoc, ite_bind, failFormat_bind, pure_bind]

/-- What holds before the payload is checked, in a run from `w`. -/
structure AtScan (b : Build) (w w' : Ram) : Prop where
  kept : Kept b w w'
  iocb : IocbOk b w'
  outcome : w'.report.outcome = outMemory
  oldMemlo : w'.report.oldMemlo = wordAt w.mem memlo

theorem validated_wp {b : Build} {w w₁ : Ram} (h : AtScan b w w₁) :
    wp (orLeave (validateWrapper b) failFormat (pure ())) (fun _ => AtScan b w) (LeftEarly b w) w₁ := by
  refine orLeave_wp (validateWrapper_wp b w₁) (fun w₂ hw₂ => ?_) fun w₂ hw₂ => ?_
  · obtain ⟨⟨z, rfl⟩, -⟩ := hw₂
    exact failFormat_wp (h.kept.update rfl rfl rfl rfl rfl)
  · obtain ⟨⟨z, rfl⟩, -⟩ := hw₂
    exact ⟨h.kept.update rfl rfl rfl rfl rfl, h.iocb, h.outcome, h.oldMemlo⟩

theorem untilScan_wp (b : Build) (w : Ram) : wp (untilScan b) (fun _ => AtScan b w) (LeftEarly b w) w := by
  refine wp_bind.2 (wp_modify.2 ?_)
  refine wp_ite (fun hd => wp_bind.2 (wp_modify.2 ?_)) fun hd => ?_
  · have hstart : Kept b w { initResult (saveCallerZp w) with diskIocb := 0xff } :=
      ⟨fun _ _ => rfl, ⟨[], (List.append_nil _).symm, by simp⟩, fun _ => .inr rfl, rfl, rfl⟩
    refine orLeave_wp (m := diskOpenHeader b) (f := failFormat)
      (k := orLeave (validateWrapper b) failFormat (pure ())) (diskOpenHeader_wp hd _) (fun w₁ h => ?_) fun w₁ h => ?_
    · exact failFormat_wp (h.1.kept hstart rfl fun _ => h.2.imp_right (·.2))
    · have hx : w₁.diskIocb ≤ 0x70 := h.2.elim id fun h => by cases h.1
      refine validated_wp ⟨h.1.kept hstart rfl fun _ => .inl hx, fun _ => hx, ?_, ?_⟩ <;> rw [h.1.same] <;> rfl
  · have hinit : Kept b w (initResult (saveCallerZp w)) :=
      ⟨fun _ _ => rfl, ⟨[], (List.append_nil _).symm, by simp⟩, fun hd' => absurd hd' hd, rfl, rfl⟩
    exact validated_wp ⟨hinit, fun hd' => absurd hd' hd, rfl, rfl⟩

/-! ### The scan -/

/-- The scan goes on over entries that are in use by others. -/
theorem scanLoop_skip {b : Build} {w : Ram} {k : ℕ} (hother : ∀ j < k, hatName w.mem j ≠ 0 ∧ hatName w.mem j ≠ 0x4e)
    {n i : ℕ} (hi : i ≤ k) (hn : i + n = 11) (hk : k ≤ 11) :
    scanLoop b n (BitVec.ofNat 8 (3 * i)) w = scanLoop b (11 - k) (BitVec.ofNat 8 (3 * k)) w := by
  induction n generalizing i with
  | zero =>
    obtain rfl : i = k := by omega
    rw [show 11 - i = 0 by omega]
  | succ n ih =>
    rcases hi.lt_or_eq with hlt | rfl
    · have hnext : BitVec.ofNat 8 (3 * i) + 3 = BitVec.ofNat 8 (3 * (i + 1)) := by
        rw [Nat.mul_add, BitVec.ofNat_add]
        rfl
      obtain ⟨h0, hN⟩ := hother i hlt
      simp only [scanLoop, scan_name (by omega : i < 11), if_neg h0, if_neg hN, hnext]
      exact ih hlt (by omega)
    · rw [show 11 - i = n + 1 by omega]

/-- The scan from the first entry that is free or names the handler. -/
theorem scanHatabs_skip (b : Build) {w v : Ram} {k : ℕ} (hv : v = { w with hatSlot := 0 }) (hk : k < 11)
    (hother : ∀ j < k, hatName w.mem j ≠ 0 ∧ hatName w.mem j ≠ 0x4e) :
    (scanHatabs b).run w =
      .ok (scanLoop b (10 - k + 1) (BitVec.ofNat 8 (3 * k)) v).1 (scanLoop b (10 - k + 1) (BitVec.ofNat 8 (3 * k)) v).2 := by
  have hmem : v.mem = w.mem := by rw [hv]
  have hskip : scanLoop b 11 (BitVec.ofNat 8 (3 * 0)) v = scanLoop b (11 - k) (BitVec.ofNat 8 (3 * k)) v :=
    scanLoop_skip (by rwa [hmem]) (Nat.zero_le k) rfl hk.le
  rw [show 11 - k = 10 - k + 1 by omega] at hskip
  rw [← hskip, hv]
  rfl

/-- An entry with the handler is reached before every free one. -/
theorem scanHatabs_found (b : Build) {w v : Ram} {k : ℕ} (hv : v = { w with hatSlot := 0 }) (hk : k < 11)
    (hN : hatName w.mem k = 0x4e) (hother : ∀ j < k, hatName w.mem j ≠ 0 ∧ hatName w.mem j ≠ 0x4e) :
    (scanHatabs b).run w = .ok true (scanExisting b (BitVec.ofNat 8 (3 * k)) v) := by
  have hmem : v.mem = w.mem := by rw [hv]
  rw [scanHatabs_skip b hv hk hother]
  simp only [scanLoop, scan_name hk, hmem, hN, if_neg (show (0x4e : Byte) ≠ 0 by decide), if_true]

/-- A free entry is reached before every one with the handler. -/
theorem scanHatabs_free (b : Build) {w v : Ram} {k : ℕ} (hv : v = { w with hatSlot := 0 }) (hk : k < 11)
    (h0 : hatName w.mem k = 0) (hother : ∀ j < k, hatName w.mem j ≠ 0 ∧ hatName w.mem j ≠ 0x4e) :
    (scanHatabs b).run w = .ok false { v with hatSlot := BitVec.ofNat 8 (3 * k) } := by
  have hmem : v.mem = w.mem := by rw [hv]
  rw [scanHatabs_skip b hv hk hother]
  simp only [scanLoop, scan_name hk, hmem, h0, if_true]

/-- Some entry names the handler, and no entry before it is free. -/
def Orderly (mem : Word → Byte) : Prop := ∃ i < 11, hatName mem i = 0x4e ∧ ∀ j < i, hatName mem j ≠ 0

/-- The first entry with the handler. -/
theorem Orderly.first {mem : Word → Byte} (h : Orderly mem) :
    ∃ k < 11, hatName mem k = 0x4e ∧ ∀ j < k, hatName mem j ≠ 0 ∧ hatName mem j ≠ 0x4e := by
  obtain ⟨i, hi, hN, hbefore⟩ := h
  classical
  have hex : ∃ k, hatName mem k = 0x4e := ⟨i, hN⟩
  have hle : Nat.find hex ≤ i := Nat.find_min' hex hN
  exact ⟨Nat.find hex, by omega, Nat.find_spec hex, fun j hj => ⟨hbefore j (by omega), Nat.find_min hex hj⟩⟩

/-- Otherwise a free entry comes first, if any entry names the handler. -/
theorem first_free {mem : Word → Byte} {i : ℕ} (hi : i < 11) (hN : hatName mem i = 0x4e) (h : ¬Orderly mem) :
    ∃ k < 11, hatName mem k = 0 ∧ ∀ j < k, hatName mem j ≠ 0 ∧ hatName mem j ≠ 0x4e := by
  classical
  have hex : ∃ k, hatName mem k = 0 := by
    by_contra hnone
    push Not at hnone
    exact h ⟨i, hi, hN, fun j _ => hnone j⟩
  have hfirst : Nat.find hex < i := by
    by_contra hge
    exact h ⟨i, hi, hN, fun j hj => Nat.find_min hex (by omega)⟩
  refine ⟨Nat.find hex, by omega, Nat.find_spec hex, fun j hj => ⟨Nat.find_min hex hj, fun hNj => h ?_⟩⟩
  exact ⟨j, by omega, hNj, fun l hl => Nat.find_min hex (by omega)⟩

/-- The run is at an entry that names the handler: it ends there. -/
theorem scanAndPlace_found {b : Build} {w v : Ram} {k : ℕ} (hv : v = { w with hatSlot := 0 }) (hk : k < 11)
    (hN : hatName w.mem k = 0x4e) (hother : ∀ j < k, hatName w.mem j ≠ 0 ∧ hatName w.mem j ≠ 0x4e)
    (hpayload : wrongPayload b w = false) :
    (scanAndPlace b).run w = .error () (scanExisting b (BitVec.ofNat 8 (3 * k)) v) := by
  simp only [scanAndPlace, EStateM.run_bind, EStateM.run_get, hpayload, Bool.false_eq_true, if_false,
    scanHatabs_found b hv hk hN hother, if_true]
  rfl

/-- Up to `load_module` the scan and the placement change registers only. -/
theorem scanAndPlace_scanned (b : Build) (w : Ram) : Scanned w (left ((scanAndPlace b).run w)) := by
  refine wp_left.1 (wp_bind.2 (wp_get.2 (wp_ite (fun _ => ⟨w.zp, _, w.hatSlot, rfl⟩) fun _ => ?_)))
  refine orLeave_wp (m := scanHatabs b) (f := throw ()) (scanHatabs_wp b w) (fun w₁ h => ?_) fun w₁ h => ?_
  · rcases h with ⟨hc, -⟩ | ⟨-, hscanned, -⟩
    · cases hc
    · exact hscanned
  · obtain ⟨x, rfl⟩ : ∃ x, w₁ = { w with hatSlot := x } := by
      rcases h with ⟨-, hx, -⟩ | ⟨hc, -⟩
      · exact hx
      · cases hc
    refine wp_bind.2 ((calculateRanges_wp b _).mono (fun c w₂ h => ?_) fun _ => False.elim)
    obtain ⟨⟨z, r, rfl, -⟩, -⟩ := h
    exact wp_ite (fun _ => ⟨z, _, x, rfl⟩) fun _ => ⟨z, r, x, rfl⟩

theorem body_eq (b : Build) :
    body b = untilScan b >>= fun _ => scanAndPlace b >>= fun _ => orLeave (loadModule b) failFormat (afterLoad b) := by
  rw [← bind_assoc, ← beforeLoad_eq]
  rfl

/-- What a run that ends in the scan leaves. -/
theorem AtScan.ended {b : Build} {w w₁ w' : Ram} (h : AtScan b w w₁) (hs : Scanned w₁ w') :
    (∃ es, (finish b w').log = w.log ++ es ∧ ∀ e ∈ es, ∃ c x p n, e = .cio c x p n) ∧
      ∀ a, ¬b.Scratch a → ¬a - 0x0340 < 0x80 → (b.sdxChild = true → ¬a - 0x06b0 < 40) → (finish b w').mem a = w.mem a := by
  have hkept := hs.kept h.kept
  obtain ⟨es, hes, hcio⟩ := hkept.log
  obtain ⟨fs, hfs, hcio'⟩ := finish_log b w'
  refine ⟨⟨es ++ fs, ?_, fun e he => (List.mem_append.1 he).elim (hcio e) (hcio' e)⟩, fun a hscratch hiocb hshare => ?_⟩
  · rw [hfs, hes, List.append_assoc]
  · rw [finish_other hkept.iocb hiocb hshare]
    exact hkept.mem a hscratch

/-- The outcome says nothing of an installed handler. -/
def Unowned (w : Ram) : Prop := w.report.outcome ≠ outOwn ∧ w.report.outcome ≠ outForeign

theorem Unowned.of_eq {w : Ram} {o : Byte} (h : w.report.outcome = o) (ho : o ≠ outOwn ∧ o ≠ outForeign) : Unowned w := by
  rwa [Unowned, h]

theorem Unowned.set (w : Ram) {o : Byte} (ho : o ≠ outOwn ∧ o ≠ outForeign) : Unowned (w.setOutcome o) := ho

theorem scanAndPlace_free {b : Build} {w : Ram} {k : ℕ} (hk : k < 11) (h0 : hatName w.mem k = 0)
    (hother : ∀ j < k, hatName w.mem j ≠ 0 ∧ hatName w.mem j ≠ 0x4e) (hout : w.report.outcome = outMemory) :
    wp (scanAndPlace b) (fun _ w' => w'.report.outcome = outMemory) Unowned w := by
  have hformat : Unowned (w.setOutcome outFormat) := .set w (by decide)
  refine wp_bind.2 (wp_get.2 (wp_ite (fun _ => hformat) fun _ => wp_bind.2 ?_))
  rw [wp_of_ok (scanHatabs_free b rfl hk h0 hother)]
  refine wp_bind.2 ((calculateRanges_wp b _).mono (fun c w₁ h => ?_) fun _ => False.elim)
  obtain ⟨⟨z, r, rfl, hr⟩, -⟩ := h
  exact wp_ite (fun _ => Unowned.set _ (show outMemory ≠ outOwn ∧ outMemory ≠ outForeign by decide)) fun _ => hr.trans hout

theorem loadAndFinish_wp {b : Build} {w : Ram} (hout : w.report.outcome = outMemory) :
    wp (orLeave (loadModule b) failFormat (afterLoad b)) (fun _ => Unowned) Unowned w := by
  have hload : wp (loadModule b) (fun _ _ => True) Unowned w := by
    have hsteady := loadModule_steady b w
    rw [wp]
    cases hrun : (loadModule b).run w with
    | ok c w' => trivial
    | error e w' =>
      rw [hrun] at hsteady
      rcases hsteady.outcome with h | h
      · exact .of_eq (h.trans hout) (by decide)
      · exact .of_eq h (by decide)
  refine orLeave_seq hload (fun w' _ => ?_) fun w' _ => ?_
  · exact Unowned.set w' (show outFormat ≠ outOwn ∧ outFormat ≠ outForeign by decide)
  · refine (afterLoad_wp b w').mono (fun _ w₁ h => .of_eq h.outcome (by decide)) fun w₁ h => ?_
    rcases h.outcome with h | h <;> exact .of_eq h (by decide)

/-- After a free entry nothing is reported of an installed handler. -/
theorem body_free {b : Build} {w w₁ : Ram} (hrun : (untilScan b).run w = .ok () w₁) (hout : w₁.report.outcome = outMemory)
    {k : ℕ} (hk : k < 11) (h0 : hatName w₁.mem k = 0) (hother : ∀ j < k, hatName w₁.mem j ≠ 0 ∧ hatName w₁.mem j ≠ 0x4e) :
    Unowned (left ((body b).run w)) := by
  rw [body_eq, run_bind_ok hrun]
  exact wp_left.1 ((scanAndPlace_free hk h0 hother hout).seq fun _ _ => loadAndFinish_wp)

end NioApps.Loader

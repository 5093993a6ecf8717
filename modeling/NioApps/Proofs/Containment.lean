import NioApps.Sanity.Scanning

/-! What is called and published against the allocation: the vectors are checked, the
offsets in the wrapper are not. -/

namespace NioApps.Loader

open Abort

/-- `load_module` was called in `w₁` and succeeded, leaving `w₂`. -/
def Returns (b : Build) (w w₁ w₂ : Ram) : Prop := (beforeLoad b).run w = .ok () w₁ ∧ (loadModule b).run w₁ = .ok false w₂

/-- The calls of a run are to `entry`. -/
def CallsOnly (entry : Word) (w w' : Ram) : Prop := ∃ es, w'.log = w.log ++ es ∧ ∀ a, Event.call a ∈ es → a = entry

section

variable {b : Build} {w w₁ w₂ w₃ : Ram} {entry : Word}

theorem CallsOnly.of_append {es : List Event} (hlog : w₁.log = w.log ++ es) (hes : ∀ a, Event.call a ∉ es) :
    CallsOnly entry w w₁ :=
  ⟨es, hlog, fun a ha => absurd ha (hes a)⟩

theorem CallsOnly.trans (h : CallsOnly entry w w₁) (h' : CallsOnly entry w₁ w₂) : CallsOnly entry w w₂ := by
  obtain ⟨es, hlog, hes⟩ := h
  obtain ⟨fs, hlog', hfs⟩ := h'
  exact ⟨es ++ fs, by rw [hlog', hlog, List.append_assoc], fun a ha => (List.mem_append.1 ha).elim (hes a) (hfs a)⟩

/-- CIO calls nothing, and neither does a store. -/
theorem CallsOnly.of_cio (h : ∃ es, w₁.log = w.log ++ es ∧ ∀ e ∈ es, ∃ c x p n, e = .cio c x p n) : CallsOnly entry w w₁ := by
  obtain ⟨es, hlog, hes⟩ := h
  refine .of_append hlog fun a ha => ?_
  obtain ⟨c, x, p, n, heq⟩ := hes _ ha
  cases heq

theorem Grows.callsOnly (h : Grows w w₁) : CallsOnly entry w w₁ := by
  obtain ⟨es, hlog, hes⟩ := h
  exact .of_append hlog fun a ha => hes _ ha

theorem Installed.callsOnly (h : Installed b w w₁) : CallsOnly (w.zp.basePtr + w.fnrEntry b) w w₁ := by
  obtain ⟨es, hlog, hes⟩ := h.log
  refine ⟨_, hlog, fun a ha => ?_⟩
  rcases List.mem_cons.1 ha with heq | ha
  · exact Event.call.inj heq
  · obtain ⟨p, heq⟩ := hes _ ha
    cases heq

theorem Declined.callsOnly (h : Declined b w w₁) : CallsOnly (w.zp.basePtr + w.fnrEntry b) w w₁ := by
  rcases h.way with ⟨-, hlog⟩ | ⟨-, hlog⟩
  · exact .of_append (hlog.trans (List.append_nil _).symm) (by simp)
  · exact ⟨_, hlog, fun a ha => Event.call.inj (List.mem_singleton.1 ha)⟩

/-- With one, the calls are to the entry, and on `INSTALLED` the marker and the vectors
have been checked. -/
structure Checked (b : Build) (w w₂ : Ram) : Prop where
  start : (main b w).report.start = w₂.report.start
  stop : (main b w).report.stop = w₂.report.stop
  calls : CallsOnly (w₂.report.start + w₂.fnrEntry b) w (main b w)
  marker : (main b w).report.outcome = outInstalled → markerAt b w₂.mem (w₂.report.start + w₂.fnrMarker b) = true
  vectors : (main b w).report.outcome = outInstalled → ∀ k < 6, ∃ v,
    v = BitVec.ofNat 16 (le [(main b w).report.vectors (2 * k), (main b w).report.vectors (2 * k + 1)]) + 1 ∧
      (main b w).report.start ≤ v ∧ v < (main b w).report.stop

theorem finish_calls (b : Build) (w : Ram) : CallsOnly entry w (finish b w) := .of_cio (finish_log b w)

theorem Returns.checked (h : Returns b w w₁ w₂) : Checked b w w₂ := by
  obtain ⟨hbefore, hload⟩ := h
  have hp := (beforeLoad_wp b w).ok hbefore
  have hsteady := loadModule_steady b w₁
  rw [hload, left_ok] at hsteady
  have hbase : w₂.zp.basePtr = w₂.report.start := by
    have hstart : w₂.report.start = w₁.report.start := congrArg Anchor.start hsteady.anchor
    rw [hstart, ← hp.ranges.basePtr]
    exact congrArg Prod.fst hsteady.base
  have hcalls : CallsOnly (w₂.report.start + w₂.fnrEntry b) w w₂ := .trans (.of_cio hp.kept.log) hsteady.log.callsOnly
  have hbody : (body b).run w = (afterLoad b).run w₂ := by
    rw [body, run_bind_ok hbefore, run_bind_ok hload]
    rfl
  have hmain : main b w = finish b (left ((afterLoad b).run w₂)) := by rw [main, hbody]
  have hreport : (main b w).report = (left ((afterLoad b).run w₂)).report := by rw [hmain, (finish_spec b _).1]
  have hfinish : CallsOnly (w₂.report.start + w₂.fnrEntry b) (left ((afterLoad b).run w₂)) (main b w) := by
    rw [hmain]
    exact finish_calls b _
  have hafter := afterLoad_wp b w₂
  rw [wp] at hafter
  cases hrun : (afterLoad b).run w₂ with
  | ok a w₃ =>
    rw [hrun] at hafter hreport hfinish
    rw [left_ok] at hreport hfinish
    have hcalled := hafter.callsOnly
    have hmarker := hafter.marker
    have hstart : w₃.report.start = w₂.report.start := congrArg Anchor.start hafter.anchor
    have hstop : w₃.report.stop = w₂.report.stop := congrArg Anchor.stop hafter.anchor
    rw [hbase] at hcalled hmarker
    refine ⟨by rw [hreport, hstart], by rw [hreport, hstop], (hcalls.trans hcalled).trans hfinish, fun _ => hmarker, fun _ => ?_⟩
    rw [hreport, hstart, hstop]
    exact hafter.vectors
  | error e w₃ =>
    rw [hrun] at hafter hreport hfinish
    rw [left_error] at hreport hfinish
    have hcalled := hafter.callsOnly
    rw [hbase] at hcalled
    have hout : (main b w).report.outcome ≠ outInstalled := by
      rw [hreport]
      intro hin
      rcases hafter.outcome with h | h <;> exact absurd (h.symm.trans hin) (by decide)
    exact ⟨by rw [hreport]; exact congrArg Anchor.start hafter.anchor, by rw [hreport]; exact congrArg Anchor.stop hafter.anchor,
      (hcalls.trans hcalled).trans hfinish, fun h => absurd h hout, fun h => absurd h hout⟩

end

/-- The carry with which a run ends, unless it is left. -/
def carry : EStateM.Result Unit Ram Bool → Option Bool
  | .ok c _ => some c
  | .error _ _ => none

end NioApps.Loader

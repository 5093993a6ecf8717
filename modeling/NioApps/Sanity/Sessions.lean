import NioApps.Sanity.Calls
import NioApps.Spec.Sessions

/-! A run of interleaved calls as one owner sees it: `OwnerRun` is the sequence
of its own calls, and `owner_run` the projection of any run onto them. -/

namespace NioApps.Resident

/-- The calls `ds` of one owner, none of them CLOSE, take its record and cached
bytes from `o` and `d` to `o'` and `d'`. -/
inductive OwnerRun : Owner → List Byte → List Done → Owner → List Byte → Prop
  | nil (o : Owner) (d : List Byte) : OwnerRun o d [] o d
  | snoc {o o₁ o₂ : Owner} {d d₁ d₂ : List Byte} {ds : List Done} {e : Done} (h : OwnerRun o d ds o₁ d₁)
      (hok : OwnerOk o₁) (hd : d₁.length = o₁.len.toNat) (hop : e.call.op ≠ .close)
      (hcall : OwnerCall e.call o₁ d₁ (exchanges e.events) (stores e.events) e.y e.a o₂ d₂)
      (hframes : wFrames e.events = (exchanges e.events).map Prod.fst) : OwnerRun o d (ds ++ [e]) o₂ d₂

theorem events_snoc (ds : List Done) (e : Done) : events (ds ++ [e]) = events ds ++ e.events := by simp [events]

theorem perform_call (c : Call) (w : Ram) : (perform c w).1.call = c := rfl

theorem callsOf_append (x : Byte) (ds es : List Done) : callsOf x (ds ++ es) = callsOf x ds ++ callsOf x es :=
  List.filter_append ..

theorem callsOf_own {x : Byte} {c : Call} {w : Ram} (h : c.x = x) :
    callsOf x [(perform c w).1] = [(perform c w).1] := by
  simp [callsOf, perform_call, h]

theorem callsOf_other {x : Byte} {c : Call} {w : Ram} (h : c.x ≠ x) : callsOf x [(perform c w).1] = [] := by
  simp [callsOf, perform_call, h]

/-- A call by the owner of slot `k`. -/
theorem Performed.own_call {c : Call} {w w' : Ram} {d : Done} (hperf : Performed c w d w') (h : TableOk w) {k : Slot}
    (hlive : (w.owners k).own ≠ 0xff) (hk : (w.owners k).own = c.x) :
    OwnerCall c (w.owners k) (cached k w) (exchanges d.events) (stores d.events) d.y d.a (w'.owners k)
        (cached k w') ∧
      wFrames d.events = (exchanges d.events).map Prod.fst := by
  cases hperf with
  | invalid hx => exact absurd (hk ▸ (h.index k).resolve_left hlive) hx
  | unopened _ hfree => exact absurd hk (hfree k)
  | failed _ hfree => exact absurd hk (hfree k)
  | opened _ _ hfree => exact absurd hk (hfree k)
  | ran hx j hj hcall hframes =>
    have hkj : k = j := h.distinct k j (hk.trans hj.symm) hlive
    subst hkj
    exact ⟨hcall, hframes⟩

/-- A call that is not for the owner of slot `k` leaves its record and cache half. -/
theorem Performed.isolated {c : Call} {w w' : Ram} {d : Done} (hperf : Performed c w d w') (h : TableOk w) {k : Slot}
    (hlive : (w.owners k).own ≠ 0xff) (hk : (w.owners k).own ≠ c.x) :
    w'.owners k = w.owners k ∧ ∀ i < 128, half k w' i = half k w i := by
  have hsame {w' : Ram} (hsame : Unchanged w w') : w'.owners k = w.owners k ∧ ∀ i < 128, half k w' i = half k w i :=
    ⟨by rw [hsame.1], fun i _ => by rw [half, half, hsame.2]⟩
  cases hperf with
  | invalid _ _ _ h | unopened _ _ _ _ h | failed _ _ _ h => exact hsame h
  | opened hop hx hfree j hj handle hmode hy howners hcaches =>
    have hne : k ≠ j := by
      rintro rfl
      have hfree' := (h.index k).resolve_left hlive
      revert hj hfree'
      generalize (w.owners k).own = x
      revert x
      decide
    exact ⟨by rw [howners, Function.update_of_ne hne], fun i _ => by rw [half, half, hcaches]⟩
  | ran hx j hj hcall hframes hother hhalf =>
    have hne : k ≠ j := by
      rintro rfl
      exact hk hj
    exact ⟨hother k hne, hhalf k hne⟩

theorem cached_congr {k : Slot} {w w' : Ram} (ho : w'.owners k = w.owners k)
    (hh : ∀ i < 128, half k w' i = half k w i) (hlen : (w.owners k).len.toNat ≤ 128) : cached k w' = cached k w := by
  rw [cached, cached, ho]
  exact slice_congr fun j hj => hh _ (by omega)

/-- Any run of calls, seen by the owner of slot `k` until it is closed. -/
theorem owner_run {w : Ram} (h : TableOk w) {k : Slot} {x : Byte} (hx : x ≠ 0xff) (hk : (w.owners k).own = x)
    (calls : List Call) (hlife : ∀ c ∈ calls, c.x = x → c.op ≠ .close) :
    TableOk (handler.final w calls) ∧ ((handler.final w calls).owners k).own = x ∧
      OwnerRun (w.owners k) (cached k w) (callsOf x (handler.outputs w calls)) ((handler.final w calls).owners k)
        (cached k (handler.final w calls)) := by
  induction calls using List.reverseRecOn with
  | nil => exact ⟨h, hk, .nil _ _⟩
  | append_singleton calls c ih =>
    obtain ⟨hw, hown, hrun⟩ := ih fun c hc => hlife c (List.mem_append_left _ hc)
    rw [handler.final_append, handler.outputs_append]
    generalize handler.final w calls = w₁ at *
    have hlive : (w₁.owners k).own ≠ 0xff := hown ▸ hx
    obtain ⟨hperf, hbusy⟩ := perform_spec c hw
    have hw' := hperf.tableOk hw hbusy
    change TableOk (perform c w₁).2 ∧ ((perform c w₁).2.owners k).own = x ∧ OwnerRun (w.owners k) (cached k w)
      (callsOf x (handler.outputs w calls ++ [(perform c w₁).1])) ((perform c w₁).2.owners k)
      (cached k (perform c w₁).2)
    by_cases hc : c.x = x
    · have hop : c.op ≠ .close := hlife c (by simp) hc
      obtain ⟨hown', hframes⟩ := hperf.own_call hw hlive (hown.trans hc.symm)
      have hkeep := (hown'.ok (length_cached k w₁) (hw.live k hlive)).2
      rw [if_neg hop, hown] at hkeep
      rw [callsOf_append, callsOf_own hc]
      exact ⟨hw', hkeep, hrun.snoc (hw.live k hlive) (length_cached k w₁) hop hown' hframes⟩
    · obtain ⟨howner, hhalf⟩ := hperf.isolated hw hlive (hown ▸ Ne.symm hc)
      rw [callsOf_append, callsOf_other hc, List.append_nil, howner, cached_congr howner hhalf (hw.live k hlive).len]
      exact ⟨hw', hown, hrun⟩

/-- The record OPEN leaves, and the run from it. -/
theorem Opens.owner_run {before : List Call} {o : Call} (hopen : Opens before o) (calls : List Call)
    (hlife : ∀ c ∈ calls, c.x = o.x → c.op ≠ .close) :
    ∃ k handle, TableOk (handler.final (after (before ++ [o])) calls) ∧
      ((handler.final (after (before ++ [o])) calls).owners k).own = o.x ∧ o.x ≠ 0xff ∧
      OwnerRun (openedOwner o.x o.mode handle) [] (lifetime before o calls)
        ((handler.final (after (before ++ [o])) calls).owners k)
        (cached k (handler.final (after (before ++ [o])) calls)) := by
  have hw := after_tableOk before
  obtain ⟨hperf, hbusy⟩ := perform_spec o hw
  have hw' := hperf.tableOk hw hbusy
  have hafter : after (before ++ [o]) = (perform o (after before)).2 := handler.final_append ..
  have hone := hopen.ok
  have hop := hopen.op
  rw [lifetime, hafter]
  generalize (perform o (after before)).1 = d at *
  generalize (perform o (after before)).2 = w at *
  cases hperf with
  | invalid hx hy => exact absurd (hone.symm.trans hy) (by decide)
  | unopened hne => exact absurd hop hne
  | failed _ _ hy => exact absurd hone hy
  | opened _ hx hfree k hk handle hmode hy howners hcaches =>
    have howner : w.owners k = openedOwner o.x o.mode handle := by rw [howners, Function.update_self]; rfl
    have hcached : cached k w = [] := cached_eq_nil.2 (by rw [howner]; rfl)
    have hff := invalid_of_ff hx
    obtain ⟨htable, hown, hrun⟩ := Resident.owner_run hw' hff (k := k) (by rw [howner]; rfl) calls hlife
    rw [howner, hcached] at hrun
    exact ⟨k, handle, htable, hown, hff, hrun⟩
  | ran hx k hk hcall => exact absurd (hone.symm.trans (hcall.open_result hop).1) (by decide)

/-- The calls `ds` of one owner, the last of which may be its CLOSE. -/
inductive Lifetime (o : Owner) (d : List Byte) : List Done → Owner → List Byte → Prop
  | live {ds : List Done} {o' : Owner} {d' : List Byte} (h : OwnerRun o d ds o' d') : Lifetime o d ds o' d'
  | closed {ds : List Done} {e : Done} {o₁ o' : Owner} {d₁ d' : List Byte} (h : OwnerRun o d ds o₁ d₁)
      (hok : OwnerOk o₁) (hd : d₁.length = o₁.len.toNat) (hop : e.call.op = .close)
      (hcall : OwnerCall e.call o₁ d₁ (exchanges e.events) (stores e.events) e.y e.a o' d')
      (hframes : wFrames e.events = (exchanges e.events).map Prod.fst) : Lifetime o d (ds ++ [e]) o' d'

theorem Opens.lifetime {before : List Call} {o : Call} (hopen : Opens before o) {calls : List Call}
    (hlife : ∀ c ∈ calls.dropLast, c.x = o.x → c.op ≠ .close) :
    ∃ handle o' d', Lifetime (openedOwner o.x o.mode handle) [] (lifetime before o calls) o' d' := by
  by_cases hlast : ∀ c ∈ calls, c.x = o.x → c.op ≠ .close
  · obtain ⟨k, handle, -, -, -, hrun⟩ := hopen.owner_run calls hlast
    exact ⟨handle, _, _, .live hrun⟩
  · rcases List.eq_nil_or_concat calls with rfl | ⟨cs, c, rfl⟩
    · exact absurd (by simp) hlast
    · rw [List.concat_eq_append, List.dropLast_concat] at hlife
      have hc : c.x = o.x ∧ c.op = .close := by
        by_contra hc
        refine hlast fun c' hc' hx hop => ?_
        rw [List.concat_eq_append, List.mem_append, List.mem_singleton] at hc'
        rcases hc' with hc' | rfl
        · exact hlife c' hc' hx hop
        · exact hc ⟨hx, hop⟩
      obtain ⟨k, handle, hw, hown, hff, hrun⟩ := hopen.owner_run cs hlife
      have hsplit : Resident.lifetime before o (cs.concat c) =
          Resident.lifetime before o cs ++ [(perform c (handler.final (after (before ++ [o])) cs)).1] := by
        rw [List.concat_eq_append, Resident.lifetime, Resident.lifetime, handler.outputs_append, callsOf_append]
        exact congrArg _ (callsOf_own hc.1)
      rw [hsplit]
      generalize handler.final (after (before ++ [o])) cs = w at *
      obtain ⟨hperf, hbusy⟩ := perform_spec c hw
      have hlive : (w.owners k).own ≠ 0xff := hown ▸ hff
      obtain ⟨hown', hframes⟩ := hperf.own_call hw hlive (hown.trans hc.1.symm)
      exact ⟨handle, _, _, .closed hrun (hw.live k hlive) (length_cached k w) hc.2 hown' hframes⟩

/-! ### W frames -/

theorem frames_snoc {ds : List Done} {e : Done} (h : wFrames (events ds) = (exchanges (events ds)).map Prod.fst)
    (he : wFrames e.events = (exchanges e.events).map Prod.fst) :
    wFrames (events (ds ++ [e])) = (exchanges (events (ds ++ [e]))).map Prod.fst := by
  rw [events_snoc, wFrames_append, exchanges_append, List.map_append, h, he]

theorem OwnerRun.frames {o o' : Owner} {d d' : List Byte} {ds : List Done} (h : OwnerRun o d ds o' d') :
    wFrames (events ds) = (exchanges (events ds)).map Prod.fst := by
  induction h with
  | nil => rfl
  | snoc h hok hd hop hcall hframes ih => exact frames_snoc ih hframes

/-- The W frames of an owner are those of its exchanges. -/
theorem Lifetime.frames {o o' : Owner} {d d' : List Byte} {ds : List Done} (h : Lifetime o d ds o' d') :
    wFrames (events ds) = (exchanges (events ds)).map Prod.fst := by
  cases h with
  | live h => exact h.frames
  | closed h hok hd hop hcall hframes => exact frames_snoc h.frames hframes

end NioApps.Resident

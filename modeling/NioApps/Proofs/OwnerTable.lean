import NioApps.Sanity.Prompt
import NioApps.Sanity.Sessions

/-! The owner table over whole runs: what holds of the two records in every
state reached from the module entry, and what one more call may touch. -/

namespace NioApps.Resident

/-- Slot `k` is in use. -/
def Live (w : Ram) (k : Slot) : Prop := (w.owners k).own ≠ 0xff

theorem owner_index {x : Byte} (h : x &&& 0x8f = 0) : x.toNat % 16 = 0 ∧ x.toNat ≤ 0x70 := by
  revert x
  decide

/-- A slot comes into use only through an OPEN that returns 1. -/
theorem Performed.claims {c : Call} {w w' : Ram} {d : Done} (hperf : Performed c w d w') {k : Slot}
    (hfree : ¬Live w k) (hlive : Live w' k) : c.op = .openIocb ∧ d.y = 1 ∧ (w'.owners k).own = c.x := by
  cases hperf with
  | invalid _ _ _ h | unopened _ _ _ _ h | failed _ _ _ h =>
    rw [Live, h.1] at hlive
    exact absurd hlive hfree
  | opened hop hx _ j hj handle hmode hy howners hcaches =>
    by_cases hkj : k = j
    · subst hkj
      exact ⟨hop, hy, by rw [howners, Function.update_self]; rfl⟩
    · rw [Live, howners, Function.update_of_ne hkj] at hlive
      exact absurd hlive hfree
  | ran hx j hj hcall hframes hother hhalf =>
    by_cases hkj : k = j
    · subst hkj
      exact absurd hj fun hk => invalid_of_ff hx (hk ▸ not_not.1 hfree)
    · rw [Live, hother k hkj] at hlive
      exact absurd hlive hfree

/-- OPEN that does not return 1 leaves both records. -/
theorem Performed.open_failed {c : Call} {w w' : Ram} {d : Done} (hperf : Performed c w d w')
    (hop : c.op = .openIocb) (hy : d.y ≠ 1) : w'.owners = w.owners := by
  cases hperf with
  | invalid _ _ _ h | unopened _ _ _ _ h | failed _ _ _ h => exact h.1
  | opened _ _ _ _ _ _ _ hok => exact absurd hok hy
  | ran hx k hk hcall hframes hother =>
    funext j
    by_cases hj : j = k
    · rw [hj, (hcall.open_result hop).2]
    · exact hother j hj

/-- CLOSE of a live owner frees its slot. -/
theorem Performed.close_frees {c : Call} {w w' : Ram} {d : Done} (hperf : Performed c w d w') (h : TableOk w)
    (hop : c.op = .close) {k : Slot} (hlive : Live w k) (hk : (w.owners k).own = c.x) : ¬Live w' k := by
  cases hperf with
  | invalid hx => exact absurd (hk ▸ (h.index k).resolve_left hlive) hx
  | unopened _ hfree => exact absurd hk (hfree k)
  | failed hne => exact absurd (hop.symm.trans hne) (by decide)
  | opened hne => exact absurd (hop.symm.trans hne) (by decide)
  | ran hx j hj hcall =>
    have hkj : k = j := h.distinct k j (hk.trans hj.symm) hlive
    subst hkj
    obtain ⟨-, hown⟩ := hcall.ok (length_cached k w) (h.live k hlive)
    rw [if_pos hop] at hown
    exact not_not.2 hown

/-- The owner table in every state reached, and what one more call does to it:
indices, the bounds on LEN and POS, isolation of the other owner, and when a slot
is claimed and freed. -/
theorem owner_table (calls : List Call) (c : Call) :
    let w := after calls
    let w' := (perform c w).2
    let y := (perform c w).1.y
    (∀ k, Live w k → (w.owners k).own.toNat % 16 = 0 ∧ (w.owners k).own.toNat ≤ 0x70) ∧
    (∀ j k, Live w j → Live w k → (w.owners j).own = (w.owners k).own → j = k) ∧
    (∀ k, Live w k → (w.owners k).pos ≤ (w.owners k).len ∧ (w.owners k).len ≤ 128 ∧
      ((w.owners k).mode ≠ 4 → (w.owners k).reading = 0 → (w.owners k).fault = 0 → (w.owners k).committed = 0 →
        (w.owners k).len ≤ 127)) ∧
    (∀ k, Live w k → (w.owners k).own ≠ c.x →
      w'.owners k = w.owners k ∧ ∀ i < 128, half k w' i = half k w i) ∧
    (∀ k, ¬Live w k → Live w' k → c.op = .openIocb ∧ y = 1 ∧ (w'.owners k).own = c.x) ∧
    (c.op = .openIocb → y ≠ 1 → w'.owners = w.owners) ∧
    (c.op = .close → ∀ k, Live w k → (w.owners k).own = c.x → ¬Live w' k) := by
  intro w w' y
  have h : TableOk w := after_tableOk calls
  obtain ⟨hperf, -⟩ := perform_spec c h
  refine ⟨fun k hk => owner_index ((h.index k).resolve_left hk), fun j k hj _ heq => h.distinct j k heq hj,
    fun k hk => ?_, fun k => hperf.isolated h, fun k => hperf.claims, hperf.open_failed,
    fun hop k => hperf.close_frees h hop⟩
  exact ⟨(h.live k hk).pos, (h.live k hk).len, fun hm _ hf hc => (h.live k hk).output hm hf hc⟩

/-- A channel with a byte to write holds a slot, and its CLOSE frees it. -/
theorem owner_table_channel :
    let w := after [channelOpen 8, channelCall .put 8 0x41 []]
    ∃ k, Live w k ∧ (w.owners k).len = 1 ∧ (w.owners k).own.toNat ≤ 0x70 ∧
      ¬Live (perform (channelCall .close 8 0 []) w).2 k := by
  obtain ⟨hindex, -, -, -, -, -, hclose⟩ := owner_table [channelOpen 8, channelCall .put 8 0x41 []] (channelCall .close 8 0 [])
  have hlive : Live (after [channelOpen 8, channelCall .put 8 0x41 []]) .x16 := by
    unfold Live
    decide +kernel
  exact ⟨.x16, hlive, by decide +kernel, (hindex .x16 hlive).2, hclose rfl .x16 hlive (by decide +kernel)⟩

end NioApps.Resident

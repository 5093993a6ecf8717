import NioApps.Spec.Staging

/-! `validate_name` refuses a `..` that another component follows, and no other: what it
accepts leads out of the staging directory only through a `..` at its end. -/

namespace NioApps.Staging

open Paths

/-- The name has a component other than `.`, and at least two of them before a `..` at its end. -/
def StaysInside (name : Str) : Prop :=
  let c := components '/' ['.'] (slashes name)
  c ≠ [] ∧ (c.getLast? = some ['.', '.'] → 3 ≤ c.length)

section Program

variable {reprOf : Str → Str}

/-- The prefix and the substring that `validate_name` looks for are one substring of `/` and the name. -/
theorem dotdot_infix_iff (n : Str) :
    ['.', '.', '/'] <+: n ∨ ['/', '.', '.', '/'] <:+: n ↔ ['.', '.'] ∈ (pieces '/' n).dropLast := by
  have hfree : '/' ∉ ['.', '.'] := by decide
  rw [← infix_iff hfree n, List.infix_cons_iff, List.cons_append, List.cons_prefix_cons]
  simp

theorem validateName_ok {name n : Str} (h : validateName reprOf name = .ok n) :
    n = strip '/' (slashes name) ∧ ['.', '.'] ∉ (pieces '/' n).dropLast := by
  unfold validateName at h
  dsimp only at h
  split at h
  · cases h
  · rename_i hgood
    cases h
    rw [not_or, dotdot_infix_iff] at hgood
    exact ⟨rfl, hgood.2⟩

theorem join_strip (stage : Path) (s : Str) : stage.join (strip '/' s) = stage ++ components '/' ['.'] s := by
  unfold Path.join
  rw [if_neg (head?_strip s), components_strip]

theorem resolve_append (p q : Path) : Path.resolve (p ++ q) = walk ['.', '.'] p.resolve q := walk_append [] p q

theorem joined_below_iff {name n : Str} (h : validateName reprOf name = .ok n) (stage : Path) :
    Below stage.resolve (stage.join n).resolve ↔ StaysInside name := by
  obtain ⟨rfl, hgood⟩ := validateName_ok h
  have hlast : ['.', '.'] ∉ (components '/' ['.'] (slashes name)).dropLast := by
    intro hmem
    rw [← components_strip] at hmem
    exact hgood (mem_dropLast_pieces hmem)
  rw [join_strip, resolve_append]
  exact walk_below_iff stage.resolve hlast

end Program

section Runs

variable {σ : Type} {host : Host σ} {reprOf : Str → Str} {stage : Path}

/-- Every copy is of an entry, under the name that was accepted. -/
def FromEntries (reprOf : Str → Str) (stage : Path) (entries : List AppEntry) (r : Run σ) : Prop :=
  ∀ c ∈ r.copies, ∃ e ∈ entries, ∃ n, validateName reprOf e.name = .ok n ∧ c = ⟨e.src, stage.join n⟩

theorem FromEntries.copies {entries : List AppEntry} {r r' : Run σ} (h : FromEntries reprOf stage entries r)
    (heq : r'.copies = r.copies) : FromEntries reprOf stage entries r' := by
  unfold FromEntries
  rw [heq]
  exact h

variable (host)

theorem stageEntry_from {entries : List AppEntry} {entry : AppEntry} (hentry : entry ∈ entries) {r : Run σ}
    (h : FromEntries reprOf stage entries r) : FromEntries reprOf stage entries (stageEntry host reprOf stage entry r).2 := by
  unfold stageEntry
  split
  · exact h
  · rename_i n hn
    dsimp only
    have hcopied : ∀ r' : Run σ, r'.copies = r.copies ++ [⟨entry.src, stage.join n⟩] → FromEntries reprOf stage entries r' := by
      intro r' hr' c hc
      rw [hr', List.mem_append, List.mem_singleton] at hc
      rcases hc with hc | hc
      · exact h c hc
      · exact ⟨entry, hentry, n, hn, hc⟩
    split_ifs
    · exact h
    · exact h.copies rfl
    · split
      · exact h.copies rfl
      · split
        · exact hcopied _ rfl
        · exact hcopied _ rfl

theorem stageEntries_from (all entries : List AppEntry) (hall : entries ⊆ all) (r : Run σ)
    (h : FromEntries reprOf stage all r) : FromEntries reprOf stage all (stageEntries host reprOf stage entries r).2 := by
  induction entries generalizing r with
  | nil => exact h
  | cons entry entries ih =>
    rw [List.cons_subset] at hall
    have hstep := stageEntry_from host hall.1 h
    unfold stageEntries
    split
    · rename_i hr
      rw [hr] at hstep
      exact hstep
    · rename_i hr
      rw [hr] at hstep
      exact ih hall.2 _ hstep

theorem stageManifest_from (manifest : Path) (entries : List AppEntry) (os : σ) :
    FromEntries reprOf stage entries (stageManifest host reprOf manifest entries stage os).2 := by
  have hstart : FromEntries reprOf stage entries (⟨os, [], 0, [], []⟩ : Run σ) := by
    intro c hc
    cases hc
  have hloop := stageEntries_from host entries entries (List.Subset.refl _) _ hstart
  unfold stageManifest
  split
  · rename_i hr
    rw [hr] at hloop
    exact hloop
  · rename_i r hr
    rw [hr] at hloop
    have hprinted : ∀ r' : Run σ, r'.copies = r.copies → FromEntries reprOf stage entries r' := fun r' => hloop.copies
    dsimp only
    split_ifs
    all_goals exact hprinted _ rfl

end Runs

theorem manifest_names {σ : Type} (host : Host σ) (reprOf : Str → Str) (stage : Path) :
    (∀ name n, validateName reprOf name = .ok n → (Below stage.resolve (stage.join n).resolve ↔ StaysInside name)) ∧
      ∀ manifest entries os, ∀ c ∈ (stageManifest host reprOf manifest entries stage os).2.copies,
        ∃ e ∈ entries, ∃ n, validateName reprOf e.name = .ok n ∧ c = ⟨e.src, stage.join n⟩ ∧
          (Below stage.resolve c.dest.resolve ↔ StaysInside e.name) := by
  refine ⟨fun name n hn => joined_below_iff hn stage, ?_⟩
  intro manifest entries os c hc
  obtain ⟨e, he, n, hn, rfl⟩ := stageManifest_from host manifest entries os c hc
  exact ⟨e, he, n, hn, rfl, joined_below_iff hn stage⟩

/-- A file `app`, and a staging directory with one other file. -/
def oneFile : Host ℕ where
  isFile _ p := p = ["app".toList]
  mkdir n _ := (.ok (), n)
  copy2 n _ _ := (.ok (), n + 1)

/-- Two components, one of them with dots. -/
theorem manifest_names_nested :
    let stage : Path := ["build".toList, "stage".toList]
    let app : AppEntry := ⟨["app".toList], "/bin\\..x/".toList, true⟩
    let copies := (stageManifest oneFile id ["m".toList] [app] stage 0).2.copies
    copies = [⟨app.src, stage ++ ["bin".toList, "..x".toList]⟩] ∧
      (Below stage.resolve (stage.join "bin/..x".toList).resolve ↔ StaysInside app.name) ∧
      ∀ c ∈ copies, ∃ e ∈ [app], ∃ n, validateName id e.name = .ok n ∧ c = ⟨e.src, stage.join n⟩ ∧
        (Below stage.resolve c.dest.resolve ↔ StaysInside e.name) := by
  intro stage app copies
  have h := manifest_names oneFile id stage
  exact ⟨by decide, h.1 app.name _ (by decide), h.2 _ [app] 0⟩

/-- The slashes are stripped before `../` is looked for; the file goes beside the staging
directory, and over it for a single `.` or for `a/..`. -/
theorem parent_passes :
    let stage : Path := ["build".toList, "stage".toList]
    let dests name := ((stageManifest oneFile id ["m".toList] [⟨["app".toList], name, true⟩] stage 0).2.copies.map
      fun c => c.dest.resolve)
    validateName id "../".toList = .ok "..".toList ∧ dests "../".toList = [["build".toList]] ∧
      dests ".".toList = [stage] ∧ dests "a\\..".toList = [stage] ∧
      ¬∀ (stage : Path) (name n : Str), validateName id name = .ok n → Below stage.resolve (stage.join n).resolve := by
  intro stage dests
  refine ⟨by decide, by decide, by decide, by decide, ?_⟩
  intro h
  obtain ⟨hpre, -⟩ := h stage "../".toList "..".toList (by decide)
  exact absurd hpre (by decide)

end NioApps.Staging
